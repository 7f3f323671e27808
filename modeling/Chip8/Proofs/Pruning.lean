import Chip8.Proofs.Lagging
import Mathlib.Data.List.Forall2

/-!
# Nobody notices when the dead are taken off the list

Two boards on which the same is done may differ in when they take the registrations of dead devices
off the list: at the moment of death, or when the next dispatch sets out. They give the same
answers, tell the same listeners of the same keys, and look the same at every moment, also while
presses are under way. Only what the journal says of tickets that nobody holds may differ.

* `Board.LooksLike`: what can be seen of two boards is the same.
* `Board.Courses`, `Board.Abreast`: courses of actions on two boards side by side, and the moments
  of two runs.
* `respondAlike_hearing`: scripts do the same on both boards, however deeply they nest.
* `Abreast.lags`: at every moment one board lags behind the other.
* `pruning_unnoticed`: what this means for runs.
-/

namespace Chip8.Board

/-- What can be seen of two boards is the same, but for what the journal says of tickets that nobody
    holds. -/
structure LooksLike (b c : Board) : Prop where
  held : c.held = b.held
  /-- The devices are the same, machines with all their state, and so is who keeps them alive. -/
  outlets : c.outlets = b.outlets
  listenerCount : c.listenerCount = b.listenerCount
  /-- The same listeners hear a key that is pressed now. -/
  audience : c.audience = b.audience
  /-- The next ticket is the same. -/
  next : c.registry.next = b.registry.next
  dispatches : c.dispatches = b.dispatches
  /-- The same happened: keys went down and up, listeners were called or left out, scripts got
      answers, and so on. -/
  history : (c.history.filter fun event => !event.isStray) =
    b.history.filter fun event => !event.isStray

/-- What courses of actions lead to on two boards, if the same actions are carried out on both.
    Meanwhile listeners respond to keys in the same way on both. -/
inductive Courses : Board → Board → Board → Board → Prop where
  /-- No action is carried out. -/
  | stay (b c : Board) : Courses b c b c
  /-- One more action is carried out. -/
  | act {b c b' c' : Board} {play play' : Play}
      (hplay : ∀ slot script d e, Lags d e → Courses d e (play slot script d) (play' slot script e))
      (action : Action) (h : Courses b c b' c') :
      Courses b c (b'.perform play action).2 (c'.perform play' action).2
  /-- A note is made. -/
  | note {b c b' c' : Board} {event : Event} (hnote : event.IsNote) (h : Courses b c b' c') :
      Courses b c (b'.tell event) (c'.tell event)

/-- Whether listeners respond by the same actions to boards that differ in the registrations of the
    dead only. -/
def RespondAlike (play play' : Play) : Prop :=
  ∀ slot script d e, Lags d e → Courses d e (play slot script d) (play' slot script e)

/-- The moments of two runs side by side. The registrations of the dead are taken off the list when
    the next dispatch sets out in the first one, and at once in the second one. -/
inductive Abreast : Board → Board → Prop where
  /-- Both runs begin. -/
  | start : Abreast (empty .atDispatch) (empty .atDeath)
  /-- Some actions later. -/
  | course {b c b' c' : Board} (h : Abreast b c) (hc : Courses b c b' c') : Abreast b' c'
  /-- A device is held on to and busy, because somebody uses it. -/
  | borrow {b c : Board} {slot : Slot} (h : Abreast b c)
      (hplugged : (b.plugged? slot).isSome = true) :
      Abreast ((b.hold slot).setBusy slot true) ((c.hold slot).setBusy slot true)
  /-- A listener begins to respond to the press of a key that was up, after the turns of others. -/
  | response {b c : Board} {play play' : Play} {key : UInt8} {before : List Slot} {slot : Slot}
      {script : List Action} (h : Abreast b c) (hplay : RespondAlike play play')
      (played : b.Plays play key before slot script) :
      Abreast (b.atResponse play key before slot) (c.atResponse play' key before slot)

variable {b c b' c' : Board} {play play' : Play}

theorem Lags.looksLike (h : Lags b c) : b.LooksLike c where
  held := h.held
  outlets := h.outlets
  listenerCount := h.listenerCount_eq
  audience := h.audience_eq
  next := by
    rw [h.registry]
    rfl
  dispatches := h.dispatches
  history := h.history

/-! ## Side by side -/

theorem Courses.lags (h : Courses b c b' c') (hb : Lags b c) : Lags b' c' := by
  induction h with
  | stay b c => exact hb
  | act _ action _ ihplay ih =>
    have alike : PlaysAlike _ _ := fun slot script d e hd => ihplay slot script d e hd hd
    exact ((ih hb).perform alike action).2
  | note _ _ ih => exact (ih hb).tell _

theorem RespondAlike.playsAlike (h : RespondAlike play play') : PlaysAlike play play' :=
  fun slot script d e hd => (h slot script d e hd).lags hd

/-- At every moment, one board lags behind the other. -/
theorem Abreast.lags (h : Abreast b c) : Lags b c := by
  induction h with
  | start => exact lags_empty
  | course _ hc ih => exact hc.lags ih
  | borrow _ hplugged ih => exact (ih.hold (isAlive_of_plugged? hplugged)).setBusy _ true
  | @response b c _ _ key before slot _ _ hplay _ ih =>
    have turns := ih.atTurn hplay.playsAlike key before
    unfold atResponse
    rw [ih.dispatches]
    exact (turns.tell _).setBusy slot true

/-- Scripts respond alike, however deeply they nest: they get the same answers, and tell of them. -/
theorem respondAlike_hearing (depth : ℕ) : RespondAlike (hearing depth) (hearing depth) := by
  induction depth with
  | zero => exact fun slot script d e _ => .note trivial (.stay d e)
  | succ depth ih =>
    intro slot script d e hd
    have playing (rest : List Action) {d' e' : Board} (h : Courses d e d' e') :
        Courses d e (rest.foldl (performNoted (hearing depth) slot) d')
          (rest.foldl (performNoted (hearing depth) slot) e') := by
      induction rest generalizing d' e' with
      | nil => exact h
      | cons action rest ih' =>
        have answer := ((h.lags hd).perform ih.playsAlike action).1
        have noted : Courses d e (d'.performNoted (hearing depth) slot action)
            (e'.performNoted (hearing depth) slot action) := by
          unfold performNoted
          simp only [answer]
          exact .note trivial (.act ih action h)
        exact ih' noted
    exact playing script (.stay d e)

/-- So two runs of the same actions are abreast all the time and get the same answers. -/
theorem Abreast.moments (h : Abreast b c) (depth : ℕ) (actions : List Action) :
    List.Forall₂ (fun late prompt => prompt.1 = late.1 ∧ Abreast late.2 prompt.2)
      (b.moments depth actions) (c.moments depth actions) := by
  induction actions generalizing b c with
  | nil => exact .nil
  | cons action rest ih =>
    have hplay := respondAlike_hearing depth
    have answer := (h.lags.perform hplay.playsAlike action).1
    have next : Abreast (b.act depth action).2 (c.act depth action).2 :=
      h.course (.act hplay action (.stay b c))
    exact .cons ⟨answer, next⟩ (ih next)

/-- **Main theorem.** Whether the dead are taken off the list at once or when the next dispatch sets
    out, a run gives the same answers, and boards that look the same. The boards do so at every
    moment, also while presses are under way and whatever the listeners do then, and give the same
    answer to whatever is done next. -/
theorem pruning_unnoticed (actions : List Action) :
    List.Forall₂ (fun late prompt => prompt.1 = late.1 ∧ late.2.LooksLike prompt.2)
        (run .atDispatch actions) (run .atDeath actions) ∧
      ∀ b c, Abreast b c → b.LooksLike c ∧
        ∀ play play', RespondAlike play play' → ∀ action,
          (c.perform play' action).1 = (b.perform play action).1 := by
  constructor
  · refine (Abreast.start.moments (nesting actions) actions).imp fun late prompt h => ?_
    exact ⟨h.1, h.2.lags.looksLike⟩
  · intro b c h
    refine ⟨h.lags.looksLike, fun play play' hplay action => ?_⟩
    exact (h.lags.perform hplay.playsAlike action).1

/-- A listener drops another one while both are told of a key. Then the ticket of the dead one is
    given back. -/
def fading : List Action :=
  [.plugScript [.unplug 1, .askCount], .plugScript [], .add 0, .add 1, .press 5, .askCount,
    .remove ⟨1⟩]

theorem pruning_unnoticed_of_fading :
    ((run .atDispatch fading).map fun moment => moment.2.registry.entries.length) =
        [0, 0, 1, 2, 2, 2, 1] ∧
      ((run .atDeath fading).map fun moment => moment.2.registry.entries.length) =
        [0, 0, 1, 2, 1, 1, 1] ∧
      List.Forall₂ (fun late prompt => prompt.1 = late.1 ∧ late.2.LooksLike prompt.2)
        (run .atDispatch fading) (run .atDeath fading) :=
  ⟨rfl, rfl, (pruning_unnoticed fading).1⟩

end Chip8.Board
