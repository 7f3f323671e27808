import Chip8.Proofs.FreeSlots
import Mathlib.Data.List.Perm.Subperm

/-!
# Every press ends

Scripts may press keys, release them and press them again, and register listeners that press in
turn. Still every press ends: a listener that plays is busy, and so is left out by all dispatches
that its script brings about. So scripts nest at most as deeply as there are slots to be registered,
and how they are played does not depend on how deeply they may nest.

* `Board.Unlimited`: ways of playing scripts to their end, however deeply they nest.
* `Board.AgreeWithin`, `agreeWithin_hearing`: what scripts do depends only on those for which there
  is room.
* `playOut`, `Unlimited.eq_playOut`: there is exactly one way that is unlimited.
* `Enrolled.heedful_moments`: only those are called for whom there was room, and no script is cut
  short.
* `Board.Ends`, `run_ends`: what all this means for a run.
-/

namespace Chip8

/-- Whether a device is a script. -/
def Device.isScript : Device → Bool
  | .script _ => true
  | .machine _ => false

namespace Board

/-- Whether the device of a slot is a script. -/
def isScripted (b : Board) (slot : Slot) : Bool := (b.device? slot).any (·.isScript)

/-- Whether scripts are always played to their end, and so are those that are called meanwhile. -/
def Unlimited (play : Play) : Prop :=
  ∀ slot script b, play slot script b = script.foldl (performNoted play slot) b

/-- What is there after each of several actions, given how scripts are played. -/
def momentsWith (play : Play) (b : Board) : List Action → List (Answer × Board)
  | [] => []
  | action :: rest =>
    let moment := b.perform play action
    moment :: moment.2.momentsWith play rest

/-- The slots that are registered on a board, that a script on it names, or that some other script
    does. -/
def reach (b : Board) (script : List Action) : List Slot :=
  b.registry.audience ++ b.outlets.flatMap (fun o => o.device.added) ++ addedByAll script

/-- How scripts are played if they may nest as deeply as there are slots in reach. -/
def playOut : Play := fun slot script b =>
  hearing ((b.reach script).eraseDups.length + 1) slot script b

/-- Two ways of playing scripts agree on all boards with less than so much room. -/
def AgreeWithin (slots : List Slot) (bound : ℕ) (play play' : Play) : Prop :=
  ∀ slot script b, b.Enrolled slots → addedByAll script ⊆ slots → b.room slots < bound →
    play slot script b = play' slot script b

variable {slots : List Slot} {b c d : Board} {slot : Slot} {script actions : List Action}
  {depth bound : ℕ} {play : Play}

/-- A script that may nest one level deeper than others lets these play what they may. -/
theorem hearing_succ (depth : ℕ) (slot : Slot) (script : List Action) (b : Board) :
    hearing (depth + 1) slot script b =
      script.foldl (Board.performNoted (hearing depth) slot) b := rfl

/-! ## Enough room -/

theorem moments_eq_momentsWith (b : Board) (depth : ℕ) (actions : List Action) :
    b.moments depth actions = b.momentsWith (hearing depth) actions := by
  induction actions generalizing b with
  | nil => rfl
  | cons action rest ih => exact congrArg _ (ih _)

theorem Enrolled.performNoted (hb : b.Enrolled slots) (depth : ℕ) (slot : Slot) {action : Action}
    (haction : action.added ⊆ slots) :
    (b.performNoted (hearing depth) slot action).Enrolled slots := by
  have acted := hb.act depth haction
  exact ⟨acted.scripts, acted.registered⟩

theorem Returned.act (b : Board) (depth : ℕ) (action : Action) :
    Returned b (b.act depth action).2 :=
  (Course.act (responsive_hearing depth) action (.stay b)).returned

theorem Returned.performNoted (b : Board) (depth : ℕ) (slot : Slot) (action : Action) :
    Returned b (b.performNoted (hearing depth) slot action) :=
  (Returned.act b depth action).trans (.tell _ _ id)

section Agreement

variable (h : AgreeWithin slots bound play (hearing depth))

include h

/-- An action does the same for two ways of playing scripts that agree as long as there is room. -/
theorem AgreeWithin.perform_eq (hb : b.Enrolled slots) (hroom : b.room slots ≤ bound)
    (action : Action) : b.perform play action = b.act depth action := by
  refine Board.perform_congr fun d key hpress before slot script played => ?_
  obtain ⟨hd, less⟩ := hb.pressing hpress
  obtain ⟨enrolled, -, named, room⟩ := hd.call played
  exact h slot script _ enrolled named (room.trans_le (less.trans hroom))

/-- So does a script. -/
theorem AgreeWithin.foldl_eq (hb : b.Enrolled slots) (hroom : b.room slots ≤ bound)
    (hscript : addedByAll script ⊆ slots) (slot : Slot) :
    script.foldl (Board.performNoted play slot) b =
      script.foldl (Board.performNoted (hearing depth) slot) b := by
  induction script generalizing b with
  | nil => rw [List.foldl_nil, List.foldl_nil]
  | cons action rest ih =>
    obtain ⟨hfirst, hlater⟩ := addedByAll_cons_subset_iff.mp hscript
    have first : b.performNoted play slot action = b.performNoted (hearing depth) slot action := by
      have same : b.perform play action = b.perform (hearing depth) action :=
        h.perform_eq hb hroom action
      unfold Board.performNoted
      rw [same]
    rw [List.foldl_cons, List.foldl_cons, first]
    refine ih (hb.performNoted depth slot hfirst) ?_ hlater
    rwa [(Returned.performNoted b depth slot action).room_eq]

/-- So does a run. -/
theorem AgreeWithin.momentsWith_eq (hb : b.Enrolled slots) (hroom : b.room slots ≤ bound)
    (hactions : addedByAll actions ⊆ slots) :
    b.momentsWith play actions = b.moments depth actions := by
  induction actions generalizing b with
  | nil => rfl
  | cons action rest ih =>
    obtain ⟨hfirst, hlater⟩ := addedByAll_cons_subset_iff.mp hactions
    rw [momentsWith, moments, h.perform_eq hb hroom action]
    refine congrArg _ (ih (hb.act depth hfirst) ?_ hlater)
    rwa [(Returned.act b depth action).room_eq]

end Agreement

/-- Scripts may nest more deeply than there is room, which makes no difference. -/
theorem agreeWithin_hearing {more : ℕ} (hmore : depth ≤ more) :
    AgreeWithin slots depth (hearing more) (hearing depth) := by
  -- A script that is called meanwhile may nest one level less, and there is less room for it.
  induction depth generalizing more with
  | zero => exact fun _ _ _ _ _ hroom => absurd hroom (Nat.not_lt_zero _)
  | succ depth ih =>
    obtain ⟨more, rfl⟩ := Nat.exists_eq_add_of_le' (Nat.one_le_of_lt hmore)
    intro slot script b hb hscript hroom
    rw [hearing_succ, hearing_succ]
    exact (ih (Nat.le_of_succ_le_succ hmore)).foldl_eq hb (Nat.le_of_lt_succ hroom) hscript slot

/-! ## No limit -/

theorem Unlimited.agreeWithin (h : Unlimited play) (depth : ℕ) :
    AgreeWithin slots depth play (hearing depth) := by
  induction depth with
  | zero => exact fun _ _ _ _ _ hroom => absurd hroom (Nat.not_lt_zero _)
  | succ depth ih =>
    intro slot script b hb hscript hroom
    rw [h, hearing_succ]
    exact ih.foldl_eq hb (Nat.le_of_lt_succ hroom) hscript slot

theorem room_reach_lt (b : Board) (script : List Action) :
    b.room (b.reach script) < (b.reach script).eraseDups.length + 1 :=
  Nat.lt_succ_of_le (room_le _ b)

theorem addedByAll_subset_reach (b : Board) (script : List Action) :
    addedByAll script ⊆ b.reach script :=
  List.subset_append_right _ _

/-- On a board with enough room, scripts are played to their end. -/
theorem agreeWithin_playOut (depth : ℕ) : AgreeWithin slots depth playOut (hearing depth) := by
  intro slot script b hb hscript hroom
  have here := agreeWithin_hearing (Nat.le_max_left _ depth) slot script b b.enrolled_self
    (b.addedByAll_subset_reach script) (b.room_reach_lt script)
  exact here.symm.trans
    (agreeWithin_hearing (Nat.le_max_right _ _) slot script b hb hscript hroom)

theorem unlimited_playOut : Unlimited playOut := by
  intro slot script b
  rw [playOut, hearing_succ]
  exact ((agreeWithin_playOut _).foldl_eq b.enrolled_self (room_le _ b)
    (b.addedByAll_subset_reach script) slot).symm

/-- Nothing else is unlimited, on any board whatsoever. -/
theorem Unlimited.eq_playOut (h : Unlimited play) : play = playOut := by
  funext slot script b
  exact h.agreeWithin _ slot script b b.enrolled_self (b.addedByAll_subset_reach script)
    (b.room_reach_lt script)

/-! ## Runs -/

/-- Scripts for which there is room are not cut short. -/
theorem Enrolled.heedful_hearing (hb : b.Enrolled slots) (hscript : addedByAll script ⊆ slots)
    (hroom : b.room slots < depth) (slot : Slot) :
    Heedful slots b (hearing depth slot script b) := by
  induction depth generalizing slot script b with
  | zero => exact absurd hroom (Nat.not_lt_zero _)
  | succ depth ih =>
    have playing (rest : List Action) {c : Board} (hc : c.Enrolled slots)
        (hless : c.room slots ≤ depth) (hrest : addedByAll rest ⊆ slots) :
        Heedful slots c (rest.foldl (Board.performNoted (hearing depth) slot) c) := by
      induction rest generalizing c with
      | nil => exact .refl c
      | cons action rest ih' =>
        obtain ⟨hfirst, hlater⟩ := addedByAll_cons_subset_iff.mp hrest
        have acted := hc.heedful_act (fun slot script d hd hnamed hroom => ih hd hnamed hroom slot)
          hless hfirst
        have room := (Returned.performNoted c depth slot action).room_eq slots
        have noted : Heedful slots c (c.performNoted (hearing depth) slot action) :=
          acted.trans (.tell trivial)
        exact noted.trans (ih' (hc.performNoted depth slot hfirst) (room ▸ hless) hlater)
    rw [hearing_succ]
    exact playing script hb (Nat.le_of_lt_succ hroom) hscript

/-- Nor are those that are called in a run for which there is room. -/
theorem Enrolled.heedful_moments (hb : b.Enrolled slots) (hroom : b.room slots ≤ depth)
    (hactions : addedByAll actions ⊆ slots) :
    ∀ moment ∈ b.moments depth actions, Heedful slots b moment.2 := by
  induction actions generalizing b with
  | nil => exact fun moment hmoment => absurd hmoment List.not_mem_nil
  | cons action rest ih =>
    obtain ⟨hfirst, hlater⟩ := addedByAll_cons_subset_iff.mp hactions
    have acted := hb.heedful_act (fun slot script d hd hnamed hroom =>
      hd.heedful_hearing hnamed hroom slot) hroom hfirst
    have room := (Returned.act b depth action).room_eq slots
    intro moment hmoment
    rcases List.mem_cons.mp hmoment with rfl | later
    · exact acted
    · exact acted.trans (ih (hb.act depth hfirst) (room ▸ hroom) hlater moment later)

/-- What is there after some actions is a course of actions away. -/
theorem course_of_mem_moments {moment : Answer × Board} (h : moment ∈ b.moments depth actions) :
    Course b moment.2 := by
  induction actions generalizing b with
  | nil => exact absurd h List.not_mem_nil
  | cons action rest ih =>
    have first : Course b (b.act depth action).2 := .act (responsive_hearing depth) action (.stay b)
    rcases List.mem_cons.mp h with rfl | later
    · exact first
    · exact first.trans (ih later)

/-- If nobody else was called, the calls of scripts in progress are no more than the slots that were
    named. -/
theorem Orderly.countP_calls_le (hb : b.Orderly) {past : List Event} (hpast : past <:+ b.history)
    (hheeds : ∀ event ∈ b.history, b.Heeds slots event) :
    (calls past).countP (fun call => b.isScripted call.slot) ≤ slots.eraseDups.length := by
  have nodup : (((calls past).filter fun call => b.isScripted call.slot).map (·.slot)).Nodup :=
    (hb.distinct hpast).sublist (List.filter_sublist.map _)
  have named : ((calls past).filter fun call => b.isScripted call.slot).map (·.slot) ⊆
      slots.eraseDups := by
    intro slot hslot
    obtain ⟨call, hcall, rfl⟩ := List.mem_map.mp hslot
    obtain ⟨there, scripted⟩ := List.mem_filter.mp hcall
    obtain ⟨key, heard⟩ := exists_heard_of_mem_calls there
    have callable : b.Callable slots call.slot := hheeds _ (hpast.subset heard)
    refine List.mem_eraseDups.mpr (callable.resolve_right fun machine => ?_)
    obtain ⟨m, hm⟩ := isSome_subscription?_iff.mp machine
    rw [isScripted, hm] at scripted
    cases scripted
  rw [List.countP_eq_length_filter, ← List.length_map Call.slot]
  exact (List.Nodup.subperm nodup named).length_le

/-- What it means that all presses of a run end because no listener is called while it plays. -/
structure Ends (pruning : Pruning) (actions : List Action) : Prop where
  /-- There is exactly one way to play scripts to their end on all boards, whatever they press, -/
  unlimited : ∃! play : Play, Unlimited play
  /-- and on each board, some depth is enough for it, so that no script is cut short. -/
  reached {play : Play} (h : Unlimited play) (slot : Slot) (script : List Action) (b : Board) :
    (∃ depth, ∀ more, depth ≤ more → hearing more slot script b = play slot script b) ∧
      ∀ cut, .tooDeep cut ∈ (play slot script b).history → .tooDeep cut ∈ b.history
  /-- The run is what comes of playing scripts in this way; -/
  run_eq {play : Play} (h : Unlimited play) :
    run pruning actions = (empty pruning).momentsWith play actions
  /-- so it makes no difference if scripts may nest more deeply than there are slots that some
      action registers, -/
  deeper {depth : ℕ} (h : nesting actions ≤ depth) :
    (empty pruning).moments depth actions = run pruning actions
  /-- and none was ever cut short. -/
  whole {moment : Answer × Board} (h : moment ∈ run pruning actions) (slot : Slot) :
    .tooDeep slot ∉ moment.2.history
  /-- At every moment, inside of presses too, the calls in progress are calls of different
      listeners, -/
  distinct {moment : Answer × Board} (h : moment ∈ run pruning actions) {past : List Event}
    (hpast : past <:+ moment.2.history) : ((calls past).map (·.slot)).Nodup
  /-- and no more of them are calls of scripts than there are slots that some action registers. -/
  depth_le {moment : Answer × Board} (h : moment ∈ run pruning actions) {past : List Event}
    (hpast : past <:+ moment.2.history) :
    (calls past).countP (fun call => moment.2.isScripted call.slot) ≤ nesting actions
  /-- When an action is over, so are all calls. -/
  returned {moment : Answer × Board} (h : moment ∈ run pruning actions) :
    calls moment.2.history = []
  /-- Every dispatch leaves out those listeners of its audience that are busy when it sets out. All
      that are being called then are busy. -/
  skips {moment : Answer × Board} (h : moment ∈ run pruning actions) {number : ℕ}
    (hnumber : number < moment.2.dispatches) :
    ∃ (d : Board) (play : Play) (key : UInt8), d.SetsOut play key ∧ d.dispatches = number ∧
      d.history <:+ moment.2.history ∧ moment.2.eventsOf number = d.dispatchEvents key ∧
      ∀ call ∈ calls d.history, d.isBusy call.slot = true

/-- **Main theorem.** All presses of a run end. -/
theorem run_ends (pruning : Pruning) (actions : List Action) : Ends pruning actions := by
  have enrolled := enrolled_empty (addedByAll actions) pruning
  have room : (empty pruning).room (addedByAll actions) ≤ nesting actions := room_le _ _
  have named := List.Subset.refl (addedByAll actions)
  have course {moment : Answer × Board} (h : moment ∈ run pruning actions) :
      Course (empty pruning) moment.2 :=
    course_of_mem_moments h
  have orderly {moment : Answer × Board} (h : moment ∈ run pruning actions) : moment.2.Orderly :=
    (moment_of_run pruning h).orderly
  have heeds {moment : Answer × Board} (h : moment ∈ run pruning actions) :
      ∀ event ∈ moment.2.history, moment.2.Heeds (addedByAll actions) event := by
    intro event hevent
    exact ((enrolled.heedful_moments room named moment h).told hevent).resolve_left
      List.not_mem_nil
  refine
    { unlimited := ⟨playOut, unlimited_playOut, fun _ h => h.eq_playOut⟩,
      reached := fun hplay slot script b => ?_,
      run_eq := fun hplay => ?_, deeper := fun hdepth => ?_,
      whole := fun h slot cut => heeds h _ cut, distinct := fun h => (orderly h).distinct,
      depth_le := fun h _ hpast => (orderly h).countP_calls_le hpast (heeds h),
      returned := fun h => (course h).returned.calls, skips := fun h number hnumber => ?_ }
  · have reach := b.addedByAll_subset_reach script
    have less := b.room_reach_lt script
    rw [hplay.eq_playOut]
    refine ⟨⟨_, fun more hmore =>
      agreeWithin_hearing hmore slot script b b.enrolled_self reach less⟩, ?_⟩
    exact fun cut hcut =>
      ((b.enrolled_self.heedful_hearing reach less slot).told hcut).resolve_right id
  · exact ((hplay.agreeWithin _).momentsWith_eq enrolled room named).symm
  · rw [moments_eq_momentsWith]
    exact (agreeWithin_hearing hdepth).momentsWith_eq enrolled room named
  · obtain ⟨d, play, key, out, count, -, after, told⟩ :=
      (course h).allTraced (.start pruning) number (Nat.zero_le _) hnumber
    have pressed := (Evolves.press out.responsive.evolves d key).trans after
    exact ⟨d, play, key, out, count, pressed.history_suffix, told, fun _ => out.moment.orderly.busy⟩

/-- Two listeners that release and press again the key that they hear. -/
def ringing : Board :=
  (empty .atDispatch).after 2
    [.plugScript [.release 5, .press 5], .plugScript [.release 5, .press 5], .add 0, .add 1,
      .press 5]

example : ringing.eventsOf 1 = [.dispatched 1 5 [0, 1], .skipped 1 0 5, .heard 1 1 5, .done 1 1,
      .finished 1] ∧
    ringing.eventsOf 2 = [.dispatched 2 5 [0, 1], .skipped 2 0 5, .skipped 2 1 5, .finished 2] :=
  ⟨rfl, rfl⟩

end Board

end Chip8
