import Chip8.Board.Run
import Chip8.KeyLayout
import Chip8.Screen.Texture
import Chip8.Settings.Arguments

/-!
# The program

Runs a program image on a machine that is plugged into a keypad. Each line of standard input is
one frame, a sixtieth of a second: the names of the keyboard keys that go down, and those that
come up with a hyphen in front. Every frame whose screen was drawn on is written to standard
output as a portable pixmap. The journal goes to standard error.
-/

namespace Chip8

/-- Writes journal entries from a severity on. -/
def writeJournal (least : Severity) (events : List Event) : IO Unit := do
  for event in events do
    match event with
    | .reported entry =>
      if entry.severity.rank ≤ least.rank then IO.eprintln entry.text
    | _ => pure ()

/-- What the keys named on a line of input do to the keypad. -/
def keyActions (line : String) : List Action :=
  (line.trimAscii.toString.splitOn " ").filterMap fun word =>
    match word.toList with
    | '-' :: name => (KeyLayout.keypadKey? (String.ofList name)).map .release
    | _ => (KeyLayout.keypadKey? word).map .press

/-- A picture of the screen, each pixel `scale` wide and high. -/
def pixmap (scale : Nat) (screen : Screen) : ByteArray :=
  let header := "P6 " ++ Numeral.decimal (scale * Screen.width) ++ " "
    ++ Numeral.decimal (scale * Screen.height) ++ " 255\n"
  let row (y : Nat) : List UInt8 := (List.range Screen.width).flatMap fun x =>
    List.replicate (3 * scale) (Screen.shade (screen.pixel x y))
  let body := (List.range Screen.height).flatMap fun y => (List.replicate scale (row y)).flatten
  body.foldl (·.push ·) header.toUTF8

/-- Carries out actions until one of them fails, with the board after them. -/
def untilFault (b : Board) : List Action → Except Fault Board
  | [] => .ok b
  | action :: rest =>
    match b.act 0 action with
    | (.gain (.error fault), _) => .error fault
    | (_, after) => untilFault after rest

/-- Runs frame after frame until the input ends or the machine fails. -/
partial def frames (settings : Settings) (slot : Slot) (board : Board) : IO UInt32 := do
  let line ← (← IO.getStdin).getLine
  if line.isEmpty then return 0
  let steps := List.replicate settings.stepsPerFrame (Action.operate slot .step)
  let actions := keyActions line ++ steps ++ [.operate slot .tick]
  match untilFault { board with history := [] } actions with
  | .error fault =>
    IO.eprintln fault.message
    return 1
  | .ok after =>
    writeJournal .info after.history.reverse
    match after.act 0 (.operate slot .takeFrame) with
    | (.gain (.ok (.frame (some screen))), taken) =>
      let out ← IO.getStdout
      out.write (pixmap settings.scale screen)
      out.flush
      frames settings slot taken
    | (_, taken) => frames settings slot taken

/-- Loads the program and runs it. -/
def start (settings : Settings) : IO UInt32 := do
  let seed ← match settings.seed with
    | some seed => pure seed
    | none => IO.rand 0 (UInt64.size - 1)
  let reading : IO ReadOutcome := do return .chunk (← IO.FS.readBinFile settings.program).data
  let outcome ← reading.catchExceptions fun failure => return .failed (toString failure)
  let (_, plugged) := (Board.empty .atDispatch).act 0
    (.plugMachine (.ofSeed (UInt64.ofNat seed)) true)
  match plugged.act 0 (.operate 0 (.read [outcome])) with
  | (.gain (.error fault), _) =>
    IO.eprintln fault.message
    return 1
  | (_, loaded) =>
    writeJournal .info (loaded.eventsSince plugged)
    frames settings 0 loaded

end Chip8

/-- Reads the command line and runs the program it names. -/
def main (arguments : List String) : IO UInt32 :=
  match Chip8.Settings.ofArguments arguments with
  | .ok settings => Chip8.start settings
  | .error (.setting fault) => do
    IO.eprintln fault.message
    return 2
  | .error (.usage fault) => do
    IO.eprintln ("usage: chip8 [-s STEPS] [-x SCALE] [--seed SEED] PROGRAM")
    return if fault = .helpDisplayed then 0 else 1
