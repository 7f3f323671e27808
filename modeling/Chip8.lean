import Chip8.Board.Basic
import Chip8.Board.Dispatch
import Chip8.Board.Run
import Chip8.ByteSource.Basic
import Chip8.ByteSource.ChaCha
import Chip8.CallStack
import Chip8.Fault
import Chip8.Instruction.Basic
import Chip8.Instruction.Decode
import Chip8.Instruction.Encode
import Chip8.Instruction.Listing
import Chip8.Journal
import Chip8.KeyLayout
import Chip8.Keypad.Basic
import Chip8.Keypad.Registry
import Chip8.Machine.Basic
import Chip8.Machine.Effect
import Chip8.Machine.Flow
import Chip8.Machine.Program
import Chip8.Machine.State
import Chip8.Main
import Chip8.Memory
import Chip8.Screen.Basic
import Chip8.Screen.Texture
import Chip8.Settings.Arguments
import Chip8.Settings.Basic
import Chip8.Settings.Numeral
import Chip8.Text.Numeral
import Chip8.Proofs.Decoding
import Chip8.Proofs.Execution
import Chip8.Proofs.DirectStep
import Chip8.Proofs.Reachable
import Chip8.Proofs.Checked.Agreement
import Chip8.Proofs.Devices
import Chip8.Proofs.Faults
import Chip8.Proofs.Trace
import Chip8.Proofs.Nesting
import Chip8.Proofs.Redraw
import Chip8.Proofs.Evolution
import Chip8.Proofs.Moments
import Chip8.Proofs.Balance
import Chip8.Proofs.Registrations
import Chip8.Proofs.Snapshot
import Chip8.Proofs.KeyUpdates
import Chip8.Proofs.Bystanders
import Chip8.Proofs.KeyWait
import Chip8.Proofs.Alike
import Chip8.Proofs.Painting
import Chip8.Proofs.ActionParts
import Chip8.Proofs.RegistrationSteps
import Chip8.Proofs.Tickets
import Chip8.Proofs.Subscriptions
import Chip8.Proofs.RandomBytes
import Chip8.Proofs.Timers
import Chip8.Proofs.Cadence
import Chip8.Proofs.Sprites
import Chip8.Proofs.Loading
import Chip8.Proofs.Calls
import Chip8.Proofs.FreeSlots
import Chip8.Proofs.Endings
import Chip8.Proofs.Lagging
import Chip8.Proofs.Pruning
import Chip8.Proofs.Encoding
import Chip8.Proofs.Footprints
import Chip8.Proofs.Sequences
import Chip8.Proofs.Blocks
import Chip8.Proofs.Arithmetic
import Chip8.Proofs.Numerals
import Chip8.Proofs.Listings
import Chip8.Proofs.Textures
import Chip8.Proofs.TraceLines
import Chip8.Proofs.ExecutionLog
import Chip8.Proofs.GivenSettings
