import Z80.Emulator
import Z80.Error
import Z80.Observer.Journal
import Z80.Observer.Recorder
import Z80.Proofs.Stack.Position
import Z80.Proofs.Stack.Effect
import Z80.Proofs.Stack.Bounds
import Z80.Proofs.Stack.RoundTrip
import Z80.Proofs.Stack.Nesting
import Z80.Proofs.Stack.Plain
import Z80.Proofs.Stack.Swap
import Z80.Proofs.Block.Repeat
import Z80.Proofs.Block.Search
import Z80.Proofs.Block.Interrupted
import Z80.Proofs.Block.Devices
import Z80.Proofs.Interrupts.Gate
import Z80.Proofs.Interrupts.Halt
import Z80.Proofs.Indexed.Registers
import Z80.Proofs.Indexed.Memory
import Z80.Proofs.Indexed.Bits
import Z80.Proofs.Indexed.Twins
import Z80.Proofs.Tracing.Run
import Z80.Proofs.Runs.Accounting
import Z80.Proofs.Runs.Observers
import Z80.Proofs.Runs.Modes
import Z80.Proofs.Runs.Undocumented
import Z80.Proofs.Frame.Stores
import Z80.Proofs.Frame.Step
import Z80.Proofs.Frame.Parts
import Z80.Proofs.Frame.Changes
import Z80.Proofs.Frame.Listing
import Z80.Proofs.Frame.Registers
import Z80.Proofs.Frame.Flags
import Z80.Proofs.Frame.Fetch
import Z80.Proofs.Frame.Unhandled
import Z80.Proofs.Branches
import Z80.Proofs.Registration
import Z80.Proofs.Arithmetic.Outcome
import Z80.Proofs.Arithmetic.Words
import Z80.Proofs.Arithmetic.Numerals
import Z80.Proofs.Arithmetic.Binary
import Z80.Proofs.Arithmetic.Decimal
import Z80.Proofs.Arithmetic.Shifts
import Z80.Proofs.Arithmetic.Digits
import Z80.Proofs.Tracing.Columns
