import CallFrame.Location.Parser
import CallFrame.Machine.Lemmas
import CallFrame.Proofs.A64Immediate
import CallFrame.Proofs.A64Lines
import CallFrame.Proofs.Alignment
import CallFrame.Proofs.AttLines
import CallFrame.Proofs.CallSequence
import CallFrame.Proofs.Completion
import CallFrame.Proofs.Execution
import CallFrame.Proofs.Footprint
import CallFrame.Proofs.FrameListing
import CallFrame.Proofs.ImmediateFields
import CallFrame.Proofs.InstrText
import CallFrame.Proofs.Lifecycle
import CallFrame.Proofs.LineText
import CallFrame.Proofs.ListingText
import CallFrame.Proofs.LittleEndian
import CallFrame.Proofs.LocationText
import CallFrame.Proofs.Memory
import CallFrame.Proofs.Nesting
import CallFrame.Proofs.Numeral
import CallFrame.Proofs.OperandAddress
import CallFrame.Proofs.OperandForm
import CallFrame.Proofs.ParallelCopy
import CallFrame.Proofs.Refusal
import CallFrame.Proofs.RegisterWords
import CallFrame.Proofs.RenderedLines
import CallFrame.Proofs.RoundTrip
import CallFrame.Proofs.SavePairs
import CallFrame.Proofs.SavedArea
import CallFrame.Proofs.Slot
import CallFrame.Proofs.StackAccount
import CallFrame.Proofs.Writeback
import CallFrame.Session.Report
