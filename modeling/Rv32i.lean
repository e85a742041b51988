import Rv32i.Files.FileTree
import Rv32i.Main
import Rv32i.Proofs.Machine.Architecture
import Rv32i.Proofs.Machine.HartInvariant
import Rv32i.Proofs.Machine.MemoryAccess
import Rv32i.Proofs.Machine.RelativeJump
import Rv32i.Proofs.Machine.Refinement
import Rv32i.Proofs.Machine.Attempt
import Rv32i.Proofs.Machine.BoundedRun
import Rv32i.Proofs.Session.Exchange
import Rv32i.Proofs.Session.Threading
import Rv32i.Proofs.Text.Blanks
import Rv32i.Proofs.Text.Cutting
import Rv32i.Proofs.Text.Numerals
import Rv32i.Proofs.Assembly.Decoded
import Rv32i.Proofs.Assembly.Operands
import Rv32i.Proofs.Assembly.Placement
import Rv32i.Proofs.Assembly.Forms
import Rv32i.Proofs.Assembly.WellFormed
import Rv32i.Proofs.Assembly.Listing
import Rv32i.Proofs.Assembly.LabelTarget
import Rv32i.Proofs.Session.Invariant
import Rv32i.Proofs.Session.FailedRequest
import Rv32i.Proofs.Session.Halting
import Rv32i.Proofs.Session.Forgetting
import Rv32i.Proofs.Session.WireForm
import Rv32i.Proofs.Checked.Abort
import Rv32i.Proofs.Checked.Decode
import Rv32i.Proofs.Checked.Execute
import Rv32i.Proofs.Checked.Machine
import Rv32i.Proofs.Checked.Operand
import Rv32i.Proofs.Checked.Program
import Rv32i.Proofs.Checked.Session
import Rv32i.Proofs.Isa.RegisterNames
import Rv32i.Proofs.Isa.SignExtension
import Rv32i.Proofs.CommandLine.Check
import Rv32i.Proofs.CommandLine.Printed
import Rv32i.Proofs.Json.RoundTrip
import Rv32i.Proofs.Machine.ByteMap
import Rv32i.Proofs.Machine.InPlace
import Rv32i.Proofs.Machine.LargerMemory
import Rv32i.Proofs.Machine.Trace
import Rv32i.Proofs.Assembly.AddressOperand
import Rv32i.Proofs.Assembly.Concatenation
import Rv32i.Proofs.Assembly.DecodeOutcome
import Rv32i.Proofs.Assembly.FirstFault
import Rv32i.Proofs.Assembly.Layout
import Rv32i.Proofs.Assembly.LiteralForm
import Rv32i.Proofs.Assembly.Relocation
import Rv32i.Proofs.Assembly.TwoPasses
import Rv32i.Proofs.CommandLine.Stepping
import Rv32i.Proofs.Report.Legible
import Rv32i.Proofs.Session.Window
import Rv32i.Proofs.Text.Telling
