import Forwarder.Bytes
import Forwarder.Cursor
import Forwarder.Cursor.Request
import Forwarder.SignedCursor
import Forwarder.Text.Utf8
import Forwarder.Opcode
import Forwarder.Instruction
import Forwarder.Instruction.Decode
import Forwarder.Descriptor
import Forwarder.Descriptor.Parse
import Forwarder.Constant
import Forwarder.ConstantPool
import Forwarder.BootstrapTable
import Forwarder.BootstrapTable.View
import Forwarder.ClassFile
import Forwarder.ClassFile.Read
import Forwarder.Text.Json
import Forwarder.Diagnostic
import Forwarder.Log
import Forwarder.MethodKey
import Forwarder.CallSite
import Forwarder.Body
import Forwarder.Confirmation
import Forwarder.Visit
import Forwarder.Analysis
import Forwarder.Settings
import Forwarder.Assembler.Encode
import Forwarder.Assembler.Constant
import Forwarder.Assembler.Pool
import Forwarder.Assembler.Code
import Forwarder.Assembler.Class
import Forwarder.Assembler.Workspace
import Forwarder.Text.Integer
import Forwarder.FileTree.Path
import Forwarder.FileTree
import Forwarder.ClassPath
import Forwarder.CommandLine
import Forwarder.Program
import Forwarder.Archive.Inflate
import Forwarder.Archive
import Forwarder.Main
import Forwarder.Proofs.Cursor.Advance
import Forwarder.Proofs.Instruction.WellFormed
import Forwarder.Proofs.Decoding
import Forwarder.Proofs.Decoding.Relocation
import Forwarder.Proofs.CallSite.Link
import Forwarder.Proofs.CallSite.Walk
import Forwarder.Proofs.CallSite.Regroup
import Forwarder.Proofs.Confirmation
import Forwarder.Proofs.Detection
import Forwarder.Proofs.Containment
import Forwarder.Proofs.Assembler.Pool
import Forwarder.Proofs.Cursor.Reads
import Forwarder.Proofs.Text.Utf8
import Forwarder.Proofs.ClassFile.Spelling
import Forwarder.Proofs.ClassFile.Slots
import Forwarder.Proofs.Assembler.Constant
import Forwarder.Proofs.BootstrapTable
import Forwarder.Proofs.Assembler.Encoding
import Forwarder.Proofs.Assembler.Member
import Forwarder.Proofs.Assembler.RoundTrip
import Forwarder.Proofs.BootstrapTable.Canonical
import Forwarder.Proofs.Body
import Forwarder.Proofs.Report
import Forwarder.Proofs.Report.Body
import Forwarder.Proofs.Report.Call
import Forwarder.Proofs.Assembler.Lookup
import Forwarder.Proofs.Run
import Forwarder.Proofs.Assembler.Emission
import Forwarder.Proofs.Assembler.Plan
import Forwarder.Proofs.Assembler.Caller
import Forwarder.Proofs.Assembler.Reading
import Forwarder.Proofs.Report.Lambdas
import Forwarder.Proofs.Descriptor.Grammar
import Forwarder.Proofs.Cursor.Local
import Forwarder.Proofs.Cursor.Request
import Forwarder.Proofs.ClassFile.Extent
import Forwarder.Proofs.ConstantPool
import Forwarder.Proofs.ClassFile.CodeSpelling
import Forwarder.Proofs.ClassFile.Lines
import Forwarder.Proofs.Assembler.Interning
import Forwarder.Proofs.Assembler.Extent
import Forwarder.Proofs.Report.Candidates
import Forwarder.Proofs.Report.Order
import Forwarder.Proofs.Report.Interference
import Forwarder.Proofs.Body.Pattern
import Forwarder.Proofs.CallSite.Search
import Forwarder.Proofs.Analysis
import Forwarder.Proofs.Instruction.Action
import Forwarder.Proofs.Assembler.Disassembly
import Forwarder.Proofs.Assembler.Accounts
import Forwarder.Proofs.Assembler.LineTable
import Forwarder.Proofs.Assembler.Identity
import Forwarder.Proofs.Assembler.Repetition
import Forwarder.Proofs.Report.Grouping
import Forwarder.Proofs.Diagnostic
import Forwarder.Proofs.Report.Lookalike
