import Apfs.Arguments.Item
import Apfs.Arguments.Option
import Apfs.Arguments.Request
import Apfs.Arithmetic
import Apfs.Block
import Apfs.BlockSize
import Apfs.Command
import Apfs.Defect
import Apfs.ErrorKind
import Apfs.FetchError
import Apfs.FileTree
import Apfs.Fletcher64
import Apfs.Hex
import Apfs.Hexdump
import Apfs.LittleEndian
import Apfs.LocatedNode
import Apfs.Location
import Apfs.Main
import Apfs.Node.Basic
import Apfs.Node.Contents
import Apfs.Node.Decode
import Apfs.NodeError
import Apfs.Numeral
import Apfs.ObjectChecksum
import Apfs.Record.Basic
import Apfs.Record.EntrySlot
import Apfs.Record.NodeFooter
import Apfs.Record.NodeHeader
import Apfs.Record.ObjectHeader
import Apfs.Report
import Apfs.Session
import Apfs.Sha256
import Apfs.Source.Basic
import Apfs.Source.Fetch
import Apfs.Source.Node
import Apfs.Span
import Apfs.Proofs.Number
import Apfs.Proofs.Record
import Apfs.Proofs.Check
import Apfs.Proofs.Node.Checks
import Apfs.Proofs.Node.Decoding
import Apfs.Proofs.Node.Acceptance
import Apfs.Proofs.Node.FirstDefect
import Apfs.Proofs.ObjectChecksum
import Apfs.Proofs.Node.Layout
import Apfs.Proofs.Node.Records
import Apfs.Proofs.Node.Building
import Apfs.Proofs.Node.RoundTrip
import Apfs.Proofs.Location
import Apfs.Proofs.Source.Reading
import Apfs.Proofs.Source.Session
import Apfs.Proofs.Result
import Apfs.Proofs.Fletcher64
import Apfs.Proofs.Agreement
import Apfs.Proofs.Tampering
import Apfs.Proofs.Node.Independence
import Apfs.Proofs.Exact
import Apfs.Proofs.Node.ExactDecoding
import Apfs.Proofs.Node.Geometry
import Apfs.Proofs.Source.File
import Apfs.Proofs.FileTree
import Apfs.Proofs.Arguments.Accepted
import Apfs.Proofs.Report
import Apfs.Proofs.Command
import Apfs.Proofs.Fletcher64.ClosedForm
import Apfs.Proofs.Sealing
import Apfs.Proofs.Source.Faults
import Apfs.Proofs.Node.Views
import Apfs.Proofs.Node.EntryCount
import Apfs.Proofs.Verification
import Apfs.Proofs.Arguments.Acceptance
import Apfs.Proofs.Numeral
import Apfs.Proofs.Arguments.Spelling
import Apfs.Proofs.Arguments.Recognition
import Apfs.Proofs.Arguments.Guarantees
import Apfs.Proofs.Arguments.Intent
import Apfs.Proofs.Numeral.Reading
import Apfs.Proofs.Record.RoundTrip
import Apfs.Proofs.BlockSize
import Apfs.Proofs.Hex
import Apfs.Proofs.Form
import Apfs.Proofs.Message
import Apfs.Proofs.Hexdump
import Apfs.Proofs.Report.Lossless
import Apfs.Proofs.Location.Numbered
import Apfs.Proofs.Span.Extraction
