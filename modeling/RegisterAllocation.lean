import RegisterAllocation.Allocation.Basic
import RegisterAllocation.Allocation.Check
import RegisterAllocation.Allocation.Fixed
import RegisterAllocation.Allocation.Listing
import RegisterAllocation.Allocation.Moves
import RegisterAllocation.Allocation.Query
import RegisterAllocation.Allocation.Scan
import RegisterAllocation.Assignment.Basic
import RegisterAllocation.Assignment.Wire
import RegisterAllocation.Cbor.Codec
import RegisterAllocation.Cbor.Item
import RegisterAllocation.Cbor.Reader
import RegisterAllocation.Cbor.Standard
import RegisterAllocation.Code.Duplicates
import RegisterAllocation.Code.Opcode
import RegisterAllocation.Code.Operand
import RegisterAllocation.Code.Pool
import RegisterAllocation.Code.Unit
import RegisterAllocation.Code.Value
import RegisterAllocation.Command.Options
import RegisterAllocation.Command.Run
import RegisterAllocation.Config
import RegisterAllocation.Config.Reader
import RegisterAllocation.Container.Bisection
import RegisterAllocation.Container.Dictionary
import RegisterAllocation.Container.Heap
import RegisterAllocation.Container.KeyOrder
import RegisterAllocation.Container.MergeSort
import RegisterAllocation.Container.PriorityQueue
import RegisterAllocation.Container.Quicksort
import RegisterAllocation.Container.Sorting
import RegisterAllocation.Container.Stack
import RegisterAllocation.Container.WordSet
import RegisterAllocation.Fault
import RegisterAllocation.Files.Basic
import RegisterAllocation.Files.Glob
import RegisterAllocation.Files.Path
import RegisterAllocation.Files.Pattern
import RegisterAllocation.Files.Tree
import RegisterAllocation.Fixture.Archive
import RegisterAllocation.Fixture.Basic
import RegisterAllocation.Fixture.Draft
import RegisterAllocation.Fixture.Form
import RegisterAllocation.Fixture.Instruction
import RegisterAllocation.Fixture.Moves
import RegisterAllocation.Fixture.Run
import RegisterAllocation.Fixture.Unit
import RegisterAllocation.Literal.Basic
import RegisterAllocation.Literal.Binary
import RegisterAllocation.Literal.Numeral
import RegisterAllocation.LiveRange
import RegisterAllocation.LiveRange.Directory
import RegisterAllocation.Main
import RegisterAllocation.Move.Basic
import RegisterAllocation.Move.RegisterFile
import RegisterAllocation.Move.Schedule
import RegisterAllocation.MoveType
import RegisterAllocation.Proofs.Alike
import RegisterAllocation.Proofs.Answers
import RegisterAllocation.Proofs.Arrival
import RegisterAllocation.Proofs.Assignment
import RegisterAllocation.Proofs.Basic
import RegisterAllocation.Proofs.Building
import RegisterAllocation.Proofs.Cbor
import RegisterAllocation.Proofs.ClauseOrder
import RegisterAllocation.Proofs.Codec
import RegisterAllocation.Proofs.Comparison
import RegisterAllocation.Proofs.Contents
import RegisterAllocation.Proofs.Copies
import RegisterAllocation.Proofs.Coverage
import RegisterAllocation.Proofs.CrossReferences
import RegisterAllocation.Proofs.Duplicates
import RegisterAllocation.Proofs.Encoding
import RegisterAllocation.Proofs.Execution.Basic
import RegisterAllocation.Proofs.Execution.Preservation
import RegisterAllocation.Proofs.FixedPlacement
import RegisterAllocation.Proofs.FixedTable
import RegisterAllocation.Proofs.Footprint
import RegisterAllocation.Proofs.Heap
import RegisterAllocation.Proofs.Interleaving
import RegisterAllocation.Proofs.Intervals
import RegisterAllocation.Proofs.Limits
import RegisterAllocation.Proofs.LiteralOperands
import RegisterAllocation.Proofs.LiveRange
import RegisterAllocation.Proofs.LiveRange.Algebra
import RegisterAllocation.Proofs.MovePositions
import RegisterAllocation.Proofs.Moves
import RegisterAllocation.Proofs.Numbering
import RegisterAllocation.Proofs.Orderly
import RegisterAllocation.Proofs.Outcome
import RegisterAllocation.Proofs.Pressure
import RegisterAllocation.Proofs.Printing
import RegisterAllocation.Proofs.PriorityQueue
import RegisterAllocation.Proofs.Quicksort
import RegisterAllocation.Proofs.Reading
import RegisterAllocation.Proofs.ReadingFaults
import RegisterAllocation.Proofs.ReadingFaults.Entries
import RegisterAllocation.Proofs.ReadingFaults.Instructions
import RegisterAllocation.Proofs.Reserved
import RegisterAllocation.Proofs.SExpr.Printing
import RegisterAllocation.Proofs.SExpr.Reader
import RegisterAllocation.Proofs.SExpr.Token
import RegisterAllocation.Proofs.Scan.Eviction
import RegisterAllocation.Proofs.Scan.Invariant
import RegisterAllocation.Proofs.Scan.Packing
import RegisterAllocation.Proofs.Scan.Run
import RegisterAllocation.Proofs.Schedule.Acyclic
import RegisterAllocation.Proofs.Schedule.Invariant
import RegisterAllocation.Proofs.Schedule.Ledger
import RegisterAllocation.Proofs.Schedule.Meaning
import RegisterAllocation.Proofs.Schedule.Save
import RegisterAllocation.Proofs.Schedule.Step
import RegisterAllocation.Proofs.Separation
import RegisterAllocation.Proofs.Sorting
import RegisterAllocation.Proofs.Spilling
import RegisterAllocation.Proofs.StandardCodec
import RegisterAllocation.Proofs.Sweep
import RegisterAllocation.Proofs.Text.Decimal
import RegisterAllocation.Proofs.Text.Utf8
import RegisterAllocation.Proofs.Tidiness
import RegisterAllocation.Proofs.WrittenMoves
import RegisterAllocation.SExpr.Basic
import RegisterAllocation.SExpr.Reader
import RegisterAllocation.SExpr.Token
import RegisterAllocation.Text.Blank
import RegisterAllocation.Text.Decimal
import RegisterAllocation.Text.Digit
import RegisterAllocation.Text.Hexadecimal
import RegisterAllocation.Text.Letter
import RegisterAllocation.Text.Page
import RegisterAllocation.Text.Printable
import RegisterAllocation.Text.Quoted
import RegisterAllocation.Text.Ranges
import RegisterAllocation.Text.Utf8
import RegisterAllocation.Toml.Date
import RegisterAllocation.Toml.Key
import RegisterAllocation.Toml.Number
import RegisterAllocation.Toml.Quoted
import RegisterAllocation.Toml.Reader
import RegisterAllocation.Toml.Table
