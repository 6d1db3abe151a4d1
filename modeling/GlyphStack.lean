import GlyphStack.Text.CodeRanges
import GlyphStack.Text.Blank
import GlyphStack.Text.Unprintable
import GlyphStack.Text.Quoted
import GlyphStack.Text.LetterCase
import GlyphStack.Number.Binary64
import GlyphStack.Number.Numeral
import GlyphStack.Number.Shortest
import GlyphStack.Number.Layout
import GlyphStack.Value.Basic
import GlyphStack.Value.Coerce
import GlyphStack.Value.Render
import GlyphStack.Value.Compare
import GlyphStack.Value.Copy
import GlyphStack.Value.Arithmetic
import GlyphStack.Fault
import GlyphStack.Program.Instruction
import GlyphStack.Program.Lexeme
import GlyphStack.Program.Loops
import GlyphStack.Program.Basic
import GlyphStack.Store.Dictionary
import GlyphStack.Store.Operand
import GlyphStack.Store.Basic
import GlyphStack.Machine.Item
import GlyphStack.Machine.Dispatch
import GlyphStack.Machine.Basic
import GlyphStack.Machine.Run
import GlyphStack.CommandLine.Arguments
import GlyphStack.CommandLine.Session
import GlyphStack.Main
import GlyphStack.Proofs.Program.Sweep
import GlyphStack.Proofs.Program.Matching
import GlyphStack.Proofs.Program.BackwardWalk
import GlyphStack.Proofs.Program.LoopLevels
import GlyphStack.Proofs.Program.UnitLoops
import GlyphStack.Proofs.Program.DelimitedTexts
import GlyphStack.Proofs.Program.Parentheses
import GlyphStack.Proofs.Program.Places
import GlyphStack.Proofs.Store.Items
import GlyphStack.Proofs.Store.Apart
import GlyphStack.Proofs.Machine.Dispatch
import GlyphStack.Proofs.Program.Tiling
import GlyphStack.Proofs.Machine.Reachable
import GlyphStack.Proofs.Machine.Position
import GlyphStack.Proofs.Machine.UnitEnd
import GlyphStack.Proofs.Machine.Isolation
import GlyphStack.Proofs.Structured.Block
import GlyphStack.Proofs.Structured.Semantics
import GlyphStack.Proofs.Structured.Refinement
import GlyphStack.Proofs.Store.Effect
import GlyphStack.Proofs.Store.Operands
import GlyphStack.Proofs.Store.OperandCheck
import GlyphStack.Proofs.Store.Refusals
import GlyphStack.Proofs.Machine.Effect
import GlyphStack.Proofs.Machine.Footprint
import GlyphStack.Proofs.Machine.Faults
import GlyphStack.Proofs.Store.Unaliased
import GlyphStack.Proofs.Machine.Brackets
import GlyphStack.Proofs.Machine.StackLimit
import GlyphStack.Proofs.Machine.Stepping
import GlyphStack.Proofs.Machine.Failing
import GlyphStack.Proofs.Machine.Budget
import GlyphStack.Proofs.Machine.RaisedLimits
import GlyphStack.Proofs.Machine.Progress
import GlyphStack.Proofs.Value.Reversal
import GlyphStack.Proofs.Value.ShapeOrder
import GlyphStack.Proofs.Program.Extension
import GlyphStack.Proofs.Machine.ProgramPrefix
import GlyphStack.Proofs.Value.Agreement
import GlyphStack.Proofs.Store.Lifted
import GlyphStack.Proofs.Machine.Lifted
import GlyphStack.Proofs.Number.Nearest
import GlyphStack.Proofs.Number.Shortest
import GlyphStack.Proofs.Number.Numeral
import GlyphStack.Proofs.Number.Text
import GlyphStack.Proofs.Number.Packed
import GlyphStack.Proofs.Number.Rounding
import GlyphStack.Proofs.Number.Whole
import GlyphStack.Proofs.Value.Nesting
import GlyphStack.Proofs.Value.Structure
import GlyphStack.Proofs.Store.PrivateCopies
import GlyphStack.Proofs.Value.ComparedCopies
import GlyphStack.Proofs.Value.CyclicTexts
import GlyphStack.Proofs.Store.Relocation
import GlyphStack.Proofs.Store.Snapshots
import GlyphStack.Proofs.Text.Quoted
import GlyphStack.Proofs.Value.Unambiguous
import GlyphStack.Proofs.Machine.Taking
import GlyphStack.Proofs.Machine.Lookup
import GlyphStack.Proofs.Machine.Complaints
import GlyphStack.Proofs.Machine.GatherSpread
import GlyphStack.Proofs.Machine.Slots
import GlyphStack.Proofs.Machine.Indexing
import GlyphStack.Proofs.CommandLine.DefinedNumbers
import GlyphStack.Proofs.Number.NumericTexts
import GlyphStack.Proofs.CommandLine.DefinedNames
