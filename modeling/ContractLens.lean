import ContractLens.CommandLine.Run
import ContractLens.Declaration.Search
import ContractLens.Document.Lookup
import ContractLens.Document.Store
import ContractLens.Grammar.Program
import ContractLens.Main
import ContractLens.Proofs.Declaration.Walk
import ContractLens.Proofs.Grammar.Record
import ContractLens.Server
import ContractLens.Syntax.Export
import ContractLens.Syntax.Position
import ContractLens.Syntax.Tree
import ContractLens.Proofs.Declaration.Occurrence
import ContractLens.Proofs.Declaration.Reference
import ContractLens.Proofs.Declaration.Answer
import ContractLens.Proofs.LineIndex.Place
import ContractLens.Proofs.Token.Scan
import ContractLens.Proofs.Declaration.Declared
import ContractLens.Proofs.Document.Lookup
import ContractLens.Proofs.Grammar.Wording
import ContractLens.Proofs.Grammar.Completeness
import ContractLens.Proofs.Grammar.MemberCompleteness
import ContractLens.Proofs.Grammar.ProgramCompleteness
import ContractLens.Proofs.Grammar.Canonical
import ContractLens.Proofs.Grammar.Lossless
import ContractLens.Proofs.Grammar.Layout
import ContractLens.Proofs.Grammar.Locality
import ContractLens.Proofs.Grammar.Completion
import ContractLens.Proofs.Grammar.CorrectPrefix
import ContractLens.Proofs.Grammar.MissingBrace
import ContractLens.Proofs.Token.Lookahead
import ContractLens.Proofs.Token.Gap
import ContractLens.Proofs.Token.Pattern
import ContractLens.Proofs.Token.Tokenization
import ContractLens.Proofs.LineIndex.Count
import ContractLens.Proofs.LineIndex.Inverse
import ContractLens.Proofs.Token.Coverage
import ContractLens.Proofs.Server.Isolation
import ContractLens.Proofs.Declaration.FixedPoint
import ContractLens.Proofs.Document.FixedPoint
import ContractLens.Proofs.Syntax.Part
import ContractLens.Proofs.Grammar.Passage
import ContractLens.Proofs.Grammar.Standing
import ContractLens.Proofs.Grammar.Position
import ContractLens.Proofs.Document.Validity
import ContractLens.Proofs.Document.Boundary
import ContractLens.Proofs.Document.Splice
import ContractLens.Proofs.Document.Batch
import ContractLens.Proofs.CommandLine.Definition
import ContractLens.Proofs.Document.Coordinate
import ContractLens.Proofs.Document.Simultaneous
import ContractLens.Proofs.Document.Undo
import ContractLens.Proofs.Declaration.Confinement
import ContractLens.Proofs.Declaration.Rearrangement
import ContractLens.Proofs.Token.Respacing
import ContractLens.Proofs.Declaration.ScopeLog
import ContractLens.Proofs.Declaration.Discipline
import ContractLens.Proofs.Token.Complete
import ContractLens.Proofs.Syntax.Outline
import ContractLens.Proofs.Syntax.Label
import ContractLens.Proofs.Syntax.Printed
import ContractLens.Proofs.Grammar.Printing
import ContractLens.Proofs.Grammar.Cursor
import ContractLens.Proofs.Grammar.Follow
import ContractLens.Proofs.Grammar.Progress
import ContractLens.Proofs.Grammar.MemberProgress
import ContractLens.Proofs.Grammar.ProgramProgress
