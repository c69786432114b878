import FlowLang.Files.Directory
import FlowLang.Main
import FlowLang.Program.Editing
import FlowLang.Proofs.Analysis.Modes
import FlowLang.Proofs.Program.Comments
import FlowLang.Proofs.Program.Relocation
import FlowLang.Proofs.Recovery.Control
import FlowLang.Proofs.Token.Shift
import FlowLang.Proofs.Writing.Basic
import FlowLang.Proofs.Recovery.Definition
import FlowLang.Proofs.Recovery.Resume
import FlowLang.Proofs.Recovery.Flush
import FlowLang.Proofs.Recovery.Chunks
import FlowLang.Proofs.Recovery.Isolation
import FlowLang.Proofs.Trivia.Bare
import FlowLang.Proofs.Trivia.Line
import FlowLang.Proofs.Trivia.Block
import FlowLang.Proofs.Trivia.Control
import FlowLang.Proofs.Trivia.Definition
import FlowLang.Proofs.Token.Lexeme
import FlowLang.Proofs.Trivia.Padding
import FlowLang.Proofs.Program.Sites
import FlowLang.Proofs.Analysis.Resolution
import FlowLang.Proofs.Analysis.Findings
import FlowLang.Proofs.Trivia.Inert
import FlowLang.Proofs.Writing.Piece
import FlowLang.Proofs.Writing.Layout
import FlowLang.Proofs.Writing.Clean
import FlowLang.Proofs.Writing.Group
import FlowLang.Proofs.Writing.LoopHeader
import FlowLang.Proofs.Resolution.Exact
import FlowLang.Proofs.Grammar.Context
import FlowLang.Proofs.Grammar.EveryLine
import FlowLang.Proofs.Writing.Definition
import FlowLang.Proofs.Writing.RoundTrip
import FlowLang.Proofs.Token.Typeset
import FlowLang.Proofs.Token.Balance
import FlowLang.Proofs.Joined.Blocks
import FlowLang.Proofs.Joined.Lines
import FlowLang.Proofs.Joined.Sources
import FlowLang.Proofs.Grammar.Ending
import FlowLang.Proofs.Grammar.Nesting
import FlowLang.Proofs.Joined.Faults
import FlowLang.Proofs.Grammar.Order
import FlowLang.Proofs.Resolution.Reordered
import FlowLang.Proofs.Json.Layout
import FlowLang.Proofs.Json.Lossless
import FlowLang.Proofs.Analysis.LoopControl
import FlowLang.Proofs.Resolution.Appended
import FlowLang.Proofs.Joined.FirstLines
import FlowLang.Proofs.Grammar.CommentsAbove
import FlowLang.Proofs.Json.Document
import FlowLang.Proofs.Analysis.UnreachableCode
import FlowLang.Proofs.Analysis.SilentRaces
import FlowLang.Proofs.Grammar.KeptTexts
import FlowLang.Proofs.Grammar.LoopHeader
import FlowLang.Proofs.Settings.Layers
import FlowLang.Proofs.Token.Listing
import FlowLang.Proofs.Token.Parentheses
import FlowLang.Proofs.Settings.Printed
