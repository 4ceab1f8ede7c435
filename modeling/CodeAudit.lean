import CodeAudit.Main
import CodeAudit.Proofs.Audit.Failures
import CodeAudit.Proofs.Body.Assignment
import CodeAudit.Proofs.Body.Progress
import CodeAudit.Proofs.Body.Spacing
import CodeAudit.Proofs.Bracket.Matching
import CodeAudit.Proofs.Class.Definition
import CodeAudit.Proofs.Cleaning.Keywords
import CodeAudit.Proofs.Command.Requests
import CodeAudit.Proofs.Declaration.MacroEnd
import CodeAudit.Proofs.Declaration.ParameterSpacing
import CodeAudit.Proofs.Leak.Top
import CodeAudit.Proofs.Nesting.Depth
import CodeAudit.Proofs.Nesting.Indentation
import CodeAudit.Proofs.SourceText.FinalBreak
import CodeAudit.Proofs.SourceText.FlatReports
import CodeAudit.Proofs.SourceText.Functions
import CodeAudit.Proofs.SourceText.Lines
import CodeAudit.Proofs.Statement.BareLoops
import CodeAudit.Proofs.Statement.Chains
import CodeAudit.Proofs.Statement.Frames
import CodeAudit.Proofs.Stylesheet.Comments
import CodeAudit.Proofs.Stylesheet.Progress
import CodeAudit.Proofs.Token.Reader
import CodeAudit.RuleTree
