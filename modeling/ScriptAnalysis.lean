import ScriptAnalysis.Main
import ScriptAnalysis.Proofs.Typing.Returns
import ScriptAnalysis.Proofs.Typing.Naming
import ScriptAnalysis.Proofs.Typing.Faultless
import ScriptAnalysis.Proofs.Diagnostic.Placement
import ScriptAnalysis.Proofs.Typing.Inheritance
import ScriptAnalysis.Proofs.Typing.Placeholders
import ScriptAnalysis.Proofs.Typing.Literal
import ScriptAnalysis.Proofs.Grammar.Precedence
import ScriptAnalysis.Proofs.Grammar.ResultType
import ScriptAnalysis.Proofs.Propagation.Explanation
import ScriptAnalysis.Proofs.Typing.TemplateCalls
import ScriptAnalysis.Proofs.Typing.EmptyLiterals
import ScriptAnalysis.Proofs.Typing.Parentheses
import ScriptAnalysis.Proofs.Grammar.Lookahead
import ScriptAnalysis.Proofs.Grammar.Progress
import ScriptAnalysis.Proofs.Grammar.Integers
import ScriptAnalysis.Proofs.Table.Lookup
import ScriptAnalysis.Proofs.Table.Registration
import ScriptAnalysis.Proofs.Token.Escaping
