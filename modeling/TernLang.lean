import TernLang.Bytecode
import TernLang.Main
import TernLang.Value.Equality
import TernLang.Proofs.Eval.Control
import TernLang.Proofs.Eval.Errors
import TernLang.Proofs.Syntax.BlockEnds
import TernLang.Proofs.Syntax.Lexing
import TernLang.Proofs.Eval.Repeating
import TernLang.Proofs.Eval.Piecewise
import TernLang.Proofs.Eval.Inlining
import TernLang.Proofs.Eval.Integers
import TernLang.Proofs.Value.Arithmetic
import TernLang.Proofs.Syntax.Refusals
import TernLang.Proofs.Syntax.Progress
import TernLang.Proofs.Syntax.Chains
import TernLang.Proofs.Eval.Wrapping
import TernLang.Proofs.Syntax.Quoting
import TernLang.Proofs.Syntax.Separating
import TernLang.Proofs.Eval.Unused
import TernLang.Proofs.Store.History
import TernLang.Proofs.Eval.HashLiterals
import TernLang.Proofs.Eval.ReadingBack
import TernLang.Proofs.Value.Equivalence
import TernLang.Proofs.Bytecode.Disassembly
import TernLang.Proofs.Settings.Limit
import TernLang.Proofs.Files.Canonical
import TernLang.Proofs.Syntax.Masking
import TernLang.Proofs.Syntax.LineEnds
import TernLang.Proofs.Eval.FileRuns
