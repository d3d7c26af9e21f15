import Pushdown.Proofs.Parser.Spans
import Pushdown.Proofs.Tree.Lexemes

/-!
Lexeme trees of trees that have been parsed. They show the whole tree, and since the leaves of a parsed tree are
terminals, the kinds of its nodes can be read from the codes.
-/

namespace Pushdown

namespace NodeKind

end NodeKind

namespace Grammar

variable {grammar : Grammar}

end Grammar

end Pushdown
