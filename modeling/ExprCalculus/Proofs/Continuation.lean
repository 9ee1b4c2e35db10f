import Mathlib
import ExprCalculus.Proofs.Diagnosis

/-!
# Texts that go on

A text that is rejected before its end stays rejected, and for the same reason, whatever follows it:
the reader takes one lexeme after another, and of the text itself it looks only at what the lexemes
so far have covered. Only that the text ended may be revised. An accepted text stays accepted as
long as nothing but a gap follows, and then the first token is one too many.

What follows must not go on with the last word of the text, or it would change the last lexeme.
-/

namespace ExprCalculus

variable {mode : Mode} {text more : List Char}

namespace Bracketed

/-! ## The reader does not look ahead -/

end Bracketed

open Bracketed

end ExprCalculus
