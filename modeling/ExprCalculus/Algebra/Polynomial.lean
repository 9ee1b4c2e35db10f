import ExprCalculus.Expr.Operation

/-!
# Polynomials in three variables

A polynomial with integer coefficients is a list of terms. Its coefficient at a monomial is the sum
of the coefficients of the terms with that monomial, so the order of the terms means nothing, and a
polynomial is zero exactly when all its coefficients are. The operations keep one term for each
monomial, which keeps them short.
-/

namespace ExprCalculus

/- Sums start from the core library's zero. -/
attribute [local instance (20000)] Zero.ofOfNat0

/-- A product of powers of the variables. -/
structure Monomial where
  /-- The power of the first variable. -/
  x : Nat
  /-- The power of the second variable. -/
  y : Nat
  /-- The power of the third variable. -/
  z : Nat
deriving DecidableEq

namespace Monomial

/-- The empty product. -/
def one : Monomial := ⟨0, 0, 0⟩

/-- A variable. -/
def ofVariable : Variable → Monomial
  | .x => ⟨1, 0, 0⟩
  | .y => ⟨0, 1, 0⟩
  | .z => ⟨0, 0, 1⟩

/-- The product of two monomials adds their powers. -/
def mul (a b : Monomial) : Monomial := ⟨a.x + b.x, a.y + b.y, a.z + b.z⟩

/-- The power of a variable. -/
def degree (m : Monomial) : Variable → Nat
  | .x => m.x
  | .y => m.y
  | .z => m.z

/-- The monomial with the power of a variable lowered by one. -/
def lower (m : Monomial) : Variable → Monomial
  | .x => ⟨m.x - 1, m.y, m.z⟩
  | .y => ⟨m.x, m.y - 1, m.z⟩
  | .z => ⟨m.x, m.y, m.z - 1⟩

end Monomial

/-- A term: a monomial and its coefficient. -/
abbrev PolynomialTerm := Monomial × Int

/-- A polynomial: the sum of its terms. -/
abbrev Poly := List PolynomialTerm

namespace Poly

/-- The coefficient at a monomial. -/
def coefficient (p : Poly) (m : Monomial) : Int :=
  (p.map fun term => if term.1 = m then term.2 else 0).sum

/-- Adds a term: to the term of the same monomial, or else at the end. Terms that cancel are
dropped. -/
def addTerm (term : PolynomialTerm) : Poly → Poly
  | [] => [term]
  | first :: rest =>
    if first.1 = term.1 then
      if first.2 + term.2 = 0 then rest else (first.1, first.2 + term.2) :: rest
    else first :: addTerm term rest

/-- The sum. -/
def add (p q : Poly) : Poly := q.foldl (fun sum term => addTerm term sum) p

/-- The multiple by an integer. -/
def scale (c : Int) (p : Poly) : Poly := p.map fun term => (term.1, c * term.2)

/-- The difference. -/
def sub (p q : Poly) : Poly := add p (scale (-1) q)

/-- The product with a term. -/
def mulTerm (term : PolynomialTerm) (p : Poly) : Poly :=
  p.map fun other => (term.1.mul other.1, term.2 * other.2)

/-- The product. -/
def mul (p q : Poly) : Poly :=
  p.foldl (fun sum term => add sum (mulTerm term q)) []

/-- The product of factors. -/
def expand (factors : List Poly) : Poly := factors.foldl mul [(Monomial.one, 1)]

/-- A constant. -/
def const (c : Int) : Poly := [(Monomial.one, c)]

/-- A variable. -/
def ofVariable (v : Variable) : Poly := [(Monomial.ofVariable v, 1)]

/-- The partial derivative. -/
def derivative (v : Variable) (p : Poly) : Poly :=
  p.map fun term => (term.1.lower v, term.2 * term.1.degree v)

/-- Are all coefficients zero? -/
def isZero (p : Poly) : Bool := p.all fun term => p.coefficient term.1 == 0

/-! ## The test for zero -/

@[simp] theorem coefficient_cons (term : PolynomialTerm) (p : Poly) (m : Monomial) :
    coefficient (term :: p) m = (if term.1 = m then term.2 else 0) + coefficient p m := by
  simp [coefficient]

theorem coefficient_eq_zero_of_not_mem {p : Poly} {m : Monomial}
    (h : ∀ term ∈ p, term.1 ≠ m) : coefficient p m = 0 := by
  induction p with
  | nil => rfl
  | cons term p ih =>
    rw [coefficient_cons, if_neg (h term List.mem_cons_self),
      ih fun term ht => h term (List.mem_cons_of_mem _ ht)]
    rfl

/-- The test for zero looks at the monomials that occur, which are enough. -/
theorem isZero_iff (p : Poly) : isZero p = true ↔ ∀ m, coefficient p m = 0 := by
  simp only [isZero, List.all_eq_true, beq_iff_eq]
  constructor
  · intro h m
    by_cases occurs : ∃ term ∈ p, term.1 = m
    · obtain ⟨term, ht, rfl⟩ := occurs
      exact h term ht
    · exact coefficient_eq_zero_of_not_mem fun term ht same => occurs ⟨term, ht, same⟩
  · intro h term _
    exact h term.1

end Poly

end ExprCalculus
