import Mathlib
import ExprCalculus.Algebra.Form
import ExprCalculus.Expr.Inspect
import ExprCalculus.Proofs.ExactArithmetic
import ExprCalculus.Proofs.Literal
import ExprCalculus.Proofs.TermReading
import ExprCalculus.Proofs.WellFormedness

/-!
# Terms mean what their expressions mean

A term of an algebra system has a value of its own, computed from sums, products, powers with
integers and the functions in it. Not every term has one: a negative power of zero, an infinity and
not-a-number have none. The term of an expression has the expression's exact value wherever the
expression is defined, although the two are computed by different operations.

The values are a reading of terms, and so changes of sign, quotients, means and variances have those
of the operations that they stand for. A choice is made at once where its condition is a number, and
that is shown here to be the choice that the value of the condition makes.
-/

namespace ExprCalculus

/- Powers of natural numbers are those of the core library. -/
attribute [local instance (20000)] instPowNat instNatPowNat

/-! ## Values of terms -/

variable {K : Type} [Field K]

/-- The exact value of a double that is finite and no integer. -/
def Double.fractional? : Double → Option K
  | .finite negative code =>
    if (finite negative code).toInt? = none then some (finite negative code).exact else none
  | _ => none

/-- Only a finite double that is no integer has a fractional value, and this is its exact one. -/
theorem Double.fractional?_eq_some {d : Double} {a : K} (h : d.fractional? = some a) :
    ∃ negative code, d = .finite negative code ∧ d.toInt? = none ∧ d.exact = a := by
  cases d with
  | nan => cases h
  | infinite negative => cases h
  | finite negative code =>
    rw [fractional?] at h
    split at h
    · rename_i fraction
      exact ⟨negative, code, rfl, fraction, Option.some.inj h⟩
    · cases h

theorem Double.fractional?_of_toInt? {negative : Bool} {code : Fin codes}
    (h : (finite negative code).toInt? = none) :
    (finite negative code).fractional? = some ((finite negative code).exact : K) := by
  rw [fractional?, if_pos h]

/-- Whether a double is an integer does not depend on its sign. -/
theorem Double.toInt?_eq_none_iff {negative : Bool} {code : Fin codes} :
    (finite negative code).toInt? = none ↔ ¬ units code % 2 ^ (1074 : Nat) = 0 := by
  rw [toInt?]
  by_cases whole : units code % 2 ^ (1074 : Nat) = 0
  · rw [if_pos whole]
    exact iff_of_false (Option.some_ne_none _) (not_not_intro whole)
  · rw [if_neg whole]
    exact iff_of_true rfl whole

theorem Double.exact_not (negative : Bool) (code : Fin codes) :
    (Double.finite (!negative) code).exact = -((Double.finite negative code).exact : K) := by
  cases negative <;> simp [exact]

theorem cast_two_pow (k : Nat) : ((2 ^ k : Nat) : K) = 2 ^ k := Nat.cast_pow 2 k

/-- An integral double has the value of the integer it stands for. -/
theorem Double.exact_of_toInt? [CharZero K] {d : Double} {n : Int} (h : d.toInt? = some n) :
    d.exact = (n : K) := by
  cases d with
  | nan => cases h
  | infinite negative => cases h
  | finite negative code =>
    obtain ⟨magnitude, sign⟩ := toInt?_finite h
    have unit : (2 ^ 1074 : K) ≠ 0 := pow_ne_zero _ two_ne_zero
    have units_eq : (units code : K) = n.natAbs * 2 ^ 1074 := by
      rw [magnitude, Nat.cast_mul]
      exact congrArg _ (cast_two_pow 1074)
    rw [exact, units_eq, mul_div_cancel_right₀ _ unit, sign]
    cases negative <;> simp

/-- A double that is no integer is not zero, so its sign is that of its value. -/
theorem Double.exact_nonneg_iff [LinearOrder K] [IsStrictOrderedRing K] {negative : Bool}
    {code : Fin codes} (fraction : (finite negative code).toInt? = none) :
    0 ≤ ((finite negative code).exact : K) ↔ negative = false := by
  have positive : 0 < units code := by
    rw [toInt?_eq_none_iff] at fraction
    refine Nat.pos_of_ne_zero fun zero => fraction ?_
    exact Nat.mod_eq_zero_of_dvd (zero ▸ Nat.dvd_zero _)
  have unit : (0 : K) < 2 ^ 1074 := pow_pos two_pos 1074
  have magnitude : 0 < (units code / 2 ^ 1074 : K) := div_pos (Nat.cast_pos.mpr positive) unit
  rw [exact]
  cases negative with
  | false =>
    rw [if_neg Bool.false_ne_true, one_mul]
    exact iff_of_true magnitude.le rfl
  | true =>
    rw [if_pos rfl, neg_one_mul]
    exact iff_of_false (not_le.mpr (neg_neg_of_pos magnitude)) Bool.false_ne_true.symm

namespace Form

instance : Inhabited Form := ⟨nan⟩

variable [LinearOrder K] (E : K → K) (point : Variable → K)

mutual

/-- The value of a term at a point, with the function `E` for the exponential. A real number is none
of the integers, and a power has an integer for its exponent. -/
def value? : Form → Option K
  | .integer n => some n
  | .real value => value.fractional?
  | .infinity => none
  | .negativeInfinity => none
  | .nan => none
  | .symbol v => some (point v)
  | .sum terms => (valueAll? terms).map List.sum
  | .product factors => (valueAll? factors).map List.prod
  | .power base (.integer n) =>
    (value? base).bind fun b => if b = 0 ∧ n < 0 then none else some (b ^ n)
  | .power _ _ => none
  | .abs argument => (value? argument).map fun a => |a|
  | .exp argument => (value? argument).map E
  | .piecewise condition onTrue onFalse =>
    (value? condition).bind fun c => if 0 ≤ c then value? onTrue else value? onFalse

/-- The values of several terms, if each of them has one. -/
def valueAll? : List Form → Option (List K)
  | [] => some []
  | form :: forms => (value? form).bind fun a => (valueAll? forms).map (a :: ·)

end

variable {E point}

@[simp] theorem value?_integer (n : Int) : (integer n).value? E point = some (n : K) := rfl

@[simp] theorem value?_real (d : Double) : (real d).value? E point = d.fractional? := rfl

theorem value?_abs (f : Form) :
    (abs f).value? E point = (f.value? E point).map fun a => |a| := rfl

theorem value?_exp (f : Form) : (exp f).value? E point = (f.value? E point).map E := rfl

theorem value?_piecewise (c f g : Form) : (piecewise c f g).value? E point =
    (c.value? E point).bind fun a => if 0 ≤ a then f.value? E point else g.value? E point := rfl

/-! ## The reading by values -/

/-- The opposite of a term, where it is written without a factor, has the opposite value. -/
theorem value?_opposite? {f g : Form} {a : K} (h : f.opposite? = some g)
    (hf : f.value? E point = some a) : g.value? E point = some (-a) := by
  cases f with
  | integer n =>
    cases h
    cases hf
    simp
  | real d =>
    obtain ⟨negative, code, rfl, fraction, rfl⟩ := Double.fractional?_eq_some hf
    cases h
    rw [Double.toInt?_eq_none_iff] at fraction
    rw [value?_real, Double.fractional?_of_toInt? (Double.toInt?_eq_none_iff.mpr fraction),
      Double.exact_not]
  | infinity | negativeInfinity | nan => cases hf
  | symbol | sum | product | power | abs | exp | piecewise => cases h

variable (E point) in
/-- The value of a term at a point reads sums, products and powers as the field has them. -/
theorem reading_value? : Reading (value? E point) (valueAll? E point) where
  integer _ := rfl
  nan := rfl
  opposite := value?_opposite?
  all_nil := rfl
  all_cons _ _ := rfl
  sum _ := rfl
  product _ := rfl
  power _ _ := rfl

/-! ## Bell curves and choices -/

/-- The bell curve has its value as a term where its width does not vanish. -/
theorem value?_gauss [CharZero K] {f g h k : Form} {a b c x : K}
    (hf : f.value? E point = some a) (hg : g.value? E point = some b)
    (hh : h.value? E point = some c) (hk : k.value? E point = some x) (width : c ≠ 0) :
    (gauss f g h k).value? E point = some ((Arithmetic.exact E).gauss a b c x) := by
  have reading := reading_value? E point
  have position := reading.quotient (reading.difference hk hg) hh width
  have two : (integer 2).value? E point = some (2 : K) := by simp
  have power := reading.quotient (reading.neg (reading.square position)) two two_ne_zero
  have bell : (exp (quotient (neg (square (quotient (difference k g) h))) (integer 2))).value? E
      point = some (E (-((x - b) / c * ((x - b) / c)) / 2)) := by
    rw [value?_exp, power, Option.map_some]
  rw [gauss, reading.times_eq_product hf, reading.mul hf bell]
  simp [Arithmetic.gauss]

/-- A condition that is a number decides the choice as its value does. -/
theorem value?_choose [IsStrictOrderedRing K] {f g h : Form} {c a b : K}
    (hf : f.value? E point = some c) (hg : g.value? E point = some a)
    (hh : h.value? E point = some b) :
    (choose f g h).value? E point = some (if 0 ≤ c then a else b) := by
  unfold choose
  split
  · rename_i n
    cases hf
    have sign : 0 ≤ (n : K) ↔ 0 ≤ n := Int.cast_nonneg_iff
    by_cases nonneg : 0 ≤ n
    · rw [if_pos nonneg, if_pos (sign.mpr nonneg), hg]
    · rw [if_neg nonneg, if_neg (sign.not.mpr nonneg), hh]
  · rename_i negative code
    -- The sign decides, and that of minus zero would decide wrongly, but a real is not zero.
    rw [value?_real] at hf
    obtain ⟨_, _, same, fraction, rfl⟩ := Double.fractional?_eq_some hf
    have sign : 0 ≤ ((Double.finite negative code).exact : K) ↔ negative = false :=
      Double.exact_nonneg_iff fraction
    cases negative with
    | false => rw [if_neg Bool.false_ne_true, if_pos (sign.mpr rfl), hg]
    | true => rw [if_pos rfl, if_neg (sign.not.mpr Bool.false_ne_true.symm), hh]
  · rw [value?_piecewise, hf, Option.bind_some]
    split
    · exact hg
    · exact hh

end Form

/-! ## Expressions -/

namespace Expr

/-- Every constant is a number, neither an infinity nor not-a-number. -/
def FiniteConstants (e : Expr) : Prop :=
  ∀ value ∈ e.constants, ∃ negative code, value = .finite negative code

theorem constants_app (op : Op) (es : List Expr) :
    (app op es).constants = es.flatMap constants := by
  rw [constants, preorder_eq, operands_app, List.filterMap_cons_none rfl, List.filterMap_flatMap]
  rfl

theorem FiniteConstants.operand {op : Op} {es : List Expr} (h : (app op es).FiniteConstants)
    {e : Expr} (he : e ∈ es) : e.FiniteConstants := by
  intro value hvalue
  refine h value ?_
  rw [constants_app]
  exact List.mem_flatMap.mpr ⟨e, he, hvalue⟩

end Expr

variable [LinearOrder K] (E : K → K) {point : Variable → K}

/-- A finite constant has its exact value as a term, whether it is written as an integer or not. -/
theorem Form.value?_ofDouble [CharZero K] (negative : Bool) (code : Fin Double.codes) :
    (ofDouble (.finite negative code)).value? E point =
      some (Double.finite negative code).exact := by
  generalize value_eq : Double.finite negative code = value
  cases h : value.toInt? with
  | some n => rw [ofDouble_of_toInt? h, value?_integer, Double.exact_of_toInt? h]
  | none =>
    rw [ofDouble_of_not_integer h]
    subst value_eq
    exact Double.fractional?_of_toInt? h

/-- The term of an operation that accepts its operands has the value of the operation, where the
operand that must not be zero is not. -/
theorem Form.exists_ofOp?_value? [IsStrictOrderedRing K] {op : Op} {es : List Expr}
    {form : Expr → Form} (count : op.accepts es.length = true)
    (each : ∀ e ∈ es, (form e).value? E point = some (e.eval (.exact E) point))
    (denominator : ∀ d, Expr.denominator? op es = some d → d.eval (.exact E) point ≠ 0) :
    ∃ f, ofOp? op (es.map form) = some f ∧
      f.value? E point = some ((Expr.app op es).eval (.exact E) point) := by
  have reading := reading_value? E point
  have field := Arithmetic.exact_ofField E
  rw [Expr.eval_app]
  cases Op.applied_of_accepts count with
  | add a b => exact ⟨_, rfl, reading.add (each a (by simp)) (each b (by simp))⟩
  | subtract a b => exact ⟨_, rfl, reading.sub (each a (by simp)) (each b (by simp))⟩
  | multiply a b => exact ⟨_, rfl, reading.mul (each a (by simp)) (each b (by simp))⟩
  | divide a b =>
    exact ⟨_, rfl, reading.div (each a (by simp)) (each b (by simp)) (denominator b rfl)⟩
  | negate a => exact ⟨_, rfl, reading.neg (each a (by simp))⟩
  | abs a =>
    refine ⟨_, rfl, ?_⟩
    rw [value?_abs, each a (by simp)]
    rfl
  | iff c a b =>
    exact ⟨_, rfl, value?_choose (each c (by simp)) (each a (by simp)) (each b (by simp))⟩
  | mean => exact ⟨_, rfl, reading.mean field each⟩
  | var => exact ⟨_, rfl, reading.variance field each⟩
  | gauss a b c x =>
    exact ⟨_, rfl, value?_gauss (each a (by simp)) (each b (by simp)) (each c (by simp))
      (each x (by simp)) (denominator c rfl)⟩

namespace Expr

/-- The term of a well-formed expression with finite constants has, wherever the expression is
defined, the exact value of the expression. -/
theorem exists_form?_value? [IsStrictOrderedRing K] {e : Expr} (wellFormed : e.WellFormed)
    (finite : e.FiniteConstants) (defined : e.DefinedAt E point) :
    ∃ form, e.form? = some form ∧ form.value? E point = some (e.eval (.exact E) point) := by
  induction e with
  | const value =>
    obtain ⟨negative, code, rfl⟩ := finite value (by simp [constants, preorder, const?])
    exact ⟨_, rfl, Form.value?_ofDouble E negative code⟩
  | var v => exact ⟨_, rfl, rfl⟩
  | app op es ih =>
    obtain ⟨count, formed⟩ := wellFormed_app.mp wellFormed
    obtain ⟨denominator, operands⟩ := (definedAt_app E).mp defined
    choose! form hform hvalue using fun e he => ih e he (formed e he) (finite.operand he)
      (operands e he)
    rw [form?, fold_app, ← form?, mapM_id_map hform, Option.bind_some]
    exact Form.exists_ofOp?_value? E count hvalue denominator

/-- A bell curve with one half for its center over a variance, less a choice on minus one half, at
`(1, 2, 3)`. -/
theorem exists_form?_value?_choice :
    let half : Double := .finite false ⟨0x3FE0000000000000, by decide⟩
    let e : Expr := .app .subtract [
      .app .divide [
        .app .gauss [.var .x, .const half, .var .y, .var .x], .app .var [.var .x, .var .z]],
      .app .iff [.app .negate [.const half], .app .mean [], .app .abs [.var .z]]]
    let point : Variable → ℚ := fun v => v.index + 1
    let E : ℚ → ℚ := fun q => q + 1
    e.WellFormed ∧ e.FiniteConstants ∧ e.DefinedAt E point ∧
      ∃ form, e.form? = some form ∧ form.value? E point = some (e.eval (.exact E) point) := by
  intro half e point E
  have wellFormed : e.WellFormed := by
    simp [e, wellFormed_app, Op.accepts, Op.arity, WellFormed.const, WellFormed.var]
  have finite : e.FiniteConstants := by
    intro value hvalue
    have constants_eq : e.constants = [half, half] := rfl
    rw [constants_eq] at hvalue
    obtain rfl : value = half := by simpa using hvalue
    exact ⟨_, _, rfl⟩
  have defined : e.DefinedAt E point := by
    simp [e, point, definedAt_app, denominator?, DefinedAt.const, DefinedAt.var, Arithmetic.apply,
      Arithmetic.variance, Arithmetic.squaredDeviations, Arithmetic.mean_exact, Variable.index]
    norm_num
  exact ⟨wellFormed, finite, defined, exists_form?_value? E wellFormed finite defined⟩

end Expr

end ExprCalculus
