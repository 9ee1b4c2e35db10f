import ExprCalculus.Number.Double

/-!
# Nested arrays of numbers

Numbers arrive as a single number, a list of numbers, or lists in lists. Such an array has a shape,
the extents from the outside in, when all parts of a list have the same shape; otherwise it is
ragged.
-/

namespace ExprCalculus

/-- A number, or a list of arrays. -/
inductive NumberArray where
  /-- A single number. -/
  | number (value : Double)
  /-- A list of arrays. -/
  | list (parts : List NumberArray)

namespace NumberArray

mutual

/-- The extents of an array from the outside in, if it is not ragged. -/
def shape? : NumberArray → Option (List Nat)
  | .number _ => some []
  | .list parts => (commonShape? parts).map (parts.length :: ·)

/-- The shape that all arrays of a list have; that of no arrays is a single number's. -/
def commonShape? : List NumberArray → Option (List Nat)
  | [] => some []
  | [part] => shape? part
  | part :: parts =>
    match shape? part, commonShape? parts with
    | some shape, some common => if shape = common then some shape else none
    | _, _ => none

end

/-- The parts of a list; a single number has none. -/
def parts : NumberArray → List NumberArray
  | number _ => []
  | list parts => parts

/-- The value of a single number. -/
def value? : NumberArray → Option Double
  | number value => some value
  | list _ => none

/-- The numbers of a list of numbers. -/
def numbers (array : NumberArray) : List Double := array.parts.filterMap value?

/-- The array of a list of numbers. -/
def ofNumbers (values : List Double) : NumberArray := list (values.map number)

@[simp] theorem numbers_ofNumbers (values : List Double) : (ofNumbers values).numbers = values := by
  induction values with
  | nil => rfl
  | cons value values ih => exact congrArg (value :: ·) ih

/-- Parts with a common shape all have that shape. -/
theorem shape?_of_commonShape? {parts : List NumberArray} {shape : List Nat}
    (h : commonShape? parts = some shape) : ∀ part ∈ parts, part.shape? = some shape := by
  induction parts with
  | nil => exact nofun
  | cons part parts ih =>
    cases parts with
    | nil =>
      rintro other (_ | ⟨_, ⟨⟩⟩)
      exact h
    | cons next parts =>
      unfold commonShape? at h
      split at h
      · rename_i first common hfirst hcommon
        split at h
        · rename_i same
          obtain rfl := Option.some.inj h
          intro other member
          rcases List.mem_cons.mp member with rfl | member
          · exact hfirst
          · exact ih (same ▸ hcommon) other member
        · cases h
      · cases h

/-- Parts of one shape have it in common. -/
theorem commonShape?_of_forall {parts : List NumberArray} {shape : List Nat} (nonempty : parts ≠ [])
    (h : ∀ part ∈ parts, part.shape? = some shape) : commonShape? parts = some shape := by
  induction parts with
  | nil => exact absurd rfl nonempty
  | cons part parts ih =>
    have first := h part List.mem_cons_self
    cases parts with
    | nil => exact first
    | cons next parts =>
      have common := ih (List.cons_ne_nil _ _) fun other member =>
        h other (List.mem_cons_of_mem _ member)
      simp only [commonShape?, first, common, if_true]

/-- The parts of an array with extents have the inner extents. -/
theorem shape?_of_mem_parts {array part : NumberArray} {n : Nat} {shape : List Nat}
    (h : array.shape? = some (n :: shape)) (member : part ∈ array.parts) :
    part.shape? = some shape := by
  cases array with
  | number value => cases member
  | list parts =>
    obtain ⟨common, hcommon, extents⟩ := Option.map_eq_some_iff.mp h
    obtain rfl := (List.cons.inj extents).2
    exact shape?_of_commonShape? hcommon part member

/-- A row of `n` numbers has `n` numbers. -/
theorem length_numbers {array : NumberArray} {n : Nat} (h : array.shape? = some [n]) :
    array.numbers.length = n := by
  have each : ∀ part ∈ array.parts, (value? part).isSome := by
    intro part member
    cases part with
    | number value => rfl
    | list inner =>
      obtain ⟨common, -, extents⟩ := Option.map_eq_some_iff.mp (shape?_of_mem_parts h member)
      cases extents
  rw [numbers, List.filterMap_length_eq_length.mpr each]
  cases array with
  | number value => cases h
  | list parts =>
    obtain ⟨common, -, extents⟩ := Option.map_eq_some_iff.mp h
    exact (List.cons.inj extents).1

end NumberArray

end ExprCalculus
