import JoinOrder.CostModel
import Mathlib.Data.Int.Order.Basic
import Mathlib.Data.Prod.Lex
/-!
# The order of costs

A float carries no order of its own: it may fail to be a number, and the two zeros are equal without
being the same. On the costs a search accepts none of this matters. Such a cost is a zero, a positive
number or infinity, and comparing two of them is comparing their *places*, the class first, then the
exponent, then the mantissa. A comparison through places inherits everything from the lexicographic
order, so a search over accepted costs may reason as over any strict weak order.

The comparison of floats expects one exponent for each magnitude. That is a property of how floats are
stored, and nothing below depends on it: the places compare as the comparison itself does.
-/

namespace JoinOrder

open Float.Model Float.Model.UnpackedFloat

namespace Cost

/-- Where a float that is not negative stands: its class, its exponent and its mantissa. -/
def placeOf : UnpackedFloat → ℕ ×ₗ ℤ ×ₗ ℕ
  | .finite .positive mantissa exponent _ => toLex (1, toLex (exponent, mantissa))
  | .infinity .positive => toLex (2, toLex (0, 0))
  | _ => toLex (0, toLex (0, 0))

/-- Where a cost stands among the costs that a search accepts. -/
def place (c : Cost) : ℕ ×ₗ ℤ ×ₗ ℕ := placeOf c.value.toModel.unpack

theorem unpack_zero : Cost.zero.value.toModel.unpack = .zero .positive := by
  rfl

theorem le_iff_compare (a b : Cost) :
    a ≤ b ↔ (a.value.toModel.unpack.compare b.value.toModel.unpack).any Ordering.isLE = true := by
  change (decide (UnpackedFloat.le _ _ = true)) = true ↔ _
  rw [decide_eq_true_iff, UnpackedFloat.le]

private theorem lt_iff_compare (a b : Cost) :
    a < b ↔ a.value.toModel.unpack.compare b.value.toModel.unpack = some .lt := by
  change (decide (UnpackedFloat.lt _ _ = true)) = true ↔ _
  rw [decide_eq_true_iff, UnpackedFloat.lt, beq_iff_eq]

theorem isValid_eq_false_iff (c : Cost) :
    c.isValid = false ↔ c.value.isNaN = true ∨ c < Cost.zero := by
  have hnan : c.value.isNaN = c.value.toModel.unpack.isNaN := rfl
  rw [isValid, decide_eq_false_iff_not, le_iff_compare, lt_iff_compare, unpack_zero, hnan]
  cases c.value.toModel.unpack with
  | infinity s => cases s <;> decide
  | notANumber => decide
  | zero s => cases s <;> decide
  | finite s m e h =>
    have hnumber : (UnpackedFloat.finite s m e h).isNaN = false := rfl
    rw [hnumber]
    cases s <;> dsimp only [UnpackedFloat.compare] <;> decide

theorem unpack_of_isValid {c : Cost} (h : c.isValid = true) :
    (∃ s, c.value.toModel.unpack = .zero s) ∨
      (∃ m e hm, c.value.toModel.unpack = .finite .positive m e hm) ∨
      c.value.toModel.unpack = .infinity .positive := by
  rw [isValid, decide_eq_true_iff, le_iff_compare, unpack_zero] at h
  generalize c.value.toModel.unpack = x at h
  cases x with
  | infinity s =>
    cases s with
    | positive => exact Or.inr (Or.inr rfl)
    | negative => exact absurd h Bool.false_ne_true
  | notANumber => exact absurd h Bool.false_ne_true
  | zero s => exact Or.inl ⟨s, rfl⟩
  | finite s m e hm =>
    cases s with
    | positive => exact Or.inr (Or.inl ⟨m, e, hm, rfl⟩)
    | negative => exact absurd h Bool.false_ne_true

/-- **Accepted costs compare as their places do.** -/
theorem lt_iff_place_lt {a b : Cost} (ha : a.isValid = true) (hb : b.isValid = true) :
    a < b ↔ a.place < b.place := by
  rw [lt_iff_compare, place, place]
  rcases unpack_of_isValid ha with ⟨s, ha⟩ | ⟨m, e, hm, ha⟩ | ha <;>
    rcases unpack_of_isValid hb with ⟨s', hb⟩ | ⟨m', e', hm', hb⟩ | hb <;>
    rw [ha, hb] <;>
    dsimp only [UnpackedFloat.compare, placeOf] <;>
    simp [Prod.Lex.toLex_lt_toLex, Ordering.then_eq_lt, compare_lt_iff_lt]

theorem lt_of_lt_of_not_lt {a b c : Cost} (ha : a.isValid = true) (hb : b.isValid = true)
    (hc : c.isValid = true) (hab : a < b) (hcb : ¬c < b) : a < c := by
  rw [lt_iff_place_lt ha hb] at hab
  rw [lt_iff_place_lt hc hb] at hcb
  rw [lt_iff_place_lt ha hc]
  exact hab.trans_le (not_lt.mp hcb)

theorem not_lt_of_lt {a b : Cost} (ha : a.isValid = true) (hb : b.isValid = true) (hab : a < b) :
    ¬b < a := by
  rw [lt_iff_place_lt ha hb] at hab
  rw [lt_iff_place_lt hb ha]
  exact hab.not_gt

theorem not_lt_self {a : Cost} (ha : a.isValid = true) : ¬a < a := by
  rw [lt_iff_place_lt ha ha]
  exact lt_irrefl _

end Cost

end JoinOrder
