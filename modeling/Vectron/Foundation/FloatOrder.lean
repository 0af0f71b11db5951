import Mathlib

/-! # The order of floating-point numbers

`<` on `Float` and `Float32` is a strict order on all values, NaN included, although it is
not total: NaN and the two zeros are incomparable. The proof sends every number except
NaN to a key in a linear order.
-/

namespace Foundation

open Float.Model

/-- The class of a number, then its exponent and mantissa, all negated below zero. -/
def floatKey : UnpackedFloat → Option (Int ×ₗ Int ×ₗ Int)
  | .notANumber => none
  | .infinity .negative => some (toLex (-2, toLex (0, 0)))
  | .infinity .positive => some (toLex (2, toLex (0, 0)))
  | .zero _ => some (toLex (0, toLex (0, 0)))
  | .finite .negative mantissa exponent _ => some (toLex (-1, toLex (-exponent, -mantissa)))
  | .finite .positive mantissa exponent _ => some (toLex (1, toLex (exponent, mantissa)))

private theorem compare_then_eq_lt {e₁ e₂ : Int} {m₁ m₂ : Nat} :
    (compare e₁ e₂).then (compare m₁ m₂) = .lt ↔ e₁ < e₂ ∨ e₁ = e₂ ∧ m₁ < m₂ := by
  rw [Ordering.then_eq_lt, compare_lt_iff_lt, compare_lt_iff_lt, compare_eq_iff_eq]

private theorem compare_then_eq_gt {e₁ e₂ : Int} {m₁ m₂ : Nat} :
    (compare e₁ e₂).then (compare m₁ m₂) = .gt ↔ e₂ < e₁ ∨ e₁ = e₂ ∧ m₂ < m₁ := by
  rw [Ordering.then_eq_gt, compare_gt_iff_gt, compare_gt_iff_gt, compare_eq_iff_eq]

theorem unpackedFloat_lt_iff (left right : UnpackedFloat) :
    left.lt right = true ↔
      ∃ x y, floatKey left = some x ∧ floatKey right = some y ∧ x < y := by
  rw [UnpackedFloat.lt, beq_iff_eq]
  rcases left with (_ | _) | _ | _ | ⟨_ | _, m₁, e₁, _⟩ <;>
    rcases right with (_ | _) | _ | _ | ⟨_ | _, m₂, e₂, _⟩ <;>
    simp [UnpackedFloat.compare, floatKey, Prod.Lex.lt_iff, compare_then_eq_lt,
      compare_then_eq_gt]
  case infinity.negative.infinity.positive => rfl

theorem float_lt_iff {x y : Float} :
    x < y ↔ ∃ a b, floatKey x.toModel.unpack = some a ∧ floatKey y.toModel.unpack = some b ∧
      a < b :=
  decide_eq_true_iff.trans (unpackedFloat_lt_iff x.toModel.unpack y.toModel.unpack)

theorem float_lt_asymm {x y : Float} (hlt : x < y) : ¬ y < x := by
  obtain ⟨a, b, ha, hb, hab⟩ := float_lt_iff.mp hlt
  intro hgt
  obtain ⟨b', a', hb', ha', hba⟩ := float_lt_iff.mp hgt
  obtain rfl := Option.some.inj (ha.symm.trans ha')
  obtain rfl := Option.some.inj (hb.symm.trans hb')
  exact lt_asymm hab hba

theorem float_lt_trans {x y z : Float} (hxy : x < y) (hyz : y < z) : x < z := by
  obtain ⟨a, b, ha, hb, hab⟩ := float_lt_iff.mp hxy
  obtain ⟨b', c, hb', hc, hbc⟩ := float_lt_iff.mp hyz
  obtain rfl := Option.some.inj (hb.symm.trans hb')
  exact float_lt_iff.mpr ⟨a, c, ha, hc, lt_trans hab hbc⟩

theorem float32_lt_iff {x y : Float32} :
    x < y ↔ ∃ a b, floatKey x.toModel.unpack = some a ∧ floatKey y.toModel.unpack = some b ∧
      a < b :=
  decide_eq_true_iff.trans (unpackedFloat_lt_iff x.toModel.unpack y.toModel.unpack)

theorem float32_lt_irrefl (x : Float32) : ¬ x < x := by
  intro hlt
  obtain ⟨a, b, ha, hb, hab⟩ := float32_lt_iff.mp hlt
  obtain rfl := Option.some.inj (ha.symm.trans hb)
  exact lt_irrefl a hab

theorem float32_lt_trans {x y z : Float32} (hxy : x < y) (hyz : y < z) : x < z := by
  obtain ⟨a, b, ha, hb, hab⟩ := float32_lt_iff.mp hxy
  obtain ⟨b', c, hb', hc, hbc⟩ := float32_lt_iff.mp hyz
  obtain rfl := Option.some.inj (hb.symm.trans hb')
  exact float32_lt_iff.mpr ⟨a, c, ha, hc, lt_trans hab hbc⟩

end Foundation
