import TimingStats.Proofs.Binary64.Faithful
import TimingStats.Proofs.Binary64.Order
import TimingStats.Proofs.Binary64.Quotients

/-! # Doubles that are not finite

A double that is no number stands in no order, and what is worked out from it is none either. Any
other is finite or an infinity, and an infinity is in order with finite doubles only at their outer
end. -/

namespace TimingStats.Binary64

open Float.Model Float.Model.UnpackedFloat

variable {x y : Float}

/-! ## Doubles that are no number -/

theorem unpack_of_isNaN (h : isNaN x = true) : x.toModel.unpack = .notANumber := by
  obtain ⟨he, hm⟩ := Bool.and_eq_true_iff.mp h
  rw [unpack_eq, if_pos (beq_iff_eq.mp he), if_neg (bne_iff_ne.mp hm)]

theorem isNaN_eq_false_of_le (h : x ≤ y) : isNaN x = false ∧ isNaN y = false := by
  have hle : UnpackedFloat.le x.toModel.unpack y.toModel.unpack = true := of_decide_eq_true h
  have hleft : ∀ a, UnpackedFloat.le .notANumber a = false := fun a => by cases a <;> rfl
  have hright : ∀ a, UnpackedFloat.le a .notANumber = false := fun a => by cases a <;> rfl
  constructor
  · by_contra hx
    rw [unpack_of_isNaN (Bool.eq_true_of_not_eq_false hx), hleft] at hle
    cases hle
  · by_contra hy
    rw [unpack_of_isNaN (Bool.eq_true_of_not_eq_false hy), hright] at hle
    cases hle

theorem not_lt_of_isNaN (h : isNaN x = true) : ¬ x < y ∧ ¬ y < x := by
  constructor
  · exact fun hlt => absurd (isNaN_eq_false_of_le (Binary64.le_of_lt hlt)).1 (by rw [h]; decide)
  · exact fun hlt => absurd (isNaN_eq_false_of_le (Binary64.le_of_lt hlt)).2 (by rw [h]; decide)

/-- A product of what is no number is none, and so is a quotient. -/
theorem isNaN_mul (h : isNaN x = true) (y : Float) : isNaN (x * y) = true := by
  have hmul : x * y = .ofModel (.pack
      (UnpackedFloat.mul Format.binary64 x.toModel.unpack y.toModel.unpack)) := rfl
  have hnone : ∀ a, UnpackedFloat.mul Format.binary64 .notANumber a = .notANumber := fun a => by
    cases a <;> rfl
  rw [hmul, unpack_of_isNaN h, hnone]
  decide +kernel

theorem isNaN_div (h : isNaN x = true) (y : Float) : isNaN (x / y) = true := by
  have hdiv : x / y = .ofModel (.pack
      (UnpackedFloat.div Format.binary64 x.toModel.unpack y.toModel.unpack)) := rfl
  have hnone : ∀ a, UnpackedFloat.div Format.binary64 .notANumber a = .notANumber := fun a => by
    cases a <;> rfl
  rw [hdiv, unpack_of_isNaN h, hnone]
  decide +kernel

/-! ## Infinities -/

theorem finite_or_infinite (h : isNaN x = false) :
    isFinite x = true ∨ ∃ b, x = signedInfinity b := by
  by_cases he : exponentField x = 2047
  · have hm : fractionField x = 0 := by
      by_contra hm
      simp [isNaN, he, hm] at h
    have hunpack := unpack_eq x
    rw [if_pos he, if_pos hm] at hunpack
    exact .inr ⟨_, eq_signedInfinity hunpack⟩
  · exact .inl ((isFinite_iff x).mpr he)

/-- Numbers in order are finite but for an infinity at the outer end of either. -/
theorem finite_of_le (h : x ≤ y) (hx : x ≠ signedInfinity true) (hy : y ≠ signedInfinity false) :
    isFinite x = true ∧ isFinite y = true := by
  obtain ⟨hnx, hny⟩ := isNaN_eq_false_of_le h
  have hlow : signedInfinity true ≤ 0 := by decide +kernel
  have hhigh : (0 : Float) ≤ signedInfinity false := by decide +kernel
  rcases finite_or_infinite hnx with hxf | ⟨_ | _, rfl⟩
  · rcases finite_or_infinite hny with hyf | ⟨_ | _, rfl⟩
    · exact ⟨hxf, hyf⟩
    · exact absurd rfl hy
    · exact ⟨hxf, isFinite_of_between hxf zero_value.1 h hlow⟩
  · rcases finite_or_infinite hny with hyf | ⟨_ | _, rfl⟩
    · exact ⟨isFinite_of_between zero_value.1 hyf hhigh h, hyf⟩
    · exact absurd rfl hy
    · exact absurd h (by decide +kernel)
  · exact absurd rfl hx

end TimingStats.Binary64
