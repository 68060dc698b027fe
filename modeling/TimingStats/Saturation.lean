import TimingStats.Binary64

/-! # The range of sixty-four bits

Samples are `Int64`. Where a result can leave that range it is computed in `Int` and either
refused or brought back to the nearest end of the range. -/

namespace TimingStats

def fitsInt64 (n : Int) : Bool := Int64.minValue.toInt ≤ n && n ≤ Int64.maxValue.toInt

theorem toInt_ofInt_of_fits {n : Int} (h : fitsInt64 n = true) : (Int64.ofInt n).toInt = n := by
  have hmin : Int64.minValue.toInt = -9223372036854775808 := by decide
  have hmax : Int64.maxValue.toInt = 9223372036854775807 := by decide
  obtain ⟨hl, hu⟩ := Bool.and_eq_true_iff.mp h
  have hl := of_decide_eq_true hl
  have hu := of_decide_eq_true hu
  exact Int64.toInt_ofInt_of_le (by omega) (by omega)

/-- The sample nearest to an integer. -/
def saturate (n : Int) : Int64 :=
  if n < Int64.minValue.toInt then Int64.minValue
  else if n ≤ Int64.maxValue.toInt then Int64.ofInt n
  else Int64.maxValue

theorem toInt_saturate (n : Int) :
    (saturate n).toInt = max Int64.minValue.toInt (min n Int64.maxValue.toInt) := by
  have hmin : Int64.minValue.toInt = -9223372036854775808 := by decide
  have hmax : Int64.maxValue.toInt = 9223372036854775807 := by decide
  unfold saturate
  split
  · omega
  · split
    · rw [toInt_ofInt_of_fits (by simp only [fitsInt64]; grind)]
      omega
    · omega

/-- Doubles convert to the nearest representable sample; a number that is none gives zero. -/
def saturateCeil (x : Float) : Int64 :=
  if Binary64.isFinite x then saturate (Binary64.ceil x)
  else if Binary64.isNaN x then 0
  else if Binary64.negative x then Int64.minValue
  else Int64.maxValue

end TimingStats
