/-! # Binary doubles, exactly

Every finite double is an integer multiple of 2^-1074. `units` reads that integer off the
bits, so that rounding to an integer, comparing, and printing can be decided in exact
arithmetic. -/

namespace TimingStats.Binary64

def negative (x : Float) : Bool := x.toBits >>> 63 != 0

def exponentField (x : Float) : Nat := ((x.toBits >>> 52) &&& 0x7ff).toNat

/-- The fifty-two bits below the leading one. -/
def fractionField (x : Float) : Nat := (x.toBits &&& 0xfffffffffffff).toNat

/-- The leading one of a significand, which is not stored. -/
def hiddenBit : Nat := 0x10000000000000

/-- The significand; a subnormal has no leading one. -/
def significand (x : Float) : Nat :=
  if exponentField x = 0 then fractionField x else fractionField x + hiddenBit

/-- How far the significand stands above 2^-1074. Subnormals share the place of the
smallest normal exponent. -/
def shift (x : Float) : Nat := max (exponentField x) 1 - 1

def isFinite (x : Float) : Bool := exponentField x != 0x7ff

def isNaN (x : Float) : Bool := exponentField x == 0x7ff && fractionField x != 0

/-- The absolute value of a finite double in multiples of 2^-1074. -/
def magnitude (x : Float) : Nat := significand x <<< shift x

/-- The value of a finite double in multiples of 2^-1074. -/
def units (x : Float) : Int :=
  if negative x then -(magnitude x : Int) else (magnitude x : Int)

/-- The number one in multiples of 2^-1074. -/
def one : Nat := 1 <<< 1074

/-- The least integer not below a finite double. -/
def ceil (x : Float) : Int := -Int.fdiv (-units x) one

/-- The integer nearest to a finite double; a half goes away from zero. -/
def round (x : Float) : Int :=
  let n : Int := ((2 * magnitude x + one) / (2 * one) : Nat)
  if negative x then -n else n

/-- The double 2^e, also where it is subnormal: zero below 2^-1074, infinity above 2^1023. -/
def powerOfTwo (e : Int) : Float :=
  if e > 1023 then Float.ofBits 0x7ff0000000000000
  else if e ≥ -1022 then Float.ofBits ((e + 1023).toNat.toUInt64 <<< 52)
  else if e ≥ -1074 then Float.ofBits (1 <<< (e + 1074).toNat.toUInt64)
  else 0

theorem significand_lt (x : Float) : significand x < 2 * hiddenBit := by
  have h : fractionField x < hiddenBit := by
    have := Nat.and_le_right (n := x.toBits.toNat) (m := 0xfffffffffffff)
    simp only [fractionField, UInt64.toNat_and]
    exact Nat.lt_of_le_of_lt this (by decide)
  unfold significand
  split <;> omega

theorem exponentField_lt (x : Float) : exponentField x < 2048 := by
  have := Nat.and_le_right (n := (x.toBits >>> 52).toNat) (m := 0x7ff)
  simp only [exponentField, UInt64.toNat_and]
  exact Nat.lt_of_le_of_lt this (by decide)

theorem shift_le (x : Float) : shift x ≤ 2046 := by
  have := exponentField_lt x
  unfold shift
  omega

end TimingStats.Binary64
