import TimingStats.Binary64

/-! # The fewest digits that read back

A double is written with as few digits as still round to it. The reals that round to it form
an interval, closed when the significand is even; the grids of one, two, and more digits are
tried in turn, and on each only the two neighbours of the value can lie inside. -/

namespace TimingStats

/-- The number `digits * 10 ^ exponent`. -/
structure Decimal where
  digits : Nat
  exponent : Int
  deriving DecidableEq, Repr

namespace Decimal

/-- The neighbour taken when both are equally near. -/
inductive Tie where
  | upward
  | toEven
  deriving DecidableEq, Repr

def Tie.takesLower : Tie → Nat → Bool
  | .upward, _ => false
  | .toEven, lower => lower % 2 == 0

def digitText (n : Nat) : String := String.ofList (Nat.toDigits 10 n)

def intText (n : Int) : String :=
  if n < 0 then "-" ++ digitText n.natAbs else digitText n.natAbs

def powerOfTen (n : Nat) : Nat := Nat.pow 10 n

def digitCount (n : Nat) : Nat := (Nat.toDigits 10 n).length

/-- The integer k with 10^(k-1) ≤ |x| < 10^k, for finite x other than zero. The scale
10^400 lifts the least double above one. -/
def magnitudeOrder (x : Float) : Int :=
  (digitCount (Binary64.magnitude x * powerOfTen 400 / Binary64.one) : Int) - 400

/-- The distance from four times the magnitude down to the end of the interval. The gap is
halved below a power of two, where the doubles stand closer. -/
def lowerGap (x : Float) : Nat :=
  if Binary64.significand x = Binary64.hiddenBit ∧ 1 < Binary64.exponentField x then
    1 <<< Binary64.shift x
  else 2 <<< Binary64.shift x

def upperGap (x : Float) : Nat := 2 <<< Binary64.shift x

/-- Whether `n / (4 * scale)` rounds to |x|. -/
def readsBack (x : Float) (scale n : Nat) : Bool :=
  let low := (4 * Binary64.magnitude x - lowerGap x) * scale
  let high := (4 * Binary64.magnitude x + upperGap x) * scale
  if Binary64.significand x % 2 == 0 then low ≤ n && n ≤ high else low < n && n < high

/-- The multiple of 10^e that is nearest to |x| among those that round to it. -/
def onGrid (x : Float) (tie : Tie) (e : Int) : Option Decimal :=
  let scale := powerOfTen (-e).toNat
  let step := Binary64.one * powerOfTen e.toNat
  let value := Binary64.magnitude x * scale
  let lower := value / step
  match readsBack x scale (4 * lower * step), readsBack x scale (4 * (lower + 1) * step) with
  | false, false => none
  | true, false => some ⟨lower, e⟩
  | false, true => some ⟨lower + 1, e⟩
  | true, true =>
    let below := value - lower * step
    let above := (lower + 1) * step - value
    if below < above || (below == above && tie.takesLower lower) then some ⟨lower, e⟩
    else some ⟨lower + 1, e⟩

/-- A rounding that carries through all digits leaves a zero at the end. -/
def trimZero (d : Decimal) : Decimal :=
  if d.digits % 10 = 0 ∧ 0 < d.digits then trimZero ⟨d.digits / 10, d.exponent + 1⟩ else d
termination_by d.digits

/-- The shortest decimal that reads back as |x|, for finite x other than zero. Seventeen
digits always do. -/
def shortest (x : Float) (tie : Tie) : Decimal :=
  let k := magnitudeOrder x
  let found := (List.range 17).findSome? fun (n : Nat) => onGrid x tie (k - 1 - n)
  trimZero (found.getD ⟨0, 0⟩)

/-- Where the point stands, counted from the left of the digits. -/
def point (d : Decimal) : Int := (digitCount d.digits : Int) + d.exponent

/-- Digits with the point in place and no exponent. -/
def positional (d : Decimal) : String :=
  let digits := Nat.toDigits 10 d.digits
  let k := d.point
  if 0 ≤ d.exponent then String.ofList (digits ++ List.replicate d.exponent.toNat '0')
  else if 0 < k then
    String.ofList (digits.take k.toNat ++ '.' :: digits.drop k.toNat)
  else String.ofList ('0' :: '.' :: (List.replicate (-k).toNat '0' ++ digits))

end Decimal
end TimingStats
