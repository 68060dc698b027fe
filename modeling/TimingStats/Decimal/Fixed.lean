import TimingStats.Decimal.Shortest

/-! # Fixed places

The exact value of a double is rounded once, to a given number of places; a half goes to the
even neighbour. The sign is kept also where all digits are zero. -/

namespace TimingStats.Decimal

/-- The integer nearest to a quotient; a half goes to the even neighbour. -/
def roundHalfEven (num den : Nat) : Nat :=
  let q := num / den
  let r := num % den
  if 2 * r < den || (2 * r == den && q % 2 == 0) then q else q + 1

/-- An unsigned number of hundredths, thousandths, and so on, with its point. -/
def withPoint (places n : Nat) : String :=
  let digits := Nat.toDigits 10 n
  let padded := List.replicate (places + 1 - digits.length) '0' ++ digits
  let whole := padded.length - places
  String.ofList (padded.take whole ++ '.' :: padded.drop whole)

/-- Whether a sign is written before numbers that are not negative. -/
inductive SignStyle where
  | onlyMinus
  | always
  deriving DecidableEq, Repr

def SignStyle.text (style : SignStyle) (negative : Bool) : String :=
  if negative then "-"
  else match style with
    | .onlyMinus => ""
    | .always => "+"

def fixed (places : Nat) (style : SignStyle) (x : Float) : String :=
  if Binary64.isNaN x then "NaN"
  else
    let sign := style.text (Binary64.negative x)
    if Binary64.isFinite x then
      let n := roundHalfEven (Binary64.magnitude x * powerOfTen places) Binary64.one
      sign ++ withPoint places n
    else sign ++ "inf"

/-- A double without an exponent, in the fewest digits that read back. -/
def plain (x : Float) : String :=
  if Binary64.isNaN x then "NaN"
  else
    let sign := SignStyle.onlyMinus.text (Binary64.negative x)
    if !Binary64.isFinite x then sign ++ "inf"
    else if Binary64.magnitude x = 0 then sign ++ "0"
    else sign ++ (shortest x .upward).positional

end TimingStats.Decimal
