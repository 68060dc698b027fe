import TimingStats.Decimal.Shortest
import TimingStats.Text.Integer

/-! # Reading real numbers

A decimal number is an optional sign and digits, with a point anywhere among or around them, and
an optional exponent; infinity and numbers that are none have names. The double nearest to the
number is taken. -/

namespace TimingStats.Text

/-- The double nearest to `digits * 10 ^ exponent`. Far out of range it is not worked out. -/
def nearestDouble (digits : Nat) (exponent : Int) : Float :=
  let order := (Decimal.digitCount digits : Int) + exponent
  if digits = 0 ∨ order < -400 then 0
  else if 400 < order then Binary64.powerOfTwo 1024
  else Float.ofScientific digits (exponent < 0) exponent.natAbs

/-- The digits at the head of a text, and the rest. -/
def digitsThen (cs : List Char) : List Char × List Char :=
  cs.span fun c => (digitValue c).isSome

def digitsNat (cs : List Char) : Nat :=
  cs.foldl (fun n c => 10 * n + (digitValue c).getD 0) 0

/-- Reads an exponent and nothing after it; there need not be one. -/
def readExponent : List Char → Option Int
  | [] => some 0
  | c :: cs =>
    if c = 'e' ∨ c = 'E' then
      let (negative, cs) := match cs with
        | '-' :: cs => (true, cs)
        | '+' :: cs => (false, cs)
        | cs => (false, cs)
      let (digits, rest) := digitsThen cs
      if digits.isEmpty || !rest.isEmpty then none
      else
        let n : Int := digitsNat digits
        some (if negative then -n else n)
    else none

def readUnsigned (cs : List Char) : Option Float :=
  let (whole, rest) := digitsThen cs
  let (fraction, rest) := match rest with
    | '.' :: rest => digitsThen rest
    | rest => ([], rest)
  if whole.isEmpty && fraction.isEmpty then none
  else (readExponent rest).map fun e =>
    nearestDouble (digitsNat (whole ++ fraction)) (e - fraction.length)

/-- The numbers that have names, whatever their case. -/
def namedNumber (cs : List Char) : Option Float :=
  match String.ofList (cs.map Char.toLower) with
  | "inf" | "infinity" => some (Binary64.powerOfTwo 1024)
  | "nan" => some (Float.ofBits 0x7ff8000000000000)
  | _ => none

def readMagnitude (cs : List Char) : Option Float := (namedNumber cs).or (readUnsigned cs)

def readReal : List Char → Option Float
  | '-' :: cs => (readMagnitude cs).map fun x => -x
  | '+' :: cs => readMagnitude cs
  | cs => readMagnitude cs

end TimingStats.Text
