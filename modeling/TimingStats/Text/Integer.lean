import TimingStats.Saturation

/-! # Reading integers

A decimal integer is an optional sign and one or more digits. The digits are read from the left,
so whichever of a foreign character and a number out of range comes first decides the error. -/

namespace TimingStats.Text

inductive IntegerError where
  | invalidDigit
  | tooLarge
  | tooSmall
  deriving DecidableEq, Repr

def IntegerError.message : IntegerError → String
  | .invalidDigit => "invalid digit found in string"
  | .tooLarge => "number too large to fit in target type"
  | .tooSmall => "number too small to fit in target type"

def digitValue (c : Char) : Option Nat :=
  if '0' ≤ c ∧ c ≤ '9' then some (c.toNat - '0'.toNat) else none

/-- Reads digits after a number already read, up to a limit. -/
def readDigits (limit : Nat) (past : IntegerError) : Nat → List Char → Except IntegerError Nat
  | n, [] => .ok n
  | n, c :: cs =>
    match digitValue c with
    | none => .error .invalidDigit
    | some d => if limit < 10 * n + d then .error past else readDigits limit past (10 * n + d) cs

def readNat (limit : Nat) (past : IntegerError) (cs : List Char) : Except IntegerError Nat :=
  if cs.isEmpty then .error .invalidDigit else readDigits limit past 0 cs

def readInt64 : List Char → Except IntegerError Int64
  | '-' :: cs => do return Int64.ofInt (-(← readNat (UInt64.size / 2) .tooSmall cs))
  | '+' :: cs => do return Int64.ofInt (← readNat (UInt64.size / 2 - 1) .tooLarge cs)
  | cs => do return Int64.ofInt (← readNat (UInt64.size / 2 - 1) .tooLarge cs)

/-- Reads a number below 2^64, which may have a plus sign. -/
def readUInt64 : List Char → Except IntegerError Nat
  | '+' :: cs => readNat (UInt64.size - 1) .tooLarge cs
  | cs => readNat (UInt64.size - 1) .tooLarge cs

end TimingStats.Text
