import TimingStats.Binary64
import TimingStats.Fault
import TimingStats.Words

/-! # Exact sums of doubles

Every finite double is an integer multiple of 2^-1074 and smaller than 2^1024, so a running sum
fits in a fixed number of words with a sign beside them. Additions are exact, and rounding
happens once, in `toFloat`. The state is kept canonical, so equal sums are equal states in
whatever order the values came. Sums are meant for finite values. -/

namespace TimingStats

/-- Thirty-three words reach from 2^-1074 past every finite double; one more takes carries. -/
def Accumulator.wordCount : Nat := 34

/-- The magnitude of a double: two adjacent words, the first of them at some place. -/
structure Addend where
  low : UInt64
  high : UInt64
  place : Nat
  place_le : place ≤ 31

namespace Addend

def ofFloat (x : Float) : Addend :=
  let wide := Binary64.significand x <<< (Binary64.shift x % 64)
  ⟨UInt64.ofNat wide, UInt64.ofNat (wide / UInt64.size), Binary64.shift x / 64, by
    have := Binary64.shift_le x
    omega⟩

def word (x : Addend) (i : Nat) : UInt64 :=
  if i = x.place then x.low else if i = x.place + 1 then x.high else 0

def top (x : Addend) : Nat := if x.high = 0 then x.place else x.place + 1

theorem top_lt (x : Addend) : x.top < Accumulator.wordCount := by
  have := x.place_le
  unfold top Accumulator.wordCount
  split <;> omega

/-- Both words of an addend have a place among the words of a sum. -/
theorem place_lt (x : Addend) : x.place + 1 < Accumulator.wordCount := by
  have := x.place_le
  unfold Accumulator.wordCount
  omega

end Addend

/-- A sign and a magnitude in multiples of 2^-1074, with the place of the highest word that is
not zero. Zero has its highest word at place zero and no sign. -/
structure Accumulator where
  words : Vector UInt64 Accumulator.wordCount
  top : Nat
  negative : Bool
  top_lt : top < Accumulator.wordCount
  deriving DecidableEq

namespace Accumulator

def zero : Accumulator := ⟨Vector.replicate wordCount 0, 0, false, by decide⟩

/-- The magnitude of the sum in multiples of 2^-1074. -/
def magnitude (a : Accumulator) : Nat := Words.below (Words.get a.words) wordCount

/-- The sum in multiples of 2^-1074. -/
def value (a : Accumulator) : Int := if a.negative then -(a.magnitude : Int) else a.magnitude

def isZero (a : Accumulator) : Bool := a.top == 0 && Words.get a.words 0 == 0

def isNegative (a : Accumulator) : Bool := a.negative

/-- The place of the highest word that is not zero, searched downwards; zero if there is none. -/
def lowerTop (words : Vector UInt64 wordCount) : (start : Nat) → start < wordCount → Nat
  | 0, _ => 0
  | i + 1, h => if words[i + 1] = 0 then lowerTop words i (Nat.lt_of_succ_lt h) else i + 1

theorem lowerTop_le (words : Vector UInt64 wordCount) {start : Nat} (h : start < wordCount) :
    lowerTop words start h ≤ start := by
  induction start with
  | zero => exact Nat.le_refl 0
  | succ i ih =>
    rw [lowerTop]
    split
    · exact Nat.le_succ_of_le (ih (Nat.lt_of_succ_lt h))
    · exact Nat.le_refl (i + 1)

/-- Restores the canonical form, searching for the highest word from `start` down. -/
def trimmed (words : Vector UInt64 wordCount) (start : Nat) (h : start < wordCount)
    (negative : Bool) : Accumulator :=
  let top := lowerTop words start h
  ⟨words, top, negative && !(top == 0 && Words.get words 0 == 0),
    Nat.lt_of_le_of_lt (lowerTop_le words h) h⟩

/-- Hands a carry on to the words from a place up. With the words goes the place after the last
of them that took it. -/
def carryUp (words : Vector UInt64 n) (i : Nat) (hi : i ≤ n) (carry : Bool) :
    Except Fault (Vector UInt64 n × { j : Nat // j ≤ n }) :=
  if carry then
    if h : i < n then
      let sum := Words.addAt words i 1 false h
      carryUp sum.1 (i + 1) h sum.2
    else .error .carryOut
  else .ok (words, ⟨i, hi⟩)
termination_by n - i

/-- Takes a borrow from the words from a place up, as far as the highest in use. -/
def borrowUp (words : Vector UInt64 n) (i top : Nat) (htop : top < n) (borrow : Bool) :
    Except Fault (Vector UInt64 n) :=
  if borrow then
    if h : i ≤ top then
      let difference := Words.subAt words i 1 false (Nat.lt_of_le_of_lt h htop)
      borrowUp difference.1 (i + 1) top htop difference.2
    else .error .borrowOut
  else .ok words
termination_by top + 1 - i

def addMagnitude (a : Accumulator) (x : Addend) : Except Fault Accumulator := do
  let low := Words.addAt a.words x.place x.low false (Nat.lt_of_succ_lt x.place_lt)
  let high := Words.addAt low.1 (x.place + 1) x.high low.2 x.place_lt
  let (words, next) ← carryUp high.1 (x.place + 2) x.place_lt high.2
  return trimmed words (max a.top (next.val - 1)) (by
    have h1 := a.top_lt
    have h2 := next.property
    unfold wordCount at *
    omega) a.negative

def subtractMagnitude (a : Accumulator) (x : Addend) : Except Fault Accumulator := do
  let low := Words.subAt a.words x.place x.low false (Nat.lt_of_succ_lt x.place_lt)
  let high := Words.subAt low.1 (x.place + 1) x.high low.2 x.place_lt
  let words ← borrowUp high.1 (x.place + 2) a.top a.top_lt high.2
  return trimmed words a.top a.top_lt a.negative

def jointTop (a : Accumulator) (x : Addend) : Nat := max a.top x.top

theorem jointTop_lt (a : Accumulator) (x : Addend) : a.jointTop x < wordCount :=
  Nat.max_lt.mpr ⟨a.top_lt, x.top_lt⟩

/-- Takes the magnitude away from a greater one, whose sign the result has. -/
def subtractFrom (a : Accumulator) (x : Addend) (negative : Bool) : Except Fault Accumulator :=
  let difference := Words.subFrom x.word a.words (a.jointTop x + 1) (a.jointTop_lt x)
  if difference.2 then .error .swappedBorrow
  else .ok (trimmed difference.1 (a.jointTop x) (a.jointTop_lt x) negative)

def compareMagnitude (a : Accumulator) (x : Addend) : Ordering :=
  Words.compareBelow a.words x.word (a.jointTop x + 1) (a.jointTop_lt x)

/-- Adds a double exactly. Neither zero changes the sum. -/
def add (a : Accumulator) (x : Float) : Except Fault Accumulator :=
  let addend := Addend.ofFloat x
  if Binary64.significand x = 0 then .ok a
  else if Binary64.negative x = a.negative then a.addMagnitude addend
  else if a.compareMagnitude addend = .lt then a.subtractFrom addend (Binary64.negative x)
  else a.subtractMagnitude addend

def addAll (a : Accumulator) (xs : List Float) : Except Fault Accumulator := xs.foldlM add a

def ofList (xs : List Float) : Except Fault Accumulator := zero.addAll xs

/-- The sum as a double: the words are converted and added from the lowest up. -/
def toFloat (a : Accumulator) : Float :=
  let total := (a.words.toList.take (a.top + 1)).zipIdx.foldl (fun total (w, i) =>
    if w = 0 then total
    else total + w.toFloat * Binary64.powerOfTwo (64 * (i : Int) - 1074)) 0
  if a.negative then -total else total

end Accumulator

/-- The sum of the values, independent of their order. -/
def exactSum (xs : List Float) : Except Fault Float := do
  return (← Accumulator.ofList xs).toFloat

def exactMean (xs : List Float) : Except Fault (Option Float) := do
  if xs.isEmpty then return none
  return some ((← exactSum xs) / Float.ofNat xs.length)

end TimingStats
