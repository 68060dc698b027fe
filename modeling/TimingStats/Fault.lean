import TimingStats.Decimal.Fixed

/-! # Faults

A fault is a broken precondition or a number that has outgrown its room. It ends the
computation, unlike the errors of reading, building, and comparing, which a caller is expected
to meet. -/

namespace TimingStats

inductive Fault where
  /-- A sum carried out of its highest word. -/
  | carryOut
  /-- A difference borrowed past the words of the larger number. -/
  | borrowOut
  /-- A difference with its sides exchanged was left with a borrow. -/
  | swappedBorrow
  /-- A builder without room for any bin. -/
  | zeroCapacity
  /-- The slots of a builder cannot be counted in sixty-four bits. -/
  | slotCountOverflow
  /-- The slots of a builder cannot be addressed. -/
  | allocationTooLarge
  /-- A derived distribution was to be written over observations. -/
  | builderNotEmpty
  | rankOutOfRange (rank : Nat)
  | scaleOverflow (value factor : Int64)
  | invalidTolerance (tolerance : Float)
  /-- A flag was to be cleared where there is none. -/
  | nothingFlagged
  /-- A sample was flagged while the flagged one before it was leaving the window. -/
  | flaggedTwice
  /-- A sum of counters left the range of sixty-four bits. -/
  | countOverflow
  /-- A difference of counters fell below zero. -/
  | countUnderflow

def Fault.message : Fault → String
  | .carryOut => "accumulator overflow: carry out of the highest word"
  | .borrowOut => "accumulator invariant: borrow past the highest word"
  | .swappedBorrow => "accumulator invariant: swapped subtraction left a borrow"
  | .zeroCapacity => "distribution capacity must be at least 1"
  | .slotCountOverflow => "attempt to multiply with overflow"
  | .allocationTooLarge => "capacity overflow"
  | .builderNotEmpty => "derived distributions need an empty builder"
  | .rankOutOfRange rank => "rank " ++ Decimal.digitText rank ++ " out of range"
  | .scaleOverflow value factor =>
    "scaling " ++ Decimal.intText value.toInt ++ " by " ++ Decimal.intText factor.toInt ++
      " overflows i64"
  | .invalidTolerance tolerance =>
    "tolerance must be finite and non-negative, got " ++ Decimal.plain tolerance
  | .nothingFlagged => "assertion failed: self.outlier_idx.is_some()"
  | .flaggedTwice => "assertion failed: !(is_outlier && evicted_was_outlier)"
  | .countOverflow => "attempt to add with overflow"
  | .countUnderflow => "attempt to subtract with overflow"

end TimingStats
