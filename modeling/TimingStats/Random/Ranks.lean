import TimingStats.Random.Words

/-! # Drawing ranks

Resampling needs ranks below a given number, each equally likely. A stream of words gives them
by widening multiplication: the high half of a word times the number is the rank, unless the low
half shows that the word stands for a surplus, in which case the next word is tried. -/

namespace TimingStats.Random

/-- A source of ranks: what it draws lies in the range asked for. -/
class RankSource (σ : Type) where
  draw (n : Nat) (h : 0 < n) : σ → Fin n × σ

namespace RankSource

/-- The greatest low half that is accepted: the number moved up until it fills its word, less
one. -/
def zone (n : Nat) : Nat := (n <<< (63 - Nat.log2 n)) - 1

def rankOf (n : Nat) (h : 0 < n) (w : UInt64) : Fin n :=
  ⟨w.toNat * n / UInt64.size, by
    have hw := w.toNat_lt
    rw [Nat.div_lt_iff_lt_mul (by decide), Nat.mul_comm]
    exact Nat.mul_lt_mul_of_pos_left hw h⟩

/-- Whether a word stands for a rank and not for a surplus. -/
def accepts (n : Nat) (w : UInt64) : Bool := w.toNat * n % UInt64.size ≤ zone n

/-- Tries words until one is accepted. Each is accepted at least every other time, so the last
attempt is never reached in practice; its rank is in range all the same. -/
def drawWithin : Nat → (n : Nat) → 0 < n → WordStream → Fin n × WordStream
  | 0, n, h, s => let (w, s) := s.next; (rankOf n h w, s)
  | attempts + 1, n, h, s =>
    let (w, s) := s.next
    if accepts n w then (rankOf n h w, s) else drawWithin attempts n h s

def attempts : Nat := 1 <<< 60

instance : RankSource WordStream where
  draw := drawWithin attempts

end RankSource
end TimingStats.Random
