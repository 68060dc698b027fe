/-! # Classes of characters as ranges

A class of characters is an array of closed ranges of code points. -/

namespace TimingStats.Text

abbrev Ranges := Array (Nat × Nat)

def Ranges.contains (ranges : Ranges) (c : Char) : Bool :=
  ranges.any fun (low, high) => low ≤ c.toNat && c.toNat ≤ high

end TimingStats.Text
