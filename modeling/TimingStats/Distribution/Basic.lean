import TimingStats.Accumulator
import TimingStats.Distribution.Table
import TimingStats.Random.Ranks

/-! # Empirical distributions

A builder takes observations one by one. Built, it becomes a distribution, which answers
questions by rank and by value and can be drawn from. A distribution is reset to an empty
builder. Both are views of one buffer, which goes from the one to the other. -/

namespace TimingStats

/-- A sorted table that takes insertions. -/
structure Builder extends BinTable where
  sorted : toBinTable.Sorted

inductive DistributionError where
  | empty
  deriving DecidableEq, Repr

def DistributionError.message : DistributionError → String
  | .empty => "cannot build a distribution with no observations"

/-- A sorted table that is not empty, with the ranks at which its bins end. -/
structure Distribution extends BinTable where
  sorted : toBinTable.Sorted
  nonempty : 0 < numBins
  ranked : storage.Ranked numBins

namespace Builder

/-- The bins of three eight-byte slots that a page of 4096 bytes holds. -/
def defaultCapacity : Nat := 170

def ofCapacity (capacity : Nat) (h : 0 < capacity) : Builder where
  capacity
  capacity_pos := h
  storage := .zeros capacity
  numBins := 0
  fits := Nat.zero_le capacity
  sorted := .of_numBins rfl

def new : Builder := ofCapacity defaultCapacity (by decide)

/-- An empty builder with room for some number of bins. Each bin takes three slots of eight
bytes, which must be countable and addressable. -/
def withCapacity (capacity : Nat) : Except Fault Builder :=
  if h : 0 < capacity then
    if UInt64.size ≤ 3 * capacity then .error .slotCountOverflow
    else if UInt64.size / 2 ≤ 24 * capacity then .error .allocationTooLarge
    else .ok (ofCapacity capacity h)
  else .error .zeroCapacity

def histogram (b : Builder) : Histogram := ⟨b.bins, b.sorted.increasing, b.sorted.positive⟩

def isEmpty (b : Builder) : Bool := b.numBins == 0

def size (b : Builder) : Nat := b.histogram.size

def insert (b : Builder) (v : Int64) : Builder := ⟨b.toBinTable.insert v, b.sorted.insert v⟩

@[simp] theorem histogram_insert (b : Builder) (v : Int64) :
    (b.insert v).histogram = b.histogram.insert v := by
  have hbins : (b.insert v).bins = Histogram.insertBin v b.bins := BinTable.bins_insert b.sorted v
  simp only [histogram, Histogram.insert, hbins]

def insertAll (b : Builder) (vs : List Int64) : Builder := vs.foldl insert b

def finish (b : Builder) (h : 0 < b.numBins) : Distribution where
  toBinTable := b.toBinTable.ranked
  sorted := BinTable.sorted_of_bins b.sorted b.bins_ranked
  nonempty := h
  ranked := b.ranked_spec

/-- A distribution needs at least one observation. -/
def build (b : Builder) : Except DistributionError Distribution :=
  if h : b.numBins = 0 then .error .empty else .ok (b.finish (Nat.pos_of_ne_zero h))

theorem build_of_pos {b : Builder} (h : 0 < b.numBins) : b.build = .ok (b.finish h) :=
  dif_neg (Nat.ne_of_gt h)

@[simp] theorem bins_finish (b : Builder) (h : 0 < b.numBins) : (b.finish h).bins = b.bins :=
  b.bins_ranked

theorem numBins_insert_pos (b : Builder) (v : Int64) : 0 < (b.insert v).numBins := by
  have hbins : (b.insert v).bins = Histogram.insertBin v b.bins := BinTable.bins_insert b.sorted v
  rw [← BinTable.length_bins, hbins]
  exact List.length_pos_iff.mpr (Histogram.insertBin_ne_nil v b.bins)

end Builder

namespace Distribution

def histogram (d : Distribution) : Histogram := ⟨d.bins, d.sorted.increasing, d.sorted.positive⟩

theorem last_lt (d : Distribution) : d.numBins - 1 < d.numBins := Nat.sub_one_lt_of_lt d.nonempty

def size (d : Distribution) : Nat := d.storage.endRank (d.numBins - 1)

theorem size_eq (d : Distribution) : d.size = d.histogram.size := by
  have hrank := d.ranked (d.numBins - 1) d.last_lt
  rwa [Nat.sub_one_add_one (Nat.ne_of_gt d.nonempty)] at hrank

theorem bins_ne_nil (d : Distribution) : d.bins ≠ [] := fun h =>
  Nat.ne_of_gt d.nonempty (BinTable.bins_eq_nil_iff.mp h)

theorem size_pos (d : Distribution) : 0 < d.size :=
  d.size_eq ▸ d.histogram.size_pos d.bins_ne_nil

def distinct (d : Distribution) : Nat := d.numBins

/-- The ranks at which the bins end. -/
def endRanks (d : Distribution) : List Nat := d.storage.endRanks d.numBins

def min (d : Distribution) : Int64 := d.storage.value 0

def max (d : Distribution) : Int64 := d.storage.value (d.numBins - 1)

/-- The value at a rank among all observations in increasing order, which is that of the first
bin that ends above it. -/
def valueAt (d : Distribution) (rank : Fin d.size) : Int64 :=
  d.storage.value (partitionPoint (fun i => d.storage.endRank i ≤ rank) 0 d.numBins)

/-- The value at a rank, which must be below the number of observations. -/
def valueAtRank (d : Distribution) (rank : Nat) : Except Fault Int64 :=
  if h : rank < d.size then .ok (d.valueAt ⟨rank, h⟩) else .error (.rankOutOfRange rank)

def countAtMost (d : Distribution) (v : Int64) : Nat :=
  match d.storage.search d.numBins v with
  | .held i _ => d.storage.endRank i
  | .gap 0 _ => 0
  | .gap (i + 1) _ => d.storage.endRank i

/-- Draws one observation, each being equally likely. -/
def choose [Random.RankSource σ] (d : Distribution) (s : σ) : Int64 × σ :=
  let (rank, s) := Random.RankSource.draw d.size d.size_pos s
  (d.valueAt rank, s)

/-- Integers are taken apart in parts of forty-eight bits. -/
def limbBase : Int := 0x1000000000000

/-- An integer in three parts, the highest with the sign; each part is a double without
rounding. -/
def limbs (n : Int) : List Float :=
  [Float.ofInt (n % limbBase),
    Float.ofInt (n / limbBase % limbBase) * Binary64.powerOfTwo 48,
    Float.ofInt (n / limbBase / limbBase) * Binary64.powerOfTwo 96]

def total (d : Distribution) : Except Fault Accumulator :=
  d.bins.foldlM (fun sum b => sum.addAll (limbs (b.value.toInt * b.count))) .zero

/-- The mean of all observations; the total is exact. -/
def mean (d : Distribution) : Except Fault Float := do
  return (← d.total).toFloat / Float.ofNat d.size

def reset (d : Distribution) : Builder := ⟨d.toBinTable.cleared, .of_numBins rfl⟩

end Distribution
end TimingStats
