import TimingStats.Histogram

/-! # Bins in one buffer

The bins of a histogram are kept in the words of one buffer, in three parts of equal length: the
values, the counts, and the ranks at which the bins end. An initial stretch of each part is in use.
Words behind it are left over from earlier use, and no answer depends on them. -/

namespace TimingStats

/-- The first position from `low` on, below `high`, at which a test fails that holds of an
initial stretch; `high` if it holds throughout. -/
def partitionPoint (test : Nat → Bool) (low high : Nat) : Nat :=
  if low < high then
    let middle := (low + high) / 2
    if test middle then partitionPoint test (middle + 1) high else partitionPoint test low middle
  else low
termination_by high - low

theorem partitionPoint_le (test : Nat → Bool) (low high : Nat) (h : low ≤ high) :
    low ≤ partitionPoint test low high ∧ partitionPoint test low high ≤ high := by
  fun_induction partitionPoint test low high with
  | case1 low high hlt middle ht ih => have := ih (by omega); omega
  | case2 low high hlt middle ht ih => have := ih (by omega); omega
  | case3 low high hlt => omega

/-- A test that holds of an initial stretch holds below the partition point and fails from it
on. -/
theorem partitionPoint_spec (test : Nat → Bool) (low high : Nat)
    (hmono : ∀ i j, i ≤ j → j < high → test j = true → test i = true) :
    (∀ i, low ≤ i → i < partitionPoint test low high → test i = true) ∧
      (∀ i, partitionPoint test low high ≤ i → i < high → test i = false) := by
  fun_induction partitionPoint test low high with
  | case1 low high hlt middle ht ih =>
    obtain ⟨h1, h2⟩ := ih hmono
    refine ⟨fun i hi hp => ?_, h2⟩
    by_cases hm : middle + 1 ≤ i
    · exact h1 i hm hp
    · exact hmono i middle (by omega) (by omega) ht
  | case2 low high hlt middle ht ih =>
    have hlower : middle < high := by omega
    obtain ⟨h1, h2⟩ := ih fun i j hij hj => hmono i j hij (Nat.lt_trans hj hlower)
    refine ⟨h1, fun i hi hh => ?_⟩
    by_cases hm : i < middle
    · exact h2 i hi hm
    · exact Bool.eq_false_iff.mpr fun hc => ht (hmono middle i (by omega) hh hc)
  | case3 low high hlt => exact ⟨fun i _ _ => by omega, fun i _ _ => by omega⟩

/-- A buffer with room for some number of bins. -/
structure BinStorage (capacity : Nat) where
  words : Vector Nat (3 * capacity)

namespace BinStorage

variable {c c' : Nat}

/-! ## Words -/

def zeros (c : Nat) : BinStorage c := ⟨Vector.replicate (3 * c) 0⟩

def word (s : BinStorage c) (i : Nat) : Nat := s.words[i]?.getD 0

def setWord (s : BinStorage c) (i w : Nat) (h : i < 3 * c) : BinStorage c := ⟨s.words.set i w⟩

/-- Overwrites a stretch of words by one of another buffer, as that is before the first of them is
written. -/
def copy (s : BinStorage c) (place : Nat) (source : BinStorage c') (start : Nat) :
    (count : Nat) → place + count ≤ 3 * c → start + count ≤ 3 * c' → BinStorage c
  | 0, _, _ => s
  | n + 1, h, h' =>
    (s.copy place source start n (Nat.le_of_succ_le h) (Nat.le_of_succ_le h')).setWord (place + n)
      (source.word (start + n)) h

@[simp] theorem word_setWord (s : BinStorage c) (i w : Nat) (h : i < 3 * c) (j : Nat) :
    (s.setWord i w h).word j = if j = i then w else s.word j := by
  unfold word setWord
  rw [Vector.getElem?_set]
  by_cases hij : i = j
  · rw [if_pos hij, if_pos hij.symm]
    rfl
  · rw [if_neg hij, if_neg (Ne.symm hij)]

theorem word_copy (s : BinStorage c) (place : Nat) (source : BinStorage c') (start count : Nat)
    (h : place + count ≤ 3 * c) (h' : start + count ≤ 3 * c') (j : Nat) :
    (s.copy place source start count h h').word j =
      if place ≤ j ∧ j < place + count then source.word (start + (j - place)) else s.word j := by
  induction count with
  | zero => rw [copy, if_neg (by omega)]
  | succ n ih =>
    rw [copy, word_setWord, ih]
    by_cases hj : j = place + n
    · rw [if_pos hj, if_pos (by omega)]
      congr 1
      omega
    · rw [if_neg hj]
      by_cases hin : place ≤ j ∧ j < place + n
      · rw [if_pos hin, if_pos (by omega)]
      · rw [if_neg hin, if_neg (by omega)]

/-! ## Bins -/

/-- The value of a bin. It is held by its bits. -/
def value (s : BinStorage c) (i : Nat) : Int64 := (UInt64.ofNat (s.word i)).toInt64

def count (s : BinStorage c) (i : Nat) : Nat := s.word (c + i)

/-- The number of observations up to a bin, with its own. -/
def endRank (s : BinStorage c) (i : Nat) : Nat := s.word (2 * c + i)

def bin (s : BinStorage c) (i : Nat) : Bin := ⟨s.value i, s.count i⟩

/-- So many of the first bins. -/
def bins (s : BinStorage c) (n : Nat) : List Bin := (List.range n).map s.bin

def endRanks (s : BinStorage c) (n : Nat) : List Nat := (List.range n).map s.endRank

def setCount (s : BinStorage c) (i count : Nat) (h : i < c) : BinStorage c :=
  s.setWord (c + i) count (by omega)

def setEndRank (s : BinStorage c) (i rank : Nat) (h : i < c) : BinStorage c :=
  s.setWord (2 * c + i) rank (by omega)

def setBin (s : BinStorage c) (i : Nat) (b : Bin) (h : i < c) : BinStorage c :=
  (s.setWord i b.value.toUInt64.toNat (by omega)).setCount i b.count h

theorem bin_eq {s : BinStorage c} {t : BinStorage c'} {i j : Nat} (hvalue : t.word i = s.word j)
    (hcount : t.word (c' + i) = s.word (c + j)) : t.bin i = s.bin j := by
  rw [bin, bin, value, value, count, count, hvalue, hcount]

theorem bin_setEndRank (s : BinStorage c) {i : Nat} (rank : Nat) (h : i < c) {j : Nat}
    (hj : j < c) : (s.setEndRank i rank h).bin j = s.bin j := by
  apply bin_eq <;> rw [setEndRank, word_setWord, if_neg (by omega)]

theorem endRank_setEndRank (s : BinStorage c) {i : Nat} (rank : Nat) (h : i < c) (j : Nat) :
    (s.setEndRank i rank h).endRank j = if j = i then rank else s.endRank j := by
  rw [endRank, setEndRank, word_setWord, endRank]
  by_cases hji : j = i
  · rw [if_pos (by omega), if_pos hji]
  · rw [if_neg (by omega), if_neg hji]

theorem bin_setCount (s : BinStorage c) {i : Nat} (count : Nat) (h : i < c) {j : Nat} (hj : j < c) :
    (s.setCount i count h).bin j = if j = i then ⟨s.value i, count⟩ else s.bin j := by
  have hvalue : (s.setCount i count h).value j = s.value j := by
    rw [value, setCount, word_setWord, if_neg (by omega), value]
  rw [bin, hvalue, BinStorage.count, setCount, word_setWord]
  by_cases hji : j = i
  · rw [if_pos (by omega), if_pos hji, hji]
  · rw [if_neg (by omega), if_neg hji]
    rfl

theorem bin_setBin (s : BinStorage c) {i : Nat} (b : Bin) (h : i < c) {j : Nat} (hj : j < c) :
    (s.setBin i b h).bin j = if j = i then b else s.bin j := by
  rw [setBin, bin_setCount _ _ _ hj]
  by_cases hji : j = i
  · rw [if_pos hji, if_pos hji, value, word_setWord, if_pos rfl, UInt64.ofNat_toNat,
      Int64.toInt64_toUInt64]
  · rw [if_neg hji, if_neg hji, bin, value, BinStorage.count, word_setWord, word_setWord,
      if_neg hji, if_neg (by omega)]
    rfl

@[simp] theorem length_bins (s : BinStorage c) (n : Nat) : (s.bins n).length = n := by simp [bins]

@[simp] theorem getElem_bins (s : BinStorage c) {n i : Nat} (h : i < (s.bins n).length) :
    (s.bins n)[i] = s.bin i := by simp [bins]

theorem bins_succ (s : BinStorage c) (n : Nat) : s.bins (n + 1) = s.bins n ++ [s.bin n] := by
  rw [bins, List.range_succ, List.map_append, List.map_singleton, bins]

theorem mem_bins {s : BinStorage c} {n : Nat} {b : Bin} : b ∈ s.bins n ↔ ∃ j < n, s.bin j = b := by
  simp [bins]

theorem take_bins (s : BinStorage c) {i n : Nat} (h : i ≤ n) : (s.bins n).take i = s.bins i := by
  rw [bins, ← List.map_take, List.take_range, Nat.min_eq_left h, bins]

theorem bins_congr {s : BinStorage c} {t : BinStorage c'} {n : Nat}
    (h : ∀ i < n, t.bin i = s.bin i) : t.bins n = s.bins n :=
  List.map_congr_left fun i hi => h i (List.mem_range.mp hi)

theorem bins_setCount (s : BinStorage c) {i n : Nat} (count : Nat) (hi : i < n) (hn : n ≤ c) :
    (s.setCount i count (Nat.lt_of_lt_of_le hi hn)).bins n =
      s.bins i ++ ⟨s.value i, count⟩ :: (s.bins n).drop (i + 1) := by
  have hset : (s.bins n).set i ⟨s.value i, count⟩ =
      s.bins i ++ ⟨s.value i, count⟩ :: (s.bins n).drop (i + 1) := by
    rw [List.set_eq_take_append_cons_drop, if_pos (by simpa), take_bins s (Nat.le_of_lt hi)]
  rw [← hset]
  apply List.ext_getElem
  · simp
  · intro j hj _
    rw [length_bins] at hj
    rw [getElem_bins, bin_setCount _ _ _ (by omega), List.getElem_set, getElem_bins]
    by_cases hji : j = i
    · rw [if_pos hji, if_pos hji.symm]
    · rw [if_neg hji, if_neg (Ne.symm hji)]

/-! ## Search -/

/-- Where a value stands among some number of bins, or else where a bin for it belongs. -/
inductive Place (n : Nat) where
  | held (i : Nat) (h : i < n)
  | gap (i : Nat) (h : i ≤ n)

/-- Looks for a value among so many of the first bins, by halving. -/
def search (s : BinStorage c) (n : Nat) (v : Int64) : Place n :=
  let i := partitionPoint (fun i => s.value i < v) 0 n
  if h : i < n then
    if s.value i = v then .held i h else .gap i (Nat.le_of_lt h)
  else .gap i (partitionPoint_le _ 0 n (Nat.zero_le n)).2

/-- What a place says of a value. -/
def Place.Fits (s : BinStorage c) {n : Nat} (v : Int64) : Place n → Prop
  | .held i _ => (∀ j < i, s.value j < v) ∧ s.value i = v
  | .gap i _ => (∀ j < i, s.value j < v) ∧ ∀ j, i ≤ j → j < n → v < s.value j

theorem value_mono {s : BinStorage c} {n : Nat}
    (h : (s.bins n).Pairwise fun a b => a.value < b.value) {i j : Nat} (hij : i ≤ j) (hj : j < n) :
    s.value i ≤ s.value j := by
  rcases Nat.lt_or_eq_of_le hij with hlt | rfl
  · have := List.pairwise_iff_getElem.mp h i j (by simp; omega) (by simpa) hlt
    simp only [getElem_bins] at this
    exact Int64.le_of_lt this
  · exact Int64.le_refl _

theorem search_fits {s : BinStorage c} {n : Nat}
    (h : (s.bins n).Pairwise fun a b => a.value < b.value) (v : Int64) :
    (s.search n v).Fits s v := by
  obtain ⟨hbelow, habove⟩ := partitionPoint_spec (fun i => s.value i < v) 0 n
    fun i j hij hj ht => decide_eq_true
      (Int64.lt_of_le_of_lt (value_mono h hij hj) (of_decide_eq_true ht))
  have hlow : ∀ j < partitionPoint (fun i => s.value i < v) 0 n, s.value j < v := fun j hj =>
    of_decide_eq_true (hbelow j (Nat.zero_le j) hj)
  unfold search
  dsimp only
  split
  · rename_i hi
    split
    · rename_i heq
      exact ⟨hlow, heq⟩
    · rename_i hne
      refine ⟨hlow, fun j hij hj => ?_⟩
      have hge := Int64.not_lt.mp (of_decide_eq_false (habove _ (Nat.le_refl _) hi))
      have hv := Int64.lt_of_le_of_ne hge (Ne.symm hne)
      exact Int64.lt_of_lt_of_le hv (value_mono h hij hj)
  · exact ⟨hlow, fun j hij hj => by omega⟩

/-! ## A new bin -/

def shift (s : BinStorage c) (i n : Nat) (hi : i ≤ n) (hn : n < c) : BinStorage c :=
  let t := s.copy (i + 1) s i (n - i) (by omega) (by omega)
  t.copy (c + i + 1) t (c + i) (n - i) (by omega) (by omega)

/-- A buffer with room for twice as many bins. The bins from a place on are moved up by one. -/
def grow (s : BinStorage c) (i n : Nat) (hi : i ≤ n) (hn : n ≤ c) (hc : 0 < c) :
    BinStorage (c * 2) :=
  let t := (zeros (c * 2)).copy 0 s 0 i (by omega) (by omega)
  let t := t.copy (i + 1) s i (n - i) (by omega) (by omega)
  let t := t.copy (c * 2) s c i (by omega) (by omega)
  t.copy (c * 2 + i + 1) s (c + i) (n - i) (by omega) (by omega)

/-- A place between the bins is free, and the bins on both sides of it are kept. -/
structure Opened (s : BinStorage c) (t : BinStorage c') (i n : Nat) : Prop where
  before : ∀ j < i, t.bin j = s.bin j
  after : ∀ j, i ≤ j → j < n → t.bin (j + 1) = s.bin j

theorem shift_opened (s : BinStorage c) {i n : Nat} (hi : i ≤ n) (hn : n < c) :
    Opened s (s.shift i n hi hn) i n := by
  constructor
  · intro j hj
    apply bin_eq <;> rw [shift, word_copy, if_neg (by omega), word_copy, if_neg (by omega)]
  · intro j hij hj
    apply bin_eq
    · rw [shift, word_copy, if_neg (by omega), word_copy, if_pos (by omega)]
      congr 1
      omega
    · rw [shift, word_copy, if_pos (by omega), word_copy, if_neg (by omega)]
      congr 1
      omega

theorem grow_opened (s : BinStorage c) {i n : Nat} (hi : i ≤ n) (hn : n ≤ c) (hc : 0 < c) :
    Opened s (s.grow i n hi hn hc) i n := by
  constructor
  · intro j hj
    apply bin_eq
    · rw [grow, word_copy, if_neg (by omega), word_copy, if_neg (by omega), word_copy,
        if_neg (by omega), word_copy, if_pos (by omega)]
      congr 1
      omega
    · rw [grow, word_copy, if_neg (by omega), word_copy, if_pos (by omega)]
      congr 1
      omega
  · intro j hij hj
    apply bin_eq
    · rw [grow, word_copy, if_neg (by omega), word_copy, if_neg (by omega), word_copy,
        if_pos (by omega)]
      congr 1
      omega
    · rw [grow, word_copy, if_pos (by omega)]
      congr 1
      omega

theorem Opened.bins_setBin {s : BinStorage c} {t : BinStorage c'} {i n : Nat} (h : Opened s t i n)
    (hi : i ≤ n) (hn : n < c') (b : Bin) :
    (t.setBin i b (Nat.lt_of_le_of_lt hi hn)).bins (n + 1) =
      s.bins i ++ b :: (s.bins n).drop i := by
  apply List.ext_getElem
  · simp
    omega
  · intro j hj _
    rw [length_bins] at hj
    rw [getElem_bins, bin_setBin _ _ _ (by omega)]
    rcases Nat.lt_trichotomy j i with hlt | rfl | hgt
    · rw [if_neg (by omega), h.before j hlt, List.getElem_append_left (by simpa), getElem_bins]
    · rw [if_pos rfl, List.getElem_append_right (by simp)]
      simp
    · obtain ⟨k, rfl⟩ : ∃ k, j = k + 1 := ⟨j - 1, by omega⟩
      rw [if_neg (by omega), h.after k (by omega) (by omega),
        List.getElem_append_right (by simp; omega)]
      simp only [length_bins, show k + 1 - i = k - i + 1 by omega, List.getElem_cons_succ,
        List.getElem_drop, getElem_bins]
      congr 1
      omega

/-! ## Ranks -/

/-- Writes the ranks at which so many of the first bins end, and gives their total. -/
def fillRanks (s : BinStorage c) : (n : Nat) → n ≤ c → BinStorage c × Nat
  | 0, _ => (s, 0)
  | n + 1, h =>
    let before := s.fillRanks n (Nat.le_of_succ_le h)
    let running := before.2 + before.1.count n
    (before.1.setEndRank n running h, running)

/-- So many of the first bins end where their running totals say. -/
def Ranked (s : BinStorage c) (n : Nat) : Prop :=
  ∀ i < n, s.endRank i = Histogram.total (s.bins (i + 1))

theorem fillRanks_spec (s : BinStorage c) {n : Nat} (h : n ≤ c) :
    (∀ j < c, (s.fillRanks n h).1.bin j = s.bin j) ∧
      (s.fillRanks n h).2 = Histogram.total (s.bins n) ∧ (s.fillRanks n h).1.Ranked n := by
  induction n with
  | zero => exact ⟨fun _ _ => rfl, rfl, fun i hi => absurd hi (Nat.not_lt_zero i)⟩
  | succ n ih =>
    obtain ⟨hbin, htotal, hranked⟩ := ih (Nat.le_of_succ_le h)
    have hbin' : ∀ j < c, (s.fillRanks (n + 1) h).1.bin j = s.bin j := fun j hj =>
      (bin_setEndRank _ _ h hj).trans (hbin j hj)
    have hrunning : (s.fillRanks (n + 1) h).2 = Histogram.total (s.bins (n + 1)) := by
      have hcount := congrArg Bin.count (hbin n h)
      rw [bins_succ, Histogram.total_append, ← htotal, fillRanks]
      exact congrArg (_ + ·) hcount
    refine ⟨hbin', hrunning, fun i hi => ?_⟩
    have hbins : (s.fillRanks (n + 1) h).1.bins (i + 1) = s.bins (i + 1) :=
      bins_congr fun j hj => hbin' j (by omega)
    rw [hbins, fillRanks, endRank_setEndRank]
    by_cases hin : i = n
    · subst hin
      rw [if_pos rfl]
      exact hrunning
    · rw [if_neg hin, hranked i (by omega)]
      exact congrArg _ (bins_congr fun j hj => hbin j (by omega))

/-! ## Writing -/

def writeFrom (s : BinStorage c) (i : Nat) : (bs : List Bin) → i + bs.length ≤ c → BinStorage c
  | [], _ => s
  | b :: bs, h =>
    (s.setBin i b (by simp only [List.length_cons] at h; omega)).writeFrom (i + 1) bs (by
      simp only [List.length_cons] at h
      omega)

theorem bins_writeFrom (s : BinStorage c) (i : Nat) (bs : List Bin) (h : i + bs.length ≤ c) :
    (s.writeFrom i bs h).bins (i + bs.length) = s.bins i ++ bs := by
  induction bs generalizing s i with
  | nil => rw [List.append_nil]; rfl
  | cons b bs ih =>
    rw [List.length_cons] at h
    have hi : i < c := by omega
    have hbins : (s.setBin i b hi).bins i = s.bins i :=
      bins_congr fun j hj => by rw [bin_setBin _ _ _ (by omega), if_neg (by omega)]
    have hlen : i + (b :: bs).length = i + 1 + bs.length := by rw [List.length_cons]; omega
    rw [hlen, writeFrom, ih, bins_succ, hbins, bin_setBin _ _ _ hi, if_pos rfl, List.append_assoc,
      List.singleton_append]

end BinStorage
end TimingStats
