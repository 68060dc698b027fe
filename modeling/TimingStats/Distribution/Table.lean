import TimingStats.Distribution.Storage

/-! # Tables of bins

A buffer with the number of its bins that are in use. An insertion counts a value in its bin or
opens one for it in its place. Room doubles when it runs out; a larger buffer is taken to be there
when it is asked for. -/

namespace TimingStats

structure BinTable where
  capacity : Nat
  capacity_pos : 0 < capacity
  storage : BinStorage capacity
  numBins : Nat
  fits : numBins ≤ capacity

namespace BinTable

variable {t : BinTable}

def bins (t : BinTable) : List Bin := t.storage.bins t.numBins

/-- Strictly increasing values, each of them counted. -/
structure Sorted (t : BinTable) : Prop where
  increasing : t.bins.Pairwise fun a b => a.value < b.value
  positive : ∀ b ∈ t.bins, 0 < b.count

def cleared (t : BinTable) : BinTable := { t with numBins := 0, fits := Nat.zero_le t.capacity }

def recount (t : BinTable) (i : Nat) (h : i < t.numBins) : BinTable :=
  { t with storage := t.storage.setCount i (t.storage.count i + 1) (Nat.lt_of_lt_of_le h t.fits) }

theorem lt_doubled (t : BinTable) : t.numBins < t.capacity * 2 := by
  have hfits := t.fits
  have hpos := t.capacity_pos
  omega

/-- Opens a bin at a place, in a larger buffer if there is no room left. -/
def openBin (t : BinTable) (i : Nat) (h : i ≤ t.numBins) (b : Bin) : BinTable :=
  if room : t.numBins < t.capacity then
    { t with
      storage := (t.storage.shift i t.numBins h room).setBin i b (Nat.lt_of_le_of_lt h room)
      numBins := t.numBins + 1
      fits := room }
  else
    { capacity := t.capacity * 2
      capacity_pos := Nat.mul_pos t.capacity_pos (by decide)
      storage := (t.storage.grow i t.numBins h t.fits t.capacity_pos).setBin i b
        (Nat.lt_of_le_of_lt h t.lt_doubled)
      numBins := t.numBins + 1
      fits := t.lt_doubled }

/-- Counts a value in its bin, or opens one for it in its place. -/
def insert (t : BinTable) (v : Int64) : BinTable :=
  match t.storage.search t.numBins v with
  | .held i h => t.recount i h
  | .gap i h => t.openBin i h ⟨v, 1⟩

/-- Writes bins over a buffer, or over a new one of their number if they do not fit. -/
def overwrite (t : BinTable) (bs : List Bin) : BinTable :=
  if room : bs.length ≤ t.capacity then
    { t with
      storage := t.storage.writeFrom 0 bs (by omega)
      numBins := bs.length
      fits := room }
  else
    { capacity := bs.length
      capacity_pos := by omega
      storage := (BinStorage.zeros bs.length).writeFrom 0 bs (by omega)
      numBins := bs.length
      fits := Nat.le_refl _ }

def ranked (t : BinTable) : BinTable :=
  { t with storage := (t.storage.fillRanks t.numBins t.fits).1 }

@[simp] theorem length_bins (t : BinTable) : t.bins.length = t.numBins := t.storage.length_bins _

theorem bins_eq_nil_iff : t.bins = [] ↔ t.numBins = 0 := by
  rw [← List.length_eq_zero_iff, length_bins]

theorem sorted_of_bins {s : BinTable} (h : t.Sorted) (hbins : s.bins = t.bins) : s.Sorted :=
  ⟨hbins ▸ h.increasing, hbins ▸ h.positive⟩

theorem Sorted.of_numBins (h : t.numBins = 0) : t.Sorted := by
  have hbins := bins_eq_nil_iff.mpr h
  exact ⟨by simp [hbins], by simp [hbins]⟩

/-! ## Insertion -/

theorem bins_recount (t : BinTable) {i : Nat} (h : i < t.numBins) :
    (t.recount i h).bins =
      t.storage.bins i ++ ⟨t.storage.value i, t.storage.count i + 1⟩ :: t.bins.drop (i + 1) :=
  t.storage.bins_setCount _ h t.fits

theorem bins_openBin (t : BinTable) {i : Nat} (h : i ≤ t.numBins) (b : Bin) :
    (t.openBin i h b).bins = t.storage.bins i ++ b :: t.bins.drop i := by
  unfold openBin
  split
  · rename_i room
    exact (BinStorage.shift_opened t.storage h room).bins_setBin h room b
  · exact (BinStorage.grow_opened t.storage h t.fits t.capacity_pos).bins_setBin h t.lt_doubled b

/-- The bins before a place and those from it on. -/
theorem bins_cut (t : BinTable) {i : Nat} (h : i ≤ t.numBins) :
    t.bins = t.storage.bins i ++ t.bins.drop i := by
  rw [← t.storage.take_bins h]
  exact (List.take_append_drop i t.bins).symm

theorem bins_insert (h : t.Sorted) (v : Int64) :
    (t.insert v).bins = Histogram.insertBin v t.bins := by
  have hplace := BinStorage.search_fits h.increasing v
  have hbelow : ∀ i, (∀ j < i, t.storage.value j < v) → ∀ b ∈ t.storage.bins i, b.value < v := by
    intro i hlow b hb
    obtain ⟨j, hj, rfl⟩ := BinStorage.mem_bins.mp hb
    exact hlow j hj
  unfold insert
  cases hs : t.storage.search t.numBins v with
  | held i hi =>
    rw [hs] at hplace
    obtain ⟨hlow, heq⟩ := hplace
    have hdrop : t.bins.drop i = t.storage.bin i :: t.bins.drop (i + 1) := by
      rw [List.drop_eq_getElem_cons (by simpa)]
      exact congrArg (· :: _) (t.storage.getElem_bins _)
    have hv : v = (t.storage.bin i).value := heq.symm
    rw [t.bins_cut (Nat.le_of_lt hi), Histogram.insertBin_append (hbelow i hlow), hdrop,
      Histogram.insertBin, if_neg (hv ▸ Int64.lt_irrefl), if_pos hv]
    exact (t.bins_recount hi).trans (by rw [heq]; rfl)
  | gap i hi =>
    rw [hs] at hplace
    obtain ⟨hlow, hhigh⟩ := hplace
    have habove : ∀ b ∈ t.bins.drop i, v < b.value := by
      intro b hb
      obtain ⟨j, hj, rfl⟩ := List.mem_drop_iff_getElem.mp hb
      rw [length_bins, Nat.add_comm] at hj
      exact (t.storage.getElem_bins _).symm ▸ hhigh (i + j) (Nat.le_add_right i j) hj
    rw [t.bins_cut hi, Histogram.insertBin_append (hbelow i hlow),
      Histogram.insertBin_of_lt habove]
    exact t.bins_openBin hi ⟨v, 1⟩

theorem Sorted.insert (h : t.Sorted) (v : Int64) : (t.insert v).Sorted := by
  have hbins := bins_insert h v
  exact ⟨hbins ▸ Histogram.increasing_insertBin v t.bins h.increasing,
    hbins ▸ Histogram.positive_insertBin v t.bins h.positive⟩

/-- Room doubles exactly when there is none for the bins. -/
theorem capacity_insert (t : BinTable) (v : Int64) :
    (t.insert v).capacity =
      if (t.insert v).numBins ≤ t.capacity then t.capacity else t.capacity * 2 := by
  unfold BinTable.insert
  cases t.storage.search t.numBins v with
  | held i hi => exact (if_pos t.fits).symm
  | gap i hi =>
    dsimp only
    unfold openBin
    split
    · rename_i room
      exact (if_pos room).symm
    · rename_i full
      exact (if_neg full).symm

/-! ## Writing -/

@[simp] theorem bins_overwrite (t : BinTable) (bs : List Bin) : (t.overwrite bs).bins = bs := by
  have hwrite : ∀ {c : Nat} (s : BinStorage c) (h : 0 + bs.length ≤ c),
      (s.writeFrom 0 bs h).bins bs.length = bs := by
    intro c s h
    have := s.bins_writeFrom 0 bs h
    rwa [Nat.zero_add] at this
  unfold overwrite
  split
  · exact hwrite _ _
  · exact hwrite _ _

theorem capacity_overwrite (t : BinTable) (bs : List Bin) :
    (t.overwrite bs).capacity = max t.capacity bs.length := by
  unfold overwrite
  split
  · rename_i room
    exact (Nat.max_eq_left room).symm
  · rename_i room
    exact (Nat.max_eq_right (Nat.le_of_not_le room)).symm

@[simp] theorem bins_ranked (t : BinTable) : t.ranked.bins = t.bins :=
  BinStorage.bins_congr fun j hj =>
    (t.storage.fillRanks_spec t.fits).1 j (Nat.lt_of_lt_of_le hj t.fits)

theorem ranked_spec (t : BinTable) : t.ranked.storage.Ranked t.ranked.numBins :=
  (t.storage.fillRanks_spec t.fits).2.2

end BinTable
end TimingStats
