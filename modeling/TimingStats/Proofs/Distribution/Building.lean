import Mathlib.Algebra.Order.Ring.Nat
import Mathlib.Data.Nat.Log
import Mathlib.Order.Bounds.Basic
import TimingStats.Distribution.Basic
import TimingStats.Proofs.Histogram.RunLengths

/-! # Building a distribution

An empty builder may have any words in its buffer. What it shows after some insertions depends on
the inserted values alone, and on the room it started with: its bins are the run lengths of the
values, and its room has been doubled just often enough for them. The distribution built from it
has the same bins, and ends each of them at the running total of the counts. -/

namespace TimingStats

namespace Histogram

theorem length_observed (bs : List Bin) : (observed bs).length = total bs := by
  induction bs with
  | nil => rfl
  | cons b bs ih =>
    have hsplit : observed (b :: bs) = List.replicate b.count b.value ++ observed bs := rfl
    rw [hsplit, List.length_append, List.length_replicate, ih, total]

theorem total_eq_sum (bs : List Bin) : total bs = (bs.map Bin.count).sum := by
  induction bs with
  | nil => rfl
  | cons b bs ih => rw [total, ih, List.map_cons, List.sum_cons]

theorem count_le_total {bs : List Bin} {b : Bin} (h : b ∈ bs) : b.count ≤ total bs := by
  obtain ⟨as, cs, rfl⟩ := List.append_of_mem h
  rw [total_append, total]
  omega

theorem total_take_lt {bs : List Bin} (hpos : ∀ b ∈ bs, 0 < b.count) {i j : Nat} (hij : i < j)
    (hj : j ≤ bs.length) : total (bs.take i) < total (bs.take j) := by
  have hcut : bs.take j = bs.take i ++ (bs.drop i).take (j - i) := by
    rw [← List.take_append_drop i (bs.take j), List.take_take, List.drop_take,
      Nat.min_eq_left (Nat.le_of_lt hij)]
  have hne : (bs.drop i).take (j - i) ≠ [] := by
    rw [← List.length_pos_iff, List.length_take, List.length_drop]
    omega
  obtain ⟨b, hb⟩ := List.exists_mem_of_ne_nil _ hne
  have hmem := hpos b (List.mem_of_mem_drop (List.mem_of_mem_take hb))
  have hle := count_le_total hb
  rw [hcut, total_append]
  omega

theorem total_take_le (bs : List Bin) (i : Nat) : total (bs.take i) ≤ total bs := by
  rw [← congrArg total (List.take_append_drop i bs), total_append]
  exact Nat.le_add_right _ _

end Histogram

theorem mem_runLengths {xs : List Int64} {b : Bin} :
    b ∈ runLengths xs ↔ b.value ∈ xs ∧ b.count = xs.count b.value := by
  unfold runLengths
  rw [List.mem_map]
  constructor
  · rintro ⟨v, hv, rfl⟩
    exact ⟨List.mem_dedup.mp ((List.perm_insertionSort _ _).mem_iff.mp hv), rfl⟩
  · rintro ⟨hv, hcount⟩
    refine ⟨b.value, (List.perm_insertionSort _ _).mem_iff.mpr (List.mem_dedup.mpr hv), ?_⟩
    rw [← hcount]

theorem length_runLengths (xs : List Int64) : (runLengths xs).length = xs.dedup.length := by
  rw [runLengths, List.length_map, List.length_insertionSort]

namespace Builder

/-! ## Insertions -/

theorem observations_insert (b : Builder) (v : Int64) :
    (b.insert v).histogram.observations.Perm (v :: b.histogram.observations) := by
  rw [histogram_insert]
  exact Histogram.observations_insert_perm b.histogram v

theorem observations_insertAll (b : Builder) (vs : List Int64) :
    (b.insertAll vs).histogram.observations.Perm (vs ++ b.histogram.observations) := by
  induction vs generalizing b with
  | nil => exact .refl _
  | cons v vs ih =>
    exact (ih (b.insert v)).trans (((b.observations_insert v).append_left vs).trans
      List.perm_middle)

theorem observations_of_isEmpty {b : Builder} (h : b.isEmpty = true) :
    b.histogram.observations = [] :=
  congrArg Histogram.observed (BinTable.bins_eq_nil_iff.mpr (beq_iff_eq.mp h))

theorem observations_insertAll_of_isEmpty {b : Builder} (h : b.isEmpty = true) (vs : List Int64) :
    (b.insertAll vs).histogram.observations.Perm vs := by
  have hperm := b.observations_insertAll vs
  rwa [observations_of_isEmpty h, List.append_nil] at hperm

theorem bins_insertAll {b : Builder} (h : b.isEmpty = true) (vs : List Int64) :
    (b.insertAll vs).bins = runLengths vs :=
  (Histogram.bins_eq_runLengths _).trans (runLengths_perm (observations_insertAll_of_isEmpty h vs))

theorem size_insertAll {b : Builder} (h : b.isEmpty = true) (vs : List Int64) :
    (b.insertAll vs).size = vs.length :=
  (Histogram.length_observed _).symm.trans (observations_insertAll_of_isEmpty h vs).length_eq

/-! ## Room -/

/-- The room is the least that doubling reaches from some room and that holds the bins. -/
def LeastRoom (room : Nat) (b : Builder) : Prop :=
  IsLeast {c | b.numBins ≤ c ∧ ∃ k, c = room * 2 ^ k} b.capacity

theorem leastRoom_self (b : Builder) : LeastRoom b.capacity b := by
  refine ⟨⟨b.fits, 0, (Nat.mul_one _).symm⟩, ?_⟩
  rintro c ⟨-, k, rfl⟩
  exact Nat.le_mul_of_pos_right _ (Nat.two_pow_pos k)

theorem numBins_le_insert (b : Builder) (v : Int64) : b.numBins ≤ (b.insert v).numBins := by
  have hbins : (b.insert v).bins = Histogram.insertBin v b.bins := BinTable.bins_insert b.sorted v
  rw [← BinTable.length_bins, ← BinTable.length_bins, hbins,
    Histogram.length_insertBin v b.bins b.sorted.increasing]
  split <;> omega

theorem LeastRoom.insert {room : Nat} {b : Builder} (h : LeastRoom room b) (v : Int64) :
    LeastRoom room (b.insert v) := by
  obtain ⟨⟨hfits, k, hk⟩, hleast⟩ := h
  have hgrow := b.numBins_le_insert v
  have hcapacity : (b.insert v).capacity =
      if (b.insert v).numBins ≤ b.capacity then b.capacity else b.capacity * 2 :=
    b.capacity_insert v
  refine ⟨⟨(b.insert v).fits, ?_⟩, ?_⟩
  · rw [hcapacity]
    split
    · exact ⟨k, hk⟩
    · exact ⟨k + 1, by rw [hk, Nat.pow_succ, Nat.mul_assoc]⟩
  · rintro c ⟨hc, j, rfl⟩
    have hle : b.capacity ≤ room * 2 ^ j := hleast ⟨Nat.le_trans hgrow hc, j, rfl⟩
    rw [hcapacity]
    split
    · exact hle
    · -- A room that is too small and is reached by doubling is doubled at least once more.
      rename_i hsmall
      have hlt : room * 2 ^ k < room * 2 ^ j := hk ▸ Nat.lt_of_lt_of_le (Nat.lt_of_not_le hsmall) hc
      have hkj : k < j := (Nat.pow_lt_pow_iff_right (by decide)).mp (Nat.lt_of_mul_lt_mul_left hlt)
      rw [hk, Nat.mul_assoc, ← Nat.pow_succ]
      exact Nat.mul_le_mul_left room (Nat.pow_le_pow_right (by decide) hkj)

theorem LeastRoom.insertAll {room : Nat} {b : Builder} (h : LeastRoom room b) (vs : List Int64) :
    LeastRoom room (b.insertAll vs) := by
  induction vs generalizing b with
  | nil => exact h
  | cons v vs ih => exact ih (h.insert v)

end Builder

/-! ## Built distributions -/

namespace Distribution

/-- A distribution has the bins and the room of a builder and ends each bin where the running
total of the counts says. -/
structure BuiltFrom (d : Distribution) (b : Builder) : Prop where
  bins : d.bins = b.bins
  capacity : d.capacity = b.capacity
  endRanks : d.endRanks =
    (List.range b.numBins).map fun i => ((b.bins.take (i + 1)).map Bin.count).sum
  increasing : d.endRanks.Pairwise (· < ·)

theorem endRanks_eq (d : Distribution) :
    d.endRanks = (List.range d.numBins).map fun i => Histogram.total (d.bins.take (i + 1)) := by
  refine List.map_congr_left fun i hi => ?_
  have hi := List.mem_range.mp hi
  rw [d.ranked i hi, BinTable.bins, BinStorage.take_bins _ hi]

theorem endRanks_increasing (d : Distribution) : d.endRanks.Pairwise (· < ·) := by
  rw [endRanks_eq, List.pairwise_map]
  refine List.pairwise_lt_range.imp_of_mem fun {i j} _ hj hij => ?_
  have hj := List.mem_range.mp hj
  exact Histogram.total_take_lt d.sorted.positive (Nat.succ_lt_succ hij)
    (d.length_bins.symm ▸ hj)

theorem le_size_of_mem_endRanks {d : Distribution} {r : Nat} (h : r ∈ d.endRanks) :
    r ≤ d.size := by
  rw [endRanks_eq, List.mem_map] at h
  obtain ⟨i, -, rfl⟩ := h
  rw [size_eq]
  exact Histogram.total_take_le d.bins (i + 1)

@[simp] theorem isEmpty_reset (d : Distribution) : d.reset.isEmpty = true := rfl

end Distribution

namespace Builder

theorem finish_builtFrom (b : Builder) (h : 0 < b.numBins) : (b.finish h).BuiltFrom b where
  bins := b.bins_finish h
  capacity := rfl
  endRanks := by
    rw [Distribution.endRanks_eq, bins_finish]
    exact List.map_congr_left fun i _ => Histogram.total_eq_sum _
  increasing := (b.finish h).endRanks_increasing

theorem size_finish (b : Builder) (h : 0 < b.numBins) : (b.finish h).size = b.size := by
  rw [Distribution.size_eq]
  exact congrArg Histogram.total (bins_finish b h)

theorem observations_finish (b : Builder) (h : 0 < b.numBins) :
    (b.finish h).histogram.observations = b.histogram.observations :=
  congrArg Histogram.observed (b.bins_finish h)

@[simp] theorem isEmpty_new : new.isEmpty = true := rfl

/-- What is seen of a builder that has been given some values, starting empty with some room. -/
structure Tallies (b : Builder) (room : Nat) (vs : List Int64) : Prop where
  bins : b.bins = runLengths vs
  increasing : b.bins.Pairwise fun x y => x.value < y.value
  counted : ∀ x, x ∈ b.bins ↔ x.value ∈ vs ∧ x.count = vs.count x.value
  size : b.size = vs.length
  capacity : IsLeast {c | vs.dedup.length ≤ c ∧ ∃ k, c = room * 2 ^ k} b.capacity

theorem tallies_insertAll {b : Builder} (h : b.isEmpty = true) (vs : List Int64) :
    (b.insertAll vs).Tallies b.capacity vs := by
  have hbins := bins_insertAll h vs
  have hnum : (b.insertAll vs).numBins = vs.dedup.length := by
    rw [← BinTable.length_bins, hbins, length_runLengths]
  refine ⟨hbins, (b.insertAll vs).sorted.increasing, ?_, size_insertAll h vs, ?_⟩
  · intro x
    rw [hbins]
    exact mem_runLengths
  · exact hnum ▸ b.leastRoom_self.insertAll vs

theorem Tallies.capacity_eq {a b : Builder} {room : Nat} {vs ws : List Int64}
    (ha : a.Tallies room vs) (hb : b.Tallies room ws) (h : ws.Perm vs) :
    b.capacity = a.capacity := by
  have hcapacity := hb.capacity
  rw [h.dedup.length_eq] at hcapacity
  exact hcapacity.unique ha.capacity

theorem numBins_insertAll_eq_zero {b : Builder} (h : b.isEmpty = true) (vs : List Int64) :
    (b.insertAll vs).numBins = 0 ↔ vs = [] := by
  rw [← BinTable.bins_eq_nil_iff, bins_insertAll h, ← List.length_eq_zero_iff, length_runLengths,
    List.length_eq_zero_iff, List.dedup_eq_nil]

/-- **Building from an empty builder.** Whatever its buffer holds, an empty builder that is given
some values shows their run lengths, their number and the least doubled room for them, in whatever
order they come. It cannot be built exactly if there are none; else the distribution has its bins
and room, with the running totals as end ranks. No word outgrows sixty-four bits. -/
theorem build_insertAll (b : Builder) (vs : List Int64) (h : b.isEmpty = true)
    (hlen : vs.length < UInt64.size) :
    (b.insertAll vs).Tallies b.capacity vs ∧
      (∀ x ∈ (b.insertAll vs).bins, x.count < UInt64.size) ∧
      (∀ ws : List Int64, ws.Perm vs →
        (b.insertAll ws).bins = (b.insertAll vs).bins ∧
        (b.insertAll ws).size = (b.insertAll vs).size ∧
        (b.insertAll ws).capacity = (b.insertAll vs).capacity) ∧
      ((b.insertAll vs).build = .error .empty ↔ vs = []) ∧
      (vs ≠ [] → ∃ d, (b.insertAll vs).build = .ok d ∧ d.BuiltFrom (b.insertAll vs) ∧
        ∀ r ∈ d.endRanks, r < UInt64.size) := by
  have htallies := tallies_insertAll h vs
  have hempty := numBins_insertAll_eq_zero h vs
  refine ⟨htallies, ?_, ?_, ?_, ?_⟩
  · intro x hx
    have hle : x.count ≤ (b.insertAll vs).size := Histogram.count_le_total hx
    rw [htallies.size] at hle
    exact Nat.lt_of_le_of_lt hle hlen
  · intro ws hperm
    have hws := tallies_insertAll h ws
    refine ⟨?_, ?_, htallies.capacity_eq hws hperm⟩
    · rw [hws.bins, htallies.bins, runLengths_perm hperm]
    · rw [hws.size, htallies.size, hperm.length_eq]
  · rw [← hempty, build]
    split
    · rename_i hzero
      exact iff_of_true rfl hzero
    · rename_i hpos
      exact iff_of_false (fun hc => nomatch hc) hpos
  · intro hne
    have hpos : 0 < (b.insertAll vs).numBins := Nat.pos_of_ne_zero (mt hempty.mp hne)
    refine ⟨(b.insertAll vs).finish hpos, build_of_pos hpos, finish_builtFrom _ hpos, ?_⟩
    intro r hr
    have hle := Distribution.le_size_of_mem_endRanks hr
    rw [size_finish, htallies.size] at hle
    exact Nat.lt_of_le_of_lt hle hlen

/-- A builder with room for four bins, whose buffer has held three values before. -/
def secondHand : Builder :=
  (((ofCapacity 1 Nat.one_pos).insertAll [30, -10, 20]).finish (by decide +kernel)).reset

theorem build_insertAll_secondHand :
    ∃ d, (secondHand.insertAll [-5, 7, 9, -5, 8, 6]).build = .ok d ∧
      d.bins = [⟨-5, 2⟩, ⟨6, 1⟩, ⟨7, 1⟩, ⟨8, 1⟩, ⟨9, 1⟩] ∧ d.capacity = 8 ∧
      d.endRanks = [2, 3, 4, 5, 6] := by
  obtain ⟨htallies, -, -, -, hbuild⟩ :=
    build_insertAll secondHand [-5, 7, 9, -5, 8, 6] rfl (by decide)
  obtain ⟨d, hok, hfrom, -⟩ := hbuild (by decide)
  refine ⟨d, hok, ?_, hfrom.capacity.trans (by decide +kernel),
    hfrom.endRanks.trans (by decide +kernel)⟩
  rw [hfrom.bins, htallies.bins]
  decide +kernel

end Builder
end TimingStats
