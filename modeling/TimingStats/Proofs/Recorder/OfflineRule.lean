import TimingStats.Proofs.OutlierWindow.Reference

/-! # Which samples of a stream are kept

The rule looks at the whole stream at once. Its blocks are the first window and every run of one
sample more than a window holds. A sample is dropped if it is isolated in each block that it lies
in, that is, above the bound of the other samples of the block.

Seen as the stream grows, a new sample brings one new block. So a sample can be kept late, but never
dropped late, and it is settled once it lies further back than a window. -/

namespace TimingStats.Offline

open Reference (lowest highest)

/-- Where a block of a stream starts and how long it is. -/
structure Block where
  start : Nat
  length : Nat
  deriving DecidableEq, Repr

/-- The first window, and every run of one sample more. -/
def blocks (n count : Nat) : List Block :=
  ⟨0, n⟩ :: (List.range (count - n)).map fun start => ⟨start, n + 1⟩

def Block.Covers (b : Block) (i : Nat) : Prop := b.start ≤ i ∧ i < b.start + b.length

instance (b : Block) (i : Nat) : Decidable (b.Covers i) := inferInstanceAs (Decidable (_ ∧ _))

def Block.samples (b : Block) (stream : List Int64) : List Int64 :=
  (stream.drop b.start).take b.length

/-- A sample that is above the bound of the others. -/
def Isolated (t : Float) (samples : List Int64) (i : Nat) : Prop :=
  OutlierWindow.toleranceBound (lowest (samples.eraseIdx i)) (highest (samples.eraseIdx i)) t <
    samples.getD i 0

instance (t : Float) (samples : List Int64) (i : Nat) : Decidable (Isolated t samples i) :=
  inferInstanceAs (Decidable (_ < _))

/-- A sample is dropped if it is isolated in every block that contains it. -/
def Dropped (t : Float) (n : Nat) (stream : List Int64) (i : Nat) : Prop :=
  ∀ b ∈ blocks n stream.length, b.Covers i → Isolated t (b.samples stream) (i - b.start)

instance (t : Float) (n : Nat) (stream : List Int64) (i : Nat) :
    Decidable (Dropped t n stream i) := inferInstanceAs (Decidable (∀ _ ∈ _, _ → _))

def keptPlaces (t : Float) (n : Nat) (stream : List Int64) : List Nat :=
  (List.range stream.length).filter fun i => ¬ Dropped t n stream i

def kept (t : Float) (n : Nat) (stream : List Int64) : List Int64 :=
  (keptPlaces t n stream).map (stream.getD · 0)

variable {t : Float} {n : Nat} {stream : List Int64} {x : Int64}

/-! ## One sample more -/

theorem blocks_succ {count : Nat} (h : n ≤ count) :
    blocks n (count + 1) = blocks n count ++ [⟨count - n, n + 1⟩] := by
  unfold blocks
  rw [Nat.succ_sub h, List.range_succ, List.map_append]
  rfl

theorem end_le_of_mem_blocks {count : Nat} (h : n ≤ count) {b : Block}
    (hb : b ∈ blocks n count) : b.start + b.length ≤ count := by
  unfold blocks at hb
  rcases List.mem_cons.mp hb with rfl | hb
  · simpa using h
  · obtain ⟨start, hs, rfl⟩ := List.mem_map.mp hb
    rw [List.mem_range] at hs
    dsimp only
    omega

theorem samples_append {b : Block} (h : b.start + b.length ≤ stream.length) :
    b.samples (stream ++ [x]) = b.samples stream := by
  unfold Block.samples
  rw [List.drop_append_of_le_length (by omega), List.take_append_of_le_length]
  rw [List.length_drop]
  omega

/-- The block that comes with a new sample is the window before it and the sample. -/
theorem samples_newest (h : n ≤ stream.length) :
    Block.samples ⟨stream.length - n, n + 1⟩ (stream ++ [x]) =
      stream.drop (stream.length - n) ++ [x] := by
  unfold Block.samples
  dsimp only
  rw [List.drop_append_of_le_length (by omega), List.take_of_length_le]
  rw [List.length_append, List.length_drop, List.length_singleton]
  omega

theorem dropped_append (h : n ≤ stream.length) {i : Nat} :
    Dropped t n (stream ++ [x]) i ↔ Dropped t n stream i ∧
      (stream.length - n ≤ i → i < stream.length + 1 →
        Isolated t (stream.drop (stream.length - n) ++ [x]) (i - (stream.length - n))) := by
  unfold Dropped
  rw [List.length_append, List.length_singleton, blocks_succ h, List.forall_mem_append,
    List.forall_mem_singleton, samples_newest h]
  refine and_congr ?_ ?_
  · exact forall₂_congr fun b hb => by rw [samples_append (end_le_of_mem_blocks h hb)]
  · unfold Block.Covers
    dsimp only
    rw [and_imp, show stream.length - n + (n + 1) = stream.length + 1 by omega]

/-- No block before reaches the new sample. -/
theorem dropped_newest (h : n ≤ stream.length) : Dropped t n stream stream.length := by
  intro b hb hcover
  have := end_le_of_mem_blocks h hb
  have := hcover.2
  omega

theorem getD_append_of_lt {i : Nat} (hi : i < stream.length) :
    (stream ++ [x]).getD i 0 = stream.getD i 0 := by
  simp [List.getElem?_append_left hi]

theorem mem_keptPlaces {i : Nat} :
    i ∈ keptPlaces t n stream ↔ i < stream.length ∧ ¬ Dropped t n stream i := by
  simp [keptPlaces]

theorem nodup_keptPlaces : (keptPlaces t n stream).Nodup := List.nodup_range.filter _

/-- The places before a new sample that are kept with it. One of them is new if its sample had been
dropped so far. -/
theorem filter_range_perm (h : n ≤ stream.length) {newly : Option Nat}
    (hnewly : ∀ i, newly = some i ↔
      i < stream.length ∧ Dropped t n stream i ∧ ¬ Dropped t n (stream ++ [x]) i) :
    ((List.range stream.length).filter fun i => ¬ Dropped t n (stream ++ [x]) i).Perm
      (newly.toList ++ keptPlaces t n stream) := by
  have hnodup : (newly.toList ++ keptPlaces t n stream).Nodup := by
    cases hn : newly with
    | none => exact nodup_keptPlaces
    | some i =>
      have hdropped := ((hnewly i).mp hn).2.1
      exact List.nodup_cons.mpr ⟨fun hmem => (mem_keptPlaces.mp hmem).2 hdropped, nodup_keptPlaces⟩
  rw [List.perm_ext_iff_of_nodup (List.nodup_range.filter _) hnodup]
  intro i
  rw [List.mem_append, Option.mem_toList, hnewly, mem_keptPlaces]
  simp only [List.mem_filter, List.mem_range, decide_eq_true_eq]
  constructor
  · rintro ⟨hi, hkept⟩
    by_cases hd : Dropped t n stream i
    · exact .inl ⟨hi, hd, hkept⟩
    · exact .inr ⟨hi, hd⟩
  · rintro (⟨hi, -, hkept⟩ | ⟨hi, hd⟩)
    · exact ⟨hi, hkept⟩
    · exact ⟨hi, fun hdropped => hd ((dropped_append h).mp hdropped).1⟩

/-- Besides the samples that were kept before, a new sample lets through those that are not isolated
in its block: itself, and one that had been dropped so far. -/
theorem keptPlaces_append (h : n ≤ stream.length) {newly : Option Nat}
    (hnewly : ∀ i, newly = some i ↔
      i < stream.length ∧ Dropped t n stream i ∧ ¬ Dropped t n (stream ++ [x]) i) :
    (keptPlaces t n (stream ++ [x])).Perm
      ((if Dropped t n (stream ++ [x]) stream.length then [] else [stream.length]) ++
        (newly.toList ++ keptPlaces t n stream)) := by
  have hbefore := filter_range_perm h hnewly
  unfold keptPlaces at *
  rw [List.length_append, List.length_singleton, List.range_succ, List.filter_append]
  refine List.perm_append_comm.trans (List.Perm.append ?_ hbefore)
  by_cases hd : Dropped t n (stream ++ [x]) stream.length
  · rw [if_pos hd, List.filter_singleton]
    simp [hd]
  · rw [if_neg hd, List.filter_singleton]
    simp [hd]

theorem kept_append (h : n ≤ stream.length) {newly : Option Nat}
    (hnewly : ∀ i, newly = some i ↔
      i < stream.length ∧ Dropped t n stream i ∧ ¬ Dropped t n (stream ++ [x]) i) :
    (kept t n (stream ++ [x])).Perm
      ((if Dropped t n (stream ++ [x]) stream.length then [] else [x]) ++
        ((newly.map (stream.getD · 0)).toList ++ kept t n stream)) := by
  have hplaces := (keptPlaces_append h hnewly).map ((stream ++ [x]).getD · 0)
  have hback : newly.toList.map ((stream ++ [x]).getD · 0) =
      (newly.map (stream.getD · 0)).toList := by
    cases hi : newly with
    | none => rfl
    | some i => exact congrArg ([·]) (getD_append_of_lt ((hnewly i).mp hi).1)
  have hold : (keptPlaces t n stream).map ((stream ++ [x]).getD · 0) = kept t n stream :=
    List.map_congr_left fun i hi => getD_append_of_lt (mem_keptPlaces.mp hi).1
  have hlast : (stream ++ [x]).getD stream.length 0 = x := by simp
  rw [List.map_append, List.map_append, hback, hold] at hplaces
  refine hplaces.trans (.of_eq ?_)
  split
  · rfl
  · rw [List.map_singleton, hlast]

/-! ## The first window -/

theorem dropped_window (h : stream.length = n) {i : Nat} (hi : i < n) :
    Dropped t n stream i ↔ Isolated t stream i := by
  have hblocks : blocks n stream.length = [⟨0, n⟩] := by simp [blocks, h]
  have hall : Block.samples ⟨0, n⟩ stream = stream := by simp [Block.samples, ← h]
  unfold Dropped
  rw [hblocks, List.forall_mem_singleton, hall, Nat.sub_zero]
  exact ⟨fun hd => hd ⟨Nat.zero_le i, by simpa using hi⟩, fun hiso _ => hiso⟩

theorem map_getD_range (stream : List Int64) :
    (List.range stream.length).map (stream.getD · 0) = stream := by
  apply List.ext_getElem
  · simp
  · intro i h1 h2
    simp [h2]

/-- Of the first window all samples are kept but the one that is isolated. -/
theorem kept_window {flag : Option Nat}
    (hflag : ∀ i, flag = some i ↔ i < stream.length ∧ Dropped t n stream i) :
    (kept t n stream).Perm (OutlierWindow.normals stream flag) := by
  have hall := map_getD_range stream
  unfold kept
  cases hf : flag with
  | none =>
    have hkept : keptPlaces t n stream = List.range stream.length := by
      rw [keptPlaces, List.filter_eq_self]
      intro i hi
      have := mt (fun hd => (hflag i).mpr ⟨List.mem_range.mp hi, hd⟩) (by simp [hf])
      simpa using this
    rw [hkept, hall]
    exact .refl _
  | some i =>
    obtain ⟨hi, hd⟩ := (hflag i).mp hf
    have hplaces : (i :: keptPlaces t n stream).Perm (List.range stream.length) := by
      rw [List.perm_ext_iff_of_nodup _ List.nodup_range]
      · intro j
        rw [List.mem_cons, mem_keptPlaces, List.mem_range]
        constructor
        · rintro (rfl | ⟨hj, -⟩) <;> assumption
        · intro hj
          by_cases hdj : Dropped t n stream j
          · have := (hflag j).mpr ⟨hj, hdj⟩
            rw [hf] at this
            exact .inl (Option.some_inj.mp this).symm
          · exact .inr ⟨hj, hdj⟩
      · exact List.nodup_cons.mpr ⟨fun hm => (mem_keptPlaces.mp hm).2 hd, nodup_keptPlaces⟩
    have hmap := hplaces.map (stream.getD · 0)
    rw [List.map_cons, hall, show stream.getD i 0 = stream[i] by simp [hi]] at hmap
    exact List.Perm.cons_inv (hmap.trans (List.getElem_cons_eraseIdx_perm hi).symm)

end TimingStats.Offline
