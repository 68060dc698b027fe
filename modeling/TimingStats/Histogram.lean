import TimingStats.Saturation

/-! # Histograms

The observations of a distribution, run-length encoded: distinct values in increasing order,
each with the number of times it was seen. -/

namespace TimingStats

structure Bin where
  value : Int64
  count : Nat
  deriving DecidableEq, Repr

/-- Bins in strictly increasing order of value, none of them empty. -/
structure Histogram where
  bins : List Bin
  increasing : bins.Pairwise fun a b => a.value < b.value
  positive : ∀ b ∈ bins, 0 < b.count
  deriving DecidableEq

namespace Histogram

def total : List Bin → Nat
  | [] => 0
  | b :: bs => b.count + total bs

theorem total_append (as bs : List Bin) : total (as ++ bs) = total as + total bs := by
  induction as with
  | nil => rw [List.nil_append, total, Nat.zero_add]
  | cons a as ih => rw [List.cons_append, total, total, ih, Nat.add_assoc]

def size (h : Histogram) : Nat := total h.bins

/-- All observations in increasing order. -/
def observations (h : Histogram) : List Int64 :=
  h.bins.flatMap fun b => List.replicate b.count b.value

def insertBin (v : Int64) : List Bin → List Bin
  | [] => [⟨v, 1⟩]
  | b :: bs =>
    if v < b.value then ⟨v, 1⟩ :: b :: bs
    else if v = b.value then ⟨v, b.count + 1⟩ :: bs
    else b :: insertBin v bs

/-- A value that is above some bins goes among the others. -/
theorem insertBin_append {v : Int64} {as bs : List Bin} (h : ∀ a ∈ as, a.value < v) :
    insertBin v (as ++ bs) = as ++ insertBin v bs := by
  induction as with
  | nil => rfl
  | cons a as ih =>
    obtain ⟨ha, has⟩ := List.forall_mem_cons.mp h
    rw [List.cons_append, insertBin, if_neg (Int64.not_lt.mpr (Int64.le_of_lt ha)),
      if_neg (Int64.ne_of_lt ha).symm, ih has, List.cons_append]

/-- A value that is below all bins opens one before them. -/
theorem insertBin_of_lt {v : Int64} {bs : List Bin} (h : ∀ b ∈ bs, v < b.value) :
    insertBin v bs = ⟨v, 1⟩ :: bs := by
  cases bs with
  | nil => rfl
  | cons b bs => rw [insertBin, if_pos (h b List.mem_cons_self)]

theorem mem_insertBin {v : Int64} {bs : List Bin} {b : Bin} (h : b ∈ insertBin v bs) :
    b.value = v ∨ b ∈ bs := by
  induction bs with
  | nil => simp [insertBin] at h; simp [h]
  | cons c cs ih =>
    simp only [insertBin] at h
    split at h
    · rcases List.mem_cons.mp h with h | h
      · simp [h]
      · exact .inr h
    · split at h
      · rcases List.mem_cons.mp h with h | h
        · simp [h]
        · exact .inr (List.mem_cons_of_mem _ h)
      · rcases List.mem_cons.mp h with h | h
        · simp [h]
        · rcases ih h with h | h
          · exact .inl h
          · exact .inr (List.mem_cons_of_mem _ h)

theorem increasing_insertBin (v : Int64) (bs : List Bin)
    (h : bs.Pairwise fun a b => a.value < b.value) :
    (insertBin v bs).Pairwise fun a b => a.value < b.value := by
  induction bs with
  | nil => simp [insertBin]
  | cons b bs ih =>
    obtain ⟨hb, hs⟩ := List.pairwise_cons.mp h
    simp only [insertBin]
    split
    · rename_i hv
      refine List.pairwise_cons.mpr ⟨fun c hc => ?_, h⟩
      rcases List.mem_cons.mp hc with rfl | hc
      · exact hv
      · exact Int64.lt_trans hv (hb c hc)
    · split
      · rename_i hv
        exact List.pairwise_cons.mpr ⟨fun c hc => hv ▸ hb c hc, hs⟩
      · rename_i hlt hne
        refine List.pairwise_cons.mpr ⟨fun c hc => ?_, ih hs⟩
        rcases mem_insertBin hc with hc | hc
        · rw [hc]
          exact Int64.lt_of_le_of_ne (Int64.not_lt.mp hlt) (Ne.symm hne)
        · exact hb c hc

theorem positive_insertBin (v : Int64) (bs : List Bin) (h : ∀ b ∈ bs, 0 < b.count) :
    ∀ b ∈ insertBin v bs, 0 < b.count := by
  induction bs with
  | nil => simp [insertBin]
  | cons c cs ih =>
    simp only [List.forall_mem_cons] at h
    simp only [insertBin]
    split
    · simpa using h
    · split
      · simpa using h.2
      · simpa using ⟨h.1, ih h.2⟩

def insert (h : Histogram) (v : Int64) : Histogram :=
  ⟨insertBin v h.bins, increasing_insertBin v h.bins h.increasing,
    positive_insertBin v h.bins h.positive⟩

/-- Every observation at one value. -/
def single (v : Int64) (count : Nat) (h : 0 < count) : Histogram :=
  ⟨[⟨v, count⟩], by simp, by simpa using h⟩

theorem length_insertBin (v : Int64) (bs : List Bin)
    (h : bs.Pairwise fun a b => a.value < b.value) :
    (insertBin v bs).length =
      if bs.any (·.value == v) then bs.length else bs.length + 1 := by
  induction bs with
  | nil => simp [insertBin]
  | cons c cs ih =>
    obtain ⟨hc, hs⟩ := List.pairwise_cons.mp h
    simp only [insertBin]
    split
    · rename_i hv
      have hne : ∀ b ∈ c :: cs, ¬ b.value = v := by
        intro b hb he
        rcases List.mem_cons.mp hb with rfl | hb
        · exact Int64.lt_irrefl (he ▸ hv)
        · exact Int64.lt_irrefl (Int64.lt_trans (he ▸ hv) (hc b hb))
      simp_all
    · split
      · rename_i hv
        simp [hv]
      · rename_i hlt hne
        simp only [List.length_cons, ih hs, List.any_cons]
        have : (c.value == v) = false := by simpa using fun h => hne h.symm
        simp only [this, Bool.false_or]
        split <;> rfl

theorem insertBin_ne_nil (v : Int64) (bs : List Bin) : insertBin v bs ≠ [] := by
  cases bs with
  | nil => simp [insertBin]
  | cons b bs => simp only [insertBin]; split <;> (try split) <;> simp

theorem size_pos (h : Histogram) (hne : h.bins ≠ []) : 0 < h.size := by
  obtain ⟨b, bs, hb⟩ := List.exists_cons_of_ne_nil hne
  have hp := h.positive b (by simp [hb])
  simp only [size, hb, total]
  omega

end Histogram
end TimingStats
