import TimingStats.Proofs.OutlierWindow.Invariant

/-! # A window without statistics

The reference window keeps the last samples in the order in which they came, and the place of the
flagged one. Whatever it has to know it works out from these. The window refines it: `view` forgets
the statistics and the ring, and each step of the window is one of the reference. -/

namespace TimingStats

structure Reference where
  recent : List Int64
  flag : Option Nat
  deriving DecidableEq, Repr

namespace Reference

def lowest (xs : List Int64) : Int64 := xs.min?.getD 0

def highest (xs : List Int64) : Int64 := xs.max?.getD 0

theorem lowest_eq {xs : List Int64} {m : Int64} (h : xs.min? = some m) : lowest xs = m := by
  rw [lowest, h]
  rfl

theorem highest_eq {xs : List Int64} {m : Int64} (h : xs.max? = some m) : highest xs = m := by
  rw [highest, h]
  rfl

def outlier (r : Reference) : Option Int64 := r.flag.bind (r.recent[·]?)

def normals (r : Reference) : List Int64 := OutlierWindow.normals r.recent r.flag

/-- Whether a sample of the first window is above the bound of that window, with the sample itself
left out of the greatest. -/
def standsOut (t : Float) (samples : List Int64) (i : Nat) : Bool :=
  OutlierWindow.toleranceBound (lowest samples) (highest (samples.eraseIdx i)) t < samples.getD i 0

def start (t : Float) (samples : List Int64) : Reference :=
  ⟨samples, (List.range samples.length).find? (standsOut t samples)⟩

/-- The flagged sample is cleared by the bound of the others and the new one. The new one is
judged by the bound of all that were there before, flagged or not. -/
def verdict (t : Float) (r : Reference) (x : Int64) : Verdict :=
  let cleared := r.outlier.filter (· ≤
    OutlierWindow.toleranceBound (Min.min (lowest r.recent) x) (Max.max (highest r.normals) x) t)
  { isOutlier := OutlierWindow.toleranceBound (lowest r.recent) (highest r.recent) t < x
    clearsPrevious := cleared.isSome
    previous := cleared.getD 0 }

/-- The oldest sample leaves, so the others move down by one place. -/
def next (t : Float) (r : Reference) (x : Int64) : Reference :=
  let v := r.verdict t x
  { recent := r.recent.drop 1 ++ [x]
    flag :=
      if v.isOutlier then some (r.recent.length - 1)
      else if v.clearsPrevious ∨ r.flag = some 0 then none
      else r.flag.map (· - 1) }

def run (t : Float) (r : Reference) : List Int64 → List Verdict × Reference
  | [] => ([], r)
  | x :: xs =>
    let (vs, last) := (r.next t x).run t xs
    (r.verdict t x :: vs, last)

end Reference

namespace OutlierWindow

variable {w : OutlierWindow} {x : Int64}

/-- How many samples of the window came before that in a slot. -/
def age (w : OutlierWindow) (slot : Nat) : Nat :=
  if w.oldest ≤ slot then slot - w.oldest else w.samples.length - w.oldest + slot

def view (w : OutlierWindow) : Reference := ⟨w.recent, w.flagged.map w.age⟩

theorem getElem?_recent (hold : w.oldest < w.samples.length) {i : Nat}
    (hi : i < w.samples.length) : w.recent[w.age i]? = w.samples[i]? := by
  unfold recent age
  split
  · rw [List.getElem?_append_left (by rw [List.length_drop]; omega), List.getElem?_drop]
    congr 1
    omega
  · rw [List.getElem?_append_right (by rw [List.length_drop]; omega), List.length_drop,
      List.getElem?_take]
    rw [if_pos (by omega)]
    congr 1
    omega

theorem view_outlier (h : Sound w) : w.view.outlier = w.outlier := by
  unfold view Reference.outlier outlier
  cases hf : w.flagged with
  | none => rfl
  | some i =>
    have hi := h.flagged_lt i hf
    dsimp only [Option.map_some, Option.bind_some]
    rw [getElem?_recent h.oldest_lt hi]
    simp [hi]

/-- The flagged sample is the same one in the window and in its view, so the others are too. -/
theorem view_normals_perm (h : Sound w) : w.view.normals.Perm (normals w.samples w.flagged) := by
  unfold view Reference.normals
  cases hf : w.flagged with
  | none => exact recent_perm w
  | some i =>
    have hi := h.flagged_lt i hf
    have hget := getElem?_recent h.oldest_lt hi
    rw [List.getElem?_eq_getElem hi] at hget
    obtain ⟨hlt, hv⟩ := List.getElem?_eq_some_iff.mp hget
    have hleft := List.getElem_cons_eraseIdx_perm hlt
    have hright := List.getElem_cons_eraseIdx_perm hi
    rw [hv] at hleft
    exact List.Perm.cons_inv (hleft.trans ((recent_perm w).trans hright.symm))

theorem lowest_view (h : Sound w) : Reference.lowest w.view.recent = w.min :=
  Reference.lowest_eq (min?_perm (recent_perm w).symm h.upToDate.min)

theorem highest_view (h : Sound w) : Reference.highest w.view.recent = w.max :=
  Reference.highest_eq
    (max?_perm (recent_perm w).symm (h.upToDate.max?_samples h.flagged_lt))

theorem highest_view_normals (h : Sound w) : Reference.highest w.view.normals = w.maxNormal :=
  Reference.highest_eq (max?_perm (view_normals_perm h).symm h.upToDate.maxNormal)

theorem verdict_view (h : Sound w) (x : Int64) :
    w.view.verdict w.tolerance x =
      .of (decide (toleranceBound w.min w.max w.tolerance < x))
        (reached (toleranceBound (Min.min w.min x) (Max.max w.maxNormal x) w.tolerance)
          w.outlier) := by
  unfold Reference.verdict
  rw [lowest_view h, highest_view h, highest_view_normals h, view_outlier h]
  rfl

/-- When the oldest sample has been replaced, the others have come down by one place. -/
theorem age_replaced {w' : OutlierWindow} (hold : w.oldest < w.samples.length)
    (hlen : w'.samples.length = w.samples.length)
    (ho : w'.oldest = (w.oldest + 1) % w.samples.length) {i : Nat} (hi : i < w.samples.length) :
    w'.age i = if i = w.oldest then w.samples.length - 1 else w.age i - 1 := by
  unfold age
  rw [hlen, ho]
  rcases (Nat.succ_le_of_lt hold).lt_or_eq with hlt | heq
  · rw [Nat.mod_eq_of_lt hlt]
    split_ifs <;> omega
  · rw [Nat.succ_eq_add_one] at heq
    rw [heq, Nat.mod_self]
    split_ifs <;> omega

theorem age_eq_zero (hold : w.oldest < w.samples.length) {i : Nat} :
    w.age i = 0 ↔ i = w.oldest := by
  unfold age
  split <;> omega

/-- Each step of the window is one of the reference. -/
theorem apply_view (h : Sound w) (x : Int64) :
    ∃ w', w.apply x = .ok (w', w.view.verdict w.tolerance x) ∧ Sound w' ∧
      w'.tolerance = w.tolerance ∧ w'.view = w.view.next w.tolerance x := by
  obtain ⟨w', hok, hsound, hs, ho, ht, hf⟩ := apply_spec h x
  have hlen : w'.samples.length = w.samples.length := by rw [hs, List.length_set]
  refine ⟨w', by rw [hok, verdict_view h], hsound, ht, ?_⟩
  have hage := fun i => age_replaced (i := i) h.oldest_lt hlen ho
  unfold Reference.next
  rw [verdict_view h]
  dsimp only [Verdict.of]
  unfold view
  rw [recent_replaced h.oldest_lt hs ho, hf, length_recent h.oldest_lt]
  congr 1
  split
  · rw [Option.map_some, hage _ h.oldest_lt, if_pos rfl]
  · cases hw : w.flagged with
    | none => simp
    | some i =>
      have hiff : some (w.age i) = some 0 ↔ some i = some w.oldest := by
        rw [Option.some_inj, Option.some_inj]
        exact age_eq_zero h.oldest_lt
      simp only [Option.map_some, hiff]
      split
      · rfl
      · rename_i hkept
        have hne : i ≠ w.oldest := fun he => hkept (.inr (congrArg some he))
        rw [Option.map_some, hage i (h.flagged_lt i hw), if_neg hne]

theorem applyEach_view (h : Sound w) (inputs : List Int64) :
    ∃ w' vs, w.applyEach inputs = .ok (vs, w') ∧
      w.view.run w.tolerance inputs = (vs, w'.view) := by
  induction inputs generalizing w with
  | nil => exact ⟨w, [], rfl, rfl⟩
  | cons x xs ih =>
    obtain ⟨w1, hok1, h1, ht1, hv1⟩ := apply_view h x
    obtain ⟨w2, vs, hok2, hv2⟩ := ih h1
    refine ⟨w2, w.view.verdict w.tolerance x :: vs, ?_, ?_⟩
    · rw [applyEach, hok1]
      dsimp only [bind, Except.bind]
      rw [hok2]
      rfl
    · rw [Reference.run, ← hv1, ← ht1, hv2]

/-! ## The first window -/

theorem standsOut_iff {t : Float} {seed : List Int64} {i : Nat} (hi : i < seed.length) :
    Reference.standsOut t seed i = true ↔
      toleranceBound (Reference.lowest seed) (Reference.highest (seed.eraseIdx i)) t < seed[i] := by
  unfold Reference.standsOut
  rw [decide_eq_true_iff]
  simp [hi]

theorem flagged_iff_standsOut {seed : List Int64} {t : Float} (hmany : 2 ≤ seed.length)
    (h : Sound w) (hs : w.samples = seed) (ht : w.tolerance = t)
    (hflag : ∀ i (hi : i < seed.length) m, (seed.eraseIdx i).max? = some m →
      toleranceBound w.min m t < seed[i] → w.flagged = some i) (i : Nat) :
    w.flagged = some i ↔ i < seed.length ∧ Reference.standsOut t seed i = true := by
  have hup := h.upToDate
  have hlow : Reference.lowest seed = w.min := Reference.lowest_eq (hs ▸ hup.min)
  constructor
  · intro hi
    have hlt := h.flagged_lt i hi
    have hlt' : i < seed.length := hs ▸ hlt
    obtain ⟨hv, hx⟩ := hup.flagged hi hlt
    have hhigh := hup.maxNormal
    rw [hi, hs] at hhigh
    refine ⟨hlt', (standsOut_iff hlt').mpr ?_⟩
    rw [hlow, Reference.highest_eq (show (seed.eraseIdx i).max? = some w.maxNormal from hhigh),
      ← ht, ← hup.upperTolerance]
    subst hs
    exact hv ▸ hx
  · rintro ⟨hi, hx⟩
    have hlen := List.le_length_eraseIdx seed i
    obtain ⟨m, hm⟩ : ∃ m, (seed.eraseIdx i).max? = some m :=
      Option.ne_none_iff_exists'.mp
        (mt List.max?_eq_none_iff.mp (List.ne_nil_of_length_pos (by omega)))
    rw [standsOut_iff hi, hlow, Reference.highest_eq hm] at hx
    exact hflag i hi m hm hx

theorem age_of_oldest_zero (ho : w.oldest = 0) : w.age = id := by
  funext i
  unfold age
  rw [ho, if_pos (Nat.zero_le i), Nat.sub_zero]
  rfl

theorem view_start {seed : List Int64} {t : Float} (hs : w.samples = seed) (ho : w.oldest = 0)
    (hiff : ∀ i, w.flagged = some i ↔ i < seed.length ∧ Reference.standsOut t seed i = true) :
    w.view = Reference.start t seed := by
  unfold view recent Reference.start
  rw [age_of_oldest_zero ho, Option.map_id_apply, ho, hs, List.drop_zero, List.take_zero,
    List.append_nil]
  congr 1
  cases hfind : (List.range seed.length).find? (Reference.standsOut t seed) with
  | some j =>
    have hj := List.mem_range.mp (List.mem_of_find?_eq_some hfind)
    exact (hiff j).mpr ⟨hj, List.find?_some hfind⟩
  | none =>
    rw [List.find?_eq_none] at hfind
    cases hw : w.flagged with
    | none => rfl
    | some i =>
      obtain ⟨hi, hx⟩ := (hiff i).mp hw
      exact absurd hx (hfind i (List.mem_range.mpr hi))

/-- The window is a refinement of the reference: they agree on the first flag, on every verdict,
and on what is flagged at the end of every run. -/
theorem applyEach_refines (seed inputs : List Int64) (t : Float) (hmany : 3 ≤ seed.length)
    (ht : validTolerance t = true) :
    ∃ w₀ w vs, ofSamples seed t = .ok w₀ ∧
      (∀ i, w₀.flagged = some i ↔ i < seed.length ∧ Reference.standsOut t seed i = true) ∧
      w₀.view = Reference.start t seed ∧
      w₀.applyEach inputs = .ok (vs, w) ∧
      (Reference.start t seed).run t inputs = (vs, w.view) := by
  have hmany' : 2 ≤ seed.length := Nat.le_of_succ_le hmany
  obtain ⟨w₀, hok₀, h₀, hs₀, ho₀, ht₀, hflag₀⟩ := ofSamples_spec hmany' ht
  have hiff := flagged_iff_standsOut hmany' h₀ hs₀ ht₀ hflag₀
  have hview := view_start hs₀ ho₀ hiff
  obtain ⟨w, vs, hok, hv⟩ := applyEach_view h₀ inputs
  rw [hview, ht₀] at hv
  exact ⟨w₀, w, vs, hok₀, hiff, hview, hok, hv⟩

/-- A flag of the seed outlives one sample and is cleared by the next, which repeats its value. -/
theorem applyEach_refines_clearing :
    3 ≤ [10, 11, 100].length ∧ validTolerance 1 = true ∧
      ∃ w₀ w, ofSamples [10, 11, 100] 1 = .ok w₀ ∧ w₀.view = ⟨[10, 11, 100], some 2⟩ ∧
        w₀.applyEach [12, 100] = .ok ([⟨false, false, 0⟩, ⟨false, true, 100⟩], w) ∧
        w.view = ⟨[100, 12, 100], none⟩ := by
  have ht : validTolerance 1 = true := by decide +kernel
  obtain ⟨w₀, w, vs, hok₀, -, hview, hok, hrun⟩ :=
    applyEach_refines [10, 11, 100] [12, 100] 1 (by decide) ht
  have hstart : Reference.start 1 [10, 11, 100] = ⟨[10, 11, 100], some 2⟩ := by decide +kernel
  have hlast : (Reference.start 1 [10, 11, 100]).run 1 [12, 100] =
      ([⟨false, false, 0⟩, ⟨false, true, 100⟩], ⟨[100, 12, 100], none⟩) := by decide +kernel
  obtain ⟨rfl, hw⟩ := Prod.mk.inj (hlast.symm.trans hrun)
  exact ⟨by decide, ht, w₀, w, hok₀, hview.trans hstart, hok, hw.symm⟩

end OutlierWindow
end TimingStats
