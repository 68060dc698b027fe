import TimingStats.Proofs.Recorder.Equivalence

/-! # The ledger of insertions

Each insertion into the builder enters one sample of the stream while one sample is recorded: the
same one, or a later one that clears it, or the last of the first window. A ledger lists them. The
samples that it enters are those that the rule keeps, so none is entered twice. -/

namespace TimingStats.Recorder

open Offline (kept keptPlaces newlyKept)

variable {r r' : Recorder} {n : Nat} {t : Float} {stream : List Int64} {x : Int64}
  {reports : List Recorded} {out : Recorded} {ledger fresh : List Insertion}

/-- An insertion into the builder: the place of the sample that is inserted, and that of the sample
that was being recorded. -/
structure Insertion where
  sample : Nat
  call : Nat
  deriving DecidableEq, Repr

def entered (stream : List Int64) (ledger : List Insertion) : List Int64 :=
  ledger.map fun e => stream.getD e.sample 0

/-- A ledger accounts for the insertions of a run and for its reports. -/
structure Ledger (n : Nat) (t : Float) (stream : List Int64) (reports : List Recorded)
    (ledger : List Insertion) : Prop where
  /-- No sample is inserted twice. -/
  once : (ledger.map Insertion.sample).Nodup
  /-- The builder always holds what has been entered so far. -/
  builder : ∀ m ≤ stream.length, ∃ r, (new n t).recordAll (stream.take m) = .ok r ∧
    r.inserted.Perm (entered stream (ledger.filter (·.call < m)))
  made : ∀ e ∈ ledger, e.sample ≤ e.call ∧ e.call < stream.length
  seeding : ∀ i out, reports[i]? = some out → i < n → out = .seeding
  accepted : ∀ i cleared, reports[i]? = some (.accepted cleared) → ⟨i, i⟩ ∈ ledger
  /-- A sample that is reported as cleared is one earlier sample, which is inserted. -/
  cleared : ∀ j out v, reports[j]? = some out → out.cleared = some v →
    ∃ i < j, ⟨i, j⟩ ∈ ledger ∧ stream[i]? = some v ∧
      ∀ e ∈ ledger, e.call = j → e.sample < j → e.sample = i
  /-- With a full window every insertion is reported. -/
  reported : ∀ e ∈ ledger, n ≤ e.call →
    (e.sample = e.call ∧ ∃ cleared, reports[e.call]? = some (.accepted cleared)) ∨
      (e.sample < e.call ∧ ∃ out, reports[e.call]? = some out ∧ out.cleared = stream[e.sample]?)

/-- A rejected sample is inserted only by a later one that clears it. -/
theorem Ledger.rejected (h : Ledger n t stream reports ledger) {i : Nat} {cleared : Option Int64}
    (hi : reports[i]? = some (.rejected cleared)) :
    ∀ e ∈ ledger, e.sample = i →
      i < e.call ∧ ∃ out, reports[e.call]? = some out ∧ out.cleared = stream[i]? := by
  rintro e he rfl
  have hlate : n ≤ e.sample := Nat.le_of_not_lt fun hlt => nomatch h.seeding _ _ hi hlt
  rcases h.reported e he (Nat.le_trans hlate (h.made e he).1) with ⟨heq, _, hacc⟩ | hlater
  · rw [← heq, hi] at hacc
    cases hacc
  · exact hlater

theorem entered_eq (stream : List Int64) (ledger : List Insertion) :
    entered stream ledger = (ledger.map Insertion.sample).map (stream.getD · 0) := by
  rw [List.map_map]
  rfl

/-! ## One sample more -/

/-- The insertions that come with a sample fit its report. -/
structure Fits (n : Nat) (stream : List Int64) (out : Recorded) (fresh : List Insertion) :
    Prop where
  made : ∀ e ∈ fresh, e.sample ≤ stream.length ∧ e.call = stream.length
  seeding : stream.length < n → out = .seeding
  accepted : ∀ cleared, out = .accepted cleared → ⟨stream.length, stream.length⟩ ∈ fresh
  cleared : ∀ v, out.cleared = some v → ∃ i < stream.length, ⟨i, stream.length⟩ ∈ fresh ∧
    stream[i]? = some v ∧ ∀ e ∈ fresh, e.sample < stream.length → e.sample = i
  reported : n ≤ stream.length → ∀ e ∈ fresh,
    (e.sample = stream.length ∧ ∃ cleared, out = .accepted cleared) ∨
      (e.sample < stream.length ∧ out.cleared = stream[e.sample]?)

theorem getElem?_append_singleton {α : Type} {xs : List α} {a b : α} {i : Nat} :
    (xs ++ [a])[i]? = some b ↔ xs[i]? = some b ∨ (i = xs.length ∧ a = b) := by
  rcases Nat.lt_trichotomy i xs.length with hlt | rfl | hgt
  · rw [List.getElem?_append_left hlt]
    exact ⟨.inl, fun h => h.resolve_right fun hc => Nat.ne_of_lt hlt hc.1⟩
  · simp
  · rw [List.getElem?_eq_none (by simp; omega), List.getElem?_eq_none (Nat.le_of_lt hgt)]
    simp [Nat.ne_of_gt hgt]

/-- What is in the builder after some samples does not change with later ones. -/
theorem Ledger.builder_append (h : Ledger n t stream reports ledger)
    (hmade : ∀ e ∈ fresh, e.sample ≤ stream.length ∧ e.call = stream.length)
    (hok : (new n t).recordAll (stream ++ [x]) = .ok r)
    (hinserted : r.inserted.Perm (entered (stream ++ [x]) (ledger ++ fresh))) :
    ∀ m ≤ (stream ++ [x]).length, ∃ s, (new n t).recordAll ((stream ++ [x]).take m) = .ok s ∧
      s.inserted.Perm (entered (stream ++ [x]) ((ledger ++ fresh).filter (·.call < m))) := by
  have hsize : (stream ++ [x]).length = stream.length + 1 := by simp
  intro m hm
  rcases Nat.lt_or_eq_of_le hm with hlt | rfl
  · have hm' : m ≤ stream.length := by omega
    obtain ⟨s, hs, hperm⟩ := h.builder m hm'
    have hnone : fresh.filter (·.call < m) = [] := List.filter_eq_nil_iff.mpr fun e he => by
      have := (hmade e he).2
      simp
      omega
    refine ⟨s, by rwa [List.take_append_of_le_length hm'], ?_⟩
    rw [List.filter_append, hnone, List.append_nil]
    refine hperm.trans (.of_eq (List.map_congr_left fun e he => ?_))
    have hold := h.made e (List.mem_of_mem_filter he)
    exact (Offline.getD_append_of_lt (by omega)).symm
  · have hall : (ledger ++ fresh).filter (·.call < (stream ++ [x]).length) = ledger ++ fresh := by
      rw [List.filter_eq_self]
      intro e he
      rw [hsize]
      rcases List.mem_append.mp he with he | he
      · exact decide_eq_true (Nat.lt_succ_of_lt (h.made e he).2)
      · exact decide_eq_true ((hmade e he).2 ▸ Nat.lt_succ_self _)
    exact ⟨r, by rwa [List.take_length], by rwa [hall]⟩

theorem Ledger.cleared_append (h : Ledger n t stream reports ledger)
    (hlen : reports.length = stream.length) (hfits : Fits n stream out fresh) (x : Int64) :
    ∀ j o v, (reports ++ [out])[j]? = some o → o.cleared = some v →
      ∃ i < j, ⟨i, j⟩ ∈ ledger ++ fresh ∧ (stream ++ [x])[i]? = some v ∧
        ∀ e ∈ ledger ++ fresh, e.call = j → e.sample < j → e.sample = i := by
  have hold : ∀ {i v}, stream[i]? = some v → (stream ++ [x])[i]? = some v := fun hv =>
    getElem?_append_singleton.mpr (.inl hv)
  intro j o v ho hv
  rcases getElem?_append_singleton.mp ho with ho | ⟨rfl, rfl⟩
  · have hj : j < stream.length := hlen ▸ (List.getElem?_eq_some_iff.mp ho).1
    obtain ⟨i, hij, hmem, hval, hunique⟩ := h.cleared j o v ho hv
    refine ⟨i, hij, List.mem_append_left _ hmem, hold hval, fun e he hcall hlt => ?_⟩
    rcases List.mem_append.mp he with he | he
    · exact hunique e he hcall hlt
    · have := (hfits.made e he).2
      omega
  · obtain ⟨i, hi, hmem, hval, hunique⟩ := hfits.cleared v hv
    rw [hlen]
    refine ⟨i, hi, List.mem_append_right _ hmem, hold hval, fun e he hcall hlt => ?_⟩
    rcases List.mem_append.mp he with he | he
    · have := (h.made e he).2
      omega
    · exact hunique e he hlt

theorem Ledger.reported_append (h : Ledger n t stream reports ledger)
    (hlen : reports.length = stream.length) (hfits : Fits n stream out fresh) (x : Int64) :
    ∀ e ∈ ledger ++ fresh, n ≤ e.call →
      (e.sample = e.call ∧ ∃ cleared, (reports ++ [out])[e.call]? = some (.accepted cleared)) ∨
        (e.sample < e.call ∧ ∃ o, (reports ++ [out])[e.call]? = some o ∧
          o.cleared = (stream ++ [x])[e.sample]?) := by
  have hkeep : ∀ {i o}, reports[i]? = some o → (reports ++ [out])[i]? = some o := fun ho =>
    getElem?_append_singleton.mpr (.inl ho)
  have hlast : (reports ++ [out])[stream.length]? = some out :=
    getElem?_append_singleton.mpr (.inr ⟨hlen.symm, rfl⟩)
  have hsame : ∀ {i}, i < stream.length → (stream ++ [x])[i]? = stream[i]? := fun hi =>
    List.getElem?_append_left hi
  intro e he hcall
  rcases List.mem_append.mp he with he | he
  · have hmade := h.made e he
    rcases h.reported e he hcall with ⟨heq, c, hc⟩ | ⟨hlt, o, ho, hv⟩
    · exact .inl ⟨heq, c, hkeep hc⟩
    · exact .inr ⟨hlt, o, hkeep ho, hv.trans (hsame (by omega)).symm⟩
  · rw [(hfits.made e he).2] at hcall ⊢
    rcases hfits.reported hcall e he with ⟨heq, c, rfl⟩ | ⟨hlt, hv⟩
    · exact .inl ⟨heq, c, hlast⟩
    · exact .inr ⟨hlt, out, hlast, hv.trans (hsame hlt).symm⟩

/-- The ledger goes on with the insertions that come with one sample more. -/
theorem Ledger.append (h : Ledger n t stream reports ledger) (hlen : reports.length = stream.length)
    (hfits : Fits n stream out fresh) (hok : (new n t).recordAll (stream ++ [x]) = .ok r)
    (honce : ((ledger ++ fresh).map Insertion.sample).Nodup)
    (hinserted : r.inserted.Perm (entered (stream ++ [x]) (ledger ++ fresh))) :
    Ledger n t (stream ++ [x]) (reports ++ [out]) (ledger ++ fresh) := by
  refine ⟨honce, h.builder_append hfits.made hok hinserted, ?_, ?_, ?_,
    h.cleared_append hlen hfits x, h.reported_append hlen hfits x⟩
  · intro e he
    rw [List.length_append, List.length_singleton]
    rcases List.mem_append.mp he with he | he
    · have := h.made e he
      omega
    · have := hfits.made e he
      omega
  · intro i o ho hi
    rcases getElem?_append_singleton.mp ho with ho | ⟨rfl, rfl⟩
    · exact h.seeding i o ho hi
    · exact hfits.seeding (hlen ▸ hi)
  · intro i c ho
    rcases getElem?_append_singleton.mp ho with ho | ⟨rfl, rfl⟩
    · exact List.mem_append_left _ (h.accepted i c ho)
    · rw [hlen]
      exact List.mem_append_right _ (hfits.accepted c rfl)

/-! ## Runs -/

/-- A recorder with the ledger of its run. While there is no window nothing has been entered, and
from then on the samples that the rule keeps. -/
structure Booked (r : Recorder) (n : Nat) (t : Float) (stream : List Int64)
    (reports : List Recorded) (ledger : List Insertion) : Prop where
  sound : Ledger n t stream reports ledger
  reached : (new n t).recordAll stream = .ok r
  length : reports.length = stream.length
  state : (Seeding r n t stream ∧ ledger = []) ∨
    ∃ w, Running r n t stream w ∧ (ledger.map Insertion.sample).Perm (keptPlaces t n stream)

theorem recordAll_snoc {s : Recorder} (h : s.recordAll stream = .ok r)
    (hx : r.record x = .ok (out, r')) : s.recordAll (stream ++ [x]) = .ok r' := by
  have hone : r.recordAll [x] = .ok r' := by
    unfold recordAll
    rw [List.foldlM_cons, hx]
    rfl
  rw [recordAll_append, h]
  exact hone

/-- The ledger goes on if the samples it enters are those that the rule keeps. -/
theorem Booked.append_running {w : OutlierWindow} (h : Booked r n t stream reports ledger)
    (hok : r.record x = .ok (out, r')) (hrun : Running r' n t (stream ++ [x]) w)
    (hfits : Fits n stream out fresh)
    (hplaces : ((ledger ++ fresh).map Insertion.sample).Perm (keptPlaces t n (stream ++ [x]))) :
    Booked r' n t (stream ++ [x]) (reports ++ [out]) (ledger ++ fresh) := by
  have hreached := recordAll_snoc h.reached hok
  refine ⟨h.sound.append h.length hfits hreached (hplaces.nodup_iff.mpr Offline.nodup_keptPlaces)
    ?_, hreached, by simp [h.length], .inr ⟨w, hrun, hplaces⟩⟩
  rw [entered_eq]
  exact hrun.inserted.trans (hplaces.map _).symm

/-- The first window enters all that the rule keeps of it at once. -/
theorem fits_opening (hfull : stream.length + 1 = n) :
    Fits n stream .seeding ((keptPlaces t n (stream ++ [x])).map (⟨·, stream.length⟩)) := by
  refine ⟨fun e he => ?_, fun _ => rfl, fun _ hc => (nomatch hc), fun _ hc => (nomatch hc),
    fun hle => by omega⟩
  obtain ⟨i, hi, rfl⟩ := List.mem_map.mp he
  have hlt := (Offline.mem_keptPlaces.mp hi).1
  rw [List.length_append, List.length_singleton] at hlt
  exact ⟨Nat.le_of_lt_succ hlt, rfl⟩

/-- The insertions that come with a sample once the window is full. -/
def insertionsAt (t : Float) (n : Nat) (stream : List Int64) (w : Reference) (x : Int64) :
    List Insertion :=
  (if (w.verdict t x).isOutlier then [] else [⟨stream.length, stream.length⟩]) ++
    (newlyKept t n stream w x).toList.map (⟨·, stream.length⟩)

theorem mem_insertionsAt {w : Reference} {e : Insertion} :
    e ∈ insertionsAt t n stream w x ↔ e.call = stream.length ∧
      (((w.verdict t x).isOutlier = false ∧ e.sample = stream.length) ∨
        newlyKept t n stream w x = some e.sample) := by
  obtain ⟨i, j⟩ := e
  unfold insertionsAt
  cases (w.verdict t x).isOutlier <;> cases newlyKept t n stream w x <;> grind

theorem settle_report (r : Recorder) (x : Int64) (v : Verdict) :
    (r.settle x v).1 = if v.isOutlier then .rejected v.cleared else .accepted v.cleared := by
  unfold settle
  cases v.isOutlier <;> rfl

theorem settle_cleared (r : Recorder) (x : Int64) (v : Verdict) :
    (r.settle x v).1.cleared = v.cleared := by
  rw [settle_report]
  split <;> rfl

theorem Running.fits {w : OutlierWindow} (h : Running r n t stream w) (hn : 2 ≤ n) (x : Int64)
    (s : Recorder) :
    Fits n stream (s.settle x (w.view.verdict t x)).1 (insertionsAt t n stream w.view x) := by
  have hnew := h.marks.newlyKept_iff hn (highest_normals_lt h.sound) x
  have hvalue := h.marks.map_newlyKept x
  have hget : ∀ i, newlyKept t n stream w.view x = some i →
      stream[i]? = (w.view.verdict t x).cleared := by
    intro i hi
    have hlt := ((hnew i).mp hi).1
    rw [← hvalue, hi, Option.map_some, List.getElem?_eq_getElem hlt, List.getD_eq_getElem?_getD,
      List.getElem?_eq_getElem hlt, Option.getD_some]
  have hcleared := s.settle_cleared x (w.view.verdict t x)
  refine ⟨?_, ?_, ?_, ?_, ?_⟩
  · intro e he
    obtain ⟨hcall, ⟨-, hsample⟩ | hi⟩ := mem_insertionsAt.mp he
    · exact ⟨Nat.le_of_eq hsample, hcall⟩
    · exact ⟨Nat.le_of_lt ((hnew _).mp hi).1, hcall⟩
  · intro hlt
    exact absurd h.marks.le (by omega)
  · intro c hc
    rw [settle_report] at hc
    refine mem_insertionsAt.mpr ⟨rfl, .inl ⟨?_, rfl⟩⟩
    by_contra hout
    rw [if_pos (by simpa using hout)] at hc
    cases hc
  · intro v hv
    rw [hcleared, ← hvalue] at hv
    obtain ⟨i, hi, -⟩ := Option.map_eq_some_iff.mp hv
    have hlt := ((hnew i).mp hi).1
    refine ⟨i, hlt, mem_insertionsAt.mpr ⟨rfl, .inr hi⟩, ?_, fun e he hearlier => ?_⟩
    · rw [hget i hi, ← hvalue, hv]
    · obtain ⟨-, ⟨-, hsample⟩ | hi'⟩ := mem_insertionsAt.mp he
      · omega
      · exact Option.some_inj.mp (hi'.symm.trans hi)
  · intro _ e he
    obtain ⟨-, ⟨hnormal, hsample⟩ | hi⟩ := mem_insertionsAt.mp he
    · refine .inl ⟨hsample, (w.view.verdict t x).cleared, ?_⟩
      rw [settle_report, hnormal]
      rfl
    · exact .inr ⟨((hnew _).mp hi).1, hcleared.trans (hget _ hi).symm⟩

theorem Running.places {w : OutlierWindow} (h : Running r n t stream w) (hn : 2 ≤ n) (x : Int64)
    (hplaces : (ledger.map Insertion.sample).Perm (keptPlaces t n stream)) :
    ((ledger ++ insertionsAt t n stream w.view x).map Insertion.sample).Perm
      (keptPlaces t n (stream ++ [x])) := by
  have hstep := h.marks.keptPlaces_append hn (highest_normals_lt h.sound) x
  have hnew : (insertionsAt t n stream w.view x).map Insertion.sample =
      (if (w.view.verdict t x).isOutlier then [] else [stream.length]) ++
        (newlyKept t n stream w.view x).toList := by
    unfold insertionsAt
    cases (w.view.verdict t x).isOutlier <;> cases newlyKept t n stream w.view x <;> rfl
  rw [List.map_append, hnew]
  refine (List.perm_append_comm.trans ?_).trans hstep.symm
  rw [List.append_assoc]
  exact (hplaces.append_left _).append_left _

theorem Booked.record (h : Booked r n t stream reports ledger) (hn : 2 ≤ n)
    (ht : OutlierWindow.validTolerance t = true) (x : Int64) :
    ∃ out r' ledger', r.record x = .ok (out, r') ∧
      Booked r' n t (stream ++ [x]) (reports ++ [out]) ledger' := by
  rcases h.state with ⟨hseed, hnil⟩ | ⟨w, hrun, hplaces⟩
  · rcases hseed.record hn ht x with ⟨hok, hseed'⟩ | ⟨w, hok, -, hrun⟩
    · have hreached := recordAll_snoc h.reached hok
      have hfits : Fits n stream .seeding [] :=
        ⟨fun _ he => (nomatch he), fun _ => rfl, fun _ hc => (nomatch hc),
          fun _ hc => (nomatch hc), fun _ _ he => (nomatch he)⟩
      refine ⟨_, _, ledger ++ [], hok, h.sound.append h.length hfits hreached ?_ ?_, hreached,
        by simp [h.length], .inl ⟨hseed', by rw [hnil, List.append_nil]⟩⟩
      · simpa using h.sound.once
      · rw [hseed'.inserted, hnil]
        exact .refl _
    · have hfull : stream.length + 1 = n := by
        have hshort := hseed.short
        have hle := hrun.marks.le
        rw [List.length_append, List.length_singleton] at hle
        omega
      refine ⟨_, _, ledger ++ _, hok,
        h.append_running hok hrun (fits_opening (t := t) (x := x) hfull) ?_⟩
      rw [hnil, List.nil_append, List.map_map]
      exact .of_eq (List.map_id _)
  · obtain ⟨w', hok, -, hrun'⟩ := hrun.record hn ht x
    exact ⟨_, _, _, hok, h.append_running hok hrun' (hrun.fits hn x _) (hrun.places hn x hplaces)⟩

theorem recordEach_cons {s : Recorder} {xs : List Int64} {rest : List Recorded}
    (hok : r.record x = .ok (out, r')) (hrest : r'.recordEach xs = .ok (rest, s)) :
    r.recordEach (x :: xs) = .ok (out :: rest, s) := by
  unfold recordEach
  rw [hok]
  dsimp only [bind, Except.bind]
  rw [hrest]
  rfl

theorem recordAll_of_recordEach {s : Recorder} {xs : List Int64} {outs : List Recorded}
    (h : r.recordEach xs = .ok (outs, s)) : r.recordAll xs = .ok s := by
  induction xs generalizing r outs with
  | nil =>
    cases h
    rfl
  | cons x xs ih =>
    unfold recordAll
    rw [List.foldlM_cons]
    unfold recordEach at h
    cases hx : r.record x with
    | error f =>
      rw [hx] at h
      cases h
    | ok p =>
      rw [hx] at h
      dsimp only [bind, Except.bind] at h
      cases hrest : p.2.recordEach xs with
      | error f =>
        rw [hrest] at h
        cases h
      | ok q =>
        rw [hrest] at h
        cases h
        exact ih hrest

theorem Booked.recordEach (h : Booked r n t stream reports ledger) (hn : 2 ≤ n)
    (ht : OutlierWindow.validTolerance t = true) (xs : List Int64) :
    ∃ outs r' ledger', r.recordEach xs = .ok (outs, r') ∧
      Booked r' n t (stream ++ xs) (reports ++ outs) ledger' := by
  induction xs generalizing r stream reports ledger with
  | nil => exact ⟨[], r, ledger, rfl, by simpa using h⟩
  | cons x xs ih =>
    obtain ⟨out, r1, ledger1, hok, h1⟩ := h.record hn ht x
    obtain ⟨outs, r2, ledger2, hrest, h2⟩ := ih h1
    exact ⟨out :: outs, r2, ledger2, recordEach_cons hok hrest, by simpa using h2⟩

theorem booked_new (hn : 0 < n) : Booked (new n t) n t [] [] [] where
  sound := by
    refine ⟨List.nodup_nil, fun m hm => ?_, ?_, ?_, ?_, ?_, ?_⟩
    · rw [Nat.le_zero.mp hm]
      exact ⟨new n t, rfl, .refl _⟩
    all_goals simp
  reached := rfl
  length := rfl
  state := .inl ⟨seeding_new hn, rfl⟩

end TimingStats.Recorder
