import TimingStats.Proofs.Distribution.Queries
import TimingStats.Proofs.Distribution.Resampling

/-! # Scaling

Scaling writes bins directly, in reverse order for a negative factor. What it writes are the bins of
the products, one for each observation, so it shows nothing of the builder but its room. A product
that leaves the range of samples is a fault. Factors are multiplied when scaling is repeated. -/

namespace TimingStats

/-! ## Products -/

/-- A product leaves the range of samples. -/
def Overflows (v factor : Int64) : Prop :=
  v.toInt * factor.toInt < -2 ^ 63 ∨ 2 ^ 63 ≤ v.toInt * factor.toInt

theorem fitsInt64_iff (n : ℤ) : fitsInt64 n = true ↔ -2 ^ 63 ≤ n ∧ n < 2 ^ 63 := by
  have hmin : Int64.minValue.toInt = -2 ^ 63 := by decide
  have hmax : Int64.maxValue.toInt = 2 ^ 63 - 1 := by decide
  rw [fitsInt64, Bool.and_eq_true, decide_eq_true_eq, decide_eq_true_eq, hmin, hmax]
  exact and_congr_right fun _ => Int.le_sub_one_iff

theorem toInt_mul_of_fits {v factor : Int64} (h : ¬ Overflows v factor) :
    (v * factor).toInt = v.toInt * factor.toInt := by
  rw [Overflows, not_or, not_lt, not_le] at h
  have hword : v * factor = Int64.ofInt (v.toInt * factor.toInt) := by
    rw [Int64.ofInt_mul, Int64.ofInt_toInt, Int64.ofInt_toInt]
  rw [hword]
  exact toInt_ofInt_of_fits ((fitsInt64_iff _).mpr h)

theorem not_overflows_zero (v : Int64) : ¬ Overflows v 0 := by
  unfold Overflows
  simp

/-- The products of ordered values with a factor, in order again. -/
def products (factor : Int64) (vs : List Int64) : List Int64 :=
  if factor < 0 then (vs.map (· * factor)).reverse else vs.map (· * factor)

theorem products_perm (factor : Int64) (vs : List Int64) :
    (products factor vs).Perm (vs.map (· * factor)) := by
  unfold products
  split
  · exact List.reverse_perm _
  · exact .refl _

theorem length_products (factor : Int64) (vs : List Int64) :
    (products factor vs).length = vs.length := by
  rw [(products_perm factor vs).length_eq, List.length_map]

namespace Histogram

theorem scaleBin_eq (factor : Int64) (b : Bin) :
    scaleBin factor b = ⟨b.value * factor, b.count⟩ := by
  rw [scaleBin, Int64.ofInt_mul, Int64.ofInt_toInt, Int64.ofInt_toInt]

theorem observed_map_scaleBin (factor : Int64) (bs : List Bin) :
    observed (bs.map (scaleBin factor)) = (observed bs).map (· * factor) := by
  unfold observed
  rw [List.flatMap_map, List.map_flatMap]
  refine congrArg (List.flatMap · bs) (funext fun b => ?_)
  rw [scaleBin_eq, List.map_replicate]

theorem observed_reverse (bs : List Bin) : observed bs.reverse = (observed bs).reverse := by
  induction bs with
  | nil => rfl
  | cons b bs ih =>
    have hcons : observed (b :: bs) = List.replicate b.count b.value ++ observed bs := rfl
    rw [List.reverse_cons, observed_append, ih, hcons, List.reverse_append, List.reverse_replicate]
    exact congrArg (_ ++ ·) (List.flatMap_singleton _ _)

theorem outgrows_iff (factor : Int64) (b : Bin) :
    outgrows factor b = true ↔ Overflows b.value factor := by
  rw [outgrows, Bool.not_eq_true', ← Bool.not_eq_true, fitsInt64_iff, Overflows, not_and_or, not_le,
    not_lt]

theorem observed_scaleBins {factor : Int64} (hf : factor ≠ 0) (bs : List Bin) :
    observed (scaleBins factor bs) = products factor (observed bs) := by
  unfold scaleBins products
  by_cases hpos : 0 < factor
  · rw [if_pos hpos, if_neg (Int64.not_lt.mpr (Int64.le_of_lt hpos)), observed_map_scaleBin]
  · rw [if_neg hpos, if_pos (Int64.lt_of_le_of_ne (Int64.not_lt.mp hpos) hf), observed_reverse,
      observed_map_scaleBin]

theorem observed_single (vs : List Int64) : observed [⟨0, vs.length⟩] = products 0 vs := by
  have hzero : (fun v : Int64 => v * 0) = fun _ => 0 := funext fun v => Int64.mul_zero
  rw [products, if_neg (by decide), observed, List.flatMap_singleton, hzero, List.map_const']

theorem eq_of_perm {g h : Histogram} (hperm : g.observations.Perm h.observations) : g = h := by
  have hbins : g.bins = h.bins := by
    rw [g.bins_eq_runLengths, h.bins_eq_runLengths, runLengths_perm hperm]
  cases g
  cases h
  congr

end Histogram

namespace Distribution

theorem exists_bin_iff (d : Distribution) (p : Int64 → Prop) :
    (∃ b ∈ d.bins, p b.value) ↔ ∃ v ∈ d.histogram.observations, p v := by
  simp only [mem_observations]
  exact ⟨fun ⟨b, hb, hp⟩ => ⟨b.value, ⟨b, hb, rfl⟩, hp⟩,
    fun ⟨_, ⟨b, hb, hv⟩, hp⟩ => ⟨b, hb, hv ▸ hp⟩⟩

/-- No product of an observation leaves the range of samples. -/
def Scalable (d : Distribution) (factor : Int64) : Prop :=
  ∀ v ∈ d.histogram.observations, ¬ Overflows v factor

theorem scalable_iff (d : Distribution) (factor : Int64) :
    d.Scalable factor ↔ ¬ (factor ≠ 0 ∧ ∃ x ∈ d.bins, Overflows x.value factor) := by
  rw [d.exists_bin_iff (Overflows · factor)]
  constructor
  · rintro hfit ⟨-, v, hv, hover⟩
    exact hfit v hv hover
  · intro hnone v hv hover
    have hf : factor ≠ 0 := fun hzero => not_overflows_zero v (hzero ▸ hover)
    exact hnone ⟨hf, v, hv, hover⟩

end Distribution

namespace Builder

open TimingStats.Distribution (Scalable)

variable {b : Builder} {factor : Int64} {d : Distribution}

/-! ## What is written -/

theorem scale_not_isEmpty (h : b.isEmpty = false) (factor : Int64) (d : Distribution) :
    b.scale factor d = .error .builderNotEmpty := by
  unfold scale
  rw [h]
  rfl

/-- Where all products fit, they are written over the empty builder. -/
theorem scale_ok (h : b.isEmpty = true) (fit : d.Scalable factor) :
    ∃ (g : Histogram) (hpos : 0 < (b.overwrite g).numBins),
      b.scale factor d = .ok ((b.overwrite g).finish hpos) ∧
      g.observations = products factor d.histogram.observations ∧
      g.bins.length = if factor = 0 then 1 else d.bins.length := by
  unfold scale
  rw [h, if_neg (by decide)]
  by_cases hf : factor = 0
  · subst hf
    refine ⟨_, _, dif_pos rfl, ?_, rfl⟩
    rw [← Histogram.observed_single, d.length_observations]
    rfl
  · rw [dif_neg hf]
    split
    · rename_i x hs
      have hbin := List.mem_of_find?_eq_some hs
      obtain ⟨v, hv, hover⟩ := (d.exists_bin_iff (Overflows · factor)).mp
        ⟨x, hbin, (Histogram.outgrows_iff factor x).mp (List.find?_some hs)⟩
      exact absurd hover (fit v hv)
    · refine ⟨_, ?_, rfl, Histogram.observed_scaleBins hf d.bins, ?_⟩
      · rw [numBins_overwrite, Histogram.scaled, Histogram.length_scaleBins]
        exact List.length_pos_iff.mpr d.bins_ne_nil
      · rw [if_neg hf]
        exact Histogram.length_scaleBins factor d.bins

/-- A product that does not fit is a fault, which names the least observation with such a
product. -/
theorem scale_overflow (h : b.isEmpty = true) (hover : ∃ x ∈ d.bins, Overflows x.value factor) :
    ∃ x ∈ d.bins, Overflows x.value factor ∧
      (∀ y ∈ d.bins, Overflows y.value factor → x.value ≤ y.value) ∧
      b.scale factor d = .error (.scaleOverflow x.value factor) := by
  obtain ⟨z, hz, hzover⟩ := hover
  have hf : factor ≠ 0 := fun hzero => not_overflows_zero z.value (hzero ▸ hzover)
  unfold scale
  rw [h, if_neg (by decide), dif_neg hf]
  split
  · rename_i x hs
    obtain ⟨hx, as, bs, hsplit, has⟩ := List.find?_eq_some_iff_append.mp hs
    refine ⟨x, List.mem_of_find?_eq_some hs, (Histogram.outgrows_iff factor x).mp hx, ?_, rfl⟩
    intro y hy hyover
    have hinc := d.sorted.increasing
    rw [hsplit] at hy hinc
    rcases List.mem_append.mp hy with hmem | hmem
    · have hnot := has y hmem
      rw [Bool.not_eq_true', ← Bool.not_eq_true, Histogram.outgrows_iff] at hnot
      exact absurd hyover hnot
    · rcases List.mem_cons.mp hmem with rfl | hmem
      · exact Int64.le_refl _
      · have hright := (List.pairwise_append.mp hinc).2.1
        exact Int64.le_of_lt ((List.pairwise_cons.mp hright).1 y hmem)
  · rename_i hs
    have hnone := List.find?_eq_none.mp hs z hz
    rw [Histogram.outgrows_iff] at hnone
    exact absurd hzover hnone

theorem scalable_of_scale {e : Distribution} (h : b.scale factor d = .ok e) :
    b.isEmpty = true ∧ d.Scalable factor := by
  cases hempty : b.isEmpty with
  | false => cases h.symm.trans (scale_not_isEmpty hempty factor d)
  | true =>
    refine ⟨rfl, fun v hv hover => ?_⟩
    obtain ⟨x, -, -, -, hfault⟩ := scale_overflow hempty
      ((d.exists_bin_iff (Overflows · factor)).mpr ⟨v, hv, hover⟩)
    cases h.symm.trans hfault

theorem observations_of_scale {e : Distribution} (h : b.scale factor d = .ok e) :
    e.histogram.observations = products factor d.histogram.observations := by
  obtain ⟨hempty, hfit⟩ := scalable_of_scale h
  obtain ⟨g, hpos, hok, hobs, -⟩ := scale_ok hempty hfit
  obtain rfl := Except.ok.inj (h.symm.trans hok)
  rw [observations_finish, ← hobs]
  exact congrArg Histogram.observed (BinTable.bins_overwrite _ _)

theorem bins_of_scale {e : Distribution} (h : b.scale factor d = .ok e) :
    e.bins = runLengths (d.histogram.observations.map (· * factor)) := by
  rw [← runLengths_perm (products_perm factor _), ← observations_of_scale h]
  exact e.histogram.bins_eq_runLengths

/-! ## Repeated scaling -/

/-- The result depends on the products alone. -/
theorem scale_ok_of_perm {c e : Distribution} {f : Int64} (h : b.scale factor d = .ok e)
    (hfit : c.Scalable f) (hperm : (d.histogram.observations.map (· * factor)).Perm
      (c.histogram.observations.map (· * f))) : b.scale f c = .ok e := by
  obtain ⟨hempty, hfit'⟩ := scalable_of_scale h
  obtain ⟨u, hu, hok, hobs, -⟩ := scale_ok hempty hfit
  obtain ⟨w, hw, hok', hobs', -⟩ := scale_ok hempty hfit'
  have hsame : w.observations.Perm u.observations := by
    rw [hobs, hobs']
    exact (products_perm factor _).trans (hperm.trans (products_perm f _).symm)
  obtain rfl : w = u := Histogram.eq_of_perm hsame
  exact hok.trans (hok'.symm.trans h)

/-- Scaling by two factors in turn is scaling by their product, if that is a factor. -/
theorem scale_scale {e : Distribution} (h : b.scale factor d = .ok e) {g product : Int64}
    (hproduct : product.toInt = factor.toInt * g.toInt) (b' : Builder) (e' : Distribution) :
    b'.scale g e = .ok e' ↔ b'.scale product d = .ok e' := by
  obtain ⟨-, hfit⟩ := scalable_of_scale h
  have hword : product = factor * g := by
    rw [← Int64.ofInt_toInt product, hproduct, Int64.ofInt_mul, Int64.ofInt_toInt,
      Int64.ofInt_toInt]
  have hobs : e.histogram.observations.Perm (d.histogram.observations.map (· * factor)) :=
    observations_of_scale h ▸ products_perm factor _
  have hperm : (e.histogram.observations.map (· * g)).Perm
      (d.histogram.observations.map (· * product)) := by
    refine (hobs.map _).trans (.of_eq ?_)
    rw [List.map_map, hword]
    exact List.map_congr_left fun v _ => Int64.mul_assoc v factor g
  have hover : ∀ v ∈ d.histogram.observations,
      (Overflows (v * factor) g ↔ Overflows v product) := fun v hv => by
    rw [Overflows, Overflows, toInt_mul_of_fits (hfit v hv), hproduct, Int.mul_assoc]
  constructor
  · intro hok
    refine scale_ok_of_perm hok (fun v hv => ?_) hperm
    have hmem := hobs.mem_iff.mpr (List.mem_map_of_mem (f := (· * factor)) hv)
    exact (hover v hv).not.mp ((scalable_of_scale hok).2 _ hmem)
  · intro hok
    refine scale_ok_of_perm hok (fun w hw => ?_) hperm.symm
    obtain ⟨v, hv, rfl⟩ := List.mem_map.mp (hobs.mem_iff.mp hw)
    exact (hover v hv).not.mpr ((scalable_of_scale hok).2 v hv)

end Builder

namespace Distribution

/-! ## Scaled distributions -/

theorem numBins_congr {d e : Distribution} (h : d.bins = e.bins) : d.numBins = e.numBins := by
  rw [← d.length_bins, ← e.length_bins, h]

theorem endRanks_congr {d e : Distribution} (h : d.bins = e.bins) : d.endRanks = e.endRanks := by
  rw [endRanks_eq, endRanks_eq, numBins_congr h, h]

/-- What is seen of the distribution of all observations times a factor, which was written into a
builder with some room. -/
structure ScaledBy (e d : Distribution) (factor : Int64) (room : ℕ) : Prop where
  /-- No product wraps around. -/
  exact : ∀ v ∈ d.histogram.observations, (v * factor).toInt = v.toInt * factor.toInt
  /-- It is what any empty builder builds from the products. -/
  built : ∀ b : Builder, b.isEmpty = true → ∃ f,
    (b.insertAll (d.histogram.observations.map (· * factor))).build = .ok f ∧
      e.bins = f.bins ∧ e.endRanks = f.endRanks
  increasing : e.bins.Pairwise fun x y => x.value < y.value
  size : e.size = d.size
  distinct : factor ≠ 0 → e.distinct = d.distinct
  zero : factor = 0 → e.bins = [⟨0, d.size⟩]
  endRanks : e.endRanks =
    (List.range e.distinct).map fun i => ((e.bins.take (i + 1)).map Bin.count).sum
  capacity : e.capacity = Nat.max room e.distinct
  /-- A factor that is not negative keeps the ranks. -/
  kept : 0 ≤ factor → ∀ r < d.size, ∃ v,
    d.valueAtRank r = .ok v ∧ e.valueAtRank r = .ok (v * factor)
  /-- A negative factor reverses the ranks. -/
  reversed : factor < 0 → ∀ r < d.size, ∃ v,
    d.valueAtRank r = .ok v ∧ e.valueAtRank (d.size - 1 - r) = .ok (v * factor)

theorem endRanks_eq_sums (d : Distribution) : d.endRanks =
    (List.range d.distinct).map fun i => ((d.bins.take (i + 1)).map Bin.count).sum := by
  rw [endRanks_eq]
  exact List.map_congr_left fun i _ => Histogram.total_eq_sum _

theorem getElem?_products_of_neg {factor : Int64} (hf : factor < 0) {vs : List Int64} {r : ℕ}
    (hr : r < vs.length) :
    (products factor vs)[vs.length - 1 - r]? = vs[r]?.map (· * factor) := by
  have hplace : vs.length - 1 - (vs.length - 1 - r) = r := by omega
  rw [products, if_pos hf, List.getElem?_reverse (by rw [List.length_map]; omega),
    List.length_map, hplace, List.getElem?_map]

theorem scaledBy_of_scale {b : Builder} {d e : Distribution} {factor : Int64}
    (h : b.scale factor d = .ok e) : e.ScaledBy d factor b.capacity := by
  obtain ⟨hempty, hfit⟩ := Builder.scalable_of_scale h
  have hobs := Builder.observations_of_scale h
  have hlen := d.length_observations
  have hsize : e.size = d.size := by
    rw [← e.length_observations, hobs, length_products, hlen]
  obtain ⟨g, hpos, hok, -, hbins⟩ := Builder.scale_ok hempty hfit
  have he : e = (b.overwrite g).finish hpos := Except.ok.inj (h.symm.trans hok)
  have hdistinct : e.distinct = g.bins.length := he ▸ b.numBins_overwrite g
  refine ⟨fun v hv => toInt_mul_of_fits (hfit v hv), fun c hc => ?_, e.sorted.increasing, hsize,
    fun hf => ?_, ?_, e.endRanks_eq_sums, ?_, ?_, ?_⟩
  · have hne : d.histogram.observations.map (· * factor) ≠ [] :=
      mt List.map_eq_nil_iff.mp (Builder.observations_ne_nil d)
    have hpos := Nat.pos_of_ne_zero (mt (Builder.numBins_insertAll_eq_zero hc _).mp hne)
    have hsame : e.bins = ((c.insertAll _).finish hpos).bins := by
      rw [Builder.bins_finish, Builder.bins_insertAll hc, Builder.bins_of_scale h]
    exact ⟨_, Builder.build_of_pos hpos, hsame, endRanks_congr hsame⟩
  · rw [hdistinct, hbins, if_neg hf]
    exact d.length_bins
  · rintro rfl
    have hsingle : (Histogram.single 0 d.size d.size_pos).observations =
        products 0 d.histogram.observations := by
      rw [← Histogram.observed_single, hlen]
      rfl
    exact congrArg Histogram.bins (Histogram.eq_of_perm (.of_eq (hobs.trans hsingle.symm)))
  · rw [hdistinct, he]
    exact BinTable.capacity_overwrite _ _
  · intro hf r hr
    rw [← hlen] at hr
    refine ⟨_, d.valueAtRank_eq (List.getElem?_eq_getElem hr), e.valueAtRank_eq ?_⟩
    rw [hobs, products, if_neg (Int64.not_lt.mpr hf), List.getElem?_map,
      List.getElem?_eq_getElem hr]
    rfl
  · intro hf r hr
    rw [← hlen] at hr ⊢
    refine ⟨_, d.valueAtRank_eq (List.getElem?_eq_getElem hr), e.valueAtRank_eq ?_⟩
    rw [hobs, getElem?_products_of_neg hf hr, List.getElem?_eq_getElem hr]
    rfl

end Distribution

namespace Builder

/-- **Scaling is exact.** From an empty builder, whatever its buffer holds and however large it is,
scaling faults just if the factor is not zero and a product leaves the range of samples; the fault
names the least observation with such a product. Else it gives what insertion of all products would.
Scaling again multiplies the factors. -/
theorem scale_exact (b : Builder) (h : b.isEmpty = true) (factor : Int64) (d : Distribution) :
    ((∃ f, b.scale factor d = .error f) ↔
      factor ≠ 0 ∧ ∃ x ∈ d.bins, Overflows x.value factor) ∧
    (∀ f, b.scale factor d = .error f → ∃ x ∈ d.bins, Overflows x.value factor ∧
      (∀ y ∈ d.bins, Overflows y.value factor → x.value ≤ y.value) ∧
      f = .scaleOverflow x.value factor) ∧
    (¬ (factor ≠ 0 ∧ ∃ x ∈ d.bins, Overflows x.value factor) →
      ∃ e, b.scale factor d = .ok e ∧ e.ScaledBy d factor b.capacity) ∧
    ∀ e, b.scale factor d = .ok e → ∀ g product : Int64,
      product.toInt = factor.toInt * g.toInt → ∀ (b' : Builder) (e' : Distribution),
        b'.scale g e = .ok e' ↔ b'.scale product d = .ok e' := by
  have hscalable := d.scalable_iff factor
  refine ⟨⟨?_, ?_⟩, ?_, ?_, ?_⟩
  · rintro ⟨f, hf⟩
    by_contra hnone
    obtain ⟨g, hpos, hok, -⟩ := scale_ok h (hscalable.mpr hnone)
    cases hf.symm.trans hok
  · rintro ⟨-, hover⟩
    obtain ⟨x, -, -, -, hfault⟩ := scale_overflow h hover
    exact ⟨_, hfault⟩
  · intro f hf
    by_cases hover : ∃ x ∈ d.bins, Overflows x.value factor
    · obtain ⟨x, hx, hxover, hleast, hfault⟩ := scale_overflow h hover
      exact ⟨x, hx, hxover, hleast, Except.error.inj (hf.symm.trans hfault)⟩
    · obtain ⟨g, hpos, hok, -⟩ := scale_ok h (hscalable.mpr (mt And.right hover))
      cases hf.symm.trans hok
  · intro hnone
    obtain ⟨g, hpos, hok, -⟩ := scale_ok h (hscalable.mpr hnone)
    exact ⟨_, hok, Distribution.scaledBy_of_scale hok⟩
  · intro e hok g product hproduct b' e'
    exact scale_scale hok hproduct b' e'

/-- Three values, the lowest of which has no opposite in the range of samples. -/
def withLowest : Distribution :=
  ((ofCapacity 1 Nat.one_pos).insertAll [7, Int64.minValue, 5, 7]).finish (by decide +kernel)

/-- Three values on both sides of zero. -/
def aroundZero : Distribution :=
  ((ofCapacity 1 Nat.one_pos).insertAll [30, -10, 20, -10]).finish (by decide +kernel)

/-- A builder that has held other values, and one that is too small. -/
theorem scale_exact_reversed :
    (∃ f, secondHand.scale (-1) withLowest = .error f) ∧
    ∃ e, (ofCapacity 1 Nat.one_pos).scale (-2) aroundZero = .ok e ∧
      e.bins = [⟨-60, 1⟩, ⟨-40, 1⟩, ⟨20, 2⟩] ∧ e.capacity = 3 ∧
      ∃ e', secondHand.scale 3 e = .ok e' ∧ secondHand.scale (-6) aroundZero = .ok e' := by
  obtain ⟨hfault, -, -, -⟩ := scale_exact secondHand rfl (-1) withLowest
  obtain ⟨-, -, hok, hagain⟩ := scale_exact (ofCapacity 1 Nat.one_pos) rfl (-2) aroundZero
  obtain ⟨-, -, hok', -⟩ := scale_exact secondHand rfl (-6) aroundZero
  have hbins : aroundZero.bins = [⟨-10, 2⟩, ⟨20, 1⟩, ⟨30, 1⟩] := by decide +kernel
  obtain ⟨e, he, hscaled⟩ := hok (by rw [hbins]; simp [Overflows])
  obtain ⟨e', he', -⟩ := hok' (by rw [hbins]; simp [Overflows])
  refine ⟨hfault.mpr ⟨by decide, ⟨Int64.minValue, 1⟩, ?_, .inr (by decide)⟩, e, he, ?_, ?_, e',
    (hagain e he 3 (-6) (by decide) secondHand e').mpr he', he'⟩
  · decide +kernel
  · rw [bins_of_scale he]
    decide +kernel
  · rw [hscaled.capacity, hscaled.distinct (by decide)]
    decide +kernel

end Builder
end TimingStats
