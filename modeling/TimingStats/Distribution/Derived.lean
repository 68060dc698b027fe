import TimingStats.Distribution.Basic

/-! # Derived distributions

Scaling maps every observation exactly. Differences and ratios are approximated by resampling:
the observations of the shorter side are taken once each, in increasing order, and each is
paired with one draw from the longer side. All of them are written into an empty builder, whose
room they keep. -/

namespace TimingStats

namespace Histogram

/-- The bin of the scaled value, which is meant to fit. -/
def scaleBin (factor : Int64) (b : Bin) : Bin :=
  ⟨Int64.ofInt (b.value.toInt * factor.toInt), b.count⟩

def outgrows (factor : Int64) (b : Bin) : Bool := !fitsInt64 (b.value.toInt * factor.toInt)

/-- The scaled bins, in reverse order for a negative factor. -/
def scaleBins (factor : Int64) (bins : List Bin) : List Bin :=
  if 0 < factor then bins.map (scaleBin factor) else (bins.map (scaleBin factor)).reverse

theorem toInt_scaleBin {factor : Int64} {b : Bin} (h : outgrows factor b = false) :
    (scaleBin factor b).value.toInt = b.value.toInt * factor.toInt := by
  exact toInt_ofInt_of_fits (by simpa [outgrows] using h)

theorem increasing_scaleBins {factor : Int64} (hf : factor ≠ 0) (h : Histogram)
    (fit : ∀ b ∈ h.bins, outgrows factor b = false) :
    (scaleBins factor h.bins).Pairwise fun a b => a.value < b.value := by
  have hmap : ∀ r : Int → Int → Prop,
      (∀ a b : Bin, a.value.toInt < b.value.toInt →
        r (a.value.toInt * factor.toInt) (b.value.toInt * factor.toInt)) →
      (h.bins.map (scaleBin factor)).Pairwise fun a b => r a.value.toInt b.value.toInt := by
    intro r hr
    rw [List.pairwise_map]
    refine h.increasing.imp_of_mem fun {a b} ha hb hab => ?_
    rw [toInt_scaleBin (fit a ha), toInt_scaleBin (fit b hb)]
    exact hr a b (Int64.lt_iff_toInt_lt.mp hab)
  unfold scaleBins
  split
  · rename_i hpos
    have hp : 0 < factor.toInt := by simpa using Int64.lt_iff_toInt_lt.mp hpos
    exact (hmap (· < ·) fun a b hab => Int.mul_lt_mul_of_pos_right hab hp).imp
      fun {a b} hab => Int64.lt_iff_toInt_lt.mpr hab
  · rename_i hneg
    have hn : factor.toInt < 0 := by
      have h1 : ¬ 0 < factor.toInt := fun hc => hneg (Int64.lt_iff_toInt_lt.mpr (by simpa using hc))
      have h2 : factor.toInt ≠ 0 := fun hc => hf (Int64.toInt_inj.mp (by simpa using hc))
      omega
    rw [List.pairwise_reverse]
    exact (hmap (fun x y => y < x) fun a b hab => Int.mul_lt_mul_of_neg_right hab hn).imp
      fun {a b} hab => Int64.lt_iff_toInt_lt.mpr hab

theorem mem_scaleBins {factor : Int64} {bins : List Bin} {c : Bin}
    (h : c ∈ scaleBins factor bins) : ∃ b ∈ bins, scaleBin factor b = c := by
  unfold scaleBins at h
  split at h <;> simpa using h

@[simp] theorem length_scaleBins (factor : Int64) (bins : List Bin) :
    (scaleBins factor bins).length = bins.length := by
  unfold scaleBins
  split <;> simp

/-- The histogram of the scaled values, where all of them fit and the factor is not zero. -/
def scaled (h : Histogram) (factor : Int64) (hf : factor ≠ 0)
    (fit : ∀ b ∈ h.bins, outgrows factor b = false) : Histogram where
  bins := scaleBins factor h.bins
  increasing := increasing_scaleBins hf h fit
  positive c hc := by
    obtain ⟨b, hb, rfl⟩ := mem_scaleBins hc
    exact h.positive b hb

end Histogram

/-- The quotient of `numerator * factor` by `denominator`, toward zero and brought into range. A
zero denominator sends it to the end of the range on the side of its sign. -/
def scaledQuotient (numerator factor denominator : Int64) : Int64 :=
  let scaled := numerator.toInt * factor.toInt
  if denominator = 0 then
    if 0 < scaled then Int64.maxValue else if scaled < 0 then Int64.minValue else 0
  else saturate (scaled.tdiv denominator.toInt)

def saturatingSub (a b : Int64) : Int64 := saturate (a.toInt - b.toInt)

namespace Builder

/-- A builder that holds a given histogram, written over what its buffer held. -/
def overwrite (b : Builder) (h : Histogram) : Builder where
  toBinTable := b.toBinTable.overwrite h.bins
  sorted := ⟨by simpa using h.increasing, by simpa using h.positive⟩

theorem numBins_overwrite (b : Builder) (h : Histogram) :
    (b.overwrite h).numBins = h.bins.length := by
  rw [← BinTable.length_bins, overwrite, BinTable.bins_overwrite]

def scale (b : Builder) (factor : Int64) (d : Distribution) : Except Fault Distribution :=
  if !b.isEmpty then .error .builderNotEmpty
  else if hf : factor = 0 then
    .ok ((b.overwrite (.single 0 d.size d.size_pos)).finish (by
      rw [numBins_overwrite]
      exact Nat.one_pos))
  else match hs : d.bins.find? (Histogram.outgrows factor) with
    | some bin => .error (.scaleOverflow bin.value factor)
    | none =>
      .ok ((b.overwrite (d.histogram.scaled factor hf (by
          simpa [Distribution.histogram] using hs))).finish (by
            rw [numBins_overwrite, Histogram.scaled, Histogram.length_scaleBins]
            exact List.length_pos_iff.mpr d.bins_ne_nil))

/-- Pairs each value with one draw from a distribution and inserts what they combine to. -/
def insertPaired [Random.RankSource σ] (d : Distribution) (combine : Int64 → Int64 → Int64) :
    Builder → List Int64 → σ → Builder × σ
  | b, [], s => (b, s)
  | b, v :: vs, s =>
    let (w, s) := d.choose s
    insertPaired d combine (b.insert (combine v w)) vs s

theorem numBins_insertPaired_pos [Random.RankSource σ] (d : Distribution)
    (combine : Int64 → Int64 → Int64) (b : Builder) (vs : List Int64) (s : σ)
    (h : 0 < b.numBins ∨ vs ≠ []) : 0 < (insertPaired d combine b vs s).1.numBins := by
  induction vs generalizing b s with
  | nil => simpa [insertPaired] using h
  | cons v vs ih => exact ih _ _ (.inl (b.numBins_insert_pos _))

theorem observations_ne_nil (d : Distribution) : d.histogram.observations ≠ [] := by
  obtain ⟨b, bs, hb⟩ := List.exists_cons_of_ne_nil d.bins_ne_nil
  have hp := d.sorted.positive b (by simp [hb])
  simp only [Histogram.observations, Distribution.histogram, hb, List.flatMap_cons, ne_eq,
    List.append_eq_nil_iff, List.replicate_eq_nil_iff]
  omega

/-- Pairs the observations of the shorter side, the left one where both are equally long, with
draws from the longer, and keeps the distribution of what the pairs combine to. -/
def resample [Random.RankSource σ] (b : Builder) (left right : Distribution)
    (combine : Int64 → Int64 → Int64) (s : σ) : Except Fault (Distribution × σ) :=
  if !b.isEmpty then .error .builderNotEmpty
  else if left.size ≤ right.size then
    let vs := left.histogram.observations
    let filled := insertPaired right combine b vs s
    .ok (filled.1.finish
      (numBins_insertPaired_pos _ _ _ _ _ (.inr (observations_ne_nil left))), filled.2)
  else
    let vs := right.histogram.observations
    let filled := insertPaired left (fun v w => combine w v) b vs s
    .ok (filled.1.finish
      (numBins_insertPaired_pos _ _ _ _ _ (.inr (observations_ne_nil right))), filled.2)

def subtract [Random.RankSource σ] (b : Builder) (left right : Distribution) (s : σ) :
    Except Fault (Distribution × σ) :=
  b.resample left right saturatingSub s

/-- The resampled distribution of `numerator * factor / denominator`. -/
def scaledDiv [Random.RankSource σ] (b : Builder) (numerator : Distribution) (factor : Int64)
    (denominator : Distribution) (s : σ) : Except Fault (Distribution × σ) :=
  b.resample numerator denominator (scaledQuotient · factor ·) s

end Builder
end TimingStats
