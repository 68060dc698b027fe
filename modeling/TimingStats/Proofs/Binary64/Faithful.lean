import TimingStats.Proofs.Binary64.Sums

/-! # Faithful rounding

A result is faithful to an exact number if it stands to every representable number as the exact one
does: it is that number if that is representable, and one of its two neighbours if not. A word that
is rounded and then added to a faithful result for everything below it gives a faithful result again
(`Faithful.add_word`), although it is rounded twice. Where the word has more bits than a double
keeps, this rests on ties going to the even neighbour. -/

namespace TimingStats.Binary64

variable {q r t : ℚ}

/-- The result stands to every representable number as the exact one does. -/
structure Faithful (t q : ℚ) : Prop where
  representable : Representable t
  below : ∀ r, Representable r → r ≤ q → r ≤ t
  above : ∀ r, Representable r → q ≤ r → t ≤ r

theorem faithful_zero : Faithful 0 0 :=
  ⟨representable_zero, fun _ _ h => h, fun _ _ h => h⟩

theorem Faithful.neg (h : Faithful t q) : Faithful (-t) (-q) where
  representable := h.representable.neg
  below r hr hle := le_neg.mpr (h.above (-r) hr.neg (le_neg.mpr hle))
  above r hr hle := neg_le.mpr (h.below (-r) hr.neg (neg_le.mpr hle))

theorem Faithful.eq_of_representable (h : Faithful t q) (hq : Representable q) : t = q :=
  le_antisymm (h.above q hq le_rfl) (h.below q hq le_rfl)

theorem Faithful.nonneg (h : Faithful t q) (hq : 0 ≤ q) : 0 ≤ t := h.below 0 representable_zero hq

/-- The distance of the representable numbers around a number. -/
def ulp (q : ℚ) : ℚ := 2 ^ lastPlace |q|

theorem ulp_pos (q : ℚ) : 0 < ulp q := two_zpow_pos _

/-- The multiples of the last place on both sides of a number are representable. -/
theorem representable_floor (hq : 0 ≤ q) :
    Representable (⌊q / ulp q⌋ * ulp q) ∧ Representable ((⌊q / ulp q⌋ + 1) * ulp q) := by
  have habs : |q| = q := abs_of_nonneg hq
  have hlow : 0 ≤ ⌊q / ulp q⌋ := Int.floor_nonneg.mpr (div_nonneg hq (ulp_pos q).le)
  have hup : ⌊q / ulp q⌋ < 2 ^ 53 := by
    rw [Int.floor_lt, ulp, habs, div_lt_iff₀ (two_zpow_pos _)]
    have := lt_lastPlace q
    rw [zpow_add₀ (by norm_num), mul_comm] at this
    exact_mod_cast this
  have hplace : -1074 ≤ lastPlace |q| := le_max_right _ _
  constructor
  · exact representable_mul_zpow (by rw [abs_of_nonneg] <;> omega) hplace
  · have := representable_mul_zpow (m := ⌊q / ulp q⌋ + 1) (by rw [abs_of_nonneg] <;> omega) hplace
    exact_mod_cast this

theorem Faithful.abs_sub_lt (h : Faithful t q) : |t - q| < ulp q := by
  have hnonneg : ∀ {t q : ℚ}, 0 ≤ q → Faithful t q → |t - q| < ulp q := by
    intro t q hq h
    have hu := ulp_pos q
    obtain ⟨hfloor, hnext⟩ := representable_floor hq
    have hle : ⌊q / ulp q⌋ * ulp q ≤ q := (le_div_iff₀ hu).mp (Int.floor_le _)
    have hlt : q < (⌊q / ulp q⌋ + 1) * ulp q := (div_lt_iff₀ hu).mp (Int.lt_floor_add_one _)
    have h1 := h.below _ hfloor hle
    have h2 := h.above _ hnext hlt.le
    rcases hle.lt_or_eq with hin | heq
    · rw [abs_lt]
      constructor <;> linarith
    · rw [h.eq_of_representable (heq ▸ hfloor), sub_self, abs_zero]
      exact hu
  rcases le_total 0 q with hq | hq
  · exact hnonneg hq h
  · have := hnonneg (neg_nonneg.mpr hq) h.neg
    rwa [neg_sub_neg, abs_sub_comm, ulp, abs_neg] at this

/-! ## Places -/

/-- The last place of a number that fills its bits. -/
theorem lastPlace_eq {p : ℤ} (hp : -1074 ≤ p) (hle : 2 ^ (p + 52) ≤ q) (hlt : q < 2 ^ (p + 53)) :
    lastPlace q = p := by
  have hpos : 0 < q := lt_of_lt_of_le (two_zpow_pos _) hle
  have hlog : Int.log 2 q < p + 53 :=
    (Int.lt_zpow_iff_log_lt (b := 2) (by norm_num) hpos).mp (by exact_mod_cast hlt)
  have := le_lastPlace hle
  unfold lastPlace at this ⊢
  omega

/-- Beyond the fifty-three bits of one place, the representable numbers are the even ones. -/
theorem Representable.exists_even (h : Representable r) {a : ℤ} (hle : 2 ^ (53 + a) ≤ r) :
    ∃ k : ℤ, r = (2 * k : ℤ) * 2 ^ a := by
  have hpos : 0 < r := lt_of_lt_of_le (two_zpow_pos _) hle
  obtain ⟨k, hk⟩ := h.exists_mul_zpow (p := a + 1) (by
    rw [abs_of_pos hpos]
    have := le_lastPlace hle
    omega)
  refine ⟨k, ?_⟩
  rw [hk, zpow_add₀ (by norm_num)]
  push_cast
  ring

/-- What a representable number has below a word that a double keeps whole is representable. -/
theorem Representable.sub_word (h : Representable r) {w : ℕ} (hw : 0 < w) (hlt : w < 2 ^ 53)
    {a : ℤ} (ha : -1074 ≤ a) (hf : ⌊r / 2 ^ a⌋ = (w : ℤ)) : Representable (r - w * 2 ^ a) := by
  obtain ⟨hle, hup⟩ := Int.floor_eq_iff.mp hf
  rw [le_div_iff₀ (two_zpow_pos a)] at hle
  rw [div_lt_iff₀ (two_zpow_pos a)] at hup
  push_cast at hle hup
  have hpos : 0 < r := lt_of_lt_of_le (mul_pos (by exact_mod_cast hw) (two_zpow_pos a)) hle
  have hlog : w.log2 < 53 := (Nat.log2_lt hw.ne').mpr hlt
  have hplace : lastPlace |r| = max (w.log2 + a - 52) (-1074) := by
    rw [abs_of_pos hpos, lastPlace, log_eq_of_floor hw hf]
  obtain ⟨k, hk⟩ := h.exists_mul_zpow le_rfl
  generalize lastPlace |r| = p at hplace hk
  obtain ⟨d, hd⟩ := Int.eq_ofNat_of_zero_le (show 0 ≤ a - p by omega)
  have hsplit : (2 : ℚ) ^ a = 2 ^ d * 2 ^ p := by
    rw [← zpow_natCast, ← zpow_add₀ (by norm_num)]
    congr 1
    omega
  have hval : r - w * 2 ^ a = ((k - w * 2 ^ d : ℤ) : ℚ) * 2 ^ p := by
    rw [hk, hsplit]
    push_cast
    ring
  -- the difference is less than the word's unit, which has at most fifty-two bits more
  have hnonneg : 0 ≤ k - w * 2 ^ d := by
    have : (0 : ℚ) ≤ ((k - w * 2 ^ d : ℤ) : ℚ) * 2 ^ p := hval ▸ sub_nonneg.mpr hle
    exact_mod_cast nonneg_of_mul_nonneg_left this (two_zpow_pos p)
  have hsmall : k - w * 2 ^ d < 2 ^ d := by
    have : ((k - w * 2 ^ d : ℤ) : ℚ) * 2 ^ p < 2 ^ d * 2 ^ p := by
      rw [← hval, ← hsplit]
      linarith
    exact_mod_cast lt_of_mul_lt_mul_right this (two_zpow_pos p).le
  have hpow : (2 : ℤ) ^ d ≤ 2 ^ 53 := pow_le_pow_right₀ (by norm_num) (by omega)
  rw [hval]
  exact representable_mul_zpow (by rw [abs_of_nonneg hnonneg]; omega) (by omega)

/-! ## Ties -/

/-- A number is rounded up from the half on, and from the half itself where that gives an even
number. -/
theorem nearestEven_of_lt (h : q < nearestEven q) :
    nearestEven q = ⌊q⌋ + 1 ∧ 1 / 2 ≤ q - ⌊q⌋ ∧ (q - ⌊q⌋ = 1 / 2 → (⌊q⌋ + 1) % 2 = 0) := by
  have hle := Int.floor_le q
  unfold nearestEven at h ⊢
  by_cases h1 : q - ⌊q⌋ < 1 / 2
  · rw [if_pos h1] at h
    linarith
  · rw [if_neg h1] at h ⊢
    by_cases h2 : 1 / 2 < q - ⌊q⌋
    · rw [if_pos h2]
      exact ⟨rfl, h2.le, fun heq => absurd heq h2.ne'⟩
    · rw [if_neg h2] at h ⊢
      have hodd : ⌊q⌋ % 2 = 1 := by
        by_contra hne
        have h0 : ⌊q⌋ % 2 = 0 := by omega
        rw [h0, add_zero] at h
        linarith
      exact ⟨by rw [hodd], not_lt.mp h1, fun _ => by omega⟩

/-- A number that is rounded up to a whole one has its mirror image rounded down to it. -/
theorem nearestEven_mirror (h : q < nearestEven q) :
    nearestEven (2 * nearestEven q - q) = nearestEven q := by
  have hlt := Int.lt_floor_add_one q
  obtain ⟨hn, hhalf, heven⟩ := nearestEven_of_lt h
  have hf : ⌊2 * (nearestEven q : ℚ) - q⌋ = nearestEven q := by
    rw [Int.floor_eq_iff, hn]
    push_cast
    constructor <;> linarith
  rw [nearestEven.eq_def (2 * (nearestEven q : ℚ) - q), hf, hn]
  push_cast
  rcases hhalf.lt_or_eq with hmore | heq
  · rw [if_pos (by linarith)]
  · rw [if_neg (by linarith), if_neg (by linarith), heven heq.symm, add_zero]

theorem nearestEven_lt_add (q : ℚ) : (nearestEven q : ℚ) - q ≤ 1 / 2 := by
  have hle := Int.floor_le q
  unfold nearestEven
  split_ifs with h1 h2
  · linarith
  · push_cast
    linarith
  · have hmod : ⌊q⌋ % 2 ≤ 1 := by omega
    have : ((⌊q⌋ % 2 : ℤ) : ℚ) ≤ 1 := by exact_mod_cast hmod
    push_cast
    linarith

/-- A normal number that is rounded up has its mirror image rounded down. -/
theorem rounded_mirror_le {p : ℤ} (hp : -1074 ≤ p) (hle : 2 ^ (p + 52) ≤ q)
    (hlt : q < 2 ^ (p + 53)) (hup : q < rounded q) : rounded (2 * rounded q - q) ≤ rounded q := by
  have hpos : 0 < q := lt_of_lt_of_le (two_zpow_pos _) hle
  have hplace := lastPlace_eq hp hle hlt
  have hu := two_zpow_pos p
  have hval := rounded_of_nonneg hpos.le
  rw [hplace] at hval
  have hbits := nearestEven_le q
  rw [hplace] at hbits
  have hhalf := nearestEven_lt_add (q / 2 ^ p)
  have hq : q = q / 2 ^ p * 2 ^ p := (div_mul_cancel₀ q hu.ne').symm
  generalize q / 2 ^ p = x at hval hbits hhalf hq
  have hx : x < nearestEven x := by
    rw [hval, hq, mul_lt_mul_iff_left₀ hu] at hup
    exact hup
  have hmirror := nearestEven_mirror hx
  generalize nearestEven x = n at hval hbits hhalf hx hmirror
  have himage : 2 * rounded q - q = (2 * n - x) * 2 ^ p := by
    rw [hval, hq]
    ring
  have himage_pos : 0 ≤ 2 * rounded q - q := by linarith
  rcases hbits.lt_or_eq with hlt53 | heq
  · -- the mirror image has the same last place
    have hn : (n : ℚ) + 1 ≤ 2 ^ 53 := by exact_mod_cast hlt53
    have hsame : lastPlace (2 * rounded q - q) = p := by
      refine lastPlace_eq hp (by linarith) ?_
      rw [himage, zpow_add₀ (by norm_num), mul_comm]
      refine mul_lt_mul_of_pos_left ?_ hu
      have : (2 : ℚ) ^ (53 : ℤ) = 2 ^ 53 := by norm_num
      rw [this]
      linarith
    have hdiv : (2 * rounded q - q) / 2 ^ p = 2 * n - x := by
      rw [himage, mul_div_cancel_right₀ _ hu.ne']
    rw [rounded_of_nonneg himage_pos, hsame, hdiv, hmirror, hval]
  · -- a power of two: above it the last place is twice as coarse
    subst heq
    have htop : rounded q = 2 ^ (p + 1 + 52) := by
      rw [hval, show p + 1 + 52 = 53 + p by ring, zpow_add₀ (by norm_num)]
      norm_num
    have hnext : lastPlace (2 * rounded q - q) = p + 1 := by
      refine lastPlace_eq (by omega) (by rw [← htop]; linarith) ?_
      calc 2 * rounded q - q < 2 * rounded q := by linarith
        _ = 2 ^ (p + 1 + 53) := by
            rw [htop, show p + 1 + 53 = 1 + (p + 1 + 52) by ring, zpow_add₀ (by norm_num) 1]
            norm_num
    have hdiv : (2 * rounded q - q) / 2 ^ (p + 1) = 2 ^ 53 - x / 2 := by
      rw [himage, zpow_add₀ (by norm_num), zpow_one, div_eq_iff (by positivity)]
      push_cast
      ring
    have hx2 : (2 : ℚ) ^ 53 - 1 / 2 ≤ x := by
      push_cast at hhalf
      linarith
    have hx3 : x < 2 ^ 53 := by exact_mod_cast hx
    have hfloor : ⌊(2 : ℚ) ^ 53 - x / 2⌋ = 2 ^ 52 := by
      rw [Int.floor_eq_iff]
      norm_num at hx2 hx3 ⊢
      constructor <;> linarith
    have hnear : nearestEven ((2 : ℚ) ^ 53 - x / 2) = 2 ^ 52 := by
      unfold nearestEven
      rw [hfloor, if_pos (by norm_num at hx2 ⊢; linarith)]
    rw [rounded_of_nonneg himage_pos, hnext, hdiv, hnear, htop,
      show p + 1 + 52 = 52 + (p + 1) by ring, zpow_add₀ (by norm_num) 52]
    norm_num

/-! ## A word above a faithful result -/

/-- A word of fifty-three bits or fewer is not rounded itself. What a representable number has below
it is again representable. -/
theorem Faithful.add_short_word (h : Faithful t r) (hr : 0 ≤ r) {a : ℤ} (ha : -1074 ≤ a)
    (hlt : r < 2 ^ a) {w : ℕ} (hw : 0 < w) (hshort : w < 2 ^ 53) :
    Faithful (rounded (w * 2 ^ a + t)) (w * 2 ^ a + r) where
  representable := representable_rounded _
  below s hs hle := by
    apply hs.le_rounded
    rcases le_or_gt s (w * 2 ^ a) with hword | hword
    · have := h.nonneg hr
      linarith
    · have hf : ⌊s / 2 ^ a⌋ = (w : ℤ) := by
        rw [Int.floor_eq_iff, le_div_iff₀ (two_zpow_pos a), div_lt_iff₀ (two_zpow_pos a)]
        push_cast
        constructor <;> linarith
      have := h.below _ (hs.sub_word hw hshort ha hf) (by linarith)
      linarith
  above s hs hle := by
    apply hs.rounded_le
    rcases le_or_gt (((w : ℚ) + 1) * 2 ^ a) s with hnext | hnext
    · have := h.above _ (representable_two_zpow ha) hlt.le
      linarith
    · have hf : ⌊s / 2 ^ a⌋ = (w : ℤ) := by
        rw [Int.floor_eq_iff, le_div_iff₀ (two_zpow_pos a), div_lt_iff₀ (two_zpow_pos a)]
        push_cast
        constructor <;> linarith
      have := h.above _ (hs.sub_word hw hshort ha hf) (by linarith)
      linarith

/-- A longer word is rounded itself. The representable numbers near it are then even multiples of
its unit, so that what is below it decides nothing but a tie. -/
theorem Faithful.add_long_word (h : Faithful t r) (hr : 0 ≤ r) {a : ℤ} (ha : -1074 ≤ a)
    (hlt : r < 2 ^ a) {w : ℕ} (hlong : 2 ^ 53 ≤ w) :
    Faithful (rounded (rounded (w * 2 ^ a) + t)) (w * 2 ^ a + r) := by
  have hu := two_zpow_pos a
  have ht := h.nonneg hr
  have htu := h.above _ (representable_two_zpow ha) hlt.le
  have hfull : (2 : ℚ) ^ (53 + a) ≤ w * 2 ^ a := by
    rw [zpow_add₀ (by norm_num)]
    exact mul_le_mul_of_nonneg_right (by exact_mod_cast hlong) hu.le
  have hfloor : Representable (2 ^ (53 + a)) := representable_two_zpow (by omega)
  have hword := hfloor.le_rounded hfull
  refine ⟨representable_rounded _, fun s hs hle => ?_, fun s hs hle => ?_⟩
  · apply hs.le_rounded
    suffices hsw : s ≤ w * 2 ^ a by
      have := hs.le_rounded hsw
      linarith
    by_contra hgt
    obtain ⟨k, rfl⟩ := hs.exists_even (hfull.trans (not_le.mp hgt).le)
    have h1 : (w : ℚ) < (2 * k : ℤ) := lt_of_mul_lt_mul_right (not_le.mp hgt) hu.le
    have h2 : ((2 * k : ℤ) : ℚ) < w + 1 := by
      refine lt_of_mul_lt_mul_right (a := (2 : ℚ) ^ a) ?_ hu.le
      linarith
    have h1 : (w : ℤ) < 2 * k := by exact_mod_cast h1
    have h2 : 2 * k < (w : ℤ) + 1 := by exact_mod_cast h2
    omega
  · have hws : (w : ℚ) * 2 ^ a ≤ s := by linarith
    obtain ⟨j, hj⟩ := (representable_rounded ((w : ℚ) * 2 ^ a)).exists_even hword
    rcases (hs.rounded_le hws).lt_or_eq with hbelow | heq
    · apply hs.rounded_le
      obtain ⟨k, rfl⟩ := hs.exists_even (hfull.trans hws)
      rw [hj] at hbelow ⊢
      have hjk : (2 * j : ℤ) < 2 * k := by exact_mod_cast lt_of_mul_lt_mul_right hbelow hu.le
      have hstep : ((2 * j : ℤ) : ℚ) + 1 ≤ (2 * k : ℤ) := by exact_mod_cast hjk
      have := mul_le_mul_of_nonneg_right hstep hu.le
      linarith
    · rw [← heq] at hle ⊢
      rcases hws.lt_or_eq with hup | hexact
      · -- rounded up by a unit or more, the word has its mirror image rounded down
        rw [← heq] at hup
        have hone : (w : ℚ) * 2 ^ a + 2 ^ a ≤ rounded (w * 2 ^ a) := by
          rw [hj] at hup ⊢
          have hwj : (w : ℤ) < 2 * j := by exact_mod_cast lt_of_mul_lt_mul_right hup hu.le
          have hstep : (w : ℚ) + 1 ≤ (2 * j : ℤ) := by exact_mod_cast hwj
          have := mul_le_mul_of_nonneg_right hstep hu.le
          linarith
        have hlog := (Nat.le_log2 (by omega)).mpr hlong
        have hwlog : Int.log 2 ((w : ℚ) * 2 ^ a) = w.log2 + a := log_mul_zpow (by omega) a
        have hpos : (0 : ℚ) < w * 2 ^ a := lt_of_lt_of_le (two_zpow_pos _) hfull
        have hlow : (2 : ℚ) ^ ((w.log2 : ℤ) + a - 52 + 52) ≤ w * 2 ^ a := by
          rw [sub_add_cancel, ← hwlog]
          exact_mod_cast Int.zpow_log_le_self (b := 2) (by norm_num) hpos
        have hhigh : (w : ℚ) * 2 ^ a < 2 ^ ((w.log2 : ℤ) + a - 52 + 53) := by
          rw [show (w.log2 : ℤ) + a - 52 + 53 = w.log2 + a + 1 by ring, ← hwlog]
          exact_mod_cast Int.lt_zpow_succ_log_self (b := 2) (by norm_num) ((w : ℚ) * 2 ^ a)
        calc rounded (rounded (w * 2 ^ a) + t)
            ≤ rounded (2 * rounded (w * 2 ^ a) - w * 2 ^ a) := rounded_monotone (by linarith)
          _ ≤ rounded (w * 2 ^ a) := rounded_mirror_le (by omega) hlow hhigh hup
      · -- an exact word: there is nothing below it
        have hr0 : r ≤ 0 := by
          rw [heq, ← hexact] at hle
          linarith
        have ht0 := h.above 0 representable_zero hr0
        exact rounded_monotone (by linarith) |>.trans (representable_rounded _).le

/-- **A rounded word on a faithful result is faithful**, however many bits the word has. -/
theorem Faithful.add_word (h : Faithful t r) (hr : 0 ≤ r) {a : ℤ} (ha : -1074 ≤ a)
    (hlt : r < 2 ^ a) {w : ℕ} (hw : 0 < w) :
    Faithful (rounded (rounded (w * 2 ^ a) + t)) (w * 2 ^ a + r) := by
  rcases lt_or_ge w (2 ^ 53) with hshort | hlong
  · have hexact : Representable (w * 2 ^ a) := by
      have hle : |(w : ℤ)| ≤ 2 ^ 53 := by
        rw [Nat.abs_cast]
        omega
      exact_mod_cast representable_mul_zpow hle ha
    rw [hexact]
    exact h.add_short_word hr ha hlt hw hshort
  · exact h.add_long_word hr ha hlt hlong

/-! ## Adjacent doubles -/

def signedInfinity (negative : Bool) : Float :=
  Float.ofBits (if negative then 0xfff0000000000000 else 0x7ff0000000000000)

/-- The greatest finite double below a number, or the negative infinity if there is none. -/
def IsBelow (x : Float) (q : ℚ) : Prop :=
  (isFinite x = true ∧ toRat x < q ∧ ∀ y, isFinite y = true → toRat y < q → toRat y ≤ toRat x) ∨
    (x = signedInfinity true ∧ ∀ y, isFinite y = true → q < toRat y)

/-- The least finite double above a number, or the positive infinity if there is none. -/
def IsAbove (x : Float) (q : ℚ) : Prop :=
  (isFinite x = true ∧ q < toRat x ∧ ∀ y, isFinite y = true → q < toRat y → toRat x ≤ toRat y) ∨
    (x = signedInfinity false ∧ ∀ y, isFinite y = true → toRat y < q)

variable {x y : Float}

theorem eq_signedInfinity (hx : x.toModel.unpack = .infinity s) :
    x = signedInfinity (negative x) := by
  obtain ⟨he, hf, -⟩ := fields_of_unpack_infinity hx
  have hfields : ∀ b, negative (signedInfinity b) = b ∧ exponentField (signedInfinity b) = 2047 ∧
      fractionField (signedInfinity b) = 0 := by decide +kernel
  obtain ⟨h1, h2, h3⟩ := hfields (negative x)
  exact eq_of_fields h1.symm (he.trans h2.symm) (hf.trans h3.symm)

theorem Faithful.finite (h : Faithful t q) (hx : Rounds x t) (hlt : |t| < 2 ^ 1024) :
    isFinite x = true ∧ toRat x = t := by
  obtain ⟨hf, hv⟩ := hx.finite (by rwa [h.representable])
  exact ⟨hf, hv.trans h.representable⟩

theorem Faithful.infinite (h : Faithful t q) (hx : Rounds x t) (hle : 2 ^ 1024 ≤ |t|) :
    x = signedInfinity (decide (t < 0)) := by
  have hu := hx.overflow (by rwa [h.representable])
  obtain ⟨-, -, hs⟩ := fields_of_unpack_infinity hu
  rw [eq_signedInfinity hu]
  congr 1
  unfold sign at hs
  by_cases ht : t < 0 <;> cases hn : negative x <;> simp [ht, hn] at hs ⊢

theorem limit_pos : (0 : ℚ) < 2 ^ 1024 := by positivity

theorem representable_limit : Representable (2 ^ 1024) := by
  exact_mod_cast representable_two_zpow (e := 1024) (by norm_num)

/-- A number beyond the range leads to the infinity of its sign. -/
theorem Faithful.infinite_of_le (h : Faithful t q) (hx : Rounds x t) (hle : 2 ^ 1024 ≤ |q|) :
    x = signedInfinity (decide (q < 0)) := by
  rcases le_abs'.mp hle with hneg | hge
  · have ht := h.above _ representable_limit.neg hneg
    have hzero := neg_lt_zero.mpr limit_pos
    rw [h.infinite hx (le_abs'.mpr (.inl ht)), decide_eq_true (ht.trans_lt hzero),
      decide_eq_true (hneg.trans_lt hzero)]
  · have ht := h.below _ representable_limit hge
    rw [h.infinite hx (le_abs'.mpr (.inr ht)), decide_eq_false (limit_pos.trans_le ht).not_gt,
      decide_eq_false (limit_pos.trans_le hge).not_gt]

/-- A number that a double holds has that double's value. -/
theorem Faithful.eq_of_toRat (h : Faithful t q) (hx : Rounds x t) (hy : isFinite y = true)
    (hq : toRat y = q) : isFinite x = true ∧ toRat x = q := by
  have ht := h.eq_of_representable (hq ▸ representable_toRat y)
  have hlt : |t| < 2 ^ 1024 := by
    rw [ht, ← hq]
    exact abs_toRat_lt hy
  rw [← ht]
  exact h.finite hx hlt

/-- **A faithful result is one of the two doubles that enclose a number** between two of them. -/
theorem Faithful.isBelow_or_isAbove (h : Faithful t q) (hx : Rounds x t)
    (hq : ∀ y, isFinite y = true → toRat y ≠ q) : IsBelow x q ∨ IsAbove x q := by
  rcases lt_or_ge |t| (2 ^ 1024) with hlt | hge
  · obtain ⟨hf, hv⟩ := h.finite hx hlt
    rcases lt_trichotomy t q with htq | htq | htq
    · exact .inl (.inl ⟨hf, hv.trans_lt htq, fun y _ hyq =>
        (h.below _ (representable_toRat y) hyq.le).trans hv.ge⟩)
    · exact absurd (hv.trans htq) (hq x hf)
    · exact .inr (.inl ⟨hf, htq.trans_eq hv.symm, fun y _ hyq =>
        hv.le.trans (h.above _ (representable_toRat y) hyq.le)⟩)
  · have hinf := h.infinite hx hge
    rcases le_abs'.mp hge with hneg | hpos
    · refine .inl (.inr ⟨?_, fun y hy => ?_⟩)
      · rw [hinf, decide_eq_true (hneg.trans_lt (neg_lt_zero.mpr limit_pos))]
      · by_contra hyq
        have ht := h.below _ (representable_toRat y) (not_lt.mp hyq)
        exact (abs_lt.mp (abs_toRat_lt hy)).1.not_ge (ht.trans hneg)
    · refine .inr (.inr ⟨?_, fun y hy => ?_⟩)
      · rw [hinf, decide_eq_false (limit_pos.trans_le hpos).not_gt]
      · by_contra hyq
        have ht := h.above _ (representable_toRat y) (not_lt.mp hyq)
        exact (abs_lt.mp (abs_toRat_lt hy)).2.not_ge (hpos.trans ht)

theorem Rounds.isNaN_eq_false (hx : Rounds x q) : isNaN x = false := by
  rcases lt_or_ge |rounded q| (2 ^ 1024) with hlt | hge
  · have hf := (isFinite_iff x).mp (hx.finite hlt).1
    simp [isNaN, hf]
  · have hf := (fields_of_unpack_infinity (hx.overflow hge)).2.1
    simp [isNaN, hf]

end TimingStats.Binary64
