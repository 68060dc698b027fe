import TimingStats.Decimal.Shortest
import TimingStats.Text.Integer

/-! # Numerals

An integer has many numerals: there may be a plus sign, and any number of zeros before the other
digits. Reading takes every numeral of an integer in range, and no other text. Printing gives one of
them. -/

namespace TimingStats.Text

/-- One or more decimal digits. -/
structure Digits (ds : List Char) : Prop where
  nonempty : ds ≠ []
  all : ∀ c ∈ ds, c.isDigit = true

/-- Texts for an integer: digits, which may have a sign. -/
inductive Numeral : List Char → Int → Prop
  | plain {ds : List Char} (h : Digits ds) : Numeral ds (Nat.ofDigitChars 10 ds 0)
  | plus {ds : List Char} (h : Digits ds) : Numeral ('+' :: ds) (Nat.ofDigitChars 10 ds 0)
  | minus {ds : List Char} (h : Digits ds) : Numeral ('-' :: ds) (-Nat.ofDigitChars 10 ds 0)

variable {cs ds : List Char} {limit n m : Nat} {past : IntegerError} {z : Int}

/-! ## Digits -/

theorem digitValue_eq (c : Char) :
    digitValue c = if c.isDigit then some (c.toNat - '0'.toNat) else none := by
  have hiff : ('0' ≤ c ∧ c ≤ '9') ↔ c.isDigit = true := by
    simp only [Char.isDigit, Bool.and_eq_true, decide_eq_true_eq]
    exact Iff.rfl
  unfold digitValue
  simp only [hiff]

/-- Further digits do not make a number smaller. -/
theorem le_ofDigitChars (n : Nat) (ds : List Char) : n ≤ Nat.ofDigitChars 10 ds n := by
  induction ds generalizing n with
  | nil => exact Nat.le_refl n
  | cons c ds ih =>
    rw [Nat.ofDigitChars_cons]
    exact Nat.le_trans (by omega) (ih _)

theorem readDigits_eq_ok (hn : n ≤ limit) :
    readDigits limit past n ds = .ok m ↔
      (∀ c ∈ ds, c.isDigit = true) ∧ m = Nat.ofDigitChars 10 ds n ∧ m ≤ limit := by
  induction ds generalizing n with
  | nil =>
    rw [readDigits, Except.ok.injEq]
    constructor
    · rintro rfl
      exact ⟨List.forall_mem_nil _, rfl, hn⟩
    · rintro ⟨-, rfl, -⟩
      rfl
  | cons c ds ih =>
    rw [readDigits, digitValue_eq, Nat.ofDigitChars_cons, List.forall_mem_cons]
    by_cases hc : c.isDigit = true
    · rw [if_pos hc]
      dsimp only
      by_cases hbig : limit < 10 * n + (c.toNat - '0'.toNat)
      · have hgrow := le_ofDigitChars (10 * n + (c.toNat - '0'.toNat)) ds
        rw [if_pos hbig]
        exact iff_of_false (fun he => nomatch he) fun h => by omega
      · rw [if_neg hbig, ih (Nat.le_of_not_lt hbig), and_iff_right hc]
    · rw [if_neg hc]
      exact iff_of_false (fun he => nomatch he) fun h => hc h.1.1

theorem readNat_eq_ok :
    readNat limit past cs = .ok m ↔ Digits cs ∧ m = Nat.ofDigitChars 10 cs 0 ∧ m ≤ limit := by
  unfold readNat
  cases cs with
  | nil => exact iff_of_false (fun he => nomatch he) fun h => h.1.nonempty rfl
  | cons c cs =>
    rw [List.isEmpty_cons, if_neg Bool.false_ne_true, readDigits_eq_ok (Nat.zero_le limit)]
    exact and_congr_left fun _ => ⟨fun hall => ⟨List.cons_ne_nil c cs, hall⟩, Digits.all⟩

/-! ## Signs -/

theorem numeral_minus_iff :
    Numeral ('-' :: ds) z ↔ Digits ds ∧ z = -Nat.ofDigitChars 10 ds 0 := by
  constructor
  · rintro (h | h | h)
    · exact absurd (h.all '-' List.mem_cons_self) (by decide)
    · exact ⟨h, rfl⟩
  · rintro ⟨h, rfl⟩
    exact .minus h

theorem numeral_plus_iff :
    Numeral ('+' :: ds) z ↔ Digits ds ∧ z = Nat.ofDigitChars 10 ds 0 := by
  constructor
  · rintro (h | h | h)
    · exact absurd (h.all '+' List.mem_cons_self) (by decide)
    · exact ⟨h, rfl⟩
  · rintro ⟨h, rfl⟩
    exact .plus h

theorem numeral_unsigned_iff (hminus : ∀ ds, cs ≠ '-' :: ds) (hplus : ∀ ds, cs ≠ '+' :: ds) :
    Numeral cs z ↔ Digits cs ∧ z = Nat.ofDigitChars 10 cs 0 := by
  constructor
  · rintro (h | h | h)
    · exact ⟨h, rfl⟩
    · exact absurd rfl (hplus _)
    · exact absurd rfl (hminus _)
  · rintro ⟨h, rfl⟩
    exact .plain h

theorem Numeral.mem (h : Numeral cs z) : ∀ c ∈ cs, c.isDigit = true ∨ c = '+' ∨ c = '-' := by
  rcases h with h | h | h
  · exact fun c hc => .inl (h.all c hc)
  · exact List.forall_mem_cons.mpr ⟨.inr (.inl rfl), fun c hc => .inl (h.all c hc)⟩
  · exact List.forall_mem_cons.mpr ⟨.inr (.inr rfl), fun c hc => .inl (h.all c hc)⟩

/-! ## Reading -/

theorem fitsInt64_toInt (v : Int64) : fitsInt64 v.toInt = true := by
  have hl := v.minValue_le_toInt
  have hu := v.toInt_le
  exact Bool.and_eq_true_iff.mpr ⟨decide_eq_true hl, decide_eq_true hu⟩

/-- Reads the number after a sign. The limit is the one up to which the signed number fits. -/
theorem readNat_signed_eq_ok {sign : Nat → Int}
    (hlimit : ∀ n, n ≤ limit ↔ fitsInt64 (sign n) = true) (v : Int64) :
    (readNat limit past ds >>= fun n => pure (Int64.ofInt (sign n))) = .ok v ↔
      Digits ds ∧ v.toInt = sign (Nat.ofDigitChars 10 ds 0) := by
  constructor
  · intro h
    cases hread : readNat limit past ds with
    | error e =>
      rw [hread] at h
      cases h
    | ok n =>
      rw [hread] at h
      obtain rfl := Except.ok.inj h
      obtain ⟨hdigits, rfl, hle⟩ := readNat_eq_ok.mp hread
      exact ⟨hdigits, toInt_ofInt_of_fits ((hlimit _).mp hle)⟩
  · rintro ⟨hdigits, hv⟩
    have hle := (hlimit (Nat.ofDigitChars 10 ds 0)).mpr (hv ▸ fitsInt64_toInt v)
    rw [readNat_eq_ok.mpr ⟨hdigits, rfl, hle⟩]
    exact congrArg Except.ok (hv ▸ Int64.ofInt_toInt v)

theorem le_limit_iff_fits (n : Nat) : n ≤ UInt64.size / 2 - 1 ↔ fitsInt64 n = true := by
  have hmin : Int64.minValue.toInt = -9223372036854775808 := by decide
  have hmax : Int64.maxValue.toInt = 9223372036854775807 := by decide
  rw [fitsInt64, hmin, hmax, Bool.and_eq_true, decide_eq_true_eq, decide_eq_true_eq, UInt64.size]
  omega

/-- There is one integer more below zero than above. -/
theorem le_limit_iff_fits_neg (n : Nat) : n ≤ UInt64.size / 2 ↔ fitsInt64 (-n) = true := by
  have hmin : Int64.minValue.toInt = -9223372036854775808 := by decide
  have hmax : Int64.maxValue.toInt = 9223372036854775807 := by decide
  rw [fitsInt64, hmin, hmax, Bool.and_eq_true, decide_eq_true_eq, decide_eq_true_eq, UInt64.size]
  omega

/-- **Reading accepts the numerals of the integers in range**, and gives the integer. -/
theorem readInt64_eq_ok (v : Int64) : readInt64 cs = .ok v ↔ Numeral cs v.toInt := by
  unfold readInt64
  split
  · rw [numeral_minus_iff]
    exact readNat_signed_eq_ok le_limit_iff_fits_neg v
  · rw [numeral_plus_iff]
    exact readNat_signed_eq_ok le_limit_iff_fits v
  · rename_i hminus hplus
    rw [numeral_unsigned_iff hminus hplus]
    exact readNat_signed_eq_ok le_limit_iff_fits v

/-! ## Printing -/

theorem digits_digitText (n : Nat) : Digits (Decimal.digitText n).toList := by
  rw [Decimal.digitText, String.toList_ofList]
  exact ⟨Nat.toDigits_ne_nil, fun c hc => Nat.isDigit_of_mem_toDigits (by decide) (by decide) hc⟩

theorem ofDigitChars_digitText (n : Nat) :
    Nat.ofDigitChars 10 (Decimal.digitText n).toList 0 = n := by
  rw [Decimal.digitText, String.toList_ofList]
  exact Nat.ofDigitChars_toDigits (by decide) (by decide)

theorem numeral_digitText (n : Nat) : Numeral (Decimal.digitText n).toList n := by
  have h := Numeral.plain (digits_digitText n)
  rwa [ofDigitChars_digitText] at h

theorem numeral_intText (z : Int) : Numeral (Decimal.intText z).toList z := by
  unfold Decimal.intText
  split
  · rename_i hneg
    have h := Numeral.minus (digits_digitText z.natAbs)
    rw [ofDigitChars_digitText, Int.ofNat_natAbs_of_nonpos (Int.le_of_lt hneg), Int.neg_neg] at h
    rwa [String.toList_append]
  · rename_i hneg
    have h := numeral_digitText z.natAbs
    rwa [Int.natAbs_of_nonneg (by omega)] at h

end TimingStats.Text
