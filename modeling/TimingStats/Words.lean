/-! # Natural numbers in words

A number is held in sixty-four-bit words, the lowest first. Words are added and subtracted one
by one with a carry or a borrow, and `below` reads off the number that the lowest of them stand
for. -/

namespace TimingStats.Words

/-- What a one in the word at some place is worth. -/
def unit (place : Nat) : Nat := Nat.pow UInt64.size place

/-- The number that so many of the lowest words stand for. -/
def below (word : Nat → UInt64) : Nat → Nat
  | 0 => 0
  | n + 1 => below word n + (word n).toNat * unit n

/-- The word at a place; above the highest there are zeros. -/
def get (ws : Vector UInt64 n) (i : Nat) : UInt64 := ws[i]?.getD 0

def addWord (a b : UInt64) (carry : Bool) : UInt64 × Bool :=
  let s := a.toNat + b.toNat + carry.toNat
  (UInt64.ofNat s, UInt64.size ≤ s)

def subWord (a b : UInt64) (borrow : Bool) : UInt64 × Bool :=
  let d := b.toNat + borrow.toNat
  (UInt64.ofNat (a.toNat + UInt64.size - d), a.toNat < d)

def addAt (ws : Vector UInt64 n) (i : Nat) (w : UInt64) (carry : Bool) (h : i < n) :
    Vector UInt64 n × Bool :=
  let sum := addWord ws[i] w carry
  (ws.set i sum.1, sum.2)

def subAt (ws : Vector UInt64 n) (i : Nat) (w : UInt64) (borrow : Bool) (h : i < n) :
    Vector UInt64 n × Bool :=
  let difference := subWord ws[i] w borrow
  (ws.set i difference.1, difference.2)

/-- Subtracts so many of the lowest words from those of another number, in place, with the borrow
out of the last of them. -/
def subFrom (word : Nat → UInt64) (ws : Vector UInt64 n) :
    (k : Nat) → k ≤ n → Vector UInt64 n × Bool
  | 0, _ => (ws, false)
  | k + 1, h =>
    let rest := subFrom word ws k (Nat.le_of_succ_le h)
    let difference := subWord (word k) rest.1[k] rest.2
    (rest.1.set k difference.1, difference.2)

/-- Compares so many of the lowest words with those of another number, the highest first. -/
def compareBelow (ws : Vector UInt64 n) (word : Nat → UInt64) : (k : Nat) → k ≤ n → Ordering
  | 0, _ => .eq
  | k + 1, h =>
    (compare ws[k] (word k)).then (compareBelow ws word k (Nat.le_of_succ_le h))

theorem toNat_ofNat_word (n : Nat) : (UInt64.ofNat n).toNat = n % UInt64.size := by
  simp

theorem addWord_toNat (a b : UInt64) (c : Bool) :
    (addWord a b c).1.toNat + UInt64.size * (addWord a b c).2.toNat =
      a.toNat + b.toNat + c.toNat := by
  have ha := a.toNat_lt
  have hb := b.toNat_lt
  have hc : c.toNat ≤ 1 := c.toNat_le
  simp only [addWord, toNat_ofNat_word, UInt64.size]
  by_cases h : 18446744073709551616 ≤ a.toNat + b.toNat + c.toNat <;>
    simp only [h, decide_true, decide_false, Bool.toNat_true, Bool.toNat_false] <;> omega

theorem subWord_toNat (a b : UInt64) (c : Bool) :
    (subWord a b c).1.toNat + b.toNat + c.toNat =
      a.toNat + UInt64.size * (subWord a b c).2.toNat := by
  have ha := a.toNat_lt
  have hb := b.toNat_lt
  have hc : c.toNat ≤ 1 := c.toNat_le
  simp only [subWord, toNat_ofNat_word, UInt64.size]
  by_cases h : a.toNat < b.toNat + c.toNat <;> simp only [h, decide_true, decide_false,
    Bool.toNat_true, Bool.toNat_false] <;> omega

theorem unit_succ (n : Nat) : unit (n + 1) = UInt64.size * unit n := Nat.mul_comm (unit n) _

theorem unit_pos (n : Nat) : 0 < unit n := Nat.pow_pos (by decide)

theorem below_lt (word : Nat → UInt64) (n : Nat) : below word n < unit n := by
  induction n with
  | zero => exact unit_pos 0
  | succ n ih =>
    have hw : (word n).toNat + 1 ≤ UInt64.size := (word n).toNat_lt
    have hm : ((word n).toNat + 1) * unit n ≤ UInt64.size * unit n :=
      Nat.mul_le_mul_right _ hw
    rw [Nat.succ_mul] at hm
    rw [below, unit_succ]
    omega

/-- The number depends on the words that it reads and on no others. -/
theorem below_congr {f g : Nat → UInt64} {n : Nat} (h : ∀ i < n, f i = g i) :
    below f n = below g n := by
  induction n with
  | zero => rfl
  | succ n ih =>
    rw [below, below, ih fun i hi => h i (Nat.lt_succ_of_lt hi), h n (Nat.lt_succ_self n)]

/-- Zeros above some place add nothing to the number. -/
theorem below_eq_of_zero {f : Nat → UInt64} {m n : Nat} (hmn : m ≤ n)
    (h : ∀ i, m ≤ i → i < n → f i = 0) : below f n = below f m := by
  induction n with
  | zero => rw [Nat.le_zero.mp hmn]
  | succ n ih =>
    rcases Nat.lt_or_eq_of_le hmn with hlt | rfl
    · have hz : f n = 0 := h n (Nat.lt_succ_iff.mp hlt) (Nat.lt_succ_self n)
      rw [below, hz, ih (Nat.lt_succ_iff.mp hlt) fun i h1 h2 => h i h1 (Nat.lt_succ_of_lt h2)]
      simp
    · rfl

theorem get_eq_getElem (ws : Vector UInt64 n) {i : Nat} (h : i < n) : get ws i = ws[i] := by
  simp [get, h]

theorem get_of_le (ws : Vector UInt64 n) {i : Nat} (h : n ≤ i) : get ws i = 0 := by
  simp [get, Nat.not_lt.mpr h]

theorem get_set (ws : Vector UInt64 n) {i : Nat} (h : i < n) (w : UInt64) (j : Nat) :
    get (ws.set i w) j = if j = i then w else get ws j := by
  by_cases hj : j < n
  · rw [get_eq_getElem _ hj, get_eq_getElem _ hj, Vector.getElem_set]
    by_cases he : i = j
    · simp [he]
    · simp [he, Ne.symm he]
  · have hji : j ≠ i := by omega
    rw [get_of_le _ (Nat.not_lt.mp hj), get_of_le _ (Nat.not_lt.mp hj), if_neg hji]

/-- What a new word at a place does to the number. -/
theorem below_set (ws : Vector UInt64 n) {i k : Nat} (h : i < n) (hk : i < k) (w : UInt64) :
    below (get (ws.set i w)) k + ws[i].toNat * unit i =
      below (get ws) k + w.toNat * unit i := by
  induction k with
  | zero => omega
  | succ k ih =>
    rw [below, below, get_set]
    rcases Nat.lt_or_eq_of_le (Nat.lt_succ_iff.mp hk) with hlt | rfl
    · have := ih hlt
      rw [if_neg (Nat.ne_of_gt hlt)]
      omega
    · have hc : below (get (ws.set i w)) i = below (get ws) i :=
        below_congr fun j hj => by rw [get_set, if_neg (Nat.ne_of_lt hj)]
      rw [if_pos rfl, hc, get_eq_getElem _ h]
      omega

theorem get_addAt_ne (ws : Vector UInt64 n) {i j : Nat} (w : UInt64) (c : Bool) (h : i < n)
    (hj : j ≠ i) : get (addAt ws i w c h).1 j = get ws j := by
  rw [addAt, get_set, if_neg hj]

theorem get_subAt_ne (ws : Vector UInt64 n) {i j : Nat} (w : UInt64) (c : Bool) (h : i < n)
    (hj : j ≠ i) : get (subAt ws i w c h).1 j = get ws j := by
  rw [subAt, get_set, if_neg hj]

/-- An addition into one word loses nothing: the carry stands one place above. -/
theorem below_addAt (ws : Vector UInt64 n) {i k : Nat} (w : UInt64) (c : Bool) (h : i < n)
    (hk : i < k) :
    below (get (addAt ws i w c h).1) k + unit (i + 1) * (addAt ws i w c h).2.toNat =
      below (get ws) k + unit i * (w.toNat + c.toNat) := by
  have hs := below_set ws h hk (addWord ws[i] w c).1
  have hw := congrArg (· * unit i) (addWord_toNat ws[i] w c)
  simp only [Nat.add_mul] at hw
  rw [unit_succ, Nat.mul_add, Nat.mul_comm (unit i) w.toNat, Nat.mul_comm (unit i) c.toNat,
    Nat.mul_right_comm]
  simp only [addAt]
  omega

/-- A subtraction from one word loses nothing: the borrow is owed one place above. -/
theorem below_subAt (ws : Vector UInt64 n) {i k : Nat} (w : UInt64) (c : Bool) (h : i < n)
    (hk : i < k) :
    below (get (subAt ws i w c h).1) k + unit i * (w.toNat + c.toNat) =
      below (get ws) k + unit (i + 1) * (subAt ws i w c h).2.toNat := by
  have hs := below_set ws h hk (subWord ws[i] w c).1
  have hw := congrArg (· * unit i) (subWord_toNat ws[i] w c)
  simp only [Nat.add_mul] at hw
  rw [unit_succ, Nat.mul_add, Nat.mul_comm (unit i) w.toNat, Nat.mul_comm (unit i) c.toNat,
    Nat.mul_right_comm]
  simp only [subAt]
  omega

theorem get_subFrom_of_le (word : Nat → UInt64) (ws : Vector UInt64 n) {k j : Nat} (h : k ≤ n)
    (hj : k ≤ j) : get (subFrom word ws k h).1 j = get ws j := by
  induction k with
  | zero => rfl
  | succ k ih =>
    rw [subFrom, get_set, if_neg (Nat.ne_of_gt hj), ih (Nat.le_of_succ_le h) (Nat.le_of_succ_le hj)]

/-- The words so far hold the difference so far, up to the borrow. -/
theorem below_subFrom (word : Nat → UInt64) (ws : Vector UInt64 n) {k : Nat} (h : k ≤ n) :
    below (get (subFrom word ws k h).1) k + below (get ws) k =
      below word k + unit k * (subFrom word ws k h).2.toNat := by
  induction k with
  | zero => rfl
  | succ k ih =>
    have hr := ih (Nat.le_of_succ_le h)
    have hk : get (subFrom word ws k (Nat.le_of_succ_le h)).1 k = get ws k :=
      get_subFrom_of_le word ws (Nat.le_of_succ_le h) (Nat.le_refl k)
    rw [subFrom]
    generalize subFrom word ws k (Nat.le_of_succ_le h) = rest at hr hk ⊢
    have hw := congrArg (· * unit k) (subWord_toNat (word k) rest.1[k] rest.2)
    have hc : below (get (rest.1.set k (subWord (word k) rest.1[k] rest.2).1)) k =
        below (get rest.1) k :=
      below_congr fun j hj => by rw [get_set, if_neg (Nat.ne_of_lt hj)]
    rw [get_eq_getElem _ h] at hk
    simp only [below, get_set, if_pos, hc, unit_succ, Nat.add_mul] at hw ⊢
    rw [← hk, Nat.mul_right_comm UInt64.size]
    rw [Nat.mul_comm (unit k)] at hr
    omega

theorem compare_word (a b : UInt64) : compare a b = compare a.toNat b.toNat := by
  rw [Nat.compare_eq_ite_lt]
  simp only [compare, compareOfLessAndEq, UInt64.lt_iff_toNat_lt, ← UInt64.toNat_inj]
  split
  · rfl
  · split <;> split <;> first | rfl | omega

/-- Numbers compare by their highest words, and by the rest only where these agree. -/
theorem compare_then {u x y : Nat} (hx : x < u) (hy : y < u) (a b : Nat) :
    (compare a b).then (compare x y) = compare (x + a * u) (y + b * u) := by
  rcases Nat.lt_trichotomy a b with h | rfl | h
  · have hm := Nat.mul_le_mul_right u h
    rw [Nat.succ_mul] at hm
    rw [Nat.compare_eq_lt.mpr h, Nat.compare_eq_lt.mpr (by omega : x + a * u < y + b * u)]
    rfl
  · rw [Nat.compare_eq_eq.mpr (rfl : a = a), Ordering.eq_then, Nat.compare_eq_ite_lt,
      Nat.compare_eq_ite_lt]
    simp only [Nat.add_lt_add_iff_right]
  · have hm := Nat.mul_le_mul_right u h
    rw [Nat.succ_mul] at hm
    rw [Nat.compare_eq_gt.mpr h, Nat.compare_eq_gt.mpr (by omega : y + b * u < x + a * u)]
    rfl

theorem compareBelow_eq (ws : Vector UInt64 n) (word : Nat → UInt64) {k : Nat} (h : k ≤ n) :
    compareBelow ws word k h = compare (below (get ws) k) (below word k) := by
  induction k with
  | zero => rfl
  | succ k ih =>
    rw [compareBelow, ih, compare_word, below, below, get_eq_getElem ws h]
    exact compare_then (below_lt (get ws) k) (below_lt word k) _ _

end TimingStats.Words
