/-
Arithmetic rounds once.

Every operation takes the exact result and rounds it, so that what comes out is the number nearest
to it.  Nothing more is needed of an operation: a value that is a number is kept, rounding never
crosses a number, and a whole value stays whole.

* **`Binary64.nearest_ofInt`**, **`Binary64.nearest_add`**, **`Binary64.nearest_mul`**,
  **`Binary64.nearest_div`** — the operations;
* **`Binary64.nearest_abs_sub`** — the distance of two numbers;
* **`Binary64.exists_toRat_eq`** — so many units of a power are a number;
* **`Binary64.short_iff`** — which integers are numbers;
* **`Binary64.Nearest.toRat_eq`**, **`Binary64.Nearest.le`** — rounding against a number;
* **`Binary64.Nearest.whole`** — a whole value is rounded to a whole number.
-/
import DocumentRules.Proofs.Number.Nearest

namespace DocumentRules.Binary64

variable {s : Bool} {n d : ℕ} {v : ℚ} {x y : Binary64} {e : ℤ}

/-! ### The operations -/

theorem isFinite_neg (x : Binary64) : x.neg.isFinite = x.isFinite := by
  cases x <;> rfl

theorem toRat_neg (x : Binary64) : x.neg.toRat = -x.toRat := by
  cases x with
  | nan => exact neg_zero.symm
  | infinity _ => exact neg_zero.symm
  | finite s m q h =>
    rw [neg, toRat_finite, toRat_finite]
    cases s <;> simp

/-- A quotient of the magnitude of a value, with its sign. -/
theorem nearest_ofQuotient_signed {r : ℚ} (hsigned : signed s |r| = r) :
    Nearest r (ofQuotient s r.num.natAbs r.den) := by
  have hnearest := nearest_ofQuotient s r.num.natAbs r.den_pos
  rwa [abs_num_div_den, hsigned] at hnearest

theorem nearest_ofRat (r : ℚ) : Nearest r (ofRat r) := by
  refine nearest_ofQuotient_signed ?_
  rcases lt_or_ge r 0 with hneg | hnonneg
  · rw [signed, if_pos (decide_eq_true (Rat.num_neg.mpr hneg)), abs_of_neg hneg, neg_neg]
  · have hnum : decide (r.num < 0) = false :=
      decide_eq_false (not_lt.mpr (Rat.num_nonneg.mpr hnonneg))
    rw [signed, hnum, if_neg Bool.false_ne_true, abs_of_nonneg hnonneg]

theorem ofInt_eq_ofRat (i : ℤ) : ofInt i = ofRat i := by
  rw [ofInt, ofRat, Rat.num_intCast, Rat.den_intCast]

/-- **An integer is converted to the nearest number.** -/
theorem nearest_ofInt (i : ℤ) : Nearest i (ofInt i) := by
  rw [ofInt_eq_ofRat]
  exact nearest_ofRat i

/-- **A sum is rounded to the nearest number.** -/
theorem nearest_add (hx : x.isFinite = true) (hy : y.isFinite = true) :
    Nearest (x.toRat + y.toRat) (x.add y) := by
  cases x <;> cases y <;> simp only [isFinite, reduceCtorEq] at hx hy
  simp only [add]
  split
  · rename_i hzero
    rw [hzero]
    exact nearest_zero _
  · exact nearest_ofRat _

/-- The sign of a number is that of its value. -/
theorem signed_abs_toRat {m : ℕ} {q : ℤ} (h : Canonical m q) :
    signed s |toRat (.finite s m q h)| = toRat (.finite s m q h) := by
  rw [abs_toRat_finite, toRat_finite, signed]

theorem signed_xor_mul (s t : Bool) (a b : ℚ) : signed (s ^^ t) (a * b) = signed s a * signed t b := by
  cases s <;> cases t <;> simp [signed]

/-- **A product is rounded to the nearest number.** -/
theorem nearest_mul (hx : x.isFinite = true) (hy : y.isFinite = true) :
    Nearest (x.toRat * y.toRat) (x.mul y) := by
  cases x <;> cases y <;> simp only [isFinite, reduceCtorEq] at hx hy
  refine nearest_ofQuotient_signed ?_
  rw [abs_mul, signed_xor_mul, signed_abs_toRat, signed_abs_toRat]

theorem signed_inv (s : Bool) (a : ℚ) : signed s a⁻¹ = (signed s a)⁻¹ := by
  cases s <;> simp [signed, inv_neg]

/-- **A quotient of numbers is rounded to the nearest number.** -/
theorem nearest_div (hx : x.isFinite = true) (hy : y.isFinite = true) (hne : y.toRat ≠ 0) :
    Nearest (x.toRat / y.toRat) (x.div y) := by
  cases x <;> cases y <;> simp only [isFinite, reduceCtorEq] at hx hy
  rename_i t n r k
  have hn : n ≠ 0 := by
    rintro rfl
    rw [← abs_ne_zero, abs_toRat_finite, Nat.cast_zero, zero_mul] at hne
    exact hne rfl
  simp only [div, if_neg hn]
  refine nearest_ofQuotient_signed ?_
  rw [abs_div, div_eq_mul_inv, signed_xor_mul, signed_inv, signed_abs_toRat, signed_abs_toRat,
    ← div_eq_mul_inv]

/-- Without its sign a quotient is rounded to the same magnitude. -/
theorem abs_ofQuotient (s : Bool) (n d : ℕ) : (ofQuotient s n d).abs = ofQuotient false n d := by
  have hpack (m : ℕ) (q : ℤ) : (pack s m q).abs = pack false m q := by
    unfold pack
    split <;> rfl
  unfold ofQuotient
  split
  · rfl
  · simp only
    split <;> exact hpack _ _

/-- **The distance of two numbers** is rounded to the nearest number. -/
theorem nearest_abs_sub (hx : x.isFinite = true) (hy : y.isFinite = true) :
    Nearest |x.toRat - y.toRat| (x.sub y).abs := by
  have hneg : y.neg.isFinite = true := (isFinite_neg y).trans hy
  rw [sub_eq_add_neg, ← toRat_neg, sub]
  generalize y.neg = y at hneg
  cases x <;> cases y <;> simp only [isFinite, reduceCtorEq] at hx hneg
  simp only [add]
  split
  · rename_i hzero
    rw [hzero, abs_zero]
    exact nearest_zero _
  · rw [ofRat, abs_ofQuotient, ← abs_num_div_den]
    exact nearest_ofQuotient false _ (Rat.den_pos _)

/-! ### Numbers among the values -/

/-- **So many units of a power are a number**, up to `2 ^ 53` of them. -/
theorem exists_toRat_eq {z : ℤ} (hz : |z| ≤ 2 ^ 53) (hlow : -1022 ≤ e) (hhigh : e ≤ 970) :
    ∃ y : Binary64, y.isFinite = true ∧ y.toRat = z * 2 ^ e := by
  rw [← Int.natCast_natAbs] at hz
  obtain ⟨m, q, hm, hvalue⟩ : ∃ m q, Canonical m q ∧ (z.natAbs : ℚ) * 2 ^ e = m * 2 ^ q := by
    rcases lt_or_eq_of_le hz with hlt | heq
    · exact exists_canonical (by omega) hlow (by omega)
    · -- One unit too many for a significand is half as many of twice the size.
      obtain ⟨m, q, hm, hvalue⟩ := exists_canonical (n := 2 ^ 52) (e := e + 1) (by norm_num)
        (by omega) (by omega)
      refine ⟨m, q, hm, ?_⟩
      have hnatAbs : z.natAbs = 2 ^ 53 := by omega
      rw [← hvalue, hnatAbs, zpow_add_one₀ (by norm_num)]
      push_cast
      ring
  refine ⟨.finite (z < 0) m q hm, rfl, ?_⟩
  rw [toRat_finite, ← hvalue, Nat.cast_natAbs, Int.cast_abs]
  rcases lt_or_ge z 0 with hneg | hnonneg
  · have hneg' : (z : ℚ) < 0 := by exact_mod_cast hneg
    rw [if_pos (decide_eq_true hneg), abs_of_neg hneg', neg_mul, neg_neg]
  · have hnonneg' : (0 : ℚ) ≤ z := by exact_mod_cast hnonneg
    rw [if_neg (by simpa using hnonneg), abs_of_nonneg hnonneg']

theorem toRat_zero (s : Bool) : (zero s).toRat = 0 := by
  rw [zero, toRat_finite, Nat.cast_zero, zero_mul, neg_zero, ite_self]

/-- The integer has at most 53 bits in front of the zeros at its end. -/
def Short (n : ℤ) : Prop := ∃ m k : ℕ, m < 2 ^ 53 ∧ n.natAbs = m * 2 ^ k

theorem short_of_abs_le {n : ℤ} (hn : |n| ≤ 2 ^ 53) : Short n := by
  rw [← Int.natCast_natAbs] at hn
  rcases lt_or_eq_of_le hn with hlt | heq
  · exact ⟨n.natAbs, 0, by omega, by omega⟩
  · exact ⟨2 ^ 52, 1, by norm_num, by omega⟩

/-- **Short integers are numbers**, and no others are. -/
theorem short_iff {n : ℤ} (hn : |n| ≤ 2 ^ 64) :
    Short n ↔ ∃ x : Binary64, x.isFinite = true ∧ x.toRat = n := by
  constructor
  · rintro ⟨m, k, hm, hk⟩
    rcases eq_or_ne n 0 with rfl | hne
    · obtain ⟨x, hx, hvalue⟩ := exists_toRat_eq (z := 0) (e := 0) (by norm_num) (by norm_num)
        (by norm_num)
      exact ⟨x, hx, by rw [hvalue, Int.cast_zero, zero_mul]⟩
    · have hm' : m ≠ 0 := by
        rintro rfl
        omega
      have hpow : 2 ^ k ≤ 2 ^ 64 := by
        calc 2 ^ k ≤ m * 2 ^ k := Nat.le_mul_of_pos_left _ (Nat.pos_of_ne_zero hm')
          _ = n.natAbs := hk.symm
          _ ≤ 2 ^ 64 := by rw [← Int.natCast_natAbs] at hn; omega
      have hk' : k ≤ 64 := (Nat.pow_le_pow_iff_right (by decide)).mp hpow
      have hsign : |n.sign * m| ≤ 2 ^ 53 := by
        rw [abs_mul, Int.abs_sign_of_ne_zero hne, one_mul, Nat.abs_cast]
        omega
      obtain ⟨x, hx, hvalue⟩ := exists_toRat_eq (e := k) hsign (by omega) (by omega)
      refine ⟨x, hx, ?_⟩
      have hsplit : n.sign * m * 2 ^ k = n := by
        conv_rhs => rw [← Int.sign_mul_natAbs n, hk]
        push_cast
        ring
      rw [hvalue, zpow_natCast]
      exact_mod_cast congrArg (Int.cast : ℤ → ℚ) hsplit
  · rintro ⟨x, hx, hn⟩
    cases x with
    | nan => cases hx
    | infinity _ => cases hx
    | finite s m q h =>
      have hm : m < 2 ^ 53 := by
        rcases h with ⟨hsub, -⟩ | ⟨-, hhigh, -⟩
        · exact hsub.trans (by decide)
        · exact hhigh
      have hvalue : (n.natAbs : ℚ) = m * 2 ^ q := by
        rw [← abs_toRat_finite (s := s) h, hn, Nat.cast_natAbs, Int.cast_abs]
      rcases le_total 0 q with hq | hq
      · refine ⟨m, q.toNat, hm, ?_⟩
        rw [← Int.toNat_of_nonneg hq, zpow_natCast] at hvalue
        exact_mod_cast hvalue
      · refine ⟨n.natAbs, 0, ?_, by omega⟩
        have hle : (n.natAbs : ℚ) ≤ m := by
          rw [hvalue]
          exact mul_le_of_le_one_right (Nat.cast_nonneg m) (zpow_le_one_of_nonpos₀ one_le_two hq)
        have : n.natAbs ≤ m := by exact_mod_cast hle
        omega

/-- Every number lies below the point from which on values are rounded to infinity. -/
theorem abs_toRat_lt_overflow (hx : x.isFinite = true) : |x.toRat| < overflow := by
  cases x with
  | nan => cases hx
  | infinity _ => cases hx
  | finite s m q h =>
    have hm : m ≤ 2 ^ 53 - 1 ∧ q ≤ 971 := by
      rcases h with ⟨hsub, rfl⟩ | ⟨-, hhigh, -, hmax⟩
      · have : m < 2 ^ 52 := hsub
        omega
      · have : m < 2 ^ 53 := hhigh
        omega
    have hcast : (m : ℚ) ≤ 2 ^ 53 - 1 := by
      have : m + 1 ≤ 2 ^ 53 := by omega
      have : (m : ℚ) + 1 ≤ 2 ^ 53 := by exact_mod_cast this
      linarith
    rw [abs_toRat_finite, overflow_eq]
    calc (m : ℚ) * 2 ^ q ≤ (2 ^ 53 - 1) * 2 ^ (971 : ℤ) := by
          gcongr
          · norm_num
          · exact hm.2
      _ < (2 ^ 53 - 1 / 2) * 2 ^ (971 : ℤ) := by gcongr; norm_num

/-! ### Rounding against a number -/

namespace Nearest

/-- A value that is not too large is rounded to a finite number. -/
theorem isFinite (h : Nearest v x) (hv : |v| < overflow) : x.isFinite = true := by
  cases h with
  | finite => rfl
  | infinite hlarge => exact absurd hv (not_lt.mpr hlarge)

/-- No finite number is nearer. -/
theorem closest (h : Nearest v x) (hx : x.isFinite = true) (hy : y.isFinite = true) :
    |v - x.toRat| ≤ |v - y.toRat| := by
  cases h with
  | finite _ hclosest => exact hclosest y hy
  | infinite => cases hx

/-- **A value that is a number is kept.** -/
theorem toRat_eq (h : Nearest y.toRat x) (hy : y.isFinite = true) :
    x.isFinite = true ∧ x.toRat = y.toRat := by
  have hx := h.isFinite (abs_toRat_lt_overflow hy)
  have hclosest := h.closest hx hy
  rw [sub_self, abs_zero, abs_nonpos_iff, sub_eq_zero] at hclosest
  exact ⟨hx, hclosest.symm⟩

theorem toRat_eq_of_short {n : ℤ} (h : Nearest n x) (hn : Short n) (hbound : |n| ≤ 2 ^ 64) :
    x.isFinite = true ∧ x.toRat = n := by
  obtain ⟨y, hy, hvalue⟩ := (short_iff hbound).mp hn
  rw [← hvalue] at h ⊢
  exact h.toRat_eq hy

theorem eq_zero (h : Nearest 0 x) : x.toRat = 0 := by
  rw [← toRat_zero false] at h ⊢
  exact (h.toRat_eq rfl).2

/-- **Rounding never crosses a number**, from below. -/
theorem le (h : Nearest v x) (hx : x.isFinite = true) (hy : y.isFinite = true)
    (hle : v ≤ y.toRat) : x.toRat ≤ y.toRat := by
  by_contra hlt
  have hclosest := h.closest hx hy
  rw [abs_of_nonpos (by linarith), abs_of_nonpos (by linarith)] at hclosest
  linarith

theorem ge (h : Nearest v x) (hx : x.isFinite = true) (hy : y.isFinite = true)
    (hge : y.toRat ≤ v) : y.toRat ≤ x.toRat := by
  by_contra hlt
  have hclosest := h.closest hx hy
  rw [abs_of_nonneg (by linarith), abs_of_nonneg (by linarith)] at hclosest
  linarith

/-- A value up to a power of two is rounded to a number up to this power. -/
theorem bounded (h : Nearest v x) {k : ℕ} (hk : k ≤ 970) (hv : |v| ≤ 2 ^ k) :
    x.isFinite = true ∧ |x.toRat| ≤ 2 ^ k := by
  obtain ⟨y, hy, hvalue⟩ := exists_toRat_eq (z := 1) (e := k) (by norm_num) (by omega) (by omega)
  rw [Int.cast_one, one_mul, zpow_natCast] at hvalue
  have hneg : y.neg.isFinite = true := (isFinite_neg y).trans hy
  obtain ⟨hlow, hhigh⟩ := abs_le.mp hv
  have hx : x.isFinite = true := by
    refine h.isFinite (hv.trans_lt ?_)
    rw [← hvalue]
    exact (le_abs_self _).trans_lt (abs_toRat_lt_overflow hy)
  have hge := h.ge hx hneg (by rwa [toRat_neg, hvalue])
  rw [toRat_neg, hvalue] at hge
  exact ⟨hx, abs_le.mpr ⟨hge, hvalue ▸ h.le hx hy (hvalue ▸ hhigh)⟩⟩

/-- **A whole value is rounded to a whole number.** -/
theorem whole {n : ℤ} (h : Nearest n x) (hx : x.isFinite = true) : ∃ z : ℤ, x.toRat = z := by
  have hpower {z : ℤ} (hz : |z| ≤ 2 ^ 53) : ∃ y : Binary64, y.isFinite = true ∧ y.toRat = z := by
    obtain ⟨y, hy, hvalue⟩ := exists_toRat_eq (e := 0) hz (by norm_num) (by norm_num)
    exact ⟨y, hy, by rw [hvalue, zpow_zero, mul_one]⟩
  rcases on_grid_or_below hx 0 with ⟨z, hz⟩ | ⟨-, hsmall⟩
  · exact ⟨z, by rw [hz, zpow_zero, mul_one]⟩
  · -- Only a value below `2 ^ 52` comes to lie there, and such a value is a number if it is whole.
    rw [zpow_zero, mul_one] at hsmall
    obtain ⟨hlow, hhigh⟩ := abs_lt.mp hsmall
    have hn : |n| ≤ 2 ^ 53 := by
      rw [abs_le]
      by_contra hlarge
      rcases not_and_or.mp hlarge with hbelow | habove
      · obtain ⟨y, hy, hvalue⟩ := hpower (z := -2 ^ 52) (by norm_num)
        have hcast : (n : ℚ) ≤ (-2 ^ 52 : ℤ) := by exact_mod_cast (by omega : n ≤ -2 ^ 52)
        have := h.le hx hy (hvalue ▸ hcast)
        rw [hvalue] at this
        push_cast at this
        linarith
      · obtain ⟨y, hy, hvalue⟩ := hpower (z := 2 ^ 52) (by norm_num)
        have hcast : ((2 ^ 52 : ℤ) : ℚ) ≤ n := by exact_mod_cast (by omega : (2 : ℤ) ^ 52 ≤ n)
        have := h.ge hx hy (hvalue ▸ hcast)
        rw [hvalue] at this
        push_cast at this
        linarith
    obtain ⟨y, hy, hvalue⟩ := hpower hn
    rw [← hvalue] at h
    exact ⟨n, (h.toRat_eq hy).2.trans hvalue⟩

end Nearest

/-- Moderate integers are converted exactly. -/
theorem toRat_ofInt {n : ℤ} (hn : |n| ≤ 2 ^ 53) :
    (ofInt n).isFinite = true ∧ (ofInt n).toRat = n :=
  (nearest_ofInt n).toRat_eq_of_short (short_of_abs_le hn) (hn.trans (by norm_num))

end DocumentRules.Binary64
