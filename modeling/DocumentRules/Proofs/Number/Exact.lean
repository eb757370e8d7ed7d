/-
Numbers by their exact values.

A finite number is its value, up to the sign of zero.  A value whose significand has at most 53
bits is a number, so that rounding leaves it as it is, and a number that is whole and not too
large is converted to the integer that it is.

* **`Binary64.toRat_finite`** — the exact value of a finite number;
* **`Binary64.eq_of_toRat`** — two numbers with one value other than zero are the same;
* **`Binary64.exists_canonical`** — a significand of at most 53 bits has a canonical form;
* **`Binary64.toRat_ofQuotient`** — rounding leaves a value with such a form as it is;
* **`Binary64.isWhole_iff`**, **`Binary64.toInt64_of_whole`**, **`Binary64.toInt_toInt64`** — whole
  numbers, and what they are converted to.
-/
import DocumentRules.Proofs.Number.Rounding
import Mathlib.Algebra.Order.Ring.Abs

namespace DocumentRules.Binary64

variable {x y : Binary64} {s : Bool} {m n d : ℕ} {q e : ℤ}

/-! ### The exact value -/

theorem scaled_value (m : ℕ) (q : ℤ) :
    ((scaled m q).1 : ℚ) / (scaled m q).2 = m * (2 : ℚ) ^ q := by
  have hpow := zpow_eq_div 2 q
  rw [Nat.cast_ofNat] at hpow
  rw [scaled, hpow, Nat.pow_eq, Nat.pow_eq]
  push_cast
  rw [mul_div_assoc]

theorem scaled_den_pos (m : ℕ) (q : ℤ) : 0 < (scaled m q).2 := Nat.pow_pos (by decide)

/-- **The exact value of a finite number.** -/
theorem toRat_finite (h : Canonical m q) :
    toRat (.finite s m q h) = if s then -(m * (2 : ℚ) ^ q) else m * (2 : ℚ) ^ q := by
  rw [← scaled_value]
  rfl

theorem abs_toRat_finite (h : Canonical m q) :
    |toRat (.finite s m q h)| = m * (2 : ℚ) ^ q := by
  have hnonneg : (0 : ℚ) ≤ m * (2 : ℚ) ^ q := by positivity
  rw [toRat_finite]
  cases s
  · exact abs_of_nonneg hnonneg
  · rw [if_pos rfl, abs_neg, abs_of_nonneg hnonneg]

theorem toRat_abs (x : Binary64) : x.abs.toRat = |x.toRat| := by
  cases x with
  | nan => exact abs_zero.symm
  | infinity _ => exact abs_zero.symm
  | finite s m q h => rw [abs_toRat_finite, abs, toRat_finite, if_neg Bool.false_ne_true]

theorem isFinite_abs (x : Binary64) : x.abs.isFinite = x.isFinite := by
  cases x <;> rfl

/-- The quotient that is rounded in the place of a value. -/
theorem abs_num_div_den (r : ℚ) : (r.num.natAbs : ℚ) / r.den = |r| := by
  rw [Nat.cast_natAbs, Int.cast_abs, ← Nat.abs_cast r.den, ← abs_div, Rat.num_div_den]

/-- Rounding never gives `nan`. -/
theorem ofQuotient_ne_nan (s : Bool) (n d : ℕ) : ofQuotient s n d ≠ .nan := by
  have hpack (m : ℕ) (q : ℤ) : pack s m q ≠ .nan := by
    unfold pack
    split <;> simp
  unfold ofQuotient
  split
  · simp [zero]
  · simp only
    split <;> exact hpack _ _

/-- Finite numbers are compared by their values. -/
theorem lt_iff (hx : x.isFinite = true) (hy : y.isFinite = true) :
    x.lt y = true ↔ x.toRat < y.toRat := by
  cases x <;> cases y <;> simp only [isFinite, reduceCtorEq] at hx hy
  simp only [lt, partialCompare]
  split
  · simp [*]
  · split <;> simp [*]

/-- A value has one canonical form. -/
theorem canonical_unique {m' : ℕ} {q' : ℤ} (h : Canonical m q) (h' : Canonical m' q')
    (hv : (m : ℚ) * 2 ^ q = m' * 2 ^ q') : m = m' ∧ q = q' := by
  -- Both are what rounding makes of the value.
  have hround := ofQuotient_exact (s := false) (scaled_den_pos m q) h (scaled_value m q)
  rw [ofQuotient_exact (scaled_den_pos m q) h' ((scaled_value m q).trans hv)] at hround
  cases hround
  exact ⟨rfl, rfl⟩

/-- **Two numbers with one value other than zero are the same.** -/
theorem eq_of_toRat (hx : x.isFinite = true) (hy : y.isFinite = true) (h : x.toRat = y.toRat)
    (hne : x.toRat ≠ 0) : x = y := by
  cases x with
  | nan => cases hx
  | infinity _ => cases hx
  | finite s m q hm =>
    cases y with
    | nan => cases hy
    | infinity _ => cases hy
    | finite t n r hn =>
      obtain ⟨rfl, rfl⟩ : m = n ∧ q = r := by
        refine canonical_unique hm hn ?_
        rw [← abs_toRat_finite (s := s) hm, ← abs_toRat_finite (s := t) hn, h]
      -- The signs are equal, too: a value other than zero is not its own negative.
      rw [toRat_finite] at hne
      rw [toRat_finite, toRat_finite] at h
      cases s <;> cases t <;> simp only [Bool.false_eq_true, ↓reduceIte] at h hne
      · rfl
      · exact absurd (self_eq_neg.mp h) hne
      · exact absurd (neg_eq_self.mp h) (neg_ne_zero.mp hne)
      · rfl

/-! ### Values that are numbers -/

/-- **A significand of at most 53 bits has a canonical form**, as long as the exponent leaves
room for shifting it. -/
theorem exists_canonical (hn : n < 2 ^ 53) (hlow : -1022 ≤ e) (hhigh : e ≤ 971) :
    ∃ m q, Canonical m q ∧ (n : ℚ) * 2 ^ e = m * 2 ^ q := by
  rcases Nat.eq_zero_or_pos n with rfl | hpos
  · exact ⟨0, -1074, Or.inl ⟨by decide, rfl⟩, by simp⟩
  · have hlog : n.log2 ≤ 52 := by
      have := (Nat.log2_lt hpos.ne').mpr hn
      omega
    -- The significand is shifted until its first bit is the fifty-third.
    obtain ⟨k, hk⟩ := Nat.exists_eq_add_of_le hlog
    refine ⟨n * 2 ^ k, e - k, Or.inr ⟨?_, ?_, by omega, by omega⟩, ?_⟩
    · calc Nat.pow 2 52 = 2 ^ n.log2 * 2 ^ k := by rw [← pow_add, ← hk]; rfl
        _ ≤ n * 2 ^ k := Nat.mul_le_mul_right _ (Nat.log2_self_le hpos.ne')
    · calc n * 2 ^ k < 2 ^ (n.log2 + 1) * 2 ^ k :=
            Nat.mul_lt_mul_of_pos_right Nat.lt_log2_self (Nat.two_pow_pos k)
        _ = Nat.pow 2 53 := by rw [← pow_add, show n.log2 + 1 + k = 53 by omega]; rfl
    · rw [zpow_sub₀ (by norm_num), zpow_natCast]
      push_cast
      field_simp

/-- **Rounding leaves a value with a canonical form as it is.** -/
theorem toRat_ofQuotient (hd : 0 < d) (h : Canonical m q) (hv : (n : ℚ) / d = m * (2 : ℚ) ^ q) :
    (ofQuotient s n d).isFinite = true ∧
      (ofQuotient s n d).toRat = if s then -((n : ℚ) / d) else (n : ℚ) / d := by
  rw [ofQuotient_exact hd h hv, toRat_finite h, hv]
  exact ⟨rfl, rfl⟩

/-! ### Whole numbers -/

/-- A whole value is a multiple of its denominator. -/
theorem scaled_of_whole {h : Canonical m q} {n : ℤ} (hn : toRat (.finite s m q h) = n) :
    (scaled m q).1 = n.natAbs * (scaled m q).2 := by
  have hden : ((scaled m q).2 : ℚ) ≠ 0 := by exact_mod_cast (scaled_den_pos m q).ne'
  have habs : ((scaled m q).1 : ℚ) / (scaled m q).2 = (n.natAbs : ℕ) := by
    rw [scaled_value, ← abs_toRat_finite (s := s) h, hn, Nat.cast_natAbs, Int.cast_abs]
  rw [div_eq_iff hden] at habs
  exact_mod_cast habs

/-- **A number is whole if its value is an integer.** -/
theorem isWhole_iff : x.isWhole = true ↔ x.isFinite = true ∧ ∃ n : ℤ, x.toRat = n := by
  cases x with
  | nan => simp [isWhole, isFinite]
  | infinity _ => simp [isWhole, isFinite]
  | finite s m q h =>
    have hwhole : isWhole (.finite s m q h) = true ↔ (scaled m q).2 ∣ (scaled m q).1 := by
      rw [isWhole, beq_iff_eq, Nat.dvd_iff_mod_eq_zero]
    rw [hwhole]
    constructor
    · rintro ⟨k, hk⟩
      have hden : ((scaled m q).2 : ℚ) ≠ 0 := by exact_mod_cast (scaled_den_pos m q).ne'
      refine ⟨rfl, if s then -k else k, ?_⟩
      rw [toRat_finite, ← scaled_value, hk, Nat.cast_mul, mul_div_cancel_left₀ _ hden]
      cases s <;> simp
    · rintro ⟨-, n, hn⟩
      exact ⟨n.natAbs, by rw [scaled_of_whole hn, mul_comm]⟩

/-- A whole number is converted to the integer that it is, clamped to the range. -/
theorem toInt64_of_whole {n : ℤ} (hx : x.isFinite = true) (hn : x.toRat = n) :
    x.toInt64 = if n < Int64.minValue.toInt then Int64.minValue
      else if Int64.maxValue.toInt < n then Int64.maxValue else Int64.ofInt n := by
  cases x with
  | nan => cases hx
  | infinity _ => cases hx
  | finite s m q h =>
    have hdiv : ((scaled m q).1 : ℤ) / (scaled m q).2 = n.natAbs := by
      rw [scaled_of_whole hn, ← Int.natCast_ediv, Nat.mul_div_cancel _ (scaled_den_pos m q)]
    -- The sign of the number is that of the integer.
    have hsigned : (if s then -(n.natAbs : ℤ) else n.natAbs) = n := by
      have habs : (n.natAbs : ℚ) = m * (2 : ℚ) ^ q := by
        rw [← abs_toRat_finite (s := s) h, hn, Nat.cast_natAbs, Int.cast_abs]
      rw [← Rat.intCast_inj, ← hn, toRat_finite, ← habs]
      cases s <;> simp
    simp only [toInt64, hdiv, hsigned]

/-- **A whole number in range is converted to the integer that it is.** -/
theorem toInt_toInt64 {n : ℤ} (hx : x.isFinite = true) (hn : x.toRat = n)
    (hlow : Int64.minValue.toInt ≤ n) (hhigh : n ≤ Int64.maxValue.toInt) :
    x.toInt64.toInt = n := by
  rw [toInt64_of_whole hx hn, if_neg (not_lt.mpr hlow), if_neg (not_lt.mpr hhigh)]
  exact Int64.toInt_ofInt_of_le hlow (Int.lt_add_one_of_le hhigh)

/-- A whole number is not rounded to another one. -/
theorem roundHalfAway_of_whole {n : ℤ} (hx : x.isFinite = true) (hn : x.toRat = n) :
    x.roundHalfAway = x := by
  have hwhole := isWhole_iff.mpr ⟨hx, n, hn⟩
  cases x with
  | nan => rfl
  | infinity _ => rfl
  | finite s m q h =>
    rw [isWhole, beq_iff_eq] at hwhole
    exact if_pos hwhole

end DocumentRules.Binary64
