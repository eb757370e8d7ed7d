/-
The shortest decimal reads back.

What a decimal reads back as depends on its value, so moving zeros into its exponent changes
nothing.  A candidate is taken because it reads back, and without any the exact expansion is.

* `Decimal.toRat` — the value of a decimal;
* **`Decimal.readsBack_iff`** — to read back is to be rounded to the number;
* **`Decimal.readsBack_shortest`** — the shortest decimal of a number reads back as it;
* **`Numeral.nearest_eq`** — magnitudes far outside the range are settled as rounding would
  settle them.
-/
import DocumentRules.Number.Numeral
import DocumentRules.Proofs.Number.Rounding

namespace DocumentRules

open Binary64 (Canonical ofQuotient)

namespace Decimal

variable {d d' : Decimal} {m : ℕ} {q : ℤ} {s : Bool}

/-- The value of a decimal. -/
def toRat (d : Decimal) : ℚ := d.digits * (10 : ℚ) ^ d.exponent

theorem quotient_value (d : Decimal) : (d.quotient.1 : ℚ) / d.quotient.2 = d.toRat := by
  have h := Binary64.zpow_eq_div 10 d.exponent
  rw [Nat.cast_ofNat] at h
  rw [quotient, toRat, h, Nat.pow_eq, Nat.pow_eq]
  push_cast
  rw [mul_div_assoc]

theorem quotient_pos (d : Decimal) : 0 < d.quotient.2 := Nat.pow_pos (by decide)

/-- The number that a decimal is rounded to. -/
def rounded (s : Bool) (d : Decimal) : Binary64 := ofQuotient s d.quotient.1 d.quotient.2

/-- Decimals with the same value are rounded to the same number. -/
theorem rounded_congr (h : d.toRat = d'.toRat) : rounded s d = rounded s d' :=
  Binary64.ofQuotient_congr d.quotient_pos d'.quotient_pos (by rw [quotient_value, quotient_value, h])

/-- **To read back as a number is to be rounded to it.** -/
theorem readsBack_iff (h : Canonical m q) :
    readsBack m q d = true ↔ rounded false d = .finite false m q h := by
  unfold readsBack rounded
  split
  · rename_i s' m' q' h' heq
    rw [Bool.and_eq_true, beq_iff_eq, beq_iff_eq]
    constructor
    · rintro ⟨rfl, rfl⟩
      exact Binary64.ofQuotient_sign heq false
    · intro hx
      rw [heq] at hx
      cases hx
      exact ⟨rfl, rfl⟩
  · rename_i hother
    refine iff_of_false (by simp) ?_
    intro hx
    exact hother _ _ _ _ hx

theorem readsBack_congr (h : Canonical m q) (hd : d.toRat = d'.toRat) :
    readsBack m q d = readsBack m q d' := by
  rw [Bool.eq_iff_iff, readsBack_iff h, readsBack_iff h, rounded_congr hd]

/-! ### The candidates -/

/-- A candidate on a grid reads back. -/
theorem readsBack_of_onGrid {tie : Tie} {num den : ℕ} {g : ℤ}
    (h : onGrid tie m q num den g = some d) : readsBack m q d = true := by
  unfold onGrid at h
  simp only at h
  split at h
  · cases h
  · rename_i hbelow _
    cases h
    exact hbelow
  · rename_i _ habove
    cases h
    exact habove
  · rename_i hbelow habove
    split at h
    · cases h
      exact hbelow
    split at h
    · cases h
      exact habove
    cases tie with
    | upward =>
      cases h
      exact habove
    | toEven =>
      simp only at h
      split at h
      · cases h
        exact hbelow
      · cases h
        exact habove

theorem toRat_stripZeros (fuel : ℕ) (d : Decimal) : (stripZeros fuel d).toRat = d.toRat := by
  induction fuel generalizing d with
  | zero => rfl
  | succ fuel ih =>
    rw [stripZeros]
    split
    · rename_i hzero
      obtain ⟨digits, hdigits⟩ := Nat.dvd_of_mod_eq_zero hzero.2
      rw [ih, toRat, toRat, hdigits, Nat.mul_div_cancel_left _ (by decide),
        zpow_add₀ (by norm_num), zpow_one]
      push_cast
      ring
    · rfl

theorem toRat_exact (m : ℕ) (q : ℤ) : (exact m q).toRat = m * (2 : ℚ) ^ q := by
  unfold exact toRat
  split
  · rename_i hq
    have h5 : ((Nat.pow 5 (-q).toNat : ℕ) : ℚ) = (5 : ℚ) ^ (-q) := by
      rw [Nat.pow_eq, ← Int.toNat_of_nonneg (show 0 ≤ -q by omega), Int.toNat_natCast]
      push_cast
      rw [zpow_natCast]
    push_cast
    rw [h5, show (10 : ℚ) = 5 * 2 by norm_num, mul_zpow, zpow_neg]
    field_simp
  · rename_i hq
    have h2 : ((Nat.pow 2 q.toNat : ℕ) : ℚ) = (2 : ℚ) ^ q := by
      rw [Nat.pow_eq, ← Int.toNat_of_nonneg (show 0 ≤ q by omega), Int.toNat_natCast]
      push_cast
      rw [zpow_natCast]
    push_cast
    rw [h2, mul_one]

/-- The exact expansion reads back. -/
theorem readsBack_exact (h : Canonical m q) : readsBack m q (exact m q) = true := by
  refine (readsBack_iff h).mpr (Binary64.ofQuotient_exact (exact m q).quotient_pos h ?_)
  rw [quotient_value, toRat_exact]

/-- **The shortest decimal of a number reads back as it.** -/
theorem readsBack_shortest (tie : Tie) (h : Canonical m q) :
    readsBack m q (shortest tie m q) = true := by
  unfold shortest
  simp only
  rw [readsBack_congr h (toRat_stripZeros _ _)]
  generalize hfound : (List.range 17).findSome? _ = found
  cases found with
  | none => exact readsBack_exact h
  | some d =>
    obtain ⟨i, -, hi⟩ := List.exists_of_findSome?_eq_some hfound
    exact readsBack_of_onGrid hi

theorem rounded_shortest (tie : Tie) (h : Canonical m q) (s : Bool) :
    rounded s (shortest tie m q) = .finite s m q h :=
  Binary64.ofQuotient_sign ((readsBack_iff h).mp (readsBack_shortest tie h)) s

/-! ### Far outside the range -/

theorem digitCount_bounds {n : ℕ} (hn : n ≠ 0) :
    10 ^ (digitCount n - 1) ≤ n ∧ n < 10 ^ digitCount n := by
  have hpos : 0 < digitCount n := Nat.length_toDigits_pos
  refine ⟨?_, (Nat.length_toDigits_le_iff (by decide) hpos).mp (le_refl (digitCount n))⟩
  by_cases hone : digitCount n = 1
  · rw [hone]
    omega
  · by_contra hlt
    have := (Nat.length_toDigits_le_iff (b := 10) (n := n) (k := digitCount n - 1) (by decide)
      (by omega)).mpr (by omega)
    change digitCount n ≤ _ at this
    omega

/-- Every number of this many digits lies beyond the greatest finite one. -/
theorem two_pow_le_ten_pow : (2 : ℚ) ^ 1024 ≤ (10 : ℚ) ^ (310 : ℤ) := by
  have h : 2 ^ 1024 ≤ 10 ^ 310 := by decide +kernel
  exact_mod_cast h

/-- Half of the least positive number lies beyond every number this small. -/
theorem ten_pow_neg_le_two_pow_neg : (10 : ℚ) ^ (-330 : ℤ) ≤ (2 : ℚ) ^ (-1075 : ℤ) := by
  have h : 2 ^ 1075 ≤ 10 ^ 330 := by decide +kernel
  rw [zpow_neg, zpow_neg]
  refine inv_anti₀ (by positivity) ?_
  exact_mod_cast h

end Decimal

/-- **Magnitudes far outside the range are settled as rounding would settle them.** -/
theorem Numeral.nearest_eq (s : Bool) (d : Decimal) : nearest s d = d.rounded s := by
  unfold nearest
  split
  · rename_i hzero
    rw [Decimal.rounded, Decimal.quotient, hzero, Nat.zero_mul]
    rfl
  rename_i hdigits
  obtain ⟨hlow, hhigh⟩ := Decimal.digitCount_bounds hdigits
  have hn : 0 < d.quotient.1 := Nat.mul_pos (Nat.pos_of_ne_zero hdigits) (Nat.pow_pos (by decide))
  have hcount : 0 < Decimal.digitCount d.digits := Nat.length_toDigits_pos
  simp only
  split
  · rename_i horder
    refine (Binary64.ofQuotient_of_large hn d.quotient_pos ?_).symm
    rw [Decimal.quotient_value, Decimal.toRat]
    have hdigits : (10 : ℚ) ^ (Decimal.digitCount d.digits - 1 : ℤ) ≤ d.digits := by
      rw [show (Decimal.digitCount d.digits - 1 : ℤ) = (Decimal.digitCount d.digits - 1 : ℕ) by omega]
      exact_mod_cast hlow
    calc (2 : ℚ) ^ 1024 ≤ (10 : ℚ) ^ (310 : ℤ) := Decimal.two_pow_le_ten_pow
      _ ≤ (10 : ℚ) ^ ((Decimal.digitCount d.digits - 1 : ℤ) + d.exponent) :=
        zpow_le_zpow_right₀ (by norm_num) (by omega)
      _ = (10 : ℚ) ^ (Decimal.digitCount d.digits - 1 : ℤ) * (10 : ℚ) ^ d.exponent :=
        zpow_add₀ (by norm_num) _ _
      _ ≤ d.digits * (10 : ℚ) ^ d.exponent := by gcongr
  split
  · rename_i horder
    refine (Binary64.ofQuotient_of_small hn d.quotient_pos ?_).symm
    rw [Decimal.quotient_value, Decimal.toRat]
    have hdigits : (d.digits : ℚ) < (10 : ℚ) ^ (Decimal.digitCount d.digits : ℤ) := by
      exact_mod_cast hhigh
    calc d.digits * (10 : ℚ) ^ d.exponent
        < (10 : ℚ) ^ (Decimal.digitCount d.digits : ℤ) * (10 : ℚ) ^ d.exponent := by gcongr
      _ = (10 : ℚ) ^ ((Decimal.digitCount d.digits : ℤ) + d.exponent) :=
        (zpow_add₀ (by norm_num) _ _).symm
      _ ≤ (10 : ℚ) ^ (-330 : ℤ) := zpow_le_zpow_right₀ (by norm_num) (by omega)
      _ ≤ (2 : ℚ) ^ (-1075 : ℤ) := Decimal.ten_pow_neg_le_two_pow_neg
  · rfl

end DocumentRules
