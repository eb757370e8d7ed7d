/-
What rounding a quotient depends on.

A quotient of naturals is rounded in integer arithmetic.  Here it is met through its value, a
rational number:

* **`Binary64.binaryOrder_eq_log`** — the binary order of a quotient is the logarithm of its value;
* **`Binary64.ofQuotient_congr`** — quotients with the same value are rounded to the same number;
* **`Binary64.ofQuotient_exact`** — a value that is a number is rounded to that number;
* **`Binary64.ofQuotient_of_large`**, **`Binary64.ofQuotient_of_small`** — far outside the range
  the result is infinite or zero.
-/
import DocumentRules.Number.Binary64
import Mathlib.Algebra.Order.Field.Power
import Mathlib.Data.Int.Log
import Mathlib.Data.Rat.Floor
import Mathlib.Tactic.FieldSimp
import Mathlib.Tactic.Linarith
import Mathlib.Tactic.NormNum
import Mathlib.Tactic.Positivity

namespace DocumentRules.Binary64

variable {s t : Bool} {a b c d n m : ℕ} {q e : ℤ}

/-! ### Quotients with powers -/

/-- A power with an integer exponent, of which one part stands above and one below the line. -/
theorem zpow_eq_div (b : ℕ) (e : ℤ) :
    (b : ℚ) ^ e = (b : ℚ) ^ e.toNat / (b : ℚ) ^ (-e).toNat := by
  rcases le_total 0 e with h | h
  · have hneg : (-e).toNat = 0 := by omega
    rw [hneg, pow_zero, div_one, ← zpow_natCast, Int.toNat_of_nonneg h]
  · have hpos : e.toNat = 0 := by omega
    rw [hpos, pow_zero, one_div, ← zpow_natCast, Int.toNat_of_nonneg (by omega), zpow_neg, inv_inv]

/-- A quotient divided by a power. -/
theorem div_zpow_eq (hb : 0 < b) (n d : ℕ) (e : ℤ) :
    ((n * Nat.pow b (-e).toNat : ℕ) : ℚ) / (d * Nat.pow b e.toNat : ℕ) =
      (n : ℚ) / d / (b : ℚ) ^ e := by
  have hb' : (b : ℚ) ≠ 0 := by exact_mod_cast hb.ne'
  rw [zpow_eq_div, Nat.pow_eq, Nat.pow_eq]
  push_cast
  field_simp

/-- Comparing a quotient with a power in integer arithmetic. -/
theorem mul_pow_le_iff (hb : 0 < b) (hd : 0 < d) :
    d * Nat.pow b e.toNat ≤ n * Nat.pow b (-e).toNat ↔ (b : ℚ) ^ e ≤ (n : ℚ) / d := by
  have hb' : (0 : ℚ) < b := by exact_mod_cast hb
  have hd' : (0 : ℚ) < d := by exact_mod_cast hd
  rw [zpow_eq_div, div_le_div_iff₀ (by positivity) hd', Nat.pow_eq, Nat.pow_eq, mul_comm d]
  exact_mod_cast Iff.rfl

/-! ### The binary order -/

/-- **The binary order is the logarithm of the value.** -/
theorem binaryOrder_eq_log (hn : 0 < n) (hd : 0 < d) :
    binaryOrder n d = Int.log 2 ((n : ℚ) / d) := by
  have hn' : (0 : ℚ) < n := by exact_mod_cast hn
  have hd' : (0 : ℚ) < d := by exact_mod_cast hd
  have hv : (0 : ℚ) < (n : ℚ) / d := by positivity
  have hle (z : ℤ) : (2 : ℚ) ^ z ≤ (n : ℚ) / d ↔ z ≤ Int.log 2 ((n : ℚ) / d) :=
    Int.zpow_le_iff_le_log (b := 2) (by decide) hv
  have hlt (z : ℤ) : (n : ℚ) / d < (2 : ℚ) ^ z ↔ Int.log 2 ((n : ℚ) / d) < z :=
    Int.lt_zpow_iff_log_lt (b := 2) (by decide) hv
  -- The logarithms of the two naturals leave two candidates.
  have hnlow : (2 : ℚ) ^ (n.log2 : ℤ) ≤ n := by exact_mod_cast Nat.log2_self_le hn.ne'
  have hnhigh : (n : ℚ) < (2 : ℚ) ^ (n.log2 + 1 : ℤ) := by exact_mod_cast Nat.lt_log2_self
  have hdlow : (2 : ℚ) ^ (d.log2 : ℤ) ≤ d := by exact_mod_cast Nat.log2_self_le hd.ne'
  have hdhigh : (d : ℚ) < (2 : ℚ) ^ (d.log2 + 1 : ℤ) := by exact_mod_cast Nat.lt_log2_self
  have hlow : (n.log2 : ℤ) - d.log2 - 1 ≤ Int.log 2 ((n : ℚ) / d) := by
    rw [← hle, le_div_iff₀ hd', show (n.log2 : ℤ) - d.log2 - 1 = n.log2 - (d.log2 + 1) by omega,
      zpow_sub₀ (by norm_num), div_mul_eq_mul_div, div_le_iff₀ (by positivity)]
    gcongr
  have hhigh : Int.log 2 ((n : ℚ) / d) < (n.log2 : ℤ) - d.log2 + 1 := by
    rw [← hlt, div_lt_iff₀ hd', show (n.log2 : ℤ) - d.log2 + 1 = (n.log2 + 1) - d.log2 by omega,
      zpow_sub₀ (by norm_num), div_mul_eq_mul_div, lt_div_iff₀ (by positivity)]
    calc (n : ℚ) * (2 : ℚ) ^ (d.log2 : ℤ)
        < (2 : ℚ) ^ (n.log2 + 1 : ℤ) * (2 : ℚ) ^ (d.log2 : ℤ) := by gcongr
      _ ≤ (2 : ℚ) ^ (n.log2 + 1 : ℤ) * d := by gcongr
  have hcompare := mul_pow_le_iff (b := 2) (n := n) (e := (n.log2 : ℤ) - d.log2) (by decide) hd
  rw [Nat.cast_ofNat, hle] at hcompare
  unfold binaryOrder
  simp only
  split
  · rename_i h
    have := hcompare.mp h
    omega
  · rename_i h
    have := mt hcompare.mpr h
    omega

/-! ### Rounding to a natural -/

theorem roundQuotient_mul (a b : ℕ) (hc : 0 < c) :
    roundQuotient (a * c) (b * c) = roundQuotient a b := by
  have hscale (x y : ℕ) : 2 * (x * c) < y * c ↔ 2 * x < y := by
    rw [← mul_assoc, Nat.mul_lt_mul_right hc]
  have hscale' (x y : ℕ) : y * c < 2 * (x * c) ↔ y < 2 * x := by
    rw [← mul_assoc, Nat.mul_lt_mul_right hc]
  simp only [roundQuotient, Nat.mul_div_mul_right _ _ hc, Nat.mul_mod_mul_right, hscale, hscale']

/-- Quotients with the same value are rounded to the same natural. -/
theorem roundQuotient_congr (hb : 0 < b) (hd : 0 < d) (h : (a : ℚ) / b = (c : ℚ) / d) :
    roundQuotient a b = roundQuotient c d := by
  have hb' : (b : ℚ) ≠ 0 := by exact_mod_cast hb.ne'
  have hd' : (d : ℚ) ≠ 0 := by exact_mod_cast hd.ne'
  have hcross : a * d = c * b := by
    rw [div_eq_div_iff hb' hd'] at h
    exact_mod_cast h
  rw [← roundQuotient_mul a b hd, hcross, mul_comm b d, roundQuotient_mul c d hb]

theorem roundQuotient_natural (hb : 0 < b) (h : (a : ℚ) / b = m) : roundQuotient a b = m := by
  rw [roundQuotient_congr hb Nat.one_pos (c := m) (by rw [h, Nat.cast_one, div_one])]
  simp [roundQuotient, Nat.mod_one]

/-- Less than a half is rounded to zero. -/
theorem roundQuotient_of_small (hb : 0 < b) (h : (a : ℚ) / b < 1 / 2) : roundQuotient a b = 0 := by
  have hb' : (0 : ℚ) < b := by exact_mod_cast hb
  have hsmall : 2 * a < b := by
    rw [div_lt_div_iff₀ hb' (by norm_num), one_mul, mul_comm] at h
    exact_mod_cast h
  have hlt : a < b := by omega
  rw [roundQuotient, Nat.mod_eq_of_lt hlt, Nat.div_eq_of_lt hlt]
  simp [hsmall]

/-! ### Rounding to a number -/

/-- The exponent that a value is rounded with. -/
def roundedExponent (v : ℚ) : ℤ := max (-1074) (Int.log 2 v - 52)

theorem ofQuotient_eq (hn : 0 < n) (hd : 0 < d) :
    ofQuotient s n d =
      let q := roundedExponent ((n : ℚ) / d)
      let m := roundQuotient (n * Nat.pow 2 (-q).toNat) (d * Nat.pow 2 q.toNat)
      if m = Nat.pow 2 53 then pack s (Nat.pow 2 52) (q + 1) else pack s m q := by
  rw [ofQuotient, if_neg hn.ne', binaryOrder_eq_log hn hd]
  rfl

/-- The significand is that of the value in units of the power. -/
theorem scaled_quotient (n d : ℕ) (q : ℤ) :
    ((n * Nat.pow 2 (-q).toNat : ℕ) : ℚ) / (d * Nat.pow 2 q.toNat : ℕ) =
      (n : ℚ) / d / (2 : ℚ) ^ q := by
  have h := div_zpow_eq (b := 2) (by decide) n d q
  rwa [Nat.cast_ofNat] at h

theorem scaled_pos (hd : 0 < d) (e : ℕ) : 0 < d * Nat.pow 2 e :=
  Nat.mul_pos hd (Nat.pow_pos (by decide))

/-- **Rounding depends on the value alone.** -/
theorem ofQuotient_congr (hb : 0 < b) (hd : 0 < d) (h : (a : ℚ) / b = (c : ℚ) / d) :
    ofQuotient s a b = ofQuotient s c d := by
  have hb' : (b : ℚ) ≠ 0 := by exact_mod_cast hb.ne'
  have hd' : (d : ℚ) ≠ 0 := by exact_mod_cast hd.ne'
  rcases Nat.eq_zero_or_pos a with rfl | ha
  · have hc : c = 0 := by
      rw [Nat.cast_zero, zero_div, eq_comm, div_eq_zero_iff] at h
      exact_mod_cast h.resolve_right hd'
    subst hc
    rfl
  · have hc : 0 < c := by
      refine Nat.pos_of_ne_zero ?_
      rintro rfl
      rw [Nat.cast_zero, zero_div, div_eq_zero_iff] at h
      exact absurd (h.resolve_right hb') (by exact_mod_cast ha.ne')
    have hround (q : ℤ) := roundQuotient_congr (scaled_pos hb q.toNat) (scaled_pos hd q.toNat)
      (by rw [scaled_quotient, scaled_quotient, h])
    simp only [ofQuotient_eq ha hb, ofQuotient_eq hc hd, h, hround]

theorem roundedExponent_canonical (h : Canonical m q) (hm : 0 < m) :
    roundedExponent (m * (2 : ℚ) ^ q) = q := by
  have hv : (0 : ℚ) < m * (2 : ℚ) ^ q := by positivity
  have hle (z : ℤ) : (2 : ℚ) ^ z ≤ m * (2 : ℚ) ^ q ↔ z ≤ Int.log 2 (m * (2 : ℚ) ^ q) :=
    Int.zpow_le_iff_le_log (b := 2) (by decide) hv
  have hlt (z : ℤ) : m * (2 : ℚ) ^ q < (2 : ℚ) ^ z ↔ Int.log 2 (m * (2 : ℚ) ^ q) < z :=
    Int.lt_zpow_iff_log_lt (b := 2) (by decide) hv
  have hbelow {k : ℕ} (hk : m < 2 ^ k) : Int.log 2 (m * (2 : ℚ) ^ q) < k + q := by
    rw [← hlt, zpow_add₀ (by norm_num)]
    gcongr
    exact_mod_cast hk
  have habove {k : ℕ} (hk : 2 ^ k ≤ m) : k + q ≤ Int.log 2 (m * (2 : ℚ) ^ q) := by
    rw [← hle, zpow_add₀ (by norm_num)]
    gcongr
    exact_mod_cast hk
  unfold roundedExponent
  rcases h with ⟨hsub, rfl⟩ | ⟨hlow, hhigh, hmin, -⟩
  · have := hbelow hsub
    omega
  · have := hbelow hhigh
    have := habove hlow
    omega

/-- **A value that is a number is rounded to that number.** -/
theorem ofQuotient_exact (hd : 0 < d) (h : Canonical m q) (hv : (n : ℚ) / d = m * (2 : ℚ) ^ q) :
    ofQuotient s n d = .finite s m q h := by
  have hd' : (d : ℚ) ≠ 0 := by exact_mod_cast hd.ne'
  rcases Nat.eq_zero_or_pos m with rfl | hm
  · have hn : n = 0 := by
      rw [Nat.cast_zero, zero_mul, div_eq_zero_iff] at hv
      exact_mod_cast hv.resolve_right hd'
    obtain ⟨-, rfl⟩ | ⟨hlow, -⟩ := h
    · subst hn
      rfl
    · exact absurd hlow (by decide)
  · have hn : 0 < n := by
      refine Nat.pos_of_ne_zero ?_
      rintro rfl
      have hpos : (0 : ℚ) < m * (2 : ℚ) ^ q := by positivity
      rw [← hv, Nat.cast_zero, zero_div] at hpos
      exact absurd hpos (lt_irrefl 0)
    have hround : roundQuotient (n * Nat.pow 2 (-q).toNat) (d * Nat.pow 2 q.toNat) = m := by
      refine roundQuotient_natural (scaled_pos hd _) ?_
      rw [scaled_quotient, hv, mul_div_cancel_right₀ _ (by positivity)]
    have hcarry : m ≠ Nat.pow 2 53 := by
      rcases h with ⟨hsub, -⟩ | ⟨-, hhigh, -⟩
      · exact (hsub.trans (by decide)).ne
      · exact hhigh.ne
    simp only [ofQuotient_eq hn hd, hv, roundedExponent_canonical h hm, hround, if_neg hcarry]
    exact dif_pos h

/-! ### Far outside the range -/

/-- A value from `2 ^ 1024` on is rounded to infinity. -/
theorem ofQuotient_of_large (hn : 0 < n) (hd : 0 < d) (hv : (2 : ℚ) ^ 1024 ≤ (n : ℚ) / d) :
    ofQuotient s n d = .infinity s := by
  have hpos : (0 : ℚ) < (n : ℚ) / d := lt_of_lt_of_le (by positivity) hv
  have hlog : 1024 ≤ Int.log 2 ((n : ℚ) / d) := by
    refine (Int.zpow_le_iff_le_log (b := 2) (by decide) hpos).mp ?_
    exact_mod_cast hv
  have hexponent : 972 ≤ roundedExponent ((n : ℚ) / d) := by
    unfold roundedExponent
    omega
  have hpack (m : ℕ) {q : ℤ} (hq : 972 ≤ q) : pack s m q = .infinity s := by
    refine dif_neg ?_
    rintro (⟨-, hq'⟩ | ⟨-, -, -, hq'⟩) <;> omega
  simp only [ofQuotient_eq hn hd]
  split
  · exact hpack _ (by omega)
  · exact hpack _ hexponent

/-- A value below `2 ^ (-1075)` is rounded to zero. -/
theorem ofQuotient_of_small (hn : 0 < n) (hd : 0 < d)
    (hv : (n : ℚ) / d < (2 : ℚ) ^ (-1075 : ℤ)) : ofQuotient s n d = .zero s := by
  have hn' : (0 : ℚ) < n := by exact_mod_cast hn
  have hd' : (0 : ℚ) < d := by exact_mod_cast hd
  have hlog : Int.log 2 ((n : ℚ) / d) < -1075 :=
    (Int.lt_zpow_iff_log_lt (b := 2) (by decide) (by positivity)).mp (by exact_mod_cast hv)
  have hexponent : roundedExponent ((n : ℚ) / d) = -1074 := by
    unfold roundedExponent
    omega
  have hround : roundQuotient (n * Nat.pow 2 (-(-1074 : ℤ)).toNat) (d * Nat.pow 2 (-1074 : ℤ).toNat)
      = 0 := by
    refine roundQuotient_of_small (scaled_pos hd _) ?_
    rw [scaled_quotient, div_lt_iff₀ (by positivity)]
    refine hv.trans_eq ?_
    rw [show (-1075 : ℤ) = -1 + -1074 by norm_num, zpow_add₀ (by norm_num)]
    norm_num
  simp only [ofQuotient_eq hn hd, hexponent, hround]
  rfl

/-! ### Signs -/

/-- The sign has no part in rounding. -/
theorem ofQuotient_sign {h : Canonical m q} (hx : ofQuotient s n d = .finite t m q h)
    (s' : Bool) : ofQuotient s' n d = .finite s' m q h := by
  have hpack {m' : ℕ} {q' : ℤ} (hx : pack s m' q' = .finite t m q h) :
      pack s' m' q' = .finite s' m q h := by
    unfold pack at hx ⊢
    split at hx
    · cases hx
      exact dif_pos h
    · cases hx
  unfold ofQuotient at hx ⊢
  split at hx
  · rename_i hn
    cases hx
    rw [if_pos hn]
    rfl
  · rename_i hn
    rw [if_neg hn]
    simp only at hx ⊢
    split at hx
    · rename_i hcarry
      rw [if_pos hcarry]
      exact hpack hx
    · rename_i hcarry
      rw [if_neg hcarry]
      exact hpack hx

end DocumentRules.Binary64
