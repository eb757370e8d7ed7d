/-
Rounding goes to the nearest number.

A value is rounded in two steps: an exponent is chosen, and the value is rounded to a whole number
of units of that power.  The second step is the nearest one by construction; the first one has to
leave no finer number near the value.

* **`Binary64.Nearest`** — what it means that a number is a value, correctly rounded;
* **`Binary64.roundsTo_roundQuotient`** — a quotient is rounded to the nearest natural;
* **`Binary64.on_grid_or_below`** — a number is a multiple of the unit, or lies below the value;
* **`Binary64.nearest_ofQuotient`** — a quotient is rounded to the nearest number;
* **`Binary64.Nearest.unique`** — there is only one.
-/
import DocumentRules.Proofs.Number.Exact

namespace DocumentRules.Binary64

variable {s : Bool} {n d k : ℕ} {v : ℚ} {q : ℤ} {x y : Binary64}

/-- The point half way between the largest number and the power of two behind it.  From here on
values are rounded to infinity. -/
def overflow : ℚ := 2 ^ 1024 - 2 ^ 970

/-- The number is the value, correctly rounded: no number is nearer, the significand is even if
another one is as near, and it is infinite if the value is too large. -/
inductive Nearest (v : ℚ) : Binary64 → Prop where
  | finite {s : Bool} {m : ℕ} {q : ℤ} {h : Canonical m q} (bounded : |v| < overflow)
      (closest : ∀ y : Binary64, y.isFinite = true →
        |v - toRat (.finite s m q h)| ≤ |v - y.toRat|)
      (even : ∀ y : Binary64, y.isFinite = true → y.toRat ≠ toRat (.finite s m q h) →
        |v - toRat (.finite s m q h)| = |v - y.toRat| → Even m) : Nearest v (.finite s m q h)
  | infinite {s : Bool} (large : overflow ≤ |v|) (sign : s = true ↔ v < 0) :
      Nearest v (.infinity s)

/-! ### The nearest natural -/

/-- The value is at most a half away from the natural, and exactly a half only if that is even. -/
structure RoundsTo (v : ℚ) (k : ℕ) : Prop where
  half : |v - k| ≤ 1 / 2
  even : |v - k| = 1 / 2 → Even k

theorem roundsTo_of_lt (h : |v - k| < 1 / 2) : RoundsTo v k := ⟨h.le, fun heq => absurd heq h.ne⟩

/-- **A quotient is rounded to the nearest natural**, a tie to the even one. -/
theorem roundsTo_roundQuotient (n : ℕ) (hd : 0 < d) :
    RoundsTo ((n : ℚ) / d) (roundQuotient n d) := by
  have hd' : (0 : ℚ) < d := by exact_mod_cast hd
  have hsplit : (n : ℚ) / d = (n / d : ℕ) + ((n % d : ℕ) : ℚ) / d := by
    have hn : (n : ℚ) = d * (n / d : ℕ) + (n % d : ℕ) := by
      exact_mod_cast (Nat.div_add_mod n d).symm
    rw [hn]
    field_simp
  have hnonneg : (0 : ℚ) ≤ ((n % d : ℕ) : ℚ) / d := by positivity
  have hlt : ((n % d : ℕ) : ℚ) / d < 1 := by
    rw [div_lt_one hd']
    exact_mod_cast Nat.mod_lt n hd
  -- The part behind the point is compared with a half in integer arithmetic.
  have hbelow : ((n % d : ℕ) : ℚ) / d < 1 / 2 ↔ 2 * (n % d) < d := by
    rw [div_lt_div_iff₀ hd' (by norm_num), one_mul, mul_comm]
    exact_mod_cast Iff.rfl
  have habove : 1 / 2 < ((n % d : ℕ) : ℚ) / d ↔ d < 2 * (n % d) := by
    rw [div_lt_div_iff₀ (by norm_num) hd', one_mul, mul_comm]
    exact_mod_cast Iff.rfl
  rw [hsplit, roundQuotient]
  generalize ((n % d : ℕ) : ℚ) / d = f at *
  simp only [← hbelow, ← habove]
  split
  · rename_i hf
    exact roundsTo_of_lt (abs_lt.mpr ⟨by linarith, by linarith⟩)
  split
  · rename_i hf
    exact roundsTo_of_lt (abs_lt.mpr ⟨by push_cast; linarith, by push_cast; linarith⟩)
  · -- Of the two naturals half way from the value, the even one is taken.
    rename_i hlow hhigh
    obtain rfl : f = 1 / 2 := le_antisymm (not_lt.mp hhigh) (not_lt.mp hlow)
    rcases Nat.mod_two_eq_zero_or_one (n / d) with heven | hodd
    · rw [heven, add_zero]
      refine ⟨?_, fun _ => Nat.even_iff.mpr heven⟩
      rw [add_sub_cancel_left]
      norm_num
    · rw [hodd]
      refine ⟨?_, fun _ => (Nat.odd_iff.mpr hodd).add_one⟩
      push_cast
      rw [add_sub_add_left_eq_sub]
      norm_num

/-- The distances from two whole numbers add up to one or more. -/
theorem one_le_add (v : ℚ) {z : ℤ} (hz : z ≠ k) : 1 ≤ |v - k| + |v - z| := by
  have hone : 1 ≤ |(z : ℚ) - k| := by
    exact_mod_cast Int.one_le_abs (sub_ne_zero.mpr hz)
  calc 1 ≤ |(z : ℚ) - k| := hone
    _ = |(v - k) - (v - z)| := by congr 1; ring
    _ ≤ |v - k| + |v - z| := abs_sub _ _

/-- No whole number is nearer. -/
theorem RoundsTo.le (h : RoundsTo v k) (z : ℤ) : |v - k| ≤ |v - z| := by
  rcases eq_or_ne z k with rfl | hz
  · rw [Int.cast_natCast]
  · have hone := one_le_add v hz
    have := h.half
    linarith

theorem RoundsTo.even_of_eq (h : RoundsTo v k) {z : ℤ} (hz : z ≠ k) (heq : |v - k| = |v - z|) :
    Even k := by
  refine h.even (le_antisymm h.half ?_)
  have := one_le_add v hz
  linarith

/-! ### Units of a power -/

theorem lt_of_roundedExponent (v : ℚ) : v < 2 ^ 53 * 2 ^ roundedExponent v := by
  have hlog : v < (2 : ℚ) ^ (Int.log 2 v + 1) := by
    exact_mod_cast Int.lt_zpow_succ_log_self (b := 2) (by decide) v
  refine hlog.trans_le ?_
  rw [← zpow_natCast, ← zpow_add₀ (by norm_num)]
  refine zpow_le_zpow_right₀ (by norm_num) ?_
  unfold roundedExponent
  omega

theorem le_of_roundedExponent (hv : 0 < v) (hq : -1074 < roundedExponent v) :
    2 ^ 52 * 2 ^ roundedExponent v ≤ v := by
  have hlog : (2 : ℚ) ^ Int.log 2 v ≤ v := by
    exact_mod_cast Int.zpow_log_le_self (b := 2) (by decide) hv
  refine le_trans ?_ hlog
  rw [← zpow_natCast, ← zpow_add₀ (by norm_num)]
  refine zpow_le_zpow_right₀ (by norm_num) ?_
  unfold roundedExponent at hq ⊢
  omega

theorem roundedExponent_ge (v : ℚ) : -1074 ≤ roundedExponent v := le_max_left ..

theorem Canonical.exponent_ge {m : ℕ} {e : ℤ} (h : Canonical m e) : -1074 ≤ e := by
  rcases h with ⟨-, rfl⟩ | ⟨-, -, hmin, -⟩
  · exact le_rfl
  · exact hmin

/-- A smaller exponent is that of a smaller number. -/
theorem Canonical.lt_of_exponent_lt {m : ℕ} {e : ℤ} (h : Canonical m e) (he : e < q) :
    (m : ℚ) * 2 ^ e < 2 ^ 52 * 2 ^ q := by
  have hm : m < 2 ^ 53 := by
    rcases h with ⟨hsub, -⟩ | ⟨-, hhigh, -, -⟩
    · exact hsub.trans (by decide)
    · exact hhigh
  calc (m : ℚ) * 2 ^ e < 2 ^ 53 * 2 ^ e := by
        have : (m : ℚ) < 2 ^ 53 := by exact_mod_cast hm
        gcongr
    _ ≤ 2 ^ 53 * 2 ^ (q - 1) := by gcongr; norm_num; omega
    _ = 2 ^ 52 * 2 ^ q := by rw [zpow_sub_one₀ (by norm_num)]; ring

/-- **A number is a multiple of the unit, or it lies below all values with this unit.** -/
theorem on_grid_or_below (hy : y.isFinite = true) (q : ℤ) :
    (∃ z : ℤ, y.toRat = z * 2 ^ q) ∨ (-1074 < q ∧ |y.toRat| < 2 ^ 52 * 2 ^ q) := by
  cases y with
  | nan => cases hy
  | infinity _ => cases hy
  | finite s m e h =>
    rcases le_or_gt q e with hqe | heq
    · obtain ⟨k, rfl⟩ := Int.le.dest hqe
      refine Or.inl ⟨if s then -(m * 2 ^ k) else m * 2 ^ k, ?_⟩
      rw [toRat_finite, zpow_add₀ (by norm_num), zpow_natCast]
      cases s
      · rw [if_neg Bool.false_ne_true, if_neg Bool.false_ne_true]
        push_cast
        ring
      · rw [if_pos rfl, if_pos rfl]
        push_cast
        ring
    · refine Or.inr ⟨h.exponent_ge.trans_lt heq, ?_⟩
      rw [abs_toRat_finite]
      exact h.lt_of_exponent_lt heq

theorem abs_sub_mul_zpow (v z : ℚ) (q : ℤ) : |v - z * 2 ^ q| = |v / 2 ^ q - z| * 2 ^ q := by
  have hpos : (0 : ℚ) < 2 ^ q := by positivity
  rw [← abs_of_pos hpos, ← abs_mul, abs_of_pos hpos, sub_mul, div_mul_cancel₀ _ hpos.ne']

/-- **No number is nearer than the nearest multiple of the unit**, and if another one is as near,
the multiple is even. -/
theorem closest_multiple (hv : 0 < v) (hq : q = roundedExponent v) (hk : RoundsTo (v / 2 ^ q) k)
    (hy : y.isFinite = true) :
    |v - k * 2 ^ q| ≤ |v - y.toRat| ∧
      (y.toRat ≠ k * 2 ^ q → |v - k * 2 ^ q| = |v - y.toRat| → Even k) := by
  have hpos : (0 : ℚ) < 2 ^ q := by positivity
  have hmultiple (z : ℤ) : |v - k * 2 ^ q| ≤ |v - z * 2 ^ q| := by
    rw [abs_sub_mul_zpow, abs_sub_mul_zpow]
    exact mul_le_mul_of_nonneg_right (hk.le z) hpos.le
  rcases on_grid_or_below hy q with ⟨z, hz⟩ | ⟨hmin, hbelow⟩
  · refine ⟨hz ▸ hmultiple z, fun hne heq => ?_⟩
    rw [hz] at hne heq
    rw [abs_sub_mul_zpow, abs_sub_mul_zpow] at heq
    refine hk.even_of_eq (z := z) ?_ (mul_right_cancel₀ hpos.ne' heq)
    rintro rfl
    exact hne (by rw [Int.cast_natCast])
  · -- The number lies below `2 ^ 52` units, which in turn are at most the value.
    have hle : 2 ^ 52 * 2 ^ q ≤ v := by
      rw [hq] at hmin ⊢
      exact le_of_roundedExponent hv hmin
    have hlt : |v - k * 2 ^ q| < |v - y.toRat| := by
      calc |v - k * 2 ^ q| ≤ |v - (2 ^ 52 : ℤ) * 2 ^ q| := hmultiple _
        _ = v - 2 ^ 52 * 2 ^ q := by push_cast; exact abs_of_nonneg (sub_nonneg.mpr hle)
        _ < v - y.toRat := by linarith [(abs_lt.mp hbelow).2]
        _ ≤ |v - y.toRat| := le_abs_self _
    exact ⟨hlt.le, fun _ heq => absurd heq hlt.ne⟩

/-! ### The range -/

theorem overflow_eq : overflow = (2 ^ 53 - 1 / 2) * 2 ^ (971 : ℤ) := by
  have hlarge : (2 : ℚ) ^ 1024 = 2 ^ 54 * 2 ^ 970 := by rw [← pow_add]
  have hunit : (2 : ℚ) ^ (971 : ℤ) = 2 * 2 ^ 970 := by rw [zpow_ofNat, ← pow_succ']
  rw [overflow, hlarge, hunit]
  generalize (2 : ℚ) ^ 970 = u
  ring

/-- A value is too large exactly if its unit is, or the number of units is one too many. -/
theorem lt_overflow_iff (hv : 0 < v) (hq : q = roundedExponent v) (hk : RoundsTo (v / 2 ^ q) k) :
    v < overflow ↔ q < 971 ∨ q = 971 ∧ k < 2 ^ 53 := by
  have hpos : (0 : ℚ) < 2 ^ q := by positivity
  rw [overflow_eq]
  rcases lt_trichotomy q 971 with hlow | rfl | hhigh
  · refine iff_of_true ?_ (Or.inl hlow)
    calc v < 2 ^ 53 * 2 ^ q := hq ▸ lt_of_roundedExponent v
      _ ≤ 2 ^ 53 * 2 ^ (970 : ℤ) := by gcongr; norm_num; omega
      _ < (2 ^ 53 - 1 / 2) * (2 ^ (970 : ℤ) * 2) := by
          have hu : (0 : ℚ) < 2 ^ (970 : ℤ) := by positivity
          generalize (2 : ℚ) ^ (970 : ℤ) = u at hu
          linarith
      _ = (2 ^ 53 - 1 / 2) * 2 ^ (971 : ℤ) := by rw [← zpow_add_one₀ (by norm_num)]; rfl
  · rw [← div_lt_iff₀ hpos]
    obtain ⟨hbelow, habove⟩ := abs_le.mp hk.half
    simp only [lt_irrefl, true_and, false_or]
    constructor
    · intro hlt
      have : (k : ℚ) < 2 ^ 53 := by linarith
      exact_mod_cast this
    · intro hlt
      have hle : (k : ℚ) + 1 ≤ 2 ^ 53 := by exact_mod_cast hlt
      refine lt_of_le_of_ne (by linarith) fun heq => ?_
      -- Half way behind the largest odd significand a value is rounded up.
      have htie : |v / 2 ^ (971 : ℤ) - k| = 1 / 2 := le_antisymm hk.half (by
        rw [heq]
        exact le_trans (by linarith) (le_abs_self _))
      have hlast : k = 2 ^ 53 - 1 := by
        have : (k : ℚ) + 1 = 2 ^ 53 := le_antisymm hle (by linarith)
        have : k + 1 = 2 ^ 53 := by exact_mod_cast this
        omega
      have heven := hk.even htie
      rw [hlast] at heven
      exact absurd heven (by decide)
  · refine iff_of_false (not_lt.mpr ?_) (by omega)
    calc (2 ^ 53 - 1 / 2) * 2 ^ (971 : ℤ) ≤ (2 : ℚ) ^ 52 * (2 ^ (971 : ℤ) * 2) := by
          have hu : (0 : ℚ) < 2 ^ (971 : ℤ) := by positivity
          generalize (2 : ℚ) ^ (971 : ℤ) = u at hu
          linarith
      _ = 2 ^ 52 * 2 ^ (972 : ℤ) := by rw [← zpow_add_one₀ (by norm_num)]; rfl
      _ ≤ 2 ^ 52 * 2 ^ q := by gcongr; norm_num; omega
      _ ≤ v := by
        rw [hq]
        exact le_of_roundedExponent hv (by omega)

/-- The number of units has 53 bits, unless the unit is the least one. -/
theorem RoundsTo.bounds (hv : 0 < v) (hq : q = roundedExponent v) (hk : RoundsTo (v / 2 ^ q) k) :
    k ≤ 2 ^ 53 ∧ (-1074 < q → 2 ^ 52 ≤ k) := by
  have hpos : (0 : ℚ) < 2 ^ q := by positivity
  obtain ⟨hbelow, habove⟩ := abs_le.mp hk.half
  constructor
  · have hlt : v / 2 ^ q < 2 ^ 53 := by
      rw [div_lt_iff₀ hpos, hq]
      exact lt_of_roundedExponent v
    have : (k : ℚ) < 2 ^ 53 + 1 := by linarith
    have : k < 2 ^ 53 + 1 := by exact_mod_cast this
    omega
  · intro hmin
    have hle : 2 ^ 52 ≤ v / 2 ^ q := by
      rw [le_div_iff₀ hpos, hq]
      exact le_of_roundedExponent hv (hq ▸ hmin)
    have : (2 : ℚ) ^ 52 < k + 1 := by linarith
    have : 2 ^ 52 < k + 1 := by exact_mod_cast this
    omega

/-- So many units are a number, if they are not too many. -/
theorem exists_finite (s : Bool) (hv : 0 < v) (hq : q = roundedExponent v)
    (hk : RoundsTo (v / 2 ^ q) k) (hfits : v < overflow) :
    ∃ m e h, (if k = Nat.pow 2 53 then pack s (Nat.pow 2 52) (q + 1) else pack s k q) =
        .finite s m e h ∧
      (m : ℚ) * 2 ^ e = k * 2 ^ q ∧ (Even k → Even m) := by
  obtain ⟨hle, hge⟩ := hk.bounds hv hq
  have hmin := hq ▸ roundedExponent_ge v
  rw [lt_overflow_iff hv hq hk] at hfits
  split
  · rename_i hcarry
    have hfull : k = 2 ^ 53 := hcarry
    have h : Canonical (Nat.pow 2 52) (q + 1) :=
      Or.inr ⟨le_rfl, by decide, by omega, by omega⟩
    refine ⟨_, _, h, dif_pos h, ?_, fun _ => by decide⟩
    rw [hfull, Nat.pow_eq, zpow_add_one₀ (by norm_num)]
    push_cast
    ring
  · rename_i hcarry
    have hlt : k < 2 ^ 53 := lt_of_le_of_ne hle hcarry
    have h : Canonical k q := by
      rcases lt_or_ge k (2 ^ 52) with hsub | hnormal
      · exact Or.inl ⟨hsub, by omega⟩
      · exact Or.inr ⟨hnormal, hlt, hmin, by omega⟩
    exact ⟨k, q, h, dif_pos h, rfl, id⟩

theorem eq_infinity (s : Bool) (hv : 0 < v) (hq : q = roundedExponent v)
    (hk : RoundsTo (v / 2 ^ q) k) (hlarge : overflow ≤ v) :
    (if k = Nat.pow 2 53 then pack s (Nat.pow 2 52) (q + 1) else pack s k q) = .infinity s := by
  have hfits := mt (lt_overflow_iff hv hq hk).mpr (not_lt.mpr hlarge)
  have hle : k ≤ Nat.pow 2 53 := (hk.bounds hv hq).1
  have hpack (m : ℕ) {e : ℤ} (he : 972 ≤ e) : pack s m e = .infinity s := by
    refine dif_neg ?_
    rintro (⟨-, he'⟩ | ⟨-, -, -, he'⟩) <;> omega
  split
  · exact hpack _ (by omega)
  · rename_i hcarry
    have hlt : k < 2 ^ 53 := lt_of_le_of_ne hle hcarry
    exact hpack _ (by omega)

/-! ### Correct rounding -/

/-- A value with a sign. -/
def signed (s : Bool) (v : ℚ) : ℚ := if s then -v else v

theorem abs_signed (s : Bool) (v : ℚ) : |signed s v| = |v| := by
  cases s
  · rfl
  · exact abs_neg v

/-- Changing the signs on both sides leaves a distance as it is. -/
theorem abs_signed_sub (s : Bool) (v w : ℚ) : |signed s v - w| = |v - signed s w| := by
  cases s
  · rfl
  · rw [signed, if_pos rfl, signed, if_pos rfl, ← abs_neg, neg_sub, sub_neg_eq_add, add_comm,
      sub_neg_eq_add]

theorem signed_signed (s : Bool) (v : ℚ) : signed s (signed s v) = v := by
  cases s
  · rfl
  · exact neg_neg v

theorem exists_signed (s : Bool) (hy : y.isFinite = true) :
    ∃ y' : Binary64, y'.isFinite = true ∧ y'.toRat = signed s y.toRat := by
  cases y with
  | nan => cases hy
  | infinity _ => cases hy
  | finite t m e h =>
    refine ⟨.finite (s ^^ t) m e h, rfl, ?_⟩
    rw [toRat_finite, toRat_finite]
    cases s <;> cases t <;> simp [signed]

theorem overflow_pos : 0 < overflow := by
  rw [overflow_eq]
  exact mul_pos (by norm_num) (by positivity)

/-- Zero is a number itself, with either sign. -/
theorem nearest_zero (s : Bool) : Nearest 0 (zero s) := by
  have hvalue (h : Canonical 0 (-1074)) : toRat (.finite s 0 (-1074) h) = 0 := by
    rw [toRat_finite, Nat.cast_zero, zero_mul, neg_zero, ite_self]
  refine .finite ?_ (fun y _ => ?_) (fun y _ _ _ => Even.zero)
  · rw [abs_zero]
    exact overflow_pos
  · rw [hvalue, sub_self, abs_zero]
    exact abs_nonneg _

/-- **A quotient is rounded to the nearest number.** -/
theorem nearest_ofQuotient (s : Bool) (n : ℕ) (hd : 0 < d) :
    Nearest (signed s ((n : ℚ) / d)) (ofQuotient s n d) := by
  have hd' : (0 : ℚ) < d := by exact_mod_cast hd
  rcases Nat.eq_zero_or_pos n with rfl | hn
  · have hvalue : signed s (((0 : ℕ) : ℚ) / d) = 0 := by
      cases s <;> simp [signed]
    rw [hvalue]
    exact nearest_zero s
  · have hn' : (0 : ℚ) < n := by exact_mod_cast hn
    have hv : (0 : ℚ) < (n : ℚ) / d := div_pos hn' hd'
    have hround := ofQuotient_eq (s := s) hn hd
    simp only at hround
    generalize hq : roundedExponent ((n : ℚ) / d) = q at hround
    have hk := roundsTo_roundQuotient (n * Nat.pow 2 (-q).toNat) (scaled_pos hd q.toNat)
    rw [scaled_quotient] at hk
    generalize roundQuotient _ _ = k at hround hk
    generalize (n : ℚ) / d = v at *
    rw [hround]
    rcases lt_or_ge v overflow with hfits | hlarge
    · obtain ⟨m, e, h, hfinite, hvalue, heven⟩ := exists_finite s hv hq.symm hk hfits
      have hrat : signed s (toRat (.finite s m e h)) = k * 2 ^ q := by
        rw [← hvalue, toRat_finite]
        exact signed_signed s _
      -- The signs are moved to the number that is compared.
      have hdist (y : Binary64) : |signed s v - y.toRat| = |v - signed s y.toRat| :=
        abs_signed_sub ..
      rw [hfinite]
      refine .finite ?_ (fun y hy => ?_) (fun y hy hne heq => ?_)
      · rwa [abs_signed, abs_of_pos hv]
      · obtain ⟨y', hy', hsigned⟩ := exists_signed s hy
        rw [hdist, hdist, hrat, ← hsigned]
        exact (closest_multiple hv hq.symm hk hy').1
      · obtain ⟨y', hy', hsigned⟩ := exists_signed s hy
        rw [hdist, hdist, hrat, ← hsigned] at heq
        refine heven ((closest_multiple hv hq.symm hk hy').2 (fun hsame => hne ?_) heq)
        rw [← signed_signed s y.toRat, ← hsigned, hsame, ← hrat, signed_signed]
    · rw [eq_infinity s hv hq.symm hk hlarge]
      refine .infinite ?_ ?_
      · rwa [abs_signed, abs_of_pos hv]
      · cases s <;> simp [signed, hv, hv.le]

/-! ### One nearest number -/

section Unique

variable {t : Bool} {m m' : ℕ} {q' : ℤ} {h : Canonical m q} {h' : Canonical m' q'}

/-- Behind an even significand comes an odd one. -/
theorem canonical_succ (h : Canonical m q) (hm : Even m) : Canonical (m + 1) q := by
  obtain ⟨i, rfl⟩ := hm
  rcases h with ⟨hsub, rfl⟩ | ⟨hlow, hhigh, hmin, hmax⟩
  · rcases lt_or_eq_of_le (Nat.succ_le_of_lt hsub) with hlt | heq
    · exact Or.inl ⟨hlt, rfl⟩
    · exact Or.inr ⟨heq.ge, heq.trans_lt (by decide), le_rfl, by decide⟩
  · have hhigh' : i + i < 2 ^ 53 := hhigh
    exact Or.inr ⟨Nat.le_succ_of_le hlow, show i + i + 1 < 2 ^ 53 by omega, hmin, hmax⟩

/-- Between two magnitudes with even significands lies another. -/
theorem exists_between_even (h : Canonical m q) (h' : Canonical m' q') (hm : Even m)
    (hm' : Even m') (hlt : (m : ℚ) * 2 ^ q < m' * 2 ^ q') :
    ∃ n, Canonical n q ∧ (m : ℚ) * 2 ^ q < n * 2 ^ q ∧ (n : ℚ) * 2 ^ q < m' * 2 ^ q' := by
  have hpos : (0 : ℚ) < 2 ^ q := by positivity
  refine ⟨m + 1, canonical_succ h hm, ?_, ?_⟩
  · gcongr
    exact m.lt_succ_self
  · rcases le_or_gt q q' with hle | hgt
    · -- In units of the first both are even.
      obtain ⟨k, rfl⟩ := Int.le.dest hle
      have hunits : (m' : ℚ) * 2 ^ (q + (k : ℤ)) = (m' * 2 ^ k : ℕ) * 2 ^ q := by
        rw [zpow_add₀ (by norm_num), zpow_natCast]
        push_cast
        ring
      rw [hunits, mul_lt_mul_iff_left₀ hpos, Nat.cast_lt] at hlt ⊢
      obtain ⟨i, hi⟩ := hm
      obtain ⟨j, hj⟩ := hm'.mul_right (2 ^ k)
      omega
    · -- The second would be smaller than the first.
      rcases h with ⟨-, rfl⟩ | ⟨hlow, -⟩
      · exact absurd h'.exponent_ge (not_le.mpr hgt)
      · have hlow' : (2 : ℚ) ^ 52 ≤ m := by exact_mod_cast show 2 ^ 52 ≤ m from hlow
        have hle := mul_le_mul_of_nonneg_right hlow' hpos.le
        exact absurd (h'.lt_of_exponent_lt hgt) (not_lt.mpr (hle.trans hlt.le))

/-- Between two numbers with even significands lies another. -/
theorem exists_finite_between (hm : Even m) (hm' : Even m')
    (hlt : toRat (.finite s m q h) < toRat (.finite t m' q' h')) :
    ∃ z : Binary64, z.isFinite = true ∧ toRat (.finite s m q h) < z.toRat ∧
      z.toRat < toRat (.finite t m' q' h') := by
  have hzero : Canonical 0 (-1074) := Or.inl ⟨by decide, rfl⟩
  have hzerovalue : ((0 : ℕ) : ℚ) * 2 ^ (-1074 : ℤ) = 0 := by rw [Nat.cast_zero, zero_mul]
  have hnonneg : (0 : ℚ) ≤ m * 2 ^ q := by positivity
  have hnonneg' : (0 : ℚ) ≤ m' * 2 ^ q' := by positivity
  simp only [toRat_finite] at hlt ⊢
  cases s <;> cases t <;> simp only [Bool.false_eq_true, ↓reduceIte] at hlt ⊢
  · obtain ⟨n, hn, hlow, hhigh⟩ := exists_between_even h h' hm hm' hlt
    refine ⟨.finite false n q hn, rfl, ?_⟩
    rw [toRat_finite, if_neg Bool.false_ne_true]
    exact ⟨hlow, hhigh⟩
  · linarith
  · -- One of them is not zero, and what lies between zero and it lies between both.
    rcases hnonneg'.eq_or_lt with heq | hpos
    · obtain ⟨n, hn, hlow, hhigh⟩ := exists_between_even hzero h Even.zero hm (by linarith)
      refine ⟨.finite true n _ hn, rfl, ?_⟩
      rw [toRat_finite, if_pos rfl]
      constructor <;> linarith
    · obtain ⟨n, hn, hlow, hhigh⟩ := exists_between_even hzero h' Even.zero hm' (by linarith)
      refine ⟨.finite false n _ hn, rfl, ?_⟩
      rw [toRat_finite, if_neg Bool.false_ne_true]
      constructor <;> linarith
  · obtain ⟨n, hn, hlow, hhigh⟩ := exists_between_even h' h hm' hm (by linarith)
    refine ⟨.finite true n q' hn, rfl, ?_⟩
    rw [toRat_finite, if_pos rfl]
    constructor <;> linarith

end Unique

/-- A value between two others that are equally far is nearer to what lies between them. -/
theorem abs_sub_lt_of_between {a b c : ℚ} (heq : |v - a| = |v - b|) (hlow : a < c) (hhigh : c < b) :
    |v - c| < |v - a| := by
  have hmiddle : v - a = b - v := by
    rcases abs_eq_abs.mp heq with hsame | hopposite
    · linarith
    · linarith
  rw [abs_of_nonneg (by linarith : 0 ≤ v - a), abs_lt]
  constructor <;> linarith

/-- **A value has one nearest number**, up to the sign of zero. -/
theorem Nearest.unique (hx : Nearest v x) (hy : Nearest v y) :
    x.isFinite = y.isFinite ∧ x.toRat = y.toRat := by
  cases hx with
  | infinite hlarge =>
    cases hy with
    | infinite => exact ⟨rfl, rfl⟩
    | finite hbounded => exact absurd hbounded (not_lt.mpr hlarge)
  | finite hbounded hclosest heven =>
    cases hy with
    | infinite hlarge => exact absurd hbounded (not_lt.mpr hlarge)
    | finite _ hclosest' heven' =>
      refine ⟨rfl, ?_⟩
      -- Of two nearest ones both would be even, and what lies between them would be nearer.
      by_contra hne
      have heq := le_antisymm (hclosest _ rfl) (hclosest' _ rfl)
      have hm := heven _ rfl (Ne.symm hne) heq
      have hm' := heven' _ rfl hne heq.symm
      rcases lt_or_gt_of_ne hne with hlt | hgt
      · obtain ⟨z, hz, hlow, hhigh⟩ := exists_finite_between hm hm' hlt
        exact absurd (hclosest z hz) (not_le.mpr (abs_sub_lt_of_between heq hlow hhigh))
      · obtain ⟨z, hz, hlow, hhigh⟩ := exists_finite_between hm' hm hgt
        exact absurd (hclosest' z hz) (not_le.mpr (abs_sub_lt_of_between heq.symm hlow hhigh))

end DocumentRules.Binary64
