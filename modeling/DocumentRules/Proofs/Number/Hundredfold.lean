/-
The hundredth of a hundredfold.

To round to hundredths a number is multiplied by a hundred and divided again, and each of the two
results is rounded.  For a whole number nothing happens in between, but the number need not come
back: a hundred units are twenty-five of four, which is five more bits than a significand has, and
where all five are needed, the hundredfold is rounded to a multiple of thirty-two.

* `Binary64.Steady` — the hundredfold is rounded by less than half a unit of the hundredth;
* **`Binary64.exists_multiple_le`** — no number is nearer than a multiple of a power;
* **`Binary64.recovered_of_steady`**, **`Binary64.not_recovered_of_not_steady`** — which units are
  recovered from their hundredfold;
* **`Binary64.recovered_iff`** — which whole numbers are.
-/
import DocumentRules.Proofs.Number.Arithmetic

namespace DocumentRules.Binary64

variable {z M : ℤ} {q e : ℤ} {k : ℕ} {x p t : Binary64}

/-! ### Numbers near a number of units -/

/-- A number that is less than a unit away from a whole number of units is that number of units,
if those are so many that numbers in between have no room. -/
theorem eq_of_abs_sub_lt (ht : t.isFinite = true) (hz : 2 ^ 52 < |z|)
    (h : |(z : ℚ) * 2 ^ q - t.toRat| < 2 ^ q) : t.toRat = z * 2 ^ q := by
  have hpos : (0 : ℚ) < 2 ^ q := by positivity
  rcases on_grid_or_below ht q with ⟨w, hw⟩ | ⟨-, hsmall⟩
  · rw [hw, ← sub_mul, abs_mul, abs_of_pos hpos, mul_lt_iff_lt_one_left hpos] at h
    have hlt : |z - w| < 1 := by exact_mod_cast h
    rw [Int.abs_lt_one_iff, sub_eq_zero] at hlt
    rw [hlt, hw]
  · have hfar : (2 ^ 52 + 1) * 2 ^ q ≤ |(z : ℚ) * 2 ^ q| := by
      rw [abs_mul, abs_of_pos hpos]
      refine mul_le_mul_of_nonneg_right ?_ hpos.le
      exact_mod_cast hz
    have := abs_sub_abs_le_abs_sub ((z : ℚ) * 2 ^ q) t.toRat
    linarith

/-- **No number is nearer than a multiple of a power**, to a number of units with so many more
bits. -/
theorem exists_multiple_le (hp : p.isFinite = true) (hz : 2 ^ (52 + k) ≤ |z|) (e : ℤ) :
    ∃ a : ℤ, |(z : ℚ) - a * 2 ^ k| * 2 ^ e ≤ |z * 2 ^ e - p.toRat| := by
  have hpos : (0 : ℚ) < 2 ^ e := by positivity
  have hpower : (2 : ℚ) ^ (e + k) = 2 ^ k * 2 ^ e := by
    rw [zpow_add₀ (by norm_num), zpow_natCast, mul_comm]
  have hdistance (a : ℚ) : |z * 2 ^ e - a * 2 ^ k * 2 ^ e| = |z - a * 2 ^ k| * 2 ^ e := by
    rw [← sub_mul, abs_mul, abs_of_pos hpos]
  rcases on_grid_or_below hp (e + k) with ⟨a, ha⟩ | ⟨-, hsmall⟩
  · refine ⟨a, le_of_eq ?_⟩
    rw [ha, hpower, ← mul_assoc, hdistance]
  · -- The least multiple with so many bits lies between the number and the units.
    rw [hpower, ← mul_assoc, ← pow_add] at hsmall
    obtain ⟨hlow, hhigh⟩ := abs_lt.mp hsmall
    rcases le_abs'.mp hz with hneg | hpos'
    · refine ⟨-2 ^ 52, ?_⟩
      have hcast : (z : ℚ) ≤ -2 ^ (52 + k) := by exact_mod_cast hneg
      have hmul := mul_le_mul_of_nonneg_right hcast hpos.le
      rw [← hdistance, abs_sub_comm, abs_sub_comm _ p.toRat, Int.cast_neg, neg_mul, Int.cast_pow,
        Int.cast_ofNat, ← pow_add, abs_of_nonneg (by linarith), abs_of_nonneg (by linarith)]
      linarith
    · refine ⟨2 ^ 52, ?_⟩
      have hcast : (2 : ℚ) ^ (52 + k) ≤ z := by exact_mod_cast hpos'
      have hmul := mul_le_mul_of_nonneg_right hcast hpos.le
      rw [← hdistance, Int.cast_pow, Int.cast_ofNat, ← pow_add, abs_of_nonneg (by linarith),
        abs_of_nonneg (by linarith)]
      linarith

/-- A number is rounded from a value at most twice as far away as it is from that value. -/
theorem Nearest.abs_sub_toRat_le {v : ℚ} (h : Nearest v t) (ht : t.isFinite = true)
    (hx : x.isFinite = true) : |x.toRat - t.toRat| ≤ 2 * |v - x.toRat| := by
  calc |x.toRat - t.toRat| ≤ |x.toRat - v| + |v - t.toRat| := abs_sub_le ..
    _ ≤ |v - x.toRat| + |v - x.toRat| := by
      rw [abs_sub_comm x.toRat]
      exact add_le_add_right (h.closest ht hx) _
    _ = 2 * |v - x.toRat| := (two_mul _).symm

/-- A number of units is rounded at least as near as to any multiple that is a number. -/
theorem Nearest.abs_sub_le (h : Nearest (z * 2 ^ e) p) (hp : p.isFinite = true) {a : ℤ}
    (ha : |a| ≤ 2 ^ 53) (hlow : -1022 ≤ e + k) (hhigh : e + k ≤ 970) :
    |(z : ℚ) * 2 ^ e - p.toRat| ≤ |(z : ℚ) - a * 2 ^ k| * 2 ^ e := by
  obtain ⟨y, hy, hvalue⟩ := exists_toRat_eq ha hlow hhigh
  refine (h.closest hp hy).trans_eq ?_
  rw [hvalue, zpow_add₀ (by norm_num), zpow_natCast, mul_comm (2 ^ e), ← mul_assoc, ← sub_mul,
    abs_mul, abs_of_pos (by positivity : (0 : ℚ) < 2 ^ e)]

/-! ### The hundredfold -/

/-- The hundredfold of so many units is rounded by less than half a unit of the hundredth: it has
at most four bits too many, or the last five of them are near to a multiple of thirty-two. -/
def Steady (M : ℤ) : Prop := |25 * M| < 2 ^ 57 ∨ 25 * M % 32 < 13 ∨ 19 < 25 * M % 32

instance (M : ℤ) : Decidable (Steady M) := inferInstanceAs (Decidable (_ ∨ _))

/-- A hundred units are twenty-five of four. -/
theorem hundredfold_eq (M q : ℤ) : 100 * ((M : ℚ) * 2 ^ q) = (25 * M : ℤ) * 2 ^ (q + 2) := by
  rw [zpow_add₀ (by norm_num)]
  push_cast
  ring

/-- The error of a hundredfold is a hundred times that of its hundredth. -/
theorem abs_hundredfold_sub (v w : ℚ) : |100 * v - w| = 100 * |w / 100 - v| := by
  have hsub : 100 * v - w = -(100 * (w / 100 - v)) := by ring
  rw [hsub, abs_neg, abs_mul, abs_of_pos (by norm_num : (0 : ℚ) < 100)]

/-- Steady units have a multiple of sixteen or thirty-two near their twenty-fivefold. -/
theorem Steady.exists_multiple (h : Steady M) (hlow : 2 ^ 52 ≤ |M|) (hhigh : |M| < 2 ^ 53) :
    ∃ (a : ℤ) (k : ℕ), |a| ≤ 2 ^ 53 ∧ k ≤ 5 ∧ |25 * M - a * 2 ^ k| ≤ 12 ∧
      (|M| = 2 ^ 52 → 25 * M = a * 2 ^ k) := by
  obtain ⟨hbelow, habove⟩ := abs_lt.mp hhigh
  rcases h with hshort | hnear | hnear
  · obtain ⟨hbelow', habove'⟩ := abs_lt.mp hshort
    refine ⟨(25 * M + 8) / 16, 4, ?_, by decide, ?_, fun heq => ?_⟩
    · rw [abs_le]
      omega
    · rw [abs_le]
      omega
    · rcases (abs_eq (by norm_num)).mp heq with rfl | rfl <;> norm_num
  · refine ⟨25 * M / 32, 5, ?_, le_rfl, ?_, fun heq => ?_⟩
    · rw [abs_le]
      omega
    · rw [abs_le]
      omega
    · rcases (abs_eq (by norm_num)).mp heq with rfl | rfl <;> norm_num
  · refine ⟨25 * M / 32 + 1, 5, ?_, le_rfl, ?_, fun heq => ?_⟩
    · rw [abs_le]
      omega
    · rw [abs_le]
      omega
    · rcases (abs_eq (by norm_num)).mp heq with rfl | rfl <;> norm_num at hnear

/-- Steady units are recovered. -/
theorem recovered_of_steady (h : Steady M) (hlow : 2 ^ 52 ≤ |M|) (hhigh : |M| < 2 ^ 53)
    (hqlow : -1000 ≤ q) (hqhigh : q ≤ 900) (hp : Nearest (100 * (M * 2 ^ q)) p)
    (hpfinite : p.isFinite = true) (ht : Nearest (p.toRat / 100) t) (htfinite : t.isFinite = true) :
    t.toRat = M * 2 ^ q := by
  have hpos : (0 : ℚ) < 2 ^ q := by positivity
  obtain ⟨a, k, ha, hk, hnear, hexact⟩ := h.exists_multiple hlow hhigh
  obtain ⟨x, hx, hvalue⟩ := exists_toRat_eq (e := q) hhigh.le (by omega) (by omega)
  -- The error of the hundredfold, and of its hundredth.
  rw [hundredfold_eq] at hp
  have herror := hp.abs_sub_le (k := k) hpfinite ha (by omega) (by omega)
  rw [← hundredfold_eq, abs_hundredfold_sub, zpow_add₀ (by norm_num)] at herror
  have hback := ht.abs_sub_toRat_le htfinite hx
  rw [hvalue] at hback
  rcases eq_or_lt_of_le hlow with heq | hlt
  · have hzero : |((25 * M : ℤ) : ℚ) - a * 2 ^ k| = 0 := by
      rw [hexact heq.symm]
      push_cast
      rw [sub_self, abs_zero]
    rw [hzero, zero_mul] at herror
    have hnone : |(M : ℚ) * 2 ^ q - t.toRat| ≤ 0 := by linarith
    exact (sub_eq_zero.mp (abs_nonpos_iff.mp hnone)).symm
  · refine eq_of_abs_sub_lt htfinite hlt ?_
    have hcast : |((25 * M : ℤ) : ℚ) - a * 2 ^ k| ≤ 12 := by exact_mod_cast hnear
    have := mul_le_mul_of_nonneg_right hcast (by positivity : (0 : ℚ) ≤ 2 ^ q * 2 ^ 2)
    linarith

/-- Units that are not steady are not: the next number is nearer to the hundredth. -/
theorem not_recovered_of_not_steady (h : ¬ Steady M) (hhigh : |M| < 2 ^ 53)
    (hqlow : -1000 ≤ q) (hqhigh : q ≤ 900) (hpfinite : p.isFinite = true)
    (ht : Nearest (p.toRat / 100) t) (htfinite : t.isFinite = true) : t.toRat ≠ M * 2 ^ q := by
  intro heq
  have hpos : (0 : ℚ) < 2 ^ q := by positivity
  simp only [Steady, not_or, not_lt] at h
  obtain ⟨hlarge, habove, hbelow⟩ := h
  -- The hundredfold is off by thirteen units of four or more, so the hundredth by more than half a unit.
  obtain ⟨a, ha⟩ := exists_multiple_le (k := 5) hpfinite hlarge (q + 2)
  have hfar : 13 ≤ |25 * M - a * 2 ^ 5| := by
    rw [le_abs]
    rcases le_or_gt a (25 * M / 32) with hle | hgt
    · exact Or.inl (by omega)
    · exact Or.inr (by omega)
  have hcast : 13 ≤ |((25 * M : ℤ) : ℚ) - a * 2 ^ 5| := by exact_mod_cast hfar
  rw [← hundredfold_eq, zpow_add₀ (by norm_num)] at ha
  have hmul := mul_le_mul_of_nonneg_right hcast (by positivity : (0 : ℚ) ≤ 2 ^ q * 2 ^ 2)
  have herror : 13 * (2 ^ q * 2 ^ 2) ≤ 100 * |p.toRat / 100 - M * 2 ^ q| :=
    abs_hundredfold_sub .. ▸ hmul.trans ha
  have hneighbour {w : ℤ} (hw : |w| ≤ 2 ^ 53) :
      |p.toRat / 100 - M * 2 ^ q| ≤ |p.toRat / 100 - w * 2 ^ q| := by
    obtain ⟨y, hy, hvalue⟩ := exists_toRat_eq (e := q) hw (by omega) (by omega)
    rw [← heq, ← hvalue]
    exact ht.closest htfinite hy
  obtain ⟨hlow', hhigh'⟩ := abs_lt.mp hhigh
  have hhalf : 1 / 2 * 2 ^ q < |p.toRat / 100 - M * 2 ^ q| := by linarith
  rcases lt_abs.mp hhalf with hmore | hless
  · have hclosest := hneighbour (w := M + 1) (by rw [abs_le]; omega)
    rw [abs_of_pos (by linarith)] at hclosest
    push_cast at hclosest
    rcases le_abs.mp hclosest with hle | hle <;> linarith
  · have hclosest := hneighbour (w := M - 1) (by rw [abs_le]; omega)
    rw [abs_of_neg (by linarith)] at hclosest
    push_cast at hclosest
    rcases le_abs.mp hclosest with hle | hle <;> linarith

/-! ### Whole numbers -/

/-- The integer comes back from its hundredfold: it is zero, or its units are steady. -/
inductive Recovered (n : ℤ) : Prop where
  | zero (h : n = 0)
  | units {M q : ℤ} (eq : (n : ℚ) = M * 2 ^ q) (low : 2 ^ 52 ≤ |M|) (high : |M| < 2 ^ 53)
      (steady : Steady M)

/-- The exponent of the units of a moderate number. -/
theorem exponent_bounds (hlow : 2 ^ 52 ≤ |M|) (hhigh : |M| < 2 ^ 53)
    (hone : 1 ≤ |(M : ℚ) * 2 ^ q|) (hlarge : |(M : ℚ) * 2 ^ q| ≤ 2 ^ 64) : -53 < q ∧ q ≤ 12 := by
  have hpos : (0 : ℚ) < 2 ^ q := by positivity
  have hlow' : (2 : ℚ) ^ 52 ≤ |(M : ℚ)| := by exact_mod_cast hlow
  have hhigh' : |(M : ℚ)| < 2 ^ 53 := by exact_mod_cast hhigh
  rw [abs_mul, abs_of_pos hpos] at hone hlarge
  constructor
  · have hlt : (2 : ℚ) ^ (0 : ℤ) < 2 ^ ((53 : ℕ) + q : ℤ) := by
      rw [zpow_zero, zpow_add₀ (by norm_num), zpow_natCast]
      exact hone.trans_lt (mul_lt_mul_of_pos_right hhigh' hpos)
    have := (zpow_lt_zpow_iff_right₀ (one_lt_two (α := ℚ))).mp hlt
    omega
  · have hle : (2 : ℚ) ^ ((52 : ℕ) + q : ℤ) ≤ 2 ^ ((64 : ℕ) : ℤ) := by
      rw [zpow_add₀ (by norm_num), zpow_natCast, zpow_natCast]
      exact (mul_le_mul_of_nonneg_right hlow' hpos.le).trans hlarge
    have := (zpow_le_zpow_iff_right₀ (one_lt_two (α := ℚ))).mp hle
    omega

/-- **The units of a number**, unless it is a small fraction. -/
theorem exists_units (hx : x.isFinite = true) (hone : 1 ≤ |x.toRat|) :
    ∃ M q : ℤ, x.toRat = M * 2 ^ q ∧ 2 ^ 52 ≤ |M| ∧ |M| < 2 ^ 53 := by
  cases x with
  | nan => cases hx
  | infinity _ => cases hx
  | finite s m q h =>
    rw [abs_toRat_finite] at hone
    rw [toRat_finite]
    rcases h with ⟨hsub, rfl⟩ | ⟨hlow, hhigh, -, -⟩
    · -- With the least exponent these are fractions.
      have hm : (m : ℚ) < 2 ^ 52 := by exact_mod_cast (show m < 2 ^ 52 from hsub)
      have hlt : (m : ℚ) * 2 ^ (-1074 : ℤ) < 2 ^ 52 * 2 ^ (-1074 : ℤ) := by gcongr
      have hsmall : (2 : ℚ) ^ 52 * 2 ^ (-1074 : ℤ) ≤ 1 := by
        rw [← zpow_natCast, ← zpow_add₀ (by norm_num)]
        exact zpow_le_one_of_nonpos₀ one_le_two (by norm_num)
      linarith
    · have hM : |if s then -(m : ℤ) else m| = m := by
        cases s <;> simp
      refine ⟨if s then -(m : ℤ) else m, q, ?_, ?_, ?_⟩
      · cases s <;> simp
      · rw [hM]
        exact_mod_cast hlow
      · rw [hM]
        exact_mod_cast hhigh

/-- **A whole number is its own hundredth of the hundredfold** exactly if it is recovered. -/
theorem recovered_iff {n : ℤ} (hx : x.isFinite = true) (hn : x.toRat = n) (hbound : |n| ≤ 2 ^ 64)
    (hp : Nearest (100 * x.toRat) p) (hpfinite : p.isFinite = true)
    (ht : Nearest (p.toRat / 100) t) (htfinite : t.isFinite = true) :
    t.toRat = n ↔ Recovered n := by
  rw [hn] at hp
  have hcast : |(n : ℚ)| ≤ 2 ^ 64 := by exact_mod_cast hbound
  rcases eq_or_ne n 0 with hzero | hne
  · -- Zero is exact all the way.
    refine iff_of_true ?_ (.zero hzero)
    rw [hzero, Int.cast_zero, mul_zero] at hp
    rw [hp.eq_zero, zero_div] at ht
    rw [hzero, Int.cast_zero, ht.eq_zero]
  · have hone : 1 ≤ |(n : ℚ)| := by exact_mod_cast Int.one_le_abs hne
    constructor
    · intro heq
      obtain ⟨M, q, hunits, hlow, hhigh⟩ := exists_units hx (hn ▸ hone)
      rw [hn] at hunits
      rw [hunits] at hone hcast
      obtain ⟨hqlow, hqhigh⟩ := exponent_bounds hlow hhigh hone hcast
      refine .units hunits hlow hhigh ?_
      by_contra hsteady
      exact not_recovered_of_not_steady hsteady hhigh (by omega) (by omega) hpfinite ht htfinite
        (heq.trans hunits)
    · rintro (hzero | ⟨hunits, hlow, hhigh, hsteady⟩)
      · exact absurd hzero hne
      · rw [hunits] at hone hcast hp
        obtain ⟨hqlow, hqhigh⟩ := exponent_bounds hlow hhigh hone hcast
        exact (recovered_of_steady hsteady hlow hhigh (by omega) (by omega) hp hpfinite ht
          htfinite).trans hunits.symm

end DocumentRules.Binary64
