/-
Whole numbers in totals and in number text.

Totals and number text are reckoned in floating-point numbers, although both may come out as
integers.  An integer that has more than 53 bits in front of the zeros at its end is no such number
and is rounded on the way.  A total is rounded once more, to hundredths, and this already breaks
odd sums from `360287970189641` on, which are then not written as integers at all.

* `Total.Reckoning` — the numbers on the way from two whole amounts to their total;
* `Total.Written` — how a total is written;
* **`Total.exists_reckoning`** — the total of two whole amounts comes from a reckoning;
* **`Total.written_iff_recovered`**, **`Total.written_of_moderate`** — when it is their sum;
* **`Normalize.spells_toString`** — the decimal text of an integer is number text;
* **`whole_numbers_kept`** — which whole numbers are kept, and what becomes of the others.
-/
import DocumentRules.BuiltIn.Rules
import DocumentRules.Proofs.Block.NumberText
import DocumentRules.Proofs.Number.Hundredfold

namespace DocumentRules

open Binary64 (Nearest Short Recovered signed)

/-! ### Totals -/

namespace Total

variable {d : Document} {net tax sum i j : Int64} {x : Binary64} {v : Value} {m n : ℤ}

/-- The document holds two whole amounts, and no total or a null. -/
structure Asks (d : Document) (net tax : Int64) : Prop where
  net_eq : d.value.get? netField = some (.int net)
  tax_eq : d.value.get? taxField = some (.int tax)
  missing : ∀ v, d.value.get? totalField = some v → v = .null

/-- The numbers on the way from two whole amounts to their total: the amounts, their sum and its
hundredfold are rounded one after another, and so is the hundredth of that. -/
structure Reckoning (net tax : ℤ) where
  netAmount : Binary64
  taxAmount : Binary64
  sum : Binary64
  hundredfold : Binary64
  total : Binary64
  finite : ∀ x ∈ [netAmount, taxAmount, sum, hundredfold, total], x.isFinite = true
  nearest_net : Nearest net netAmount
  nearest_tax : Nearest tax taxAmount
  nearest_sum : Nearest (netAmount.toRat + taxAmount.toRat) sum
  nearest_hundredfold : Nearest (100 * sum.toRat) hundredfold
  nearest_total : Nearest (hundredfold.toRat / 100) total

/-- The number is whole and lies outside the range of integers, and this is the end of the range. -/
inductive Clamped (x : Binary64) : Int64 → Prop where
  | above (n : ℤ) (hn : x.toRat = n) (h : Int64.maxValue.toInt < n) : Clamped x Int64.maxValue
  | below (n : ℤ) (hn : x.toRat = n) (h : n < Int64.minValue.toInt) : Clamped x Int64.minValue

/-- How a total is written: a whole one as an integer, which is clamped to the range. -/
inductive Written (x : Binary64) : Value → Prop where
  | whole {i : Int64} (h : x.toRat = i.toInt) : Written x (.int i)
  | clamped {i : Int64} (h : Clamped x i) : Written x (.int i)
  | broken (h : ∀ n : ℤ, x.toRat ≠ n) : Written x (.float x)

theorem Clamped.toRat_ne (h : Clamped x i) (j : Int64) : x.toRat ≠ j.toInt := by
  have hlow := Int64.minValue_le_toInt j
  have hhigh := Int64.toInt_le j
  rintro heq
  cases h with
  | above n hn h =>
    rw [hn, Rat.intCast_inj] at heq
    omega
  | below n hn h =>
    rw [hn, Rat.intCast_inj] at heq
    omega

theorem Clamped.exists_eq (h : Clamped x i) : ∃ n : ℤ, x.toRat = n := by
  cases h with
  | above n hn _ => exact ⟨n, hn⟩
  | below n hn _ => exact ⟨n, hn⟩

theorem Clamped.unique (h : Clamped x i) (h' : Clamped x j) : i = j := by
  cases h with
  | above n hn h =>
    cases h' with
    | above => rfl
    | below m hm h' =>
      rw [hn, Rat.intCast_inj] at hm
      exact absurd (h.trans (hm ▸ h')) (by decide)
  | below n hn h =>
    cases h' with
    | below => rfl
    | above m hm h' =>
      rw [hn, Rat.intCast_inj] at hm
      exact absurd (h'.trans (hm ▸ h)) (by decide)

/-- **A total is written as an integer** if it is that integer or clamped to it. -/
theorem Written.eq_int_iff (h : Written x v) :
    v = .int i ↔ x.toRat = i.toInt ∨ Clamped x i := by
  cases h with
  | whole hwhole =>
    rw [Value.int.injEq, ← Int64.toInt_inj, hwhole, Rat.intCast_inj]
    exact ⟨Or.inl, fun h => h.resolve_right fun hclamped => hclamped.toRat_ne _ hwhole⟩
  | clamped hclamped =>
    rw [Value.int.injEq]
    constructor
    · rintro rfl
      exact Or.inr hclamped
    · rintro (heq | hclamped')
      · exact absurd heq (hclamped.toRat_ne i)
      · exact hclamped.unique hclamped'
  | broken hbroken =>
    refine iff_of_false Value.noConfusion ?_
    rintro (heq | hclamped)
    · exact hbroken _ heq
    · obtain ⟨n, hn⟩ := hclamped.exists_eq
      exact hbroken n hn

theorem written (hx : x.isFinite = true) :
    Written x (if x.isWhole then .int x.toInt64 else .float x) := by
  split
  · rename_i hwhole
    obtain ⟨-, n, hn⟩ := Binary64.isWhole_iff.mp hwhole
    rw [Binary64.toInt64_of_whole hx hn]
    split
    · exact .clamped (.below n hn ‹_›)
    · split
      · exact .clamped (.above n hn ‹_›)
      · refine .whole ?_
        rw [hn, Int64.toInt_ofInt_of_le (not_lt.mp ‹_›) (Int.lt_add_one_of_le (not_lt.mp ‹_›))]
  · rename_i hbroken
    exact .broken fun n hn => hbroken (Binary64.isWhole_iff.mpr ⟨hx, n, hn⟩)

/-! ### The way to the total -/

theorem abs_toInt_le (i : Int64) : |i.toInt| ≤ 2 ^ 63 := by
  have hlow : -2 ^ 63 ≤ i.toInt := Int64.minValue_le_toInt i
  have hhigh : i.toInt ≤ 2 ^ 63 - 1 := Int64.toInt_le i
  rw [abs_le]
  omega

theorem hundred_value :
    (Binary64.ofNat 100).isFinite = true ∧ (Binary64.ofNat 100).toRat = 100 :=
  Binary64.toRat_ofInt (n := 100) (by norm_num)

theorem run_eq (h : Asks d net tax) :
    run d = d.set totalField
      ⟨money ((Binary64.ofInt net.toInt).add (Binary64.ofInt tax.toInt)), wellFormed_money _⟩ := by
  have hmissing : ¬ (d.value.get? totalField).any (!·.isNull) = true := by
    rw [Option.any_eq_true]
    rintro ⟨v, hv, hnull⟩
    rw [h.missing v hv] at hnull
    cases hnull
  rw [run, if_neg hmissing, h.net_eq, h.tax_eq]
  rfl

/-- A whole amount comes from its hundredfold, which is whole, so that it is not rounded to another
whole number. -/
theorem exists_money {s : Binary64} (hs : s.isFinite = true) (hn : s.toRat = n)
    (hbound : |s.toRat| ≤ 2 ^ 64) :
    ∃ p t : Binary64, p.isFinite = true ∧ t.isFinite = true ∧ Nearest (100 * s.toRat) p ∧
      Nearest (p.toRat / 100) t ∧ Written t (money s) := by
  have hproduct := Binary64.nearest_mul hs hundred_value.1
  rw [hundred_value.2, mul_comm] at hproduct
  obtain ⟨hp, hpbound⟩ := hproduct.bounded (k := 71) (by norm_num) (by
    rw [abs_mul, abs_of_pos (by norm_num)]
    linarith)
  obtain ⟨m, hm⟩ : ∃ m : ℤ, (s.mul (.ofNat 100)).toRat = m := by
    refine Nearest.whole (n := 100 * n) ?_ hp
    rw [hn] at hproduct
    exact_mod_cast hproduct
  have hround := Binary64.roundHalfAway_of_whole hp hm
  have hquotient := Binary64.nearest_div hp hundred_value.1 (by
    rw [hundred_value.2]
    norm_num)
  rw [hundred_value.2] at hquotient
  obtain ⟨ht, -⟩ := hquotient.bounded (k := 71) (by norm_num) (by
    rw [abs_div, abs_of_pos (by norm_num : (0 : ℚ) < 100)]
    linarith [abs_nonneg (s.mul (.ofNat 100)).toRat])
  refine ⟨_, _, hp, ht, hproduct, hquotient, ?_⟩
  simp only [money, hround]
  exact written ht

/-- **The total of two whole amounts comes from a reckoning.** -/
theorem exists_reckoning (h : Asks d net tax) :
    ∃ (c : Reckoning net.toInt tax.toInt) (v : Document),
      Written c.total v.value ∧ run d = d.set totalField v := by
  have hbound (i : Int64) : |(i.toInt : ℚ)| ≤ 2 ^ 63 := by exact_mod_cast abs_toInt_le i
  have hnet := Binary64.nearest_ofInt net.toInt
  have htax := Binary64.nearest_ofInt tax.toInt
  obtain ⟨hnetfinite, hnetbound⟩ := hnet.bounded (by norm_num) (hbound net)
  obtain ⟨htaxfinite, htaxbound⟩ := htax.bounded (by norm_num) (hbound tax)
  have hsum := Binary64.nearest_add hnetfinite htaxfinite
  obtain ⟨hsumfinite, hsumbound⟩ := hsum.bounded (k := 64) (by norm_num)
    ((abs_add_le _ _).trans (by linarith))
  -- The sum of whole amounts is whole.
  obtain ⟨m, hm⟩ := hnet.whole hnetfinite
  obtain ⟨n, hn⟩ := htax.whole htaxfinite
  obtain ⟨i, hi⟩ := Nearest.whole (n := m + n) (by rwa [Int.cast_add, ← hm, ← hn]) hsumfinite
  obtain ⟨p, t, hp, ht, hhundredfold, htotal, hwritten⟩ := exists_money hsumfinite hi hsumbound
  exact ⟨⟨_, _, _, p, t, by simp [*], hnet, htax, hsum, hhundredfold, htotal⟩, _, hwritten,
    run_eq h⟩

/-! ### Totals that are exact -/

namespace Reckoning

variable {n m : ℤ} (c : Reckoning n m)

theorem total_finite : c.total.isFinite = true := c.finite _ (by simp)

/-- Short amounts with a short sum are added exactly. -/
theorem sum_eq (hn : Short n) (hm : Short m) (hsum : Short (n + m)) (hnbound : |n| ≤ 2 ^ 63)
    (hmbound : |m| ≤ 2 ^ 63) : c.sum.toRat = (n + m : ℤ) := by
  have hbound : |n + m| ≤ 2 ^ 64 := (abs_add_le n m).trans (by omega)
  have hnearest := c.nearest_sum
  rw [(c.nearest_net.toRat_eq_of_short hn (by omega)).2,
    (c.nearest_tax.toRat_eq_of_short hm (by omega)).2, ← Int.cast_add] at hnearest
  exact (hnearest.toRat_eq_of_short hsum hbound).2

/-- **Such a sum is the total** exactly if it is recovered from its hundredfold. -/
theorem total_eq_iff (hn : Short n) (hm : Short m) (hsum : Short (n + m)) (hnbound : |n| ≤ 2 ^ 63)
    (hmbound : |m| ≤ 2 ^ 63) : c.total.toRat = (n + m : ℤ) ↔ Recovered (n + m) :=
  Binary64.recovered_iff (c.finite _ (by simp)) (c.sum_eq hn hm hsum hnbound hmbound)
    ((abs_add_le n m).trans (by omega)) c.nearest_hundredfold (c.finite _ (by simp))
    c.nearest_total c.total_finite

/-- A moderate sum is the total: its hundredfold is a number, too. -/
theorem total_eq (hn : |n| ≤ 2 ^ 53) (hm : |m| ≤ 2 ^ 53) (hsum : |25 * (n + m)| ≤ 2 ^ 53) :
    c.total.toRat = (n + m : ℤ) := by
  have hsmall : |n + m| ≤ 2 ^ 53 := by
    rw [abs_mul] at hsum
    norm_num at hsum
    omega
  have hvalue := c.sum_eq (Binary64.short_of_abs_le hn) (Binary64.short_of_abs_le hm)
    (Binary64.short_of_abs_le hsmall) (by omega) (by omega)
  obtain ⟨y, hy, hyvalue⟩ := Binary64.exists_toRat_eq (e := 2) hsum (by norm_num) (by norm_num)
  obtain ⟨z, hz, hzvalue⟩ := Binary64.exists_toRat_eq (e := 0) hsmall (by norm_num) (by norm_num)
  rw [zpow_zero, mul_one] at hzvalue
  have hhundredfold := c.nearest_hundredfold
  have htotal := c.nearest_total
  rw [hvalue, (by rw [hyvalue]; push_cast; ring : 100 * ((n + m : ℤ) : ℚ) = y.toRat)]
    at hhundredfold
  rw [(hhundredfold.toRat_eq hy).2,
    (by rw [hyvalue, hzvalue]; push_cast; ring : y.toRat / 100 = z.toRat)] at htotal
  exact (htotal.toRat_eq hz).2.trans hzvalue

end Reckoning

/-! ### The ends of the range -/

theorem not_short_maxValue : ¬ Short Int64.maxValue.toInt := by
  rintro ⟨m, k, hm, hk⟩
  have hvalue : Int64.maxValue.toInt.natAbs = 2 ^ 63 - 1 := by decide
  rw [hvalue] at hk
  cases k with
  | zero => omega
  | succ k =>
    -- It is odd.
    have hdouble : m * 2 ^ (k + 1) = 2 * (m * 2 ^ k) := by ring
    omega

theorem short_minValue : Short Int64.minValue.toInt := ⟨2 ^ 52, 11, by norm_num, by decide⟩

theorem recovered_minValue : Recovered Int64.minValue.toInt := by
  refine .units (M := -2 ^ 52) (q := 11) ?_ (by norm_num) (by norm_num) (by decide)
  have hvalue : Int64.minValue.toInt = -2 ^ 63 := by decide
  rw [hvalue]
  norm_num

section Amounts

variable (c : Reckoning net.toInt tax.toInt) (hv : Written c.total v)
  (hsum : sum.toInt = net.toInt + tax.toInt)

include hv hsum

/-- A total that is written as the sum is short, unless it was clamped. -/
theorem short_of_written (h : v = .int sum) : Short sum.toInt ∨ sum = Int64.maxValue := by
  have hbound := abs_toInt_le sum
  rcases hv.eq_int_iff.mp h with heq | hclamped
  · exact Or.inl ((Binary64.short_iff (by omega)).mpr ⟨_, c.total_finite, heq⟩)
  · cases hclamped with
    | above => exact Or.inr rfl
    | below => exact Or.inl short_minValue

/-- **The total of short amounts with a short sum** is the sum if that is recovered. -/
theorem written_iff_recovered (hn : Short net.toInt) (hm : Short tax.toInt)
    (hs : Short sum.toInt) : v = .int sum ↔ Recovered sum.toInt := by
  have htotal := c.total_eq_iff hn hm (hsum ▸ hs) (abs_toInt_le net) (abs_toInt_le tax)
  rw [← hsum] at htotal
  rw [hv.eq_int_iff, htotal, or_iff_left_of_imp]
  rintro (⟨_, _, _⟩ | ⟨_, _, _⟩)
  · exact absurd hs not_short_maxValue
  · exact recovered_minValue

/-- **The total of moderate amounts** is their sum. -/
theorem written_of_moderate (hn : |net.toInt| ≤ 2 ^ 53) (hm : |tax.toInt| ≤ 2 ^ 53)
    (hs : |25 * sum.toInt| ≤ 2 ^ 53) : v = .int sum := by
  rw [hsum] at hs
  rw [hv.eq_int_iff, hsum]
  exact Or.inl (c.total_eq hn hm hs)

end Amounts

end Total

/-! ### Number text -/

namespace Normalize

/-- The digits of an integer, behind its sign. -/
def NumberText.ofInt (i : ℤ) : NumberText where
  negative := i < 0
  whole := Numeral.digits i.natAbs
  fraction := none
  isDigit_of_mem_whole := fun _ => Numeral.isDigit_of_mem_digits
  isDigit_of_mem_fraction := by simp
  exists_digit := by simpa using Numeral.digits_ne_nil i.natAbs

theorem NumberText.value_ofInt (i : ℤ) : (NumberText.ofInt i).value = i := by
  have hmagnitude : ((i.natAbs : ℕ) : ℚ) = |(i : ℚ)| := by rw [Nat.cast_natAbs, Int.cast_abs]
  simp only [value, ofInt, signed, Numeral.natValue_digits, Option.getD_none, hmagnitude,
    decide_eq_true_eq]
  rcases lt_or_ge i 0 with hneg | hnonneg
  · rw [if_pos hneg, abs_of_neg (by exact_mod_cast hneg)]
    simp [Numeral.natValue]
  · rw [if_neg (not_lt.mpr hnonneg), abs_of_nonneg (by exact_mod_cast hnonneg)]
    simp [Numeral.natValue]

theorem toList_toString (i : ℤ) : (toString i).toList = (NumberText.ofInt i).chars '.' := by
  cases i with
  | ofNat n =>
    show (Nat.repr n).toList = _
    simp [NumberText.chars, NumberText.unsignedChars, NumberText.ofInt, Numeral.digits]
  | negSucc n =>
    show ("-" ++ Nat.repr (n + 1)).toList = _
    simp [NumberText.chars, NumberText.unsignedChars, NumberText.ofInt, Numeral.digits]

theorem mem_chars_ofInt {i : ℤ} {c : Char} (hc : c ∈ (NumberText.ofInt i).chars '.') :
    c = '-' ∨ c.isDigit = true := by
  rw [NumberText.chars, NumberText.unsignedChars, List.mem_append, List.mem_append] at hc
  rcases hc with hsign | hwhole | hfraction
  · split at hsign
    · exact Or.inl (List.mem_singleton.mp hsign)
    · cases hsign
  · exact Or.inr ((NumberText.ofInt i).isDigit_of_mem_whole c hwhole)
  · cases hfraction

/-- **The decimal text of an integer is number text.** -/
theorem spells_toString (i : ℤ) : Spells (toString i) (.ofInt i) := by
  have hkept : kept (toString i) = (NumberText.ofInt i).chars '.' := by
    rw [kept, toList_toString, List.filter_eq_self]
    intro c hc
    rcases mem_chars_ofInt hc with rfl | hdigit
    · rfl
    · simp [isNumberChar, hdigit]
  refine ⟨.point, hkept ▸ .single ?_⟩
  intro hcomma
  rw [hkept] at hcomma
  rcases mem_chars_ofInt hcomma with h | h
  · exact absurd h (by decide)
  · exact absurd h (by decide)

/-- **The decimal text of a whole number** is normalized to that number if it is short and not the
least one. -/
theorem normalizeNumber_toString (n : Int64) : ∃ x w, Nearest n.toInt x ∧
    (Value.float x).Respelled w ∧ normalizeNumber (.string (toString n.toInt)) = .ok w ∧
    (w = .int n ↔ Short n.toInt ∧ n ≠ Int64.minValue) := by
  obtain ⟨x, w, hx, hw, heq⟩ := normalizeNumber_of_spells (spells_toString n.toInt)
  rw [NumberText.value_ofInt] at hx
  refine ⟨x, w, hx, hw, heq, ?_⟩
  have hbound := Total.abs_toInt_le n
  have hvalue (h : Short n.toInt) : x.isFinite = true ∧ x.toRat = n.toInt :=
    hx.toRat_eq_of_short h (by omega)
  cases hw with
  | @whole _ i h =>
    rw [Value.int.injEq]
    constructor
    · rintro rfl
      refine ⟨(Binary64.short_iff (by omega)).mpr ⟨x, h.finite, h.value⟩, ?_⟩
      rintro rfl
      exact absurd h.magnitude (by decide)
    · rintro ⟨hshort, -⟩
      have hsame := h.value
      rw [(hvalue hshort).2, Rat.intCast_inj] at hsame
      exact (Int64.toInt_inj.mp hsame).symm
  | other h =>
    refine iff_of_false Value.noConfusion ?_
    rintro ⟨hshort, hne⟩
    refine h n.toInt ⟨(hvalue hshort).1, (hvalue hshort).2, ?_⟩
    rw [ne_eq, ← Int64.toInt_inj] at hne
    have hmin : Int64.minValue.toInt = -2 ^ 63 := by decide
    have hhigh : n.toInt ≤ 2 ^ 63 - 1 := Int64.toInt_le n
    rw [abs_lt]
    rw [abs_le] at hbound
    omega

end Normalize

open Total Normalize in
/-- **Which whole numbers are kept.**  The total of two whole amounts whose sum is in range comes
from a reckoning.  It is the integer that is their sum exactly if the number at the end is, or is
clamped to it: always as long as the hundredfold needs no more than 53 bits in front of its last
two zeros, and for short amounts with a short sum exactly if the sum is recovered from its
hundredfold.  Where the sum is not short the total is another one, unless it is clamped.  The
decimal text of a whole number is normalized to the nearest number, which is the integer itself
exactly if that is short and not the least one. -/
theorem whole_numbers_kept (d : Document) (net tax sum n : Int64) (h : Asks d net tax)
    (hsum : sum.toInt = net.toInt + tax.toInt) :
    (∃ (c : Reckoning net.toInt tax.toInt) (v : Document),
      Total.run d = d.set totalField v ∧
      (Total.run d).value.get? totalField = some v.value ∧
      Written c.total v.value ∧
      (v.value = .int sum ↔ c.total.toRat = sum.toInt ∨ Clamped c.total sum) ∧
      (|net.toInt| ≤ 2 ^ 53 → |tax.toInt| ≤ 2 ^ 53 → |25 * sum.toInt| ≤ 2 ^ 53 →
        v.value = .int sum) ∧
      (Short net.toInt → Short tax.toInt → Short sum.toInt →
        (v.value = .int sum ↔ Recovered sum.toInt)) ∧
      (v.value = .int sum → Short sum.toInt ∨ sum = Int64.maxValue)) ∧
    ∃ x w, Nearest n.toInt x ∧ (Value.float x).Respelled w ∧
      normalizeNumber (.string (toString n.toInt)) = .ok w ∧
      (w = .int n ↔ Short n.toInt ∧ n ≠ Int64.minValue) := by
  refine ⟨?_, normalizeNumber_toString n⟩
  obtain ⟨c, v, hv, hrun⟩ := exists_reckoning h
  refine ⟨c, v, hrun, ?_, hv, hv.eq_int_iff, written_of_moderate c hv hsum,
    written_iff_recovered c hv hsum, short_of_written c hv hsum⟩
  rw [hrun]
  exact Value.get?_set_self _ _ _

/-- A document with two whole amounts. -/
def Total.amounts (net tax : Int64) : Document :=
  (Document.emptyMap.setScalar netField (.int net)).setScalar taxField (.int tax)

theorem Total.asks_amounts (net tax : Int64) : Asks (amounts net tax) net tax where
  net_eq := rfl
  tax_eq := rfl
  missing := fun _ hv => by cases hv

open Total Normalize in
theorem whole_numbers_kept_even :
    Asks (amounts 360287970189640 2) 360287970189640 2 ∧
    (∃ v : Document,
      Total.run (amounts 360287970189640 2) = (amounts 360287970189640 2).set totalField v ∧
      v.value = .int 360287970189642) ∧
    normalizeNumber (.string "9007199254740992") = .ok (.int 9007199254740992) := by
  obtain ⟨⟨c, v, hrun, -, -, -, -, hrecovered, -⟩, x, w, -, -, heq, hint⟩ :=
    whole_numbers_kept _ _ _ 360287970189642 9007199254740992
      (asks_amounts 360287970189640 2) (by decide)
  have hshort {i : Int64} (h : |i.toInt| ≤ 2 ^ 53) : Short i.toInt := Binary64.short_of_abs_le h
  refine ⟨asks_amounts _ _, ⟨v, hrun, ?_⟩, ?_⟩
  · refine (hrecovered (hshort (by decide)) (hshort (by decide)) (hshort (by decide))).mpr ?_
    refine .units (M := 360287970189642 * 2 ^ 4) (q := -4) ?_ (by norm_num) (by norm_num)
      (by decide)
    have hvalue : (360287970189642 : Int64).toInt = 360287970189642 := by decide
    rw [hvalue]
    norm_num
  · rw [hint.mpr ⟨hshort (by decide), by decide⟩] at heq
    exact heq

open Total Normalize in
/-- **An odd amount is broken.**  The least whole amount that is not its own total has only 49 bits.
The amount below the largest integer becomes the largest one, and text of 54 bits is rounded. -/
theorem odd_amount_broken :
    Asks (amounts 360287970189641 0) 360287970189641 0 ∧
    ((Total.run (amounts 360287970189641 0)).value.get? totalField).bind Value.int? = none ∧
    ((Total.run (amounts 360287970189641 0)).value.get? totalField).bind Value.number? =
      some (.finite false 5764607523034255 (-4) (by decide)) ∧
    ((Total.run (amounts 9223372036854775806 0)).value.get? totalField).bind Value.int? =
      some 9223372036854775807 ∧
    (normalizeNumber (.string "9007199254740993")).toOption.bind Value.int? =
      some 9007199254740992 :=
  ⟨asks_amounts _ _, by decide +kernel, by decide +kernel, by decide +kernel, by decide +kernel⟩

end DocumentRules
