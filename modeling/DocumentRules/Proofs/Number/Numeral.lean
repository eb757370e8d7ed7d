/-
Laid out decimals are read.

However a decimal is laid out, what is written are digits with a point and perhaps an exponent
(a `Spelling`), and they denote the value of the decimal.

* **`Numeral.Spelling.readMagnitude?_chars`** — a spelling is read as what it denotes;
* **`Numeral.exists_spelling_layOut`** — a decimal is laid out as a spelling of its value;
* **`Numeral.exists_spelling_write`** — a number is the nearest one to what is written of it.
-/
import DocumentRules.Proofs.Number.Digits
import DocumentRules.Proofs.Number.Shortest

namespace DocumentRules.Numeral

open Binary64 (Canonical)

/-- What two runs of digits denote, one behind the other. -/
theorem natValue_append (a b : List Char) :
    natValue (a ++ b) = 10 ^ b.length * natValue a + natValue b :=
  (Nat.ofDigitChars_append 0).trans Nat.ofDigitChars_eq_ofDigitChars_zero

theorem natValue_zeros (k : Nat) : natValue (List.replicate k '0') = 0 :=
  Nat.ofDigitChars_replicate_zero

/-! ### Spellings -/

/-- Digits before and behind a point, and perhaps an exponent. -/
structure Spelling where
  whole : List Char
  fraction : List Char
  exponent : Option ℤ
  whole_ne_nil : whole ≠ []
  isDigit_of_mem_whole : ∀ c ∈ whole, c.isDigit = true
  isDigit_of_mem_fraction : ∀ c ∈ fraction, c.isDigit = true

namespace Spelling

/-- A point stands in front of digits only. -/
def pointChars : List Char → List Char
  | [] => []
  | fraction => '.' :: fraction

theorem pointChars_eq (fraction : List Char) :
    pointChars fraction = if fraction.isEmpty then [] else '.' :: fraction := by
  cases fraction <;> rfl

theorem pointChars_of_ne_nil {fraction : List Char} (h : fraction ≠ []) :
    pointChars fraction = '.' :: fraction := by
  rw [pointChars_eq, List.isEmpty_eq_false_iff.mpr h]
  rfl

def exponentChars : Option ℤ → List Char
  | none => []
  | some x => 'e' :: (if x < 0 then '-' else '+') :: digits x.natAbs

def chars (p : Spelling) : List Char :=
  p.whole ++ (pointChars p.fraction ++ exponentChars p.exponent)

/-- What the digits denote. -/
def decimal (p : Spelling) : Decimal :=
  ⟨natValue (p.whole ++ p.fraction), p.exponent.getD 0 - p.fraction.length⟩

theorem isDigit_head_exponentChars (x : Option ℤ) :
    ∀ c ∈ (exponentChars x).head?, c.isDigit = false := by
  cases x with
  | none => exact fun c hc => absurd hc (by simp [exponentChars])
  | some x =>
    rintro c ⟨⟩
    rfl

theorem isDigit_head_rest (fraction : List Char) (x : Option ℤ) :
    ∀ c ∈ (pointChars fraction ++ exponentChars x).head?, c.isDigit = false := by
  cases fraction with
  | nil => exact isDigit_head_exponentChars x
  | cons d fraction =>
    rintro c ⟨⟩
    rfl

theorem readExponent?_signed (x : ℤ) :
    readExponent? ((if x < 0 then '-' else '+') :: digits x.natAbs) = some x := by
  have hdigits : (digits x.natAbs).all Char.isDigit = true :=
    List.all_eq_true.mpr fun _ => isDigit_of_mem_digits
  have hne : (digits x.natAbs).isEmpty = false :=
    List.isEmpty_eq_false_iff.mpr Nat.toDigits_ne_nil
  split
  · rename_i hneg
    show (if _ || !_ then none else some (-(natValue (digits x.natAbs) : ℤ))) = some x
    rw [hne, hdigits, natValue_digits]
    exact congrArg some (by omega)
  · rename_i hneg
    show (if _ || !_ then none else some (natValue (digits x.natAbs) : ℤ)) = some x
    rw [hne, hdigits, natValue_digits]
    exact congrArg some (by omega)

/-- **A spelling is read as what it denotes.** -/
theorem readMagnitude?_chars (p : Spelling) : readMagnitude? p.chars = some p.decimal := by
  obtain ⟨whole, fraction, x, hne, hwhole, hfraction⟩ := p
  have hnotempty : whole.isEmpty = false := List.isEmpty_eq_false_iff.mpr hne
  obtain ⟨htake, hdrop⟩ := span_digits hwhole (isDigit_head_rest fraction x)
  obtain ⟨htake', hdrop'⟩ := span_digits hfraction (isDigit_head_exponentChars x)
  simp only [readMagnitude?, chars, htake, hdrop, decimal]
  cases fraction with
  | nil =>
    cases x with
    | none => simp [pointChars, exponentChars, hnotempty]
    | some x => simp [pointChars, exponentChars, hnotempty, readExponent?_signed]
  | cons d fraction =>
    have hpoint : pointChars (d :: fraction) ++ exponentChars x =
        '.' :: (d :: fraction ++ exponentChars x) := rfl
    simp only [hpoint, htake', hdrop']
    cases x with
    | none => simp [exponentChars, hnotempty]
    | some x => simp [exponentChars, hnotempty, readExponent?_signed]

/-- The spelling follows the grammar of numbers, and it is not that of an integer. -/
structure IsReal (p : Spelling) : Prop where
  /-- No superfluous zero stands in front. -/
  leading : p.whole = ['0'] ∨ p.whole.head? ≠ some '0'
  /-- There is a point or an exponent. -/
  marked : p.fraction ≠ [] ∨ p.exponent ≠ none

/-- The text spells the value of the decimal. -/
structure IsOf (p : Spelling) (text : List Char) (d : Decimal) : Prop extends p.IsReal where
  chars_eq : p.chars = text
  toRat_eq : p.decimal.toRat = d.toRat

end Spelling

/-! ### Layouts -/

variable {n : ℕ} {e : ℤ}

theorem isDigit_of_mem_zeros {k : ℕ} {c : Char} (h : c ∈ List.replicate k '0') :
    c.isDigit = true := by
  rw [List.eq_of_mem_replicate h]
  rfl

theorem head?_take_digits {count : ℕ} (hn : n ≠ 0) (hcount : count ≠ 0) :
    ((digits n).take count).head? ≠ some '0' := by
  rw [List.head?_take, if_neg hcount]
  exact head?_digits_ne_zero hn

theorem exists_spelling_placePoint (hn : n ≠ 0) :
    ∃ p : Spelling, p.IsOf (placePoint true (digits n) ((digits n).length + e)) ⟨n, e⟩ := by
  have hne := digits_ne_nil n
  unfold placePoint
  split
  · -- All digits stand behind the point, and perhaps zeros in front of them.
    rename_i hcount
    have hfraction : List.replicate (-((digits n).length + e)).toNat '0' ++ digits n ≠ [] :=
      List.append_ne_nil_of_right_ne_nil _ hne
    refine ⟨⟨['0'], _, none, List.cons_ne_nil _ _, List.forall_mem_singleton.mpr rfl, ?_⟩,
      ⟨.inl rfl, .inl hfraction⟩, ?_, ?_⟩
    · exact List.forall_mem_append.mpr
        ⟨fun _ => isDigit_of_mem_zeros, fun _ => isDigit_of_mem_digits⟩
    · rw [Spelling.chars, Spelling.pointChars_of_ne_nil hfraction]
      simp [Spelling.exponentChars]
    · have hvalue : natValue ['0'] = 0 := rfl
      refine congrArg Decimal.toRat (Decimal.mk.injEq .. |>.mpr ⟨?_, ?_⟩)
      · rw [natValue_append, natValue_append, hvalue, natValue_zeros, natValue_digits]
        omega
      · rw [List.length_append, List.length_replicate, Option.getD_none]
        omega
  rename_i hcount
  split
  · -- All digits stand in front of the point, and perhaps zeros behind them.
    rename_i hlength
    refine ⟨⟨digits n ++ List.replicate (((digits n).length + e).toNat - (digits n).length) '0',
      ['0'], none, List.append_ne_nil_of_left_ne_nil hne _, ?_, List.forall_mem_singleton.mpr rfl⟩,
      ⟨.inr ?_, .inl (List.cons_ne_nil _ _)⟩, ?_, ?_⟩
    · exact List.forall_mem_append.mpr
        ⟨fun _ => isDigit_of_mem_digits, fun _ => isDigit_of_mem_zeros⟩
    · rw [List.head?_append_of_ne_nil _ hne]
      exact head?_digits_ne_zero hn
    · simp [Spelling.chars, Spelling.pointChars, Spelling.exponentChars]
    · have hvalue : natValue ['0'] = 0 := rfl
      obtain ⟨k, rfl⟩ : ∃ k : ℕ, e = k := ⟨e.toNat, by omega⟩
      have hzeros : ((digits n).length + (k : ℤ)).toNat - (digits n).length = k := by omega
      simp only [Spelling.decimal, Decimal.toRat, hzeros, natValue_append, hvalue, natValue_zeros,
        natValue_digits, List.length_replicate, List.length_singleton, Option.getD_none]
      rw [zpow_natCast, show (0 - ((1 : ℕ) : ℤ)) = -1 from rfl, zpow_neg_one]
      push_cast
      ring
  · -- The point stands between two digits.
    rename_i hlength
    have hfraction : (digits n).drop ((digits n).length + e).toNat ≠ [] := by
      rw [Ne, List.drop_eq_nil_iff]
      omega
    refine ⟨⟨(digits n).take ((digits n).length + e).toNat, _, none, ?_,
      fun _ hc => isDigit_of_mem_digits (List.mem_of_mem_take hc),
      fun _ hc => isDigit_of_mem_digits (List.mem_of_mem_drop hc)⟩,
      ⟨.inr ?_, .inl hfraction⟩, ?_, ?_⟩
    · rw [Ne, List.take_eq_nil_iff]
      exact not_or.mpr ⟨by omega, hne⟩
    · exact head?_take_digits hn (by omega)
    · simp [Spelling.chars, Spelling.pointChars_of_ne_nil hfraction, Spelling.exponentChars]
    · refine congrArg Decimal.toRat (Decimal.mk.injEq .. |>.mpr ⟨?_, ?_⟩)
      · rw [List.take_append_drop, natValue_digits]
      · rw [List.length_drop, Option.getD_none]
        omega

theorem exists_spelling_scientific (hn : n ≠ 0) :
    ∃ p : Spelling, p.IsOf (scientific (digits n) ((digits n).length + e - 1)) ⟨n, e⟩ := by
  have hne := digits_ne_nil n
  have hlength : 0 < (digits n).length := List.length_pos_iff.mpr hne
  refine ⟨⟨(digits n).take 1, (digits n).drop 1, some ((digits n).length + e - 1), ?_,
    fun _ hc => isDigit_of_mem_digits (List.mem_of_mem_take hc),
    fun _ hc => isDigit_of_mem_digits (List.mem_of_mem_drop hc)⟩,
    ⟨.inr ?_, .inr (Option.some_ne_none _)⟩, ?_, ?_⟩
  · rw [Ne, List.take_eq_nil_iff]
    exact not_or.mpr ⟨by omega, hne⟩
  · exact head?_take_digits hn one_ne_zero
  · simp only [Spelling.chars, Spelling.pointChars_eq, Spelling.exponentChars, scientific]
    split <;> split <;> simp
  · refine congrArg Decimal.toRat (Decimal.mk.injEq .. |>.mpr ⟨?_, ?_⟩)
    · rw [List.take_append_drop, natValue_digits]
    · rw [List.length_drop, Option.getD_some]
      omega

/-- **A decimal is laid out as a spelling of its value.** -/
theorem exists_spelling_layOut {style : Style} {d : Decimal}
    (hstyle : style.pointZero = true) (hd : d.digits ≠ 0) : ∃ p : Spelling, p.IsOf (layOut style d) d := by
  have hplaced : ((digits d.digits).length + d.exponent - 1 + 1 : ℤ) =
    (digits d.digits).length + d.exponent := by omega
  unfold layOut
  simp only [hstyle, hplaced]
  split
  · exact exists_spelling_placePoint hd
  · split
    · exact exists_spelling_placePoint hd
    · exact exists_spelling_scientific hd

/-! ### Written numbers -/

variable {m : ℕ} {q : ℤ}

theorem digits_shortest_ne_zero (tie : Decimal.Tie) (h : Canonical m q) (hm : m ≠ 0) :
    (Decimal.shortest tie m q).digits ≠ 0 := by
  intro hzero
  have hread := Decimal.rounded_shortest tie h false
  rw [Decimal.rounded, Decimal.quotient, hzero, Nat.zero_mul] at hread
  cases hread
  exact hm rfl

/-- **A number is written as a spelling of which it is the nearest number.** -/
theorem exists_spelling_write {style : Style} (hstyle : style.pointZero = true) (s : Bool)
    (h : Canonical m q) : ∃ p : Spelling, p.IsReal ∧
      (write style (.finite s m q h)).toList = (if s then '-' :: p.chars else p.chars) ∧
      nearest s p.decimal = .finite s m q h := by
  rcases eq_or_ne m 0 with rfl | hm
  · obtain rfl : q = -1074 := by
      rcases h with ⟨-, hq⟩ | ⟨hlow, -⟩
      · exact hq
      · exact absurd hlow (by decide)
    refine ⟨⟨['0'], ['0'], none, List.cons_ne_nil _ _, List.forall_mem_singleton.mpr rfl,
      List.forall_mem_singleton.mpr rfl⟩, ⟨.inl rfl, .inl (List.cons_ne_nil _ _)⟩, ?_, rfl⟩
    simp only [write, String.toList_ofList, if_true, hstyle]
    rfl
  · obtain ⟨p, hp⟩ := exists_spelling_layOut hstyle (digits_shortest_ne_zero style.tie h hm)
    refine ⟨p, hp.toIsReal, ?_, ?_⟩
    · simp only [write, String.toList_ofList, if_neg hm, hp.chars_eq]
    · rw [nearest_eq, Decimal.rounded_congr hp.toRat_eq, Decimal.rounded_shortest]

end DocumentRules.Numeral
