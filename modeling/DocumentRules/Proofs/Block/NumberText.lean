/-
Number text.

A text is read as a number in three steps: other characters than digits, marks and minus signs are
passed over, the decimal mark is found and the other one dropped, and what is left is read.  It is
read if it has the form of a `NumberText`, whichever its mark.

* `Normalize.NumberText` — digits with at most one mark, perhaps behind a minus sign;
* `Normalize.Spells` — what is left of a text has this form;
* **`Normalize.read?_eq_some_iff`** — such a form is read, as the nearest number, and no other;
* **`number_text_rule`** — so exactly number text is normalized, and any other text makes the rule
  fail without changing the document.
-/
import DocumentRules.Proofs.Block.DecimalMark
import DocumentRules.Proofs.Document.Respelling
import DocumentRules.Proofs.Number.Nearest
import DocumentRules.Proofs.Number.Numeral
import DocumentRules.Proofs.Run.Abort

namespace DocumentRules

namespace Normalize

open Binary64 (Nearest signed)

variable {k : Mark} {cs rest text : List Char} {s : String}

/-! ### Number text -/

/-- Digits with at most one mark among or beside them, perhaps behind a minus sign. -/
structure NumberText where
  negative : Bool
  whole : List Char
  /-- The digits behind the mark, if there is one. -/
  fraction : Option (List Char)
  isDigit_of_mem_whole : ∀ c ∈ whole, c.isDigit = true
  isDigit_of_mem_fraction : ∀ c ∈ fraction.getD [], c.isDigit = true
  exists_digit : whole ++ fraction.getD [] ≠ []

namespace NumberText

def unsignedChars (mark : Char) (n : NumberText) : List Char :=
  n.whole ++ n.fraction.elim [] (mark :: ·)

def chars (mark : Char) (n : NumberText) : List Char :=
  (if n.negative then ['-'] else []) ++ n.unsignedChars mark

/-- The number that the digits denote. -/
def value (n : NumberText) : ℚ :=
  signed n.negative
    (Numeral.natValue n.whole +
      Numeral.natValue (n.fraction.getD []) / 10 ^ (n.fraction.getD []).length)

/-- The digits, and the place of the mark. -/
def decimal (n : NumberText) : Decimal :=
  ⟨Numeral.natValue (n.whole ++ n.fraction.getD []), -(n.fraction.getD []).length⟩

theorem signed_decimal (n : NumberText) : signed n.negative n.decimal.toRat = n.value := by
  refine congrArg (signed n.negative) ?_
  rw [decimal, Decimal.toRat, Numeral.natValue_append, zpow_neg, zpow_natCast]
  push_cast
  field_simp

theorem isDigit_of_fraction {n : NumberText} {ds : List Char} (hn : n.fraction = some ds) :
    ∀ c ∈ ds, c.isDigit = true := by
  have hds := n.isDigit_of_mem_fraction
  rwa [hn, Option.getD_some] at hds

theorem not_mem_of_isDigit {ds : List Char} (hds : ∀ c ∈ ds, c.isDigit = true) {m : Char}
    (hm : m.isDigit = false) : m ∉ ds := by
  intro hmem
  rw [hds m hmem] at hm
  cases hm

/-- Another mark in the place of the first. -/
theorem map_replace_chars {m : Char} (hm : m.isDigit = false) (hminus : m ≠ '-') (m' : Char)
    (n : NumberText) : (n.chars m).map (replace m m') = n.chars m' := by
  have hdigits {ds : List Char} (hds : ∀ c ∈ ds, c.isDigit = true) :
      ds.map (replace m m') = ds := map_replace_of_not_mem (not_mem_of_isDigit hds hm) m'
  have hsign : (if n.negative then ['-'] else []).map (replace m m') =
      if n.negative then ['-'] else [] := by
    split
    · rw [List.map_singleton, replace_of_ne hminus.symm]
    · rfl
  have hfraction : (n.fraction.elim [] (m :: ·)).map (replace m m') =
      n.fraction.elim [] (m' :: ·) := by
    cases hn : n.fraction with
    | none => rfl
    | some ds =>
      rw [Option.elim_some, Option.elim_some, List.map_cons, replace_self,
        hdigits (isDigit_of_fraction hn)]
  rw [chars, unsignedChars, List.map_append, List.map_append, hsign,
    hdigits n.isDigit_of_mem_whole, hfraction]
  rfl

/-- There is at most one minus sign. -/
theorem count_minus_le {mark : Char} (hmark : mark ≠ '-') (n : NumberText) :
    (n.chars mark).count '-' ≤ 1 := by
  have hdigits {ds : List Char} (hds : ∀ c ∈ ds, c.isDigit = true) : ds.count '-' = 0 :=
    List.count_eq_zero.mpr (not_mem_of_isDigit hds rfl)
  have hfraction : (n.fraction.elim [] (mark :: ·)).count '-' = 0 := by
    cases hn : n.fraction with
    | none => rfl
    | some ds => rw [Option.elim_some, List.count_cons_of_ne hmark, hdigits (isDigit_of_fraction hn)]
  rw [chars, unsignedChars, List.count_append, List.count_append,
    hdigits n.isDigit_of_mem_whole, hfraction]
  split <;> simp

/-- Digits with a point are read as what they denote. -/
theorem readMagnitude?_unsignedChars (n : NumberText) :
    Numeral.readMagnitude? (n.unsignedChars '.') = some n.decimal := by
  obtain ⟨negative, whole, fraction, hwhole, hfraction, hdigit⟩ := n
  cases fraction with
  | none =>
    obtain ⟨htake, hdrop⟩ := Numeral.span_digits (b := []) hwhole (by simp)
    simp only [Option.getD_none, List.append_nil] at htake hdrop hdigit
    simp [Numeral.readMagnitude?, unsignedChars, decimal, htake, hdrop, hdigit]
  | some ds =>
    obtain ⟨htake, hdrop⟩ := Numeral.span_digits (b := '.' :: ds) hwhole (by simp)
    obtain ⟨htake', hdrop'⟩ := Numeral.span_digits (b := []) hfraction (by simp)
    simp only [Option.getD_some, List.append_nil] at htake' hdrop' hdigit
    have hempty : ¬ (whole.isEmpty = true ∧ ds.isEmpty = true) := by
      rw [List.isEmpty_iff, List.isEmpty_iff, ← List.append_eq_nil_iff]
      exact hdigit
    simp [Numeral.readMagnitude?, unsignedChars, decimal, htake, hdrop, htake', hdrop', hempty,
      -List.isEmpty_iff]

end NumberText

/-- The characters of number text with a point for the mark. -/
def IsPlainChar (c : Char) : Prop := c.isDigit = true ∨ c = '.' ∨ c = '-'

/-- What is read without an exponent are digits with at most one point. -/
theorem exists_of_readMagnitude? {d : Decimal} (hplain : ∀ c ∈ text, IsPlainChar c)
    (h : Numeral.readMagnitude? text = some d) (negative : Bool) :
    ∃ n : NumberText, n.negative = negative ∧ n.unsignedChars '.' = text := by
  have htext : text.takeWhile Char.isDigit ++ text.dropWhile Char.isDigit = text :=
    List.takeWhile_append_dropWhile
  have hwhole : ∀ c ∈ text.takeWhile Char.isDigit, c.isDigit = true :=
    fun _ => List.mem_takeWhile_imp
  have hexponent {c : Char} (hc : c ∈ text) : ¬ (c = 'e' ∨ c = 'E') := by
    rintro (rfl | rfl)
    · exact absurd (hplain _ hc) (by unfold IsPlainChar; decide)
    · exact absurd (hplain _ hc) (by unfold IsPlainChar; decide)
  unfold Numeral.readMagnitude? at h
  generalize text.takeWhile Char.isDigit = whole at *
  generalize text.dropWhile Char.isDigit = rest at *
  subst htext
  cases rest with
  | nil =>
    have hne : whole ≠ [] := by
      rintro rfl
      simp at h
    exact ⟨⟨negative, whole, none, hwhole, by simp, by simpa using hne⟩, rfl, rfl⟩
  | cons c r =>
    by_cases hc : c = '.'
    · subst hc
      have hr : r.takeWhile Char.isDigit ++ r.dropWhile Char.isDigit = r :=
        List.takeWhile_append_dropWhile
      have hfraction : ∀ c ∈ r.takeWhile Char.isDigit, c.isDigit = true :=
        fun _ => List.mem_takeWhile_imp
      simp only at h
      generalize r.takeWhile Char.isDigit = fraction at *
      generalize r.dropWhile Char.isDigit = tail at *
      subst hr
      split at h
      · cases h
      · rename_i hne
        rw [Bool.and_eq_true, List.isEmpty_iff, List.isEmpty_iff, ← List.append_eq_nil_iff] at hne
        cases tail with
        | nil =>
          refine ⟨⟨negative, whole, some fraction, hwhole, hfraction, hne⟩, rfl, ?_⟩
          rw [List.append_nil]
          rfl
        | cons e r =>
          simp only at h
          rw [if_neg (hexponent (by simp))] at h
          cases h
    · -- Another character must begin an exponent.
      simp only at h
      split at h
      · rename_i hpoint
        cases hpoint
        exact absurd rfl hc
      · simp only at h
        rw [if_neg (hexponent (by simp)), ite_self] at h
        cases h

theorem toLower_of_isPlainChar {c : Char} (h : IsPlainChar c) : c.toLower = c := by
  have hle : c.toNat ≤ 57 := by
    rcases h with h | rfl | rfl
    · exact (Numeral.isDigit_iff.mp h).2
    · decide
    · decide
  refine dif_neg fun hupper => ?_
  have hge := UInt32.le_iff_toNat_le.mp hupper.1
  simp only [Char.toNat_val, Char.reduceToNat] at hge
  omega

/-- No words are read in such characters. -/
theorem readUnsigned?_eq (hplain : ∀ c ∈ text, IsPlainChar c) (negative : Bool) :
    Numeral.readUnsigned? negative text =
      (Numeral.readMagnitude? text).map (Numeral.nearest negative) := by
  have hlower : text.map Char.toLower = text :=
    (List.map_congr_left fun c hc => toLower_of_isPlainChar (hplain c hc)).trans (List.map_id' text)
  -- There is an `n` in each of the words.
  have hword {word : List Char} (hn : 'n' ∈ word) : text ≠ word := by
    rintro rfl
    have hplain := hplain _ hn
    revert hplain
    unfold IsPlainChar
    decide
  rw [Numeral.readUnsigned?, hlower]
  rw [if_neg (not_or.mpr ⟨hword (by decide), hword (by decide)⟩), if_neg (hword (by decide))]

theorem unsignedChars_ne (n : NumberText) {c : Char} (hc : ¬ (c.isDigit = true ∨ c = '.'))
    (rest : List Char) : n.unsignedChars '.' ≠ c :: rest := by
  intro heq
  obtain ⟨negative, whole, fraction, hwhole, hfraction, hdigit⟩ := n
  cases whole with
  | nil =>
    cases fraction with
    | none => cases heq
    | some ds =>
      cases heq
      exact hc (Or.inr rfl)
  | cons d ds =>
    cases heq
    exact hc (Or.inl (hwhole c (List.mem_cons_self ..)))

/-- The sign is read first. -/
theorem read?_chars (n : NumberText) :
    Numeral.read? (n.chars '.') = Numeral.readUnsigned? n.negative (n.unsignedChars '.') := by
  unfold NumberText.chars
  cases n.negative with
  | true => rfl
  | false =>
    rw [if_neg Bool.false_ne_true, List.nil_append]
    unfold Numeral.read?
    split
    · rename_i heq
      exact absurd heq (unsignedChars_ne n (by decide) _)
    · rename_i heq
      exact absurd heq (unsignedChars_ne n (by decide) _)
    · rfl

/-- **What is left is read if it is number text**, as the nearest number. -/
theorem read?_eq_some_iff {x : Binary64} (hplain : ∀ c ∈ text, IsPlainChar c) :
    Numeral.read? text = some x ↔
      ∃ n : NumberText, n.chars '.' = text ∧ x = n.decimal.rounded n.negative := by
  constructor
  · intro h
    -- The sign is the first character, or there is none.
    obtain ⟨negative, rest, rfl, hread⟩ : ∃ negative rest,
        text = (if negative then ['-'] else []) ++ rest ∧
          Numeral.readUnsigned? negative rest = some x := by
      unfold Numeral.read? at h
      split at h
      · exact ⟨true, _, rfl, h⟩
      · exact absurd (hplain '+' (List.mem_cons_self ..)) (by unfold IsPlainChar; decide)
      · exact ⟨false, _, rfl, h⟩
    have hrest : ∀ c ∈ rest, IsPlainChar c := fun c hc => hplain c (List.mem_append_right _ hc)
    rw [readUnsigned?_eq hrest, Option.map_eq_some_iff] at hread
    obtain ⟨d, hd, rfl⟩ := hread
    obtain ⟨n, rfl, rfl⟩ := exists_of_readMagnitude? hrest hd negative
    rw [n.readMagnitude?_unsignedChars, Option.some.injEq] at hd
    exact ⟨n, rfl, by rw [Numeral.nearest_eq, hd]⟩
  · rintro ⟨n, rfl, rfl⟩
    have hrest : ∀ c ∈ n.unsignedChars '.', IsPlainChar c := fun c hc =>
      hplain c (List.mem_append_right _ hc)
    rw [read?_chars, readUnsigned?_eq hrest, n.readMagnitude?_unsignedChars, Option.map_some,
      Numeral.nearest_eq]

/-! ### Normalizing -/

/-- The text spells a number: with its decimal mark, that is what is left of it. -/
def Spells (s : String) (n : NumberText) : Prop :=
  ∃ k : Mark, Separated (kept s) k (n.chars k.char)

/-- A text with two minus signs spells no number. -/
theorem Spells.count_minus_le {n : NumberText} (h : Spells s n) : s.toList.count '-' ≤ 1 := by
  obtain ⟨k, hseparated⟩ := h
  have hkept : (kept s).count '-' = s.toList.count '-' := List.count_filter (by decide)
  rw [← hkept, ← hseparated.count_minus]
  exact n.count_minus_le (by cases k <;> decide)

theorem isPlainChar_of_mem (h : Separated (kept s) k rest) :
    ∀ c ∈ rest.map (replace k.char '.'), IsPlainChar c := by
  intro c hc
  obtain ⟨c, hmem, rfl⟩ := List.mem_map.mp hc
  by_cases hmark : c = k.char
  · rw [hmark, replace_self]
    exact Or.inr (Or.inl rfl)
  · have hother : c ≠ k.other.char := fun heq => h.not_mem (heq ▸ hmem)
    have hkept := (List.mem_filter.mp (h.mem hmem)).2
    rw [replace_of_ne hmark]
    unfold IsPlainChar
    cases k <;> simp_all [isNumberChar, Mark.char, Mark.other]

/-- What is left is number text with either mark. -/
theorem chars_eq_iff (h : Separated cs k rest) {n : NumberText} :
    n.chars '.' = rest.map (replace k.char '.') ↔ n.chars k.char = rest := by
  have hmark : k.char.isDigit = false ∧ k.char ≠ '-' := by cases k <;> decide
  constructor
  · intro heq
    rw [← h.map_replace_replace, ← heq, n.map_replace_chars (by decide) (by decide)]
  · rintro rfl
    exact (n.map_replace_chars hmark.1 hmark.2 '.').symm

theorem read?_plainNumber (h : Separated (kept s) k rest) {x : Binary64} :
    Numeral.read? (plainNumber s.toList) = some x ↔
      ∃ n : NumberText, n.chars k.char = rest ∧ x = n.decimal.rounded n.negative := by
  rw [plainNumber_eq h, read?_eq_some_iff (isPlainChar_of_mem h)]
  simp only [chars_eq_iff h]

/-- The number that is read is the nearest one. -/
theorem nearest_rounded (n : NumberText) : Nearest n.value (n.decimal.rounded n.negative) := by
  rw [← n.signed_decimal, ← Decimal.quotient_value]
  exact Binary64.nearest_ofQuotient _ _ (Decimal.quotient_pos _)

/-- The failure to read a text as a number. -/
def notNumber (s : String) : Failure := ⟨"'" ++ s ++ "' is not a number"⟩

/-- **Number text is normalized** to the nearest number, as an integer if it is one in range. -/
theorem normalizeNumber_of_spells {n : NumberText} (h : Spells s n) :
    ∃ x w, Nearest n.value x ∧ (Value.float x).Respelled w ∧
      normalizeNumber (.string s) = .ok w := by
  obtain ⟨k, hseparated⟩ := h
  have hread := (read?_plainNumber hseparated).mpr ⟨n, rfl, rfl⟩
  refine ⟨_, _, nearest_rounded n, Value.respelled_iff.mpr rfl, ?_⟩
  rw [normalizeNumber, hread]
  rfl

/-- **No other text is.** -/
theorem normalizeNumber_of_not_spells (h : ∀ n, ¬ Spells s n) :
    normalizeNumber (.string s) = .error (notNumber s) := by
  obtain ⟨k, rest, hseparated⟩ := exists_separated (kept s)
  have hread : Numeral.read? (plainNumber s.toList) = none := by
    rw [Option.eq_none_iff_forall_ne_some]
    intro x hx
    obtain ⟨n, rfl, -⟩ := (read?_plainNumber hseparated).mp hx
    exact h n ⟨k, hseparated⟩
  rw [normalizeNumber, hread]
  rfl

end Normalize

/-! ### The rule -/

section Effect

variable {field : Path} {kind : NormalKind} {d e : Document} {v : Value} {failure : Failure}
  {steps back : List (Block × Option Regex)}

/-- A normalizing block sets its field to what it makes of the value there. -/
theorem Block.effect_normalize_of_ok {w : Document} (hv : d.value.get? field = some v)
    (hw : kind.apply v = .ok w.value) (regex : Option Regex) :
    (Block.normalize field kind).effect regex d = .ok (some ⟨field, w⟩) := by
  simp only [Block.effect]
  split
  · rename_i hnone
    rw [hv] at hnone
    cases hnone
  · rename_i v' hv'
    obtain rfl : v = v' := Option.some.inj (hv.symm.trans hv')
    split
    · rename_i w' hw'
      obtain rfl : w.value = w' := Except.ok.inj (hw.symm.trans hw')
      rfl
    · rename_i f hf
      rw [hw] at hf
      cases hf

theorem Block.effect_normalize_of_error (hv : d.value.get? field = some v)
    (hf : kind.apply v = .error failure) (regex : Option Regex) :
    (Block.normalize field kind).effect regex d = .error failure := by
  simp only [Block.effect]
  split
  · rename_i hnone
    rw [hv] at hnone
    cases hnone
  · rename_i v' hv'
    obtain rfl : v = v' := Option.some.inj (hv.symm.trans hv')
    split
    · rename_i w hw
      rw [hf] at hw
      cases hw
    · rename_i f hf'
      obtain rfl : failure = f := Except.error.inj (hf.symm.trans hf')
      rfl

namespace BlockRule

/-- The blocks behind go on with what the ones in front have left. -/
theorem runSteps_append_of_ok {front : List (Block × Option Regex)} (h : runSteps front d = .ok e)
    (back : List (Block × Option Regex)) : runSteps (front ++ back) d = runSteps back e := by
  induction front generalizing d with
  | nil =>
    cases h
    rfl
  | cons step front ih =>
    obtain ⟨b, regex⟩ := step
    rw [runSteps] at h
    rw [List.cons_append, runSteps]
    cases heffect : b.effect regex d with
    | error _ =>
      rw [heffect] at h
      cases h
    | ok a =>
      rw [heffect] at h
      cases a with
      | none => exact ih h
      | some a => exact ih h

end BlockRule

end Effect

open Normalize in
/-- **Number text is normalized, and nothing else.**  A text that spells a number is normalized to
the nearest number, as an integer if it is one in range, and a rule with a block that normalizes it
goes on with the number in the place of the text.  Any other text makes the rule fail, and the
other rules of a run see the document that the rule saw, whatever its blocks in front have done. -/
theorem number_text_rule :
    (∀ s n, Spells s n → ∃ x w, Binary64.Nearest n.value x ∧ (Value.float x).Respelled w ∧
      normalizeNumber (.string s) = .ok w) ∧
    (∀ s, (∀ n, ¬ Spells s n) → normalizeNumber (.string s) = .error (notNumber s)) ∧
    ∀ (front back : List (Block × Option Regex)) (field : Path) (regex : Option Regex)
        (d e : Document) (s : String),
      BlockRule.runSteps front d = .ok e → e.value.get? field = some (.string s) →
      (∀ w : Document, normalizeNumber (.string s) = .ok w.value →
        BlockRule.run ⟨front ++ (.normalize field .number, regex) :: back⟩ d =
          BlockRule.runSteps back (e.set field w)) ∧
      ((∀ n, ¬ Spells s n) →
        BlockRule.run ⟨front ++ (.normalize field .number, regex) :: back⟩ d =
          .error (notNumber s) ∧
        ∀ (m : Type → Type) [Monad m] [LawfulMonad m] (r : Rule m) (rs : List (Rule m)),
          r.body = .ofBlocks ⟨front ++ (.normalize field .number, regex) :: back⟩ →
          trace (r :: rs) d =
            (·.map (⟨r, d, .failed (notNumber s)⟩ :: ·)) <$> trace rs d) := by
  refine ⟨fun s n h => normalizeNumber_of_spells h, fun s h => normalizeNumber_of_not_spells h, ?_⟩
  intro front back field regex d e s hfront hv
  refine ⟨fun w hw => ?_, fun h => ?_⟩
  · have happly : NormalKind.number.apply (.string s) = .ok w.value := hw
    rw [BlockRule.run, BlockRule.runSteps_append_of_ok hfront, BlockRule.runSteps,
      Block.effect_normalize_of_ok hv happly]
    rfl
  · have happly : NormalKind.number.apply (.string s) = .error (notNumber s) :=
      normalizeNumber_of_not_spells h
    have hrun : BlockRule.run ⟨front ++ (.normalize field .number, regex) :: back⟩ d =
        .error (notNumber s) := by
      rw [BlockRule.run, BlockRule.runSteps_append_of_ok hfront, BlockRule.runSteps,
        Block.effect_normalize_of_error hv happly]
    refine ⟨hrun, fun m _ _ r rs hbody => trace_cons_of_error ?_ rs⟩
    rw [hbody, ← hrun]
    rfl

/-! ### Prices -/

namespace Price

open Normalize

/-- What the text `€ 1.234,50` spells. -/
def number : NumberText where
  negative := false
  whole := ['1', '2', '3', '4']
  fraction := some ['5', '0']
  isDigit_of_mem_whole := List.all_eq_true.mp rfl
  isDigit_of_mem_fraction := List.all_eq_true.mp rfl
  exists_digit := List.cons_ne_nil _ _

theorem spells : Spells "€ 1.234,50" number := by
  have hkept : kept "€ 1.234,50" = ['1', '.', '2', '3', '4'] ++ ',' :: ['5', '0'] := by decide
  refine ⟨.comma, .both hkept (by decide) ?_⟩
  rintro (_ | _) <;> decide

theorem value_number : number.value = 2469 / 2 := by
  have hwhole : Numeral.natValue ['1', '2', '3', '4'] = 1234 := by decide
  have hfraction : Numeral.natValue ['5', '0'] = 50 := by decide
  simp only [NumberText.value, number, Binary64.signed, Option.getD_some, hwhole, hfraction]
  norm_num

/-- A block that changes another field, and one that finds a minus sign between digits. -/
def blocks : BlockRule :=
  ⟨[(.trim [.key "a"], none), (.normalize [.key "n"] .number, none)]⟩

def document : Document :=
  (Document.emptyMap.setScalar [.key "a"] (.string " x")).setScalar [.key "n"] (.string "12-5")

def rule (hash : String) : Rule Id where
  id := "r"
  name := "r"
  version := defaultVersion
  builtIn := false
  enabled := true
  body := .ofBlocks blocks
  reads := blocks.reads
  writes := blocks.writes
  description := none
  updatedAt := none
  codeHash := hash

end Price

open Normalize Price in
theorem number_text_rule_price :
    (∃ x w, Binary64.Nearest (2469 / 2) x ∧ (Value.float x).Respelled w ∧
      normalizeNumber (.string "€ 1.234,50") = .ok w) ∧
    (∀ n, ¬ Spells "12-5" n) ∧ blocks.run document = .error (notNumber "12-5") ∧
    ∀ hash, (trace [rule hash] document).run =
      .ok [⟨rule hash, document, .failed (notNumber "12-5")⟩] := by
  obtain ⟨hnumber, -, hrule⟩ := number_text_rule
  have hnot : ∀ n, ¬ Spells "12-5" n := by
    intro n h
    obtain ⟨x, w, -, -, hw⟩ := hnumber _ n h
    have hfails : normalizeNumber (.string "12-5") = .error (notNumber "12-5") := by rfl
    rw [hfails] at hw
    cases hw
  obtain ⟨e, hfront, hv⟩ : ∃ e, BlockRule.runSteps [(.trim [.key "a"], none)] document = .ok e ∧
      e.value.get? [.key "n"] = some (.string "12-5") := ⟨_, rfl, rfl⟩
  obtain ⟨hrun, htrace⟩ := (hrule _ [] _ none document e _ hfront hv).2 hnot
  refine ⟨?_, hnot, hrun, fun hash => ?_⟩
  · rw [← value_number]
    exact hnumber _ _ spells
  · have hturns := htrace Id (rule hash) [] rfl
    exact congrArg Id.run hturns

end DocumentRules
