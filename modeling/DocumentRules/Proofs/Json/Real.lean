/-
Written floating-point numbers are read back.

A finite number is written with a point or an exponent, so it is not taken for an integer.

* **`spells_real`** — what is written of a number is a number token;
* **`number?_realChars`** — and it stands for the same number.
-/
import DocumentRules.Json.Reader
import DocumentRules.Proofs.Json.Lexed
import DocumentRules.Proofs.Number.Numeral

namespace DocumentRules.Json

open Numeral (Spelling)

variable {p : Spelling} {x : Binary64}

theorem isExponent_exponentChars (x : Option ℤ) :
    isExponent (Spelling.exponentChars x) = true := by
  cases x with
  | none => rfl
  | some x =>
    have hdigits : isDigits (Numeral.digits x.natAbs) = true :=
      isDigits_of (Numeral.digits_ne_nil _) fun _ => Numeral.isDigit_of_mem_digits
    rw [Spelling.exponentChars]
    rcases lt_or_ge x 0 with hx | hx
    · rw [if_pos hx]
      exact hdigits
    · rw [if_neg (not_lt.mpr hx)]
      exact hdigits

/-- A spelling follows the grammar. -/
theorem isMagnitude_chars (hp : p.IsReal) : isMagnitude p.chars = true := by
  obtain ⟨whole, fraction, x, hne, hwhole, hfraction⟩ := p
  obtain ⟨htake, hdrop⟩ := Numeral.span_digits hwhole (Spelling.isDigit_head_rest fraction x)
  obtain ⟨htake', hdrop'⟩ :=
    Numeral.span_digits hfraction (Spelling.isDigit_head_exponentChars x)
  rw [isMagnitude, Spelling.chars, htake, hdrop, isWholePart_of hne hwhole hp.leading,
    Bool.true_and]
  cases fraction with
  | nil =>
    have hexponent := isExponent_exponentChars x
    cases x with
    | none => exact hexponent
    | some x => exact hexponent
  | cons d fraction =>
    show (isDigits ((d :: fraction ++ Spelling.exponentChars x).takeWhile Char.isDigit) &&
      isExponent ((d :: fraction ++ Spelling.exponentChars x).dropWhile Char.isDigit)) = true
    rw [htake', hdrop', isDigits_of (List.cons_ne_nil _ _) hfraction, isExponent_exponentChars]
    rfl

theorem isNumberChar_of_mem_chars : ∀ c ∈ p.chars, isNumberChar c = true := by
  obtain ⟨whole, fraction, x, -, hwhole, hfraction⟩ := p
  simp only [Spelling.chars, List.forall_mem_append]
  refine ⟨fun c hc => isNumberChar_of_isDigit (hwhole c hc), ?_, ?_⟩
  · cases fraction with
    | nil => exact fun c hc => absurd hc List.not_mem_nil
    | cons d fraction =>
      exact List.forall_mem_cons.mpr
        ⟨rfl, fun c hc => isNumberChar_of_isDigit (hfraction c hc)⟩
  · cases x with
    | none => exact fun c hc => absurd hc List.not_mem_nil
    | some x =>
      refine List.forall_mem_cons.mpr ⟨rfl, List.forall_mem_cons.mpr ⟨?_, fun c hc => ?_⟩⟩
      · split <;> rfl
      · exact isNumberChar_of_isDigit (Numeral.isDigit_of_mem_digits hc)

/-- A spelling is not taken for an integer. -/
theorem all_isDigit_chars (hp : p.IsReal) : p.chars.all Char.isDigit = false := by
  obtain ⟨whole, fraction, x, _, _, _⟩ := p
  rcases hp.marked with hfraction | hexponent
  · obtain ⟨d, fraction, rfl⟩ := List.exists_cons_of_ne_nil hfraction
    simp [Spelling.chars, Spelling.pointChars]
  · obtain ⟨x, rfl⟩ := Option.ne_none_iff_exists'.mp hexponent
    simp [Spelling.chars, Spelling.exponentChars]

theorem json_pointZero : Numeral.json.pointZero = true := rfl

/-- **What is written of a finite number is a number token.** -/
theorem spells_real (hx : x.isFinite = true) : Spells (chars (.real x)) [.number (realChars x)] := by
  cases x with
  | finite s m q h =>
    obtain ⟨p, hp, hwrite, -⟩ := Numeral.exists_spelling_write json_pointZero s h
    rw [chars, realChars, hwrite]
    exact spells_signed (isMagnitude_chars hp) isNumberChar_of_mem_chars s
  | nan => cases hx
  | infinity s => cases hx

/-- The sign is read, and then the magnitude. -/
theorem number?_signed {cs : List Char} (h : isMagnitude cs = true) (negative : Bool) :
    number? (if negative then '-' :: cs else cs) = magnitude? negative cs := by
  cases negative with
  | true => rfl
  | false =>
    obtain ⟨c, rest, rfl, hc⟩ := head_isDigit_of_isMagnitude h
    show number? (c :: rest) = _
    unfold number?
    split
    · rename_i heq
      cases heq
      exact absurd hc (by decide)
    · rfl

/-- **What is written of a finite number stands for it.** -/
theorem number?_realChars (hx : x.isFinite = true) : number? (realChars x) = some (.real x) := by
  cases x with
  | finite s m q h =>
    obtain ⟨p, hp, hwrite, hnearest⟩ := Numeral.exists_spelling_write json_pointZero s h
    rw [realChars, hwrite, number?_signed (isMagnitude_chars hp), magnitude?,
      all_isDigit_chars hp, Spelling.readMagnitude?_chars]
    simp only [Bool.false_eq_true, if_false, Option.bind_some, real?, hnearest]
    rfl
  | nan => cases hx
  | infinity s => cases hx

end DocumentRules.Json
