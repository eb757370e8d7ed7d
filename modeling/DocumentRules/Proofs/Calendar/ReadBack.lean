/-
Dates are read back.

The standard form of a date is the first layout in which dates are read, so a date that has been
written is read back as itself, however it was written before.

* **`Date.readNumber?_padded`** — a number that fills its width is read back;
* **`Date.readIn?_chars`** — so a date is read back from its standard form;
* **`Normalize.normalizeDate_text`** — which normalizing leaves as it is.
-/
import DocumentRules.Block.Normalize
import DocumentRules.Proofs.Number.Numeral

namespace DocumentRules

namespace Text

theorem isBlank_of_isDigit {c : Char} (h : c.isDigit = true) : isBlank c = false := by
  have hrange := Numeral.isDigit_iff.mp h
  simp only [isBlank, inRanges, blankRanges, List.any_eq_false, List.forall_mem_cons,
    Bool.and_eq_true, decide_eq_true_eq]
  refine ⟨?_, ?_, ?_, ?_, ?_, ?_, ?_, ?_, ?_, ?_, List.forall_mem_nil _⟩ <;> omega

/-- Nothing is trimmed in front of a character that is no white space. -/
theorem trimStart_of_head {cs : List Char} (h : ∀ c ∈ cs.head?, isBlank c = false) :
    trimStart cs = cs := by
  cases cs with
  | nil => rfl
  | cons c cs => exact List.dropWhile_cons_of_neg (by simpa using h c rfl)

end Text

namespace Date

variable {width n : ℕ} {rest : List Char}

/-! ### Numbers with zeros in front -/

theorem isDigit_of_mem_padded {c : Char} (h : c ∈ padded width n) : c.isDigit = true := by
  rcases List.mem_append.mp h with h | h
  · exact Numeral.isDigit_of_mem_zeros h
  · exact Numeral.isDigit_of_mem_digits h

theorem padded_ne_nil (width n : ℕ) : padded width n ≠ [] :=
  List.append_ne_nil_of_right_ne_nil _ (Numeral.digits_ne_nil n)

theorem natValue_padded (width n : ℕ) : Numeral.natValue (padded width n) = n := by
  have hdigits : Numeral.natValue (Nat.toDigits 10 n) = n := Numeral.natValue_digits n
  rw [padded, Numeral.natValue_append, Numeral.natValue_zeros, hdigits]
  omega

/-- Digits that fit fill the width. -/
theorem length_padded (h : n < 10 ^ width) (hwidth : 0 < width) :
    (padded width n).length = width := by
  have hle : (Nat.toDigits 10 n).length ≤ width :=
    (Nat.length_toDigits_le_iff (by decide) hwidth).mpr h
  rw [padded, List.length_append, List.length_replicate]
  omega

/-- **A number that fills its width is read back.** -/
theorem readNumber?_padded {limit : Option ℕ} (hlimit : ∀ w ∈ limit, (padded width n).length ≤ w)
    (hrest : ∀ c ∈ rest.head?, c.isDigit = false) :
    readNumber? limit (padded width n ++ rest) = some (n, rest) := by
  have hdigits : ∀ c ∈ padded width n, c.isDigit = true := fun _ => isDigit_of_mem_padded
  obtain ⟨htake, -⟩ := Numeral.span_digits hdigits hrest
  have hnumber : (if (padded width n).isEmpty then none
      else some (Numeral.natValue (padded width n),
        (padded width n ++ rest).drop (padded width n).length)) = some (n, rest) := by
    rw [List.isEmpty_eq_false_iff.mpr (padded_ne_nil width n), if_neg Bool.false_ne_true,
      natValue_padded, List.drop_left]
  cases limit with
  | none =>
    simp only [readNumber?, htake]
    exact hnumber
  | some w =>
    simp only [readNumber?, htake, List.take_of_length_le (hlimit w rfl)]
    exact hnumber

theorem isDigit_head_padded {c : Char} (h : c ∈ (padded width n ++ rest).head?) :
    c.isDigit = true := by
  rw [List.head?_append_of_ne_nil _ (padded_ne_nil width n)] at h
  exact isDigit_of_mem_padded (List.mem_of_mem_head? h)

/-! ### Pieces -/

theorem daysIn_le (year : ℤ) (month : ℕ) : daysIn year month ≤ 31 := by
  unfold daysIn
  split <;> try split
  all_goals omega

theorem month_le {year : ℤ} {month : ℕ} (h : 0 < daysIn year month) : month ≤ 12 := by
  by_contra hmonth
  have hnone : daysIn year month = 0 := by
    unfold daysIn
    split <;> omega
  omega

/-- The months and days that there are have at most two digits. -/
theorem two_digits (d : Date) : d.month < 10 ^ 2 ∧ d.day < 10 ^ 2 := by
  obtain ⟨year, month, day, -, -, hday, hlast⟩ := d
  have hle := daysIn_le year month
  have hmonth : month ≤ 12 := month_le (hday.trans hlast)
  exact ⟨Nat.lt_of_le_of_lt hmonth (by decide),
    Nat.lt_of_le_of_lt (hlast.trans hle) (by decide)⟩

variable {p : Parts} {y : ℤ}

/-- A year is read back: without a sign it has four digits. -/
theorem readYear?_yearChars (hrest : ∀ c ∈ rest.head?, c.isDigit = false) :
    readYear? (yearChars y ++ rest) = some (y, rest) := by
  unfold yearChars
  split
  · rename_i hyear
    have hlength : (padded 4 y.toNat).length = 4 := length_padded (by omega) (by decide)
    have hread : readNumber? (some 4) (padded 4 y.toNat ++ rest) = some (y.toNat, rest) :=
      readNumber?_padded (by rintro w ⟨⟩; exact hlength.le) hrest
    have hsign {c : Char} {r : List Char} (heq : padded 4 y.toNat ++ rest = c :: r) :
        c.isDigit = true := isDigit_head_padded (by rw [heq]; rfl)
    unfold readYear?
    split
    · rename_i heq
      exact absurd (hsign heq) (by decide)
    · rename_i heq
      exact absurd (hsign heq) (by decide)
    · rw [hread, Option.map_some]
      simp only [Option.some.injEq, Prod.mk.injEq, and_true]
      omega
  · rename_i hyear
    have hread : readNumber? none (padded 4 y.natAbs ++ rest) = some (y.natAbs, rest) :=
      readNumber?_padded (by rintro w ⟨⟩) hrest
    split
    · rename_i hneg
      show (readNumber? none (padded 4 y.natAbs ++ rest)).map _ = _
      rw [hread, Option.map_some]
      simp only [Option.some.injEq, Prod.mk.injEq, and_true]
      omega
    · rename_i hneg
      show (readNumber? none (padded 4 y.natAbs ++ rest)).map _ = _
      rw [hread, Option.map_some]
      simp only [Option.some.injEq, Prod.mk.injEq, and_true]
      omega

theorem isBlank_head_yearChars {c : Char} (h : c ∈ (yearChars y ++ rest).head?) :
    Text.isBlank c = false := by
  unfold yearChars at h
  split at h
  · exact Text.isBlank_of_isDigit (isDigit_head_padded h)
  · cases h
    split <;> decide

theorem readPiece?_year (hrest : ∀ c ∈ rest.head?, c.isDigit = false) :
    readPiece? p (yearChars y ++ rest) .year = some ({ p with year := y }, rest) := by
  rw [readPiece?, Text.trimStart_of_head fun _ => isBlank_head_yearChars, readYear?_yearChars hrest]
  rfl

/-- A number of two digits is read back. -/
theorem readNumber?_two (hn : n < 10 ^ 2) (hrest : ∀ c ∈ rest.head?, c.isDigit = false) :
    readNumber? (some 2) (Text.trimStart (padded 2 n ++ rest)) = some (n, rest) := by
  rw [Text.trimStart_of_head fun _ h => Text.isBlank_of_isDigit (isDigit_head_padded h)]
  refine readNumber?_padded ?_ hrest
  rintro w ⟨⟩
  exact (length_padded hn (by decide)).le

theorem readPiece?_month (hn : n < 10 ^ 2) (hrest : ∀ c ∈ rest.head?, c.isDigit = false) :
    readPiece? p (padded 2 n ++ rest) .month = some ({ p with month := n }, rest) := by
  rw [readPiece?, readNumber?_two hn hrest]
  rfl

theorem readPiece?_day (hn : n < 10 ^ 2) (hrest : ∀ c ∈ rest.head?, c.isDigit = false) :
    readPiece? p (padded 2 n ++ rest) .day = some ({ p with day := n }, rest) := by
  rw [readPiece?, readNumber?_two hn hrest]
  rfl

theorem readPiece?_literal (c : Char) : readPiece? p (c :: rest) (.literal c) = some (p, rest) :=
  if_pos rfl

theorem readPieces?_cons {text : List Char} {piece : Piece} {p' : Parts}
    (h : readPiece? p text piece = some (p', rest)) (pieces : List Piece) :
    readPieces? p text (piece :: pieces) = readPieces? p' rest pieces := by
  rw [readPieces?, h]
  rfl

/-! ### Dates -/

/-- **A date is read back** from its standard form. -/
theorem readIn?_chars (d : Date) :
    readIn? [.year, .literal '-', .month, .literal '-', .day] d.chars = some d := by
  obtain ⟨hmonth, hday⟩ := d.two_digits
  have hhyphen (rest : List Char) : ∀ c ∈ ('-' :: rest).head?, c.isDigit = false := by
    rintro c ⟨⟩
    rfl
  have hparts : readPieces? {} (d.chars ++ []) [.year, .literal '-', .month, .literal '-', .day] =
      some ⟨d.year, d.month, d.day⟩ := by
    rw [chars, List.append_assoc, List.cons_append, List.append_assoc, List.cons_append,
      readPieces?_cons (readPiece?_year (hhyphen _)), readPieces?_cons (readPiece?_literal '-'),
      readPieces?_cons (readPiece?_month hmonth (hhyphen _)),
      readPieces?_cons (readPiece?_literal '-'), readPieces?_cons (readPiece?_day hday (by simp))]
    rfl
  rw [List.append_nil] at hparts
  rw [readIn?, hparts]
  exact dif_pos d.exists_day

/-- A date begins and ends with characters that are no white space. -/
theorem trimChars_chars (d : Date) : Text.trimChars d.chars = d.chars := by
  have hfront : Text.trimStart d.chars = d.chars :=
    Text.trimStart_of_head fun _ => isBlank_head_yearChars
  have hback : Text.trimStart d.chars.reverse = d.chars.reverse := by
    refine Text.trimStart_of_head fun c hc => Text.isBlank_of_isDigit ?_
    have hne : (padded 2 d.day).reverse ≠ [] := by simpa using padded_ne_nil 2 d.day
    have hsplit : d.chars.reverse = (padded 2 d.day).reverse ++
        (yearChars d.year ++ '-' :: (padded 2 d.month ++ ['-'])).reverse := by
      simp [chars]
    rw [hsplit, List.head?_append_of_ne_nil _ hne] at hc
    exact isDigit_of_mem_padded (List.mem_reverse.mp (List.mem_of_mem_head? hc))
  rw [Text.trimChars, hfront, hback, List.reverse_reverse]

end Date

/-- **The standard form of a date is left as it is.** -/
theorem Normalize.normalizeDate_text (d : Date) :
    normalizeDate (.string d.text) = .ok (.string d.text) := by
  have hchars : d.text.toList = d.chars := String.toList_ofList
  have hread : readDate? d.chars = some d := by
    rw [readDate?, dateLayouts, List.findSome?_cons, Date.readIn?_chars]
  rw [normalizeDate, hchars]
  simp only [Date.trimChars_chars, hread]

end DocumentRules
