/-
The written form of a path reads back.

What is written of a path is spelled by the grammar of paths: a name that stands bare holds no
character that ends a bare name, one in quotes has its quotes and backslashes escaped, and a
position is written in its digits.  So reading, which accepts the grammar, gives the path back.

* **`Path.spells_text`** — the written form of a path spells it, if its positions fit 64 bits;
* **`Path.parse_text`** — so it is read back;
* **`Path.written_form_decodes`** — the written form is one to one, and it is the one canonical
  text of those that are read as the path.

The root is apart: no other path is written `$`, as a name `$` stands in quotes.
-/
import DocumentRules.Proofs.Document.PathGrammar

namespace DocumentRules

namespace Path

/-- The positions in the path fit 64 bits, as a position that is read does. -/
def Readable (p : Path) : Prop := ∀ i, .index i ∈ p → i < UInt64.size

theorem Readable.tail {s : Step} {p : Path} (h : Readable (s :: p)) : Readable p :=
  fun i hi => h i (List.mem_cons_of_mem s hi)

/-! ### What is written of one step -/

theorem digits_toDigits {i : Nat} (hi : i < UInt64.size) : Digits (Nat.toDigits 10 i) i where
  nonempty := Nat.toDigits_ne_nil
  digits _ hc := Nat.isDigit_of_mem_toDigits (by decide) (by decide) hc
  value := Nat.ofDigitChars_ten_toDigits
  bounded := hi

theorem quoted_escape (cs : List Char) : Quoted (escape cs) cs := by
  induction cs with
  | nil => exact .nil
  | cons c cs ih =>
    rw [escape]
    split
    · exact .escaped c ih
    · rename_i hplain
      rw [not_or] at hplain
      exact .plain hplain.1 hplain.2 ih

/-- A name that needs no quotes is bare in front of further steps. -/
theorem bareName_of_plain {name : String} (h : needsQuotes name = false) {rest : List Char}
    {p : Path} (later : Later rest p) : BareName name.toList rest := by
  simp only [needsQuotes, Bool.or_eq_false_iff, List.any_eq_false, Bool.not_eq_true,
    String.isEmpty_eq_false_iff, isSpecial, beq_eq_false_iff_ne] at h
  obtain ⟨⟨hempty, -⟩, hplain⟩ := h
  refine ⟨fun hname => hempty (String.toList_eq_nil_iff.mp hname), fun c hc => ?_,
    later.not_bare⟩
  obtain ⟨⟨⟨⟨hdot, hopen⟩, hclose⟩, -⟩, -⟩ := hplain c hc
  exact ⟨hdot, hopen, hclose⟩

theorem bracket_quoted (name : String) : Bracket (quoted name) (.key name) := by
  have hbracket : Bracket ('[' :: '"' :: (escape name.toList ++ ['"', ']'])) _ :=
    .name (quoted_escape name.toList)
  rwa [String.ofList_toList] at hbracket

theorem bracket_index {i : Nat} (hi : i < UInt64.size) :
    Bracket (['['] ++ Nat.toDigits 10 i ++ [']']) (.index i) :=
  .position (.unsigned (digits_toDigits hi))

/-- Every step is a bare name or is written as a bracket, first or later. -/
theorem bare_or_bracket {s : Step} {p : Path} (hp : Readable (s :: p)) :
    (∃ name, s = .key name ∧ needsQuotes name = false) ∨
      ∃ cs, Bracket cs s ∧ firstChars s = cs ∧ laterChars s = cs := by
  cases s with
  | index i => exact Or.inr ⟨_, bracket_index (hp i (List.mem_cons_self ..)), rfl, rfl⟩
  | key name =>
    cases hquotes : needsQuotes name with
    | false => exact Or.inl ⟨name, rfl, hquotes⟩
    | true => exact Or.inr ⟨_, bracket_quoted name, if_pos hquotes, if_pos hquotes⟩

/-! ### Whole paths -/

/-- Steps behind another one are written as segments behind another one. -/
theorem later_flatMap {p : Path} (hp : p.Readable) : Later (p.flatMap laterChars) p := by
  induction p with
  | nil => exact .nil
  | cons s p ih =>
    have hlater := ih hp.tail
    rw [List.flatMap_cons]
    rcases bare_or_bracket hp with ⟨name, rfl, hplain⟩ | ⟨cs, hbracket, -, hcs⟩
    · have hchars : laterChars (.key name) = '.' :: name.toList := if_neg (by simp [hplain])
      have hsegment := Later.bare (bareName_of_plain hplain hlater) hlater
      rwa [String.ofList_toList, ← List.cons_append, ← hchars] at hsegment
    · rw [hcs]
      exact .bracket hbracket hlater

/-- The steps of a path are written as segments, and not as `$`. -/
theorem segments_chars {s : Step} {p : Path} (hp : Readable (s :: p)) :
    chars (s :: p) ≠ ['$'] ∧ Segments (chars (s :: p)) (s :: p) := by
  have hlater := later_flatMap hp.tail
  rw [chars]
  rcases bare_or_bracket hp with ⟨name, rfl, hplain⟩ | ⟨cs, hbracket, hcs, -⟩
  · have hchars : firstChars (.key name) = name.toList := if_neg (by simp [hplain])
    have hbare := bareName_of_plain hplain hlater
    have hsegments := Segments.bare hbare hlater
    rw [String.ofList_toList] at hsegments
    rw [hchars]
    refine ⟨fun hdollar => ?_, hsegments⟩
    -- The name is not empty, so it would be `$`, which needs quotes.
    rcases List.append_eq_singleton_iff.mp hdollar with ⟨hempty, -⟩ | ⟨hname, -⟩
    · exact hbare.nonempty hempty
    · rw [← String.ofList_toList (s := name), hname] at hplain
      exact absurd hplain (by decide)
  · rw [hcs]
    refine ⟨fun hdollar => ?_, .bracket hbracket hlater⟩
    cases hbracket <;> simp at hdollar

/-- **The written form of a path spells it**, if its positions fit 64 bits. -/
theorem spells_text {p : Path} (hp : p.Readable) : Spells (text p) p := by
  cases p with
  | nil => exact Or.inl ⟨rfl, rfl⟩
  | cons s p =>
    obtain ⟨hdollar, hsegments⟩ := segments_chars hp
    refine Or.inr ⟨fun htext => hdollar ?_, ?_⟩
    · simpa [text] using congrArg String.toList htext
    · rwa [text, String.toList_ofList]

/-- **The written form of a path reads back**, if its positions fit 64 bits. -/
theorem parse_text {p : Path} (hp : p.Readable) : parse (text p) = .ok p :=
  parse_eq_ok_iff.mpr (spells_text hp)

/-! ### Canonical texts -/

/-- The text is what is written of the path that it is read as. -/
def Canonical (t : String) : Prop := ∃ p, parse t = .ok p ∧ text p = t

theorem Bracket.bounded {cs : List Char} {i : Nat} (h : Bracket cs (.index i)) :
    i < UInt64.size := by
  cases h with
  | position h =>
    cases h with
    | unsigned h => exact h.bounded
    | signed h => exact h.bounded

theorem Later.readable {cs : List Char} {p : Path} (h : Later cs p) : p.Readable := by
  induction h with
  | nil => exact fun i hi => absurd hi List.not_mem_nil
  | bare _ _ ih => exact fun i hi => ih i ((List.mem_cons.mp hi).resolve_left (by simp))
  | bracket hbracket _ ih =>
    intro i hi
    rcases List.mem_cons.mp hi with rfl | hi
    · exact hbracket.bounded
    · exact ih i hi

theorem Segments.readable {cs : List Char} {p : Path} (h : Segments cs p) : p.Readable := by
  cases h with
  | bare hname hlater => exact (Later.bare hname hlater).readable
  | bracket hbracket hlater => exact (Later.bracket hbracket hlater).readable

/-- What is read as a path holds positions of 64 bits only. -/
theorem Spells.readable {t : String} {p : Path} (h : Spells t p) : p.Readable := by
  rcases h with ⟨-, rfl⟩ | ⟨-, hsegments⟩
  · exact fun i hi => absurd hi List.not_mem_nil
  · exact hsegments.readable

/-- **The written form decodes to what it was made of.**  Every path whose positions fit 64 bits
is read back from its written form, whatever its names are, so that no two paths are written
alike.  For every text that is read as a path, the written form of the path is read as the same
path, and it is the one canonical text among those that are. -/
theorem written_form_decodes :
    (∀ p : Path, p.Readable → parse (text p) = .ok p) ∧
      (∀ p q : Path, p.Readable → q.Readable → text p = text q → p = q) ∧
      ∀ t p, parse t = .ok p →
        parse (text p) = .ok p ∧ Canonical (text p) ∧
          ∀ u, parse u = .ok p → Canonical u → u = text p := by
  refine ⟨fun p => parse_text, ?_, ?_⟩
  · intro p q hp hq heq
    have hread := parse_text hp
    rw [heq, parse_text hq] at hread
    exact (Except.ok.inj hread).symm
  · intro t p ht
    have hread : parse (text p) = .ok p := parse_text (parse_eq_ok_iff.mp ht).readable
    refine ⟨hread, ⟨p, hread, rfl⟩, ?_⟩
    rintro u hu ⟨q, hq, rfl⟩
    rw [hu] at hq
    rw [Except.ok.inj hq]

/-- Names that are empty, look like the root, or hold what ends a name or a quotation, beside the
greatest position. -/
def awkward : Path :=
  [.key "", .key "$", .index 18446744073709551615, .key "a.b[0]", .key "\\\"", .key "é\n", .key "$"]

theorem written_form_decodes_awkward :
    awkward.Readable ∧
      text awkward = "[\"\"][\"$\"][18446744073709551615][\"a.b[0]\"][\"\\\\\\\"\"].é\n[\"$\"]" ∧
      parse (text awkward) = .ok awkward ∧
      parse "[\"a\"][+007]" = .ok [.key "a", .index 7] ∧ Canonical "a[7]" := by
  have hreadable : awkward.Readable := by
    intro i hi
    simp [awkward] at hi
    subst hi
    decide
  have hread : parse "[\"a\"][+007]" = .ok [.key "a", .index 7] := rfl
  refine ⟨hreadable, by decide, written_form_decodes.1 awkward hreadable, hread, ?_⟩
  exact (written_form_decodes.2.2 _ _ hread).2.1

end Path

end DocumentRules
