/-
Account numbers are checked as their standard says.

The check reads an account number character by character and keeps a remainder in a word of 32
bits.  The standard speaks of one long number instead, `Iban.number`.

* **`Iban.exists_remainder`** — the running remainder is that of the number read so far;
* **`Iban.exact_step`** — no step of it leaves the 32 bits;
* **`Iban.isValid_iff`** — so the check is that of the standard, `Iban.IsAccountNumber`;
* **`account_number_rule`** — and the rule writes exactly the account numbers that pass it.
-/
import DocumentRules.BuiltIn.Rules
import DocumentRules.Proofs.Document.Assignment
import DocumentRules.Proofs.Number.Numeral

namespace DocumentRules

namespace Iban

variable {c : Char} {cs done : List Char} {r v : UInt32}

/-! ### The standard -/

/-- A digit or a capital letter. -/
def IsSymbol (c : Char) : Prop := c.isDigit = true ∨ c.isUpper = true

/-- The decimal digits that a character stands for: a digit for itself, and a letter for its place
in the alphabet, counted from ten. -/
def charDigits (c : Char) : List Char :=
  if c.isDigit then [c] else Numeral.digits (c.toNat - 'A'.toNat + 10)

/-- The number whose digits the characters stand for, the first four characters coming last. -/
def number (iban : List Char) : Nat :=
  Numeral.natValue ((iban.drop 4 ++ iban.take 4).flatMap charDigits)

/-- An account number of the standard. -/
structure IsAccountNumber (iban : List Char) : Prop where
  length_ge : 15 ≤ iban.length
  length_le : iban.length ≤ 34
  symbols : ∀ c ∈ iban, IsSymbol c
  checksum : number iban % 97 = 1

/-! ### One character -/

theorem isUpper_iff : c.isUpper = true ↔ 65 ≤ c.toNat ∧ c.toNat ≤ 90 := by
  show decide ('A'.val ≤ c.val ∧ c.val ≤ 'Z'.val) = true ↔ _
  rw [decide_eq_true_eq, UInt32.le_iff_toNat_le, UInt32.le_iff_toNat_le, Char.toNat_val]
  rfl

theorem charValue?_of_isDigit (h : c.isDigit = true) : charValue? c = some (c.val - '0'.val) :=
  if_pos (by simpa [Char.isDigit, Char.le_def] using h)

theorem charValue?_of_isUpper (h : c.isUpper = true) :
    charValue? c = some (c.val - 'A'.val + 10) := by
  have hrange := isUpper_iff.mp h
  simp only [charValue?, Char.le_def, UInt32.le_iff_toNat_le, Char.toNat_val, Char.reduceToNat]
  rw [if_neg (by omega), if_pos hrange]

/-- Other characters have no value. -/
theorem isSymbol_of_charValue? (h : charValue? c = some v) : IsSymbol c := by
  by_contra hc
  rw [IsSymbol, not_or, Numeral.isDigit_iff, isUpper_iff] at hc
  simp only [charValue?, Char.le_def, UInt32.le_iff_toNat_le, Char.toNat_val,
    Char.reduceToNat] at h
  rw [if_neg hc.1, if_neg hc.2] at h
  cases h

/-- The distance of a digit from zero is taken without going below zero. -/
theorem toNat_digit (h : c.isDigit = true) : (c.val - '0'.val).toNat = c.toNat - '0'.toNat :=
  UInt32.toNat_sub_of_le _ _ (UInt32.le_iff_toNat_le.mpr (Numeral.isDigit_iff.mp h).1)

theorem toNat_letter (h : c.isUpper = true) :
    (c.val - 'A'.val + 10).toNat = c.toNat - 'A'.toNat + 10 := by
  have hrange := isUpper_iff.mp h
  have hsub : (c.val - 'A'.val).toNat = c.toNat - 'A'.toNat :=
    UInt32.toNat_sub_of_le _ _ (UInt32.le_iff_toNat_le.mpr hrange.1)
  rw [UInt32.toNat_add, hsub]
  exact Nat.mod_eq_of_lt (by simp only [Char.reduceToNat, UInt32.reduceToNat]; omega)

/-- The value of a character is what its digits denote, and there are two of them from ten on. -/
structure IsValue (c : Char) (v : UInt32) : Prop where
  toNat_eq : v.toNat = Numeral.natValue (charDigits c)
  lt : v.toNat < 36
  length_eq : (charDigits c).length = if 10 ≤ v then 2 else 1

theorem isValue_digit (h : c.isDigit = true) : IsValue c (c.val - '0'.val) := by
  have hvalue := toNat_digit h
  have hsmall : c.toNat - '0'.toNat < 10 := by
    simp only [Char.reduceToNat]
    have := (Numeral.isDigit_iff.mp h).2
    omega
  have hten : ¬ 10 ≤ c.val - '0'.val := by
    rw [UInt32.le_iff_toNat_le, hvalue]
    exact Nat.not_le.mpr hsmall
  refine ⟨?_, by omega, ?_⟩
  · rw [hvalue, charDigits, if_pos h]
    simp [Numeral.natValue, Numeral.digitValue]
  · rw [charDigits, if_pos h, if_neg hten]
    rfl

theorem isValue_letter (h : c.isUpper = true) : IsValue c (c.val - 'A'.val + 10) := by
  have hrange := isUpper_iff.mp h
  have hvalue := toNat_letter h
  have hsmall : c.toNat - 'A'.toNat + 10 < 36 := by
    simp only [Char.reduceToNat]
    omega
  have hten : 10 ≤ c.val - 'A'.val + 10 := by
    rw [UInt32.le_iff_toNat_le, hvalue]
    exact Nat.le_add_left ..
  have hletter : ¬ c.isDigit = true := by
    rw [Numeral.isDigit_iff]
    omega
  have htwo : ∀ n < 36, 10 ≤ n → (Numeral.digits n).length = 2 := by decide
  refine ⟨?_, by omega, ?_⟩
  · rw [hvalue, charDigits, if_neg hletter, Numeral.natValue_digits]
  · rw [charDigits, if_neg hletter, if_pos hten]
    exact htwo _ hsmall (Nat.le_add_left ..)

theorem exists_charValue? (h : IsSymbol c) : ∃ v, charValue? c = some v ∧ IsValue c v := by
  rcases h with hdigit | hupper
  · exact ⟨_, charValue?_of_isDigit hdigit, isValue_digit hdigit⟩
  · exact ⟨_, charValue?_of_isUpper hupper, isValue_letter hupper⟩

/-! ### The running remainder -/

/-- **No step leaves the 32 bits**: a remainder and the value of a character are too small. -/
theorem exact_step (hr : r.toNat < 97) (hv : v.toNat < 36) : r.toNat * 100 + v.toNat < 2 ^ 32 := by
  omega

/-- So a step appends one or two digits to the number, up to multiples of 97. -/
theorem toNat_step (hr : r.toNat < 97) (hv : v.toNat < 36) :
    ((if 10 ≤ v then r * 100 + v else r * 10 + v) % 97).toNat =
      (10 ^ (if 10 ≤ v then 2 else 1) * r.toNat + v.toNat) % 97 := by
  have hexact := exact_step hr hv
  have hwords (k : UInt32) (hk : r.toNat * k.toNat + v.toNat < 2 ^ 32) :
      ((r * k + v) % 97).toNat = (k.toNat * r.toNat + v.toNat) % 97 := by
    rw [UInt32.toNat_mod, UInt32.toNat_add, UInt32.toNat_mul, Nat.mod_add_mod,
      Nat.mod_eq_of_lt hk, Nat.mul_comm]
    rfl
  split
  · exact hwords 100 hexact
  · exact hwords 10 (by simp only [UInt32.reduceToNat]; omega)

/-- **The running remainder** is that of the number whose digits have been read. -/
theorem exists_remainder (hcs : ∀ c ∈ cs, IsSymbol c)
    (hr : r.toNat = Numeral.natValue done % 97) :
    ∃ r', remainder r cs = some r' ∧
      r'.toNat = Numeral.natValue (done ++ cs.flatMap charDigits) % 97 := by
  induction cs generalizing r done with
  | nil => exact ⟨r, rfl, by rw [hr, List.flatMap_nil, List.append_nil]⟩
  | cons c cs ih =>
    obtain ⟨hc, hcs⟩ := List.forall_mem_cons.mp hcs
    obtain ⟨v, hv, hvalue⟩ := exists_charValue? hc
    have hstep : ((if 10 ≤ v then r * 100 + v else r * 10 + v) % 97).toNat =
        Numeral.natValue (done ++ charDigits c) % 97 := by
      rw [toNat_step (by omega) hvalue.lt, hr, Numeral.natValue_append, hvalue.length_eq,
        hvalue.toNat_eq, Nat.add_mod, Nat.mul_mod_mod, ← Nat.add_mod]
    obtain ⟨r', hr', hvalue'⟩ := ih hcs hstep
    refine ⟨r', ?_, ?_⟩
    · rw [remainder, hv]
      exact hr'
    · rw [hvalue', List.flatMap_cons, List.append_assoc]

/-- The remainder of a row of symbols is that of the number they stand for. -/
theorem exists_remainder_zero (hcs : ∀ c ∈ cs, IsSymbol c) :
    ∃ r, remainder 0 cs = some r ∧ r.toNat = Numeral.natValue (cs.flatMap charDigits) % 97 := by
  have hzero : (0 : UInt32).toNat = Numeral.natValue [] % 97 := rfl
  exact exists_remainder hcs hzero

/-- A character without a value stops the check. -/
theorem symbols_of_remainder {r' : UInt32} (h : remainder r cs = some r') :
    ∀ c ∈ cs, IsSymbol c := by
  induction cs generalizing r with
  | nil => exact List.forall_mem_nil _
  | cons c cs ih =>
    rw [remainder] at h
    split at h
    · cases h
    · rename_i v hv
      exact List.forall_mem_cons.mpr ⟨isSymbol_of_charValue? hv, ih h⟩

theorem remainder_lt {r' : UInt32} (h : remainder 0 cs = some r') : r'.toNat < 97 := by
  obtain ⟨_, hr', hvalue⟩ := exists_remainder_zero (symbols_of_remainder h)
  rw [h, Option.some.injEq] at hr'
  rw [hr', hvalue]
  exact Nat.mod_lt _ (by decide)

theorem charValue?_lt (h : charValue? c = some v) : v.toNat < 36 := by
  obtain ⟨_, hv, hvalue⟩ := exists_charValue? (isSymbol_of_charValue? h)
  rw [h, Option.some.injEq] at hv
  exact hv ▸ hvalue.lt

/-! ### The check -/

/-- Moving the first characters to the end keeps the characters. -/
theorem mem_moved {iban : List Char} : c ∈ iban.drop 4 ++ iban.take 4 ↔ c ∈ iban := by
  rw [List.mem_append, or_comm, ← List.mem_append, List.take_append_drop]

theorem toNat_lt_of_isSymbol (h : IsSymbol c) : c.toNat < 0x80 := by
  rcases h with h | h
  · have := Numeral.isDigit_iff.mp h
    omega
  · have := isUpper_iff.mp h
    omega

/-- **The check is that of the standard.** -/
theorem isValid_iff {iban : List Char} : isValid iban = true ↔ IsAccountNumber iban := by
  simp only [isValid, Bool.and_eq_true, decide_eq_true_eq, beq_iff_eq, List.all_eq_true]
  constructor
  · rintro ⟨⟨⟨hge, hle⟩, -⟩, hone⟩
    have hsymbols := symbols_of_remainder hone
    obtain ⟨r', hr', hvalue⟩ := exists_remainder_zero hsymbols
    rw [hone, Option.some.injEq] at hr'
    refine ⟨hge, hle, fun c hc => hsymbols c (mem_moved.mpr hc), ?_⟩
    rw [number, ← hvalue, ← hr']
    rfl
  · intro h
    have hsymbols : ∀ c ∈ iban.drop 4 ++ iban.take 4, IsSymbol c := fun c hc =>
      h.symbols c (mem_moved.mp hc)
    obtain ⟨r', hr', hvalue⟩ := exists_remainder_zero hsymbols
    refine ⟨⟨⟨h.length_ge, h.length_le⟩, fun c hc => toNat_lt_of_isSymbol (h.symbols c hc)⟩, ?_⟩
    rw [hr', Option.some.injEq, ← UInt32.toNat_inj, hvalue]
    exact h.checksum

/-! ### The rule -/

variable {d e : Document} {raw iban : String}

/-- The second document is the first one with an account number written into it: one entry of the
map `fields` is set, and nothing else is changed. -/
structure Writes (iban : String) (d e : Document) : Prop where
  written : e.value.get? field = some (.string iban)
  entries : ∃ entries, d.value.get? [.key "fields"] = some (.map entries) ∧
    e.value.get? [.key "fields"] = some (.map (Entries.put "iban" (.string iban) entries))
  beside : ∀ q, ¬ Path.overlaps field q = true → e.value.get? q = d.value.get? q

/-- Where there is a text to read, `fields` is a map. -/
theorem exists_fields (h : d.value.get? rawField = some (.string raw)) :
    ∃ entries, d.value.get? [.key "fields"] = some (.map entries) := by
  obtain ⟨fields, a, hfields, ha, -⟩ := Value.exists_child?_of_get? (r := [.key "fields"]) h
  have hfits := Value.fits_of_child? ha
  cases fields with
  | map entries => exact ⟨entries, hfields⟩
  | _ => cases hfits

theorem writes_set (h : d.value.get? rawField = some (.string raw)) :
    Writes iban d (d.set field ⟨.string iban, trivial⟩) := by
  obtain ⟨entries, hfields⟩ := exists_fields h
  refine ⟨Value.get?_set_self .., ⟨entries, hfields, ?_⟩, fun q hq => ?_⟩
  · refine (Value.get?_set_append d.value _ [.key "fields"] [.key "iban"]).trans ?_
    rw [hfields]
    rfl
  · rw [Path.overlaps_iff, not_or] at hq
    exact Value.get?_set_entry (r := [.key "fields"]) hfields hq.1 hq.2 _

theorem run_of_not_text (h : ∀ raw, d.value.get? rawField ≠ some (.string raw)) :
    run d = .ok d := by
  have hnone : (d.value.get? rawField).bind Value.string? = none := by
    cases hraw : d.value.get? rawField with
    | none => rfl
    | some v =>
      cases v with
      | string raw => exact absurd hraw (h raw)
      | _ => rfl
  rw [run, hnone]

theorem run_of_text (h : d.value.get? rawField = some (.string raw)) :
    run d = if isValid (normalize raw).toList then
        .ok (d.set field ⟨.string (normalize raw), trivial⟩)
      else .error (.assertion "Invalid IBAN") := by
  rw [run, h]
  rfl

end Iban

open Iban in
/-- **Account numbers are checked as their standard says**, without a word of 32 bits running
over.  The rule leaves a document without a text to read as it is; otherwise it takes the letters
and digits of the text as capital letters, fails exactly if they are no account number, and else
writes them, changing nothing else. -/
theorem account_number_rule :
    (∀ iban : String, isValid iban.toList = true ↔ IsAccountNumber iban.toList) ∧
    (∀ front r c v, remainder 0 front = some r → charValue? c = some v →
      r.toNat * 100 + v.toNat < 2 ^ 32) ∧
    ∀ d : Document,
      ((∀ raw, d.value.get? rawField ≠ some (.string raw)) → run d = .ok d) ∧
      ∀ raw, d.value.get? rawField = some (.string raw) →
        (∀ f, run d = .error f ↔
          f = .assertion "Invalid IBAN" ∧ ¬ IsAccountNumber (normalize raw).toList) ∧
        (IsAccountNumber (normalize raw).toList →
          ∃ e, run d = .ok e ∧ Writes (normalize raw) d e) := by
  refine ⟨fun iban => isValid_iff, fun front r c v hr hv => ?_, fun d => ⟨run_of_not_text, ?_⟩⟩
  · exact exact_step (remainder_lt hr) (charValue?_lt hv)
  · intro raw hraw
    refine ⟨fun f => ?_, fun h => ?_⟩
    · rw [run_of_text hraw, ← isValid_iff]
      split <;> rename_i hvalid
      · simp [hvalid]
      · simp [hvalid, eq_comm]
    · rw [run_of_text hraw, if_pos (isValid_iff.mpr h)]
      exact ⟨_, rfl, writes_set hraw⟩

/-! ### An account number with blanks and small letters -/

namespace Spaced

def raw : String := "it60 x054 2811 1010 0000 0123 456"

/-- The document `{"fields": {"ibanRaw": …}}`. -/
def document : Document := Document.emptyMap.setScalar Iban.rawField (.string raw)

end Spaced

open Spaced Iban in
theorem account_number_rule_spaced :
    IsAccountNumber "IT60X0542811101000000123456".toList ∧
    ∃ e, run document = .ok e ∧ Writes "IT60X0542811101000000123456" document e := by
  obtain ⟨hvalid, -, hrule⟩ := account_number_rule
  have hraw : document.value.get? rawField = some (.string raw) := Value.get?_set_self ..
  have hnormalize : normalize raw = "IT60X0542811101000000123456" := by decide +kernel
  have h : IsAccountNumber "IT60X0542811101000000123456".toList :=
    (hvalid _).mp (by decide +kernel)
  refine ⟨h, ?_⟩
  rw [← hnormalize] at h ⊢
  exact ((hrule document).2 raw hraw).2 h

end DocumentRules
