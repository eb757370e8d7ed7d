/-
The tokens of written JSON.

A token ends where the next one begins.  Brackets, commas and quotes show their own end; a
number or a word goes on until a character comes that it cannot contain, and what may come
behind a value is a comma, a closing bracket or nothing (`AtEnd`).

* `Spells` — a text reads as these tokens, wherever it stands between others;
* **`Spells.append`**, **`Spells.mark`** — longer texts from shorter ones;
* **`Spells.string`** — a written string is read, whatever its characters are;
* **`spells_integer`** — the digits of an integer are a number token;
* **`Piece.text?_ofChar`** — the pieces that are read spell the string again.
-/
import DocumentRules.Json.Token
import DocumentRules.Json.Writer
import DocumentRules.Proofs.Number.Digits

namespace DocumentRules.Json

/-- Read on from a state of the machine, up to the end of the text. -/
def lexFrom (s : List Token × LexState) (text : List Char) : Option (List Token) := do
  let (tokens, state) ← text.foldlM lexStep s
  let last ← lexEnd state
  return tokens.reverse ++ last

variable {state next : LexState} {t : Token} {ts us done : List Token} {c : Char}
  {a b rest : List Char}

theorem lexFrom_nil (done : List Token) (state : LexState) :
    lexFrom (done, state) [] = (lexEnd state).map (done.reverse ++ ·) := by
  show (lexEnd state).bind _ = _
  cases lexEnd state <;> rfl

theorem lexFrom_cons (s : List Token × LexState) (c : Char) (text : List Char) :
    lexFrom s (c :: text) = (lexStep s c).bind (lexFrom · text) := by
  unfold lexFrom
  rw [List.foldlM_cons]
  cases lexStep s c <;> rfl

theorem lexFrom_silent (h : lexChar state c = some ([], next)) (done : List Token)
    (rest : List Char) : lexFrom (done, state) (c :: rest) = lexFrom (done, next) rest := by
  rw [lexFrom_cons, lexStep, h]
  rfl

theorem lexFrom_token (h : lexChar state c = some ([t], next)) (done : List Token)
    (rest : List Char) : lexFrom (done, state) (c :: rest) = lexFrom (t :: done, next) rest := by
  rw [lexFrom_cons, lexStep, h]
  rfl

/-! ### Where a value ends -/

/-- Nothing follows, or what may follow a value. -/
def AtEnd : List Char → Prop
  | [] => True
  | c :: _ => c = ',' ∨ c = ']' ∨ c = '}'

/-- The token that has been read if nothing more belongs to it. -/
def LexState.pending? : LexState → Option Token
  | .word letters => wordToken? letters.reverse
  | .number chars => numberToken? chars.reverse
  | _ => none

/-- A word or a number is complete at the end of a value. -/
theorem lexFrom_pending (h : state.pending? = some t) (hrest : AtEnd rest) (done : List Token) :
    lexFrom (done, state) rest = lexFrom (t :: done, .between) rest := by
  cases rest with
  | nil =>
    have hend : lexEnd state = some [t] := by
      cases state <;> simp_all [LexState.pending?, lexEnd]
    rw [lexFrom_nil, lexFrom_nil, hend]
    simp [lexEnd]
  | cons c rest =>
    have hchar : lexChar state c = (lexBetween c).map fun p => (t :: p.1, p.2) := by
      rcases hrest with rfl | rfl | rfl <;> cases state <;>
        simp_all [LexState.pending?, lexChar, lexBetween, isGap, isNumberChar]
    rw [lexFrom_cons, lexFrom_cons, lexStep, lexStep, hchar]
    show _ = ((lexBetween c).map _).bind _
    cases lexBetween c <;> simp

/-- The text reads as these tokens, in front of whatever may follow a value. -/
def Spells (text : List Char) (tokens : List Token) : Prop :=
  ∀ done rest, AtEnd rest →
    lexFrom (done, .between) (text ++ rest) = lexFrom (tokens.reverse ++ done, .between) rest

theorem spells_nil : Spells [] [] := fun _ _ _ => rfl

/-- Two texts one after the other, where the second one begins behind a value. -/
theorem Spells.append (ha : Spells a ts) (hb : Spells b us) (hend : AtEnd b) (hne : b ≠ []) :
    Spells (a ++ b) (ts ++ us) := by
  intro done rest hrest
  have hbrest : AtEnd (b ++ rest) := by
    cases b with
    | nil => exact absurd rfl hne
    | cons c b => exact hend
  rw [List.append_assoc, ha done _ hbrest, hb _ rest hrest, List.reverse_append, List.append_assoc]

/-- A bracket, a comma or a colon in front of a text. -/
theorem Spells.mark (hc : lexChar .between c = some ([t], .between)) (hb : Spells b ts) :
    Spells (c :: b) (t :: ts) := by
  intro done rest hrest
  rw [List.cons_append, lexFrom_token hc, hb _ rest hrest, List.reverse_cons, List.append_assoc]
  rfl

/-! ### Words and numbers -/

theorem spells_null : Spells (chars .null) [.word .null] := by
  intro done rest hrest
  have hpending : (LexState.word ['l', 'l', 'u', 'n']).pending? = some (.word .null) := rfl
  exact lexFrom_pending hpending hrest done

theorem spells_bool (b : Bool) : Spells (chars (.bool b)) [.word (.bool b)] := by
  intro done rest hrest
  cases b with
  | true =>
    have hpending : (LexState.word ['e', 'u', 'r', 't']).pending? = some (.word (.bool true)) := rfl
    exact lexFrom_pending hpending hrest done
  | false =>
    have hpending : (LexState.word ['e', 's', 'l', 'a', 'f']).pending? =
        some (.word (.bool false)) := rfl
    exact lexFrom_pending hpending hrest done

theorem lexFrom_number {cs : List Char} (hcs : ∀ d ∈ cs, isNumberChar d = true)
    (acc : List Char) (done : List Token) (rest : List Char) :
    lexFrom (done, .number acc) (cs ++ rest) = lexFrom (done, .number (cs.reverse ++ acc)) rest := by
  induction cs generalizing acc with
  | nil => rfl
  | cons d cs ih =>
    rw [List.forall_mem_cons] at hcs
    have hd : lexChar (.number acc) d = some ([], .number (d :: acc)) := if_pos hcs.1
    rw [List.cons_append, lexFrom_silent hd, ih hcs.2, List.reverse_cons, List.append_assoc]
    rfl

theorem spells_number {cs : List Char} (hc : lexChar .between c = some ([], .number [c]))
    (hcs : ∀ d ∈ cs, isNumberChar d = true)
    (h : numberToken? (c :: cs) = some (.number (c :: cs))) :
    Spells (c :: cs) [.number (c :: cs)] := by
  intro done rest hrest
  have hpending : (LexState.number (cs.reverse ++ [c])).pending? = some (.number (c :: cs)) := by
    simpa [LexState.pending?] using h
  rw [List.cons_append, lexFrom_silent hc, lexFrom_number hcs, lexFrom_pending hpending hrest]
  rfl

theorem isNumberChar_of_isDigit {d : Char} (hd : d.isDigit = true) : isNumberChar d = true := by
  simp [isNumberChar, hd]

theorem isDigits_of {cs : List Char} (hne : cs ≠ []) (h : ∀ c ∈ cs, c.isDigit = true) :
    isDigits cs = true := by
  rw [isDigits, List.isEmpty_eq_false_iff.mpr hne, List.all_eq_true.mpr h]
  rfl

/-- Digits follow the grammar unless a superfluous zero stands in front of them. -/
theorem isWholePart_of {cs : List Char} (hne : cs ≠ []) (h : ∀ c ∈ cs, c.isDigit = true)
    (hleading : cs = ['0'] ∨ cs.head? ≠ some '0') : isWholePart cs = true := by
  rw [isWholePart, isDigits_of hne h]
  rcases hleading with rfl | hleading
  · rfl
  · simp [hleading]

theorem isMagnitude_toDigits (n : Nat) : isMagnitude (Nat.toDigits 10 n) = true := by
  have hdigits : ∀ c ∈ Nat.toDigits 10 n, c.isDigit = true := fun _ =>
    Numeral.isDigit_of_mem_digits
  have hleading : Nat.toDigits 10 n = ['0'] ∨ (Nat.toDigits 10 n).head? ≠ some '0' := by
    rcases eq_or_ne n 0 with rfl | hn
    · exact .inl rfl
    · exact .inr (Numeral.head?_digits_ne_zero hn)
  have hwhole : isWholePart (Nat.toDigits 10 n) = true :=
    isWholePart_of Nat.toDigits_ne_nil hdigits hleading
  rw [isMagnitude, List.takeWhile_eq_self_iff.mpr hdigits, List.dropWhile_eq_nil_iff.mpr hdigits,
    hwhole]
  rfl

/-- A digit between tokens begins a number. -/
theorem lexBetween_digit (hc : c.isDigit = true) : lexBetween c = some ([], .number [c]) := by
  have hother {d : Char} (hd : d.isDigit = false) : c ≠ d := by
    rintro rfl
    rw [hc] at hd
    cases hd
  simp [lexBetween, isGap, hc, hother (d := ' ') rfl, hother (d := '\n') rfl,
    hother (d := '\t') rfl, hother (d := '\r') rfl, hother (d := '[') rfl,
    hother (d := ']') rfl, hother (d := '{') rfl, hother (d := '}') rfl, hother (d := ',') rfl,
    hother (d := ':') rfl, hother (d := '"') rfl]

/-- An unsigned number begins with a digit. -/
theorem head_isDigit_of_isMagnitude {cs : List Char} (h : isMagnitude cs = true) :
    ∃ c rest, cs = c :: rest ∧ c.isDigit = true := by
  cases cs with
  | nil => cases h
  | cons c rest =>
    refine ⟨c, rest, rfl, ?_⟩
    by_contra hc
    rw [isMagnitude, List.takeWhile_cons_of_neg hc] at h
    cases h

/-- **A number that follows the grammar is a token**, with a sign or without. -/
theorem spells_signed {cs : List Char} (h : isMagnitude cs = true)
    (hcs : ∀ d ∈ cs, isNumberChar d = true) (negative : Bool) :
    Spells (if negative then '-' :: cs else cs)
      [.number (if negative then '-' :: cs else cs)] := by
  cases negative with
  | true =>
    refine spells_number rfl hcs ?_
    rw [numberToken?, if_pos h]
  | false =>
    obtain ⟨c, rest, rfl, hc⟩ := head_isDigit_of_isMagnitude h
    refine spells_number (lexBetween_digit hc) (List.forall_mem_cons.mp hcs).2 ?_
    unfold numberToken?
    split
    · rename_i heq
      cases heq
      exact absurd hc (by decide)
    · rw [if_pos h]

/-- **The digits of an integer are a number token.** -/
theorem spells_integer (i : Int) : Spells (chars (.integer i)) [.number (integerChars i)] := by
  have hspells := spells_signed (isMagnitude_toDigits i.natAbs)
    (fun _ hd => isNumberChar_of_isDigit (Numeral.isDigit_of_mem_digits hd)) (decide (i < 0))
  simp only [decide_eq_true_eq] at hspells
  exact hspells

/-! ### Strings -/

namespace Piece

/-- The piece that is read of a written character. -/
def ofChar (c : Char) : Piece :=
  if c.toNat < 0x20 ∧ c ∉ ['\n', '\r', '\t', '\x08', '\x0c'] then .unit c.toNat else .char c

theorem charsAfter?_ofChar (cs done : List Char) :
    charsAfter? done (cs.map ofChar) = some (done.reverse ++ cs) := by
  induction cs generalizing done with
  | nil => simp [charsAfter?]
  | cons c cs ih =>
    rw [List.map_cons, ofChar]
    split
    · rename_i hc
      have hhigh : isHigh c.toNat = false := by simp [isHigh]; omega
      have hlow : isLow c.toNat = false := by simp [isLow]; omega
      unfold charsAfter?
      simp [hhigh, hlow, ih]
    · simp [charsAfter?, ih]

/-- **The pieces of a written string spell it again.** -/
theorem text?_ofChar (s : String) : text? (s.toList.map ofChar) = some s := by
  simp [text?, charsAfter?_ofChar]

end Piece

theorem hexValue?_digitChar : ∀ n < 16, hexValue? (Nat.digitChar n) = some n := by decide

theorem lexChar_backslash (pieces : List Piece) :
    lexChar (.inString pieces) '\\' = some ([], .backslash pieces) := rfl

/-- A letter behind a backslash is read as what it stands for. -/
theorem lexFrom_letter {d c : Char} (hd : d ≠ 'u') (h : unescape? d = some c)
    (pieces : List Piece) (done : List Token) (rest : List Char) :
    lexFrom (done, .inString pieces) ('\\' :: d :: rest) =
      lexFrom (done, .inString (.char c :: pieces)) rest := by
  have hletter : lexChar (.backslash pieces) d = some ([], .inString (.char c :: pieces)) := by
    rw [lexChar, if_neg hd, h]
    rfl
  rw [lexFrom_silent (lexChar_backslash pieces), lexFrom_silent hletter]

/-- The digits of a number below 256 are read as a unit. -/
theorem lexFrom_hex {n : Nat} (hn : n < 256) (pieces : List Piece) (done : List Token)
    (rest : List Char) :
    lexFrom (done, .inString pieces)
        ('\\' :: 'u' :: '0' :: '0' :: Nat.digitChar (n / 16) :: Nat.digitChar (n % 16) :: rest) =
      lexFrom (done, .inString (.unit n :: pieces)) rest := by
  have hdigit (value missing : Nat) {d : Nat} (hd : d < 16) :
      lexChar (.hex pieces value missing) (Nat.digitChar d) = some ([],
        if missing ≤ 1 then .inString (.unit (16 * value + d) :: pieces)
        else .hex pieces (16 * value + d) (missing - 1)) := by
    rw [lexChar, hexValue?_digitChar d hd]
    rfl
  have hopen : lexChar (.backslash pieces) 'u' = some ([], .hex pieces 0 4) := rfl
  have hfirst : lexChar (.hex pieces 0 4) '0' = some ([], .hex pieces 0 3) := rfl
  have hsecond : lexChar (.hex pieces 0 3) '0' = some ([], .hex pieces 0 2) := rfl
  have hunit : 16 * (n / 16) + n % 16 = n := Nat.div_add_mod n 16
  rw [lexFrom_silent (lexChar_backslash pieces), lexFrom_silent hopen, lexFrom_silent hfirst,
    lexFrom_silent hsecond, lexFrom_silent (hdigit 0 2 (by omega))]
  simp only [Nat.mul_zero, Nat.zero_add, Nat.reduceLeDiff, if_false]
  rw [lexFrom_silent (hdigit _ _ (by omega)), if_pos (by decide), hunit]

/-- **A character is read of what is written of it.** -/
theorem lexFrom_escapeChar (c : Char) (pieces : List Piece) (done : List Token)
    (rest : List Char) :
    lexFrom (done, .inString pieces) (escapeChar c ++ rest) =
      lexFrom (done, .inString (.ofChar c :: pieces)) rest := by
  have hletter (d e : Char) (hd : d ≠ 'u') (h : unescape? d = some e)
      (he : Piece.ofChar e = .char e) :
      lexFrom (done, .inString pieces) (['\\', d] ++ rest) =
        lexFrom (done, .inString (.ofChar e :: pieces)) rest := by
    rw [he]
    exact lexFrom_letter hd h pieces done rest
  unfold escapeChar
  -- First the characters that have letters of their own, then the other control characters, which
  -- are written by their numbers.
  split_ifs with h₁ h₂ h₃ h₄ h₅ h₆ h₇ h₈
  · subst h₁
    exact hletter _ _ (by decide) rfl rfl
  · subst h₂
    exact hletter _ _ (by decide) rfl rfl
  · subst h₃
    exact hletter _ _ (by decide) rfl rfl
  · subst h₄
    exact hletter _ _ (by decide) rfl rfl
  · subst h₅
    exact hletter _ _ (by decide) rfl rfl
  · subst h₆
    exact hletter _ _ (by decide) rfl rfl
  · subst h₇
    exact hletter _ _ (by decide) rfl rfl
  · have hunit : Piece.ofChar c = .unit c.toNat := if_pos ⟨h₈, by simp [*]⟩
    rw [hunit]
    exact lexFrom_hex (by omega) pieces done rest
  · have hplain : lexChar (.inString pieces) c = some ([], .inString (.char c :: pieces)) := by
      rw [lexChar, if_neg h₁, if_neg h₂, if_neg h₈]
    have hchar : Piece.ofChar c = .char c := if_neg fun h => h₈ h.1
    rw [hchar, List.singleton_append, lexFrom_silent hplain]

theorem lexFrom_characters (cs : List Char) (pieces : List Piece) (done : List Token)
    (rest : List Char) :
    lexFrom (done, .inString pieces) (cs.flatMap escapeChar ++ rest) =
      lexFrom (done, .inString ((cs.map Piece.ofChar).reverse ++ pieces)) rest := by
  induction cs generalizing pieces with
  | nil => rfl
  | cons c cs ih =>
    rw [List.flatMap_cons, List.append_assoc, lexFrom_escapeChar, ih]
    simp

/-- **A written string is read**, whatever stands behind it. -/
theorem Spells.string (s : String) (hb : Spells b ts) :
    Spells (stringChars s ++ b) (.string (s.toList.map Piece.ofChar) :: ts) := by
  intro done rest hrest
  have hopen : lexChar .between '"' = some ([], .inString []) := rfl
  have hclose (pieces : List Piece) :
      lexChar (.inString pieces) '"' = some ([.string pieces.reverse], .between) := rfl
  rw [stringChars, List.cons_append, List.cons_append, lexFrom_silent hopen, List.append_assoc,
    List.append_assoc, lexFrom_characters, List.singleton_append, lexFrom_token (hclose _),
    hb _ rest hrest]
  simp

end DocumentRules.Json
