/-
The grammar of written paths.

A written path is a row of segments, and the text `$` is the root.  A segment is a bare name or
a bracket, which holds a position or a quoted name; a bare name behind another segment has a dot
in front.  The grammar is a relation between texts and what they spell, and says nothing of how
they are read.

* **`Path.scan_afterIndex_iff`** — behind a segment, the scan reads what the grammar admits there;
* **`Path.parse_eq_ok_iff`** — a text is read as a path exactly if it spells it;
* **`Path.parse_accepts_grammar`** — so every other text is an error, and only `$` is the root.

The scan is followed one segment at a time: for each kind of segment one lemma says, in both
directions, how a scan that stands in front of it goes on.
-/
import DocumentRules.Document.PathText

namespace DocumentRules

namespace Path

/-! ### The grammar -/

/-- The characters that a bare name is made of. -/
def IsBare (c : Char) : Prop := c ≠ '.' ∧ c ≠ '[' ∧ c ≠ ']'

instance : DecidablePred IsBare := fun _ => inferInstanceAs (Decidable (_ ∧ _))

/-- A bare name in front of the rest of a text: it is not empty and ends where no further
character could belong to it. -/
structure BareName (name rest : List Char) : Prop where
  nonempty : name ≠ []
  bare : ∀ c ∈ name, IsBare c
  maximal : ∀ c, rest.head? = some c → ¬ IsBare c

/-- What characters between quotes spell: a backslash stands for the character behind it, and
every other character but a quote for itself. -/
inductive Quoted : List Char → List Char → Prop where
  | nil : Quoted [] []
  | plain {c : Char} {cs name : List Char} (notQuote : c ≠ '"') (notBackslash : c ≠ '\\')
      (rest : Quoted cs name) : Quoted (c :: cs) (c :: name)
  | escaped (c : Char) {cs name : List Char} (rest : Quoted cs name) :
      Quoted ('\\' :: c :: cs) (c :: name)

/-- The decimal digits of a number of 64 bits. -/
structure Digits (cs : List Char) (i : Nat) : Prop where
  nonempty : cs ≠ []
  digits : ∀ c ∈ cs, c.isDigit = true
  value : Nat.ofDigitChars 10 cs 0 = i
  bounded : i < UInt64.size

/-- A position is written in digits, perhaps behind a plus sign. -/
inductive Position : List Char → Nat → Prop where
  | unsigned {cs : List Char} {i : Nat} (h : Digits cs i) : Position cs i
  | signed {cs : List Char} {i : Nat} (h : Digits cs i) : Position ('+' :: cs) i

/-- A bracket holds a position, or a name in quotes. -/
inductive Bracket : List Char → Step → Prop where
  | position {cs : List Char} {i : Nat} (h : Position cs i) :
      Bracket ('[' :: (cs ++ [']'])) (.index i)
  | name {cs name : List Char} (h : Quoted cs name) :
      Bracket ('[' :: '"' :: (cs ++ ['"', ']'])) (.key (String.ofList name))

/-- The segments behind the first one. -/
inductive Later : List Char → Path → Prop where
  | nil : Later [] []
  | bare {name rest : List Char} {p : Path} (h : BareName name rest) (later : Later rest p) :
      Later ('.' :: (name ++ rest)) (.key (String.ofList name) :: p)
  | bracket {cs rest : List Char} {s : Step} {p : Path} (h : Bracket cs s)
      (later : Later rest p) : Later (cs ++ rest) (s :: p)

/-- A row of segments. -/
inductive Segments : List Char → Path → Prop where
  | bare {name rest : List Char} {p : Path} (h : BareName name rest) (later : Later rest p) :
      Segments (name ++ rest) (.key (String.ofList name) :: p)
  | bracket {cs rest : List Char} {s : Step} {p : Path} (h : Bracket cs s)
      (later : Later rest p) : Segments (cs ++ rest) (s :: p)

/-- The text spells the path. -/
def Spells (text : String) (p : Path) : Prop :=
  (text = "$" ∧ p = root) ∨ (text ≠ "$" ∧ Segments text.toList p)

/-! ### Positions -/

theorem Digits.ne {cs : List Char} {i : Nat} (h : Digits cs i) {d : Char}
    (hd : d.isDigit = false) : ∀ c ∈ cs, c ≠ d := by
  rintro c hc rfl
  rw [h.digits c hc] at hd
  cases hd

/-- Digits are read as the number that they are. -/
theorem readDigits_eq_some_iff {cs : List Char} {i : Nat} :
    (if cs.isEmpty || !cs.all Char.isDigit then none
      else if Nat.ofDigitChars 10 cs 0 < UInt64.size then some (Nat.ofDigitChars 10 cs 0)
      else none) = some i ↔ Digits cs i := by
  constructor
  · intro h
    split at h
    · cases h
    · rename_i hplain
      split at h
      · rename_i hbounded
        simp only [Bool.or_eq_true, List.isEmpty_iff, Bool.not_eq_true', List.all_eq_false,
          not_or, not_exists, not_and, Decidable.not_not] at hplain
        exact ⟨hplain.1, hplain.2, Option.some.inj h, Option.some.inj h ▸ hbounded⟩
      · cases h
  · rintro ⟨hne, hdigits, rfl, hbounded⟩
    rw [if_neg (by simpa using ⟨hne, hdigits⟩), if_pos hbounded]

/-- A position is read as the grammar says. -/
theorem readIndex?_eq_some_iff {cs : List Char} {i : Nat} :
    readIndex? cs = some i ↔ Position cs i := by
  unfold readIndex?
  simp only [← Nat.ofDigitChars_eq_foldl]
  split
  · -- The sign is left out, and no digit is a sign.
    rw [readDigits_eq_some_iff]
    constructor
    · exact .signed
    · intro h
      cases h with
      | unsigned h => exact absurd rfl (h.ne (by decide) '+' (List.mem_cons_self ..))
      | signed h => exact h
  · rename_i hunsigned
    rw [readDigits_eq_some_iff]
    constructor
    · exact .unsigned
    · intro h
      cases h with
      | unsigned h => exact h
      | signed h => exact absurd rfl (hunsigned _)

theorem Position.nonempty {cs : List Char} {i : Nat} (h : Position cs i) : cs ≠ [] := by
  cases h with
  | unsigned h => exact h.nonempty
  | signed _ => exact List.cons_ne_nil _ _

/-- A position holds nothing but digits and a plus sign. -/
theorem Position.ne {cs : List Char} {i : Nat} (h : Position cs i) {d : Char}
    (hd : d.isDigit = false) (hplus : '+' ≠ d) : ∀ c ∈ cs, c ≠ d := by
  cases h with
  | unsigned h => exact h.ne hd
  | signed h =>
    intro c hc
    rcases List.mem_cons.mp hc with rfl | hc
    · exact hplus
    · exact h.ne hd c hc

/-! ### The scan in front of a segment -/

theorem map_cons_eq_ok {ε : Type} {x : Except ε Path} {s : Step} {p : Path} :
    x.map (s :: ·) = .ok p ↔ ∃ q, x = .ok q ∧ p = s :: q := by
  cases x <;> simp [Except.map, eq_comm]

variable {cs : List Char} {p : Path}

-- With the place and the next character known, `simp` takes the step of the scan.
attribute [local simp] scan

/-- Behind a quoted name a text goes on as behind a position. -/
theorem scan_afterQuotedKey_iff :
    scan .afterQuotedKey cs = .ok p ↔ scan .afterIndex cs = .ok p := by
  cases cs with
  | nil => rfl
  | cons c cs =>
    simp only [scan]
    split
    · rfl
    · split
      · rfl
      · simp

/-! ### Bare names -/

/-- A text whose first character is bare begins with a bare name. -/
theorem exists_bareName {c : Char} (hc : IsBare c) (cs : List Char) :
    ∃ name rest, c :: cs = name ++ rest ∧ BareName name rest := by
  refine ⟨(c :: cs).takeWhile (IsBare ·), (c :: cs).dropWhile (IsBare ·),
    List.takeWhile_append_dropWhile.symm, ?_, ?_, ?_⟩
  · simp [hc]
  · intro d hd
    simpa using List.all_eq_true.mp List.all_takeWhile d hd
  · intro d hd
    have hstop := List.head?_dropWhile_not (fun c => decide (IsBare c)) (c :: cs)
    simpa [hd] using hstop

/-- A bare name that has begun goes on through bare characters. -/
theorem scan_inKey_append {more : List Char} (hmore : ∀ c ∈ more, IsBare c)
    (done rest : List Char) :
    scan (.inKey done) (more ++ rest) = scan (.inKey (done ++ more)) rest := by
  induction more generalizing done with
  | nil => simp
  | cons c more ih =>
    obtain ⟨hdot, hopen, hclose⟩ := hmore c (List.mem_cons_self ..)
    rw [List.cons_append, scan, if_neg hdot, if_neg hopen, if_neg hclose,
      ih fun d hd => hmore d (List.mem_cons_of_mem c hd)]
    simp

/-- A bare name is a step where a character follows that does not belong to it. -/
theorem scan_inKey_iff {name rest : List Char} (h : ∀ c, rest.head? = some c → ¬ IsBare c) :
    scan (.inKey name) rest = .ok p ↔
      ∃ q, scan .afterIndex rest = .ok q ∧ p = .key (String.ofList name) :: q := by
  cases rest with
  | nil => simp [eq_comm]
  | cons c rest =>
    have hc : ¬ IsBare c := h c rfl
    simp only [scan]
    split
    · exact map_cons_eq_ok
    · split
      · exact map_cons_eq_ok
      · rename_i hdot hopen
        by_cases hclose : c = ']'
        · simp [hclose]
        · exact absurd ⟨hdot, hopen, hclose⟩ hc

/-- The scan enters a bare name at its first character, also behind a dot. -/
theorem scan_bareName {name rest : List Char} (h : BareName name rest) :
    scan .start (name ++ rest) = scan (.inKey name) rest ∧
      scan .afterDot (name ++ rest) = scan (.inKey name) rest := by
  cases name with
  | nil => exact absurd rfl h.nonempty
  | cons c name =>
    obtain ⟨hdot, hopen, hclose⟩ := h.bare c (List.mem_cons_self ..)
    have hname : ∀ d ∈ name, IsBare d := fun d hd => h.bare d (List.mem_cons_of_mem c hd)
    rw [List.cons_append, scan, scan, if_neg hdot, if_neg hopen, if_neg hclose,
      if_neg (not_or.mpr ⟨hdot, hopen⟩), scan_inKey_append hname]
    exact ⟨rfl, rfl⟩

/-- Behind a dot, a bare name is read. -/
theorem scan_afterDot_iff :
    scan .afterDot cs = .ok p ↔
      ∃ name rest q, cs = name ++ rest ∧ BareName name rest ∧ scan .afterIndex rest = .ok q ∧
        p = .key (String.ofList name) :: q := by
  constructor
  · intro h
    cases cs with
    | nil => cases h
    | cons c cs =>
      have hc : IsBare c := by
        refine ⟨?_, ?_, ?_⟩ <;>
        · rintro rfl
          cases h
      obtain ⟨name, rest, hcs, hname⟩ := exists_bareName hc cs
      rw [hcs, (scan_bareName hname).2] at h
      obtain ⟨q, hq, hp⟩ := (scan_inKey_iff hname.maximal).mp h
      exact ⟨name, rest, q, hcs, hname, hq, hp⟩
  · rintro ⟨name, rest, q, rfl, hname, hq, hp⟩
    rw [(scan_bareName hname).2]
    exact (scan_inKey_iff hname.maximal).mpr ⟨q, hq, hp⟩

/-- At the start, a bare name or a bracket is read. -/
theorem scan_start_iff :
    scan .start cs = .ok p ↔
      scan .afterDot cs = .ok p ∨ ∃ tail, cs = '[' :: tail ∧ scan (.inIndex []) tail = .ok p := by
  cases cs with
  | nil => simp
  | cons c cs =>
    simp only [scan, List.cons.injEq]
    by_cases hdot : c = '.' <;> by_cases hopen : c = '[' <;> simp_all

/-! ### Brackets -/

/-- Between quotes, characters are read as what they spell. -/
theorem scan_inQuotes_append {raw name : List Char} (h : Quoted raw name) (done rest : List Char) :
    scan (.inQuotes done) (raw ++ rest) = scan (.inQuotes (done ++ name)) rest := by
  induction h generalizing done with
  | nil => simp
  | plain notQuote notBackslash _ ih =>
    rw [List.cons_append, scan, if_neg notQuote, if_neg notBackslash, ih]
    simp
  | escaped c _ ih =>
    rw [List.cons_append, scan, if_neg (by decide), if_pos rfl, List.cons_append, scan, ih]
    simp

/-- Where a path is read from inside quotes on, there is a closing quote. -/
theorem exists_quoted :
    (∀ done, scan (.inQuotes done) cs = .ok p →
      ∃ raw name rest, cs = raw ++ '"' :: rest ∧ Quoted raw name) ∧
    ∀ done, scan (.afterBackslash done) cs = .ok p →
      ∃ c raw name rest, cs = c :: (raw ++ '"' :: rest) ∧ Quoted raw name := by
  induction cs with
  | nil => exact ⟨fun _ h => (nomatch h), fun _ h => (nomatch h)⟩
  | cons c cs ih =>
    constructor
    · intro done h
      rw [scan] at h
      split at h
      · rename_i hquote
        exact ⟨[], [], cs, by rw [hquote]; rfl, .nil⟩
      · rename_i hquote
        split at h
        · rename_i hbackslash
          obtain ⟨d, raw, name, rest, rfl, hname⟩ := ih.2 _ h
          exact ⟨c :: d :: raw, d :: name, rest, rfl, hbackslash ▸ .escaped d hname⟩
        · rename_i hbackslash
          obtain ⟨raw, name, rest, rfl, hname⟩ := ih.1 _ h
          exact ⟨c :: raw, c :: name, rest, rfl, .plain hquote hbackslash hname⟩
    · intro done h
      rw [scan] at h
      obtain ⟨raw, name, rest, rfl, hname⟩ := ih.1 _ h
      exact ⟨c, raw, name, rest, rfl, hname⟩

/-- Behind the closing quote, the bracket is closed. -/
theorem scan_afterQuotes_iff {name : List Char} :
    scan (.afterQuotes name) cs = .ok p ↔
      ∃ rest q, cs = ']' :: rest ∧ scan .afterIndex rest = .ok q ∧
        p = .key (String.ofList name) :: q := by
  cases cs with
  | nil => simp
  | cons c cs =>
    rw [scan]
    split
    · rename_i hclose
      simp [hclose, map_cons_eq_ok, scan_afterQuotedKey_iff]
    · rename_i hclose
      simp [hclose]

/-- A position that has begun goes on to the closing bracket. -/
theorem scan_inIndex_append {more : List Char} (hmore : ∀ c ∈ more, c ≠ ']' ∧ c ≠ '[')
    {done : List Char} (hdone : done ≠ []) (rest : List Char) :
    scan (.inIndex done) (more ++ rest) = scan (.inIndex (done ++ more)) rest := by
  induction more generalizing done with
  | nil => simp
  | cons c more ih =>
    obtain ⟨hclose, hopen⟩ := hmore c (List.mem_cons_self ..)
    rw [List.cons_append, scan, if_neg hclose, if_neg hopen, if_neg fun h => hdone h.2,
      ih (fun d hd => hmore d (List.mem_cons_of_mem c hd)) (by simp)]
    simp

/-- At the closing bracket, a position is a step. -/
theorem scan_inIndex_close_iff {digits rest : List Char} :
    scan (.inIndex digits) (']' :: rest) = .ok p ↔
      ∃ i q, Position digits i ∧ scan .afterIndex rest = .ok q ∧ p = .index i :: q := by
  simp only [scan, if_true, ← readIndex?_eq_some_iff]
  cases readIndex? digits <;> simp [map_cons_eq_ok]

/-- Where a path is read from inside a position on, there is a closing bracket. -/
theorem exists_close {done : List Char} (hdone : done ≠ [])
    (h : scan (.inIndex done) cs = .ok p) :
    ∃ more rest, cs = more ++ ']' :: rest ∧ ∀ c ∈ more, c ≠ ']' ∧ c ≠ '[' := by
  induction cs generalizing done with
  | nil => cases h
  | cons c cs ih =>
    rw [scan] at h
    split at h
    · rename_i hclose
      exact ⟨[], cs, by rw [hclose]; rfl, fun _ hd => absurd hd List.not_mem_nil⟩
    · rename_i hclose
      split at h
      · cases h
      · rename_i hopen
        rw [if_neg fun h => hdone h.2] at h
        obtain ⟨more, rest, rfl, hmore⟩ := ih (by simp) h
        refine ⟨c :: more, rest, rfl, fun d hd => ?_⟩
        rcases List.mem_cons.mp hd with rfl | hd
        · exact ⟨hclose, hopen⟩
        · exact hmore d hd

/-- Behind an opening bracket, the rest of the bracket is a step. -/
theorem Bracket.scan_tail {tail : List Char} {s : Step} (h : Bracket ('[' :: tail) s)
    (rest : List Char) :
    scan (.inIndex []) (tail ++ rest) = .ok p ↔
      ∃ q, scan .afterIndex rest = .ok q ∧ p = s :: q := by
  cases h with
  | @position digits i hi =>
    cases digits with
    | nil => exact absurd rfl hi.nonempty
    | cons c more =>
      have hclose := hi.ne (d := ']') (by decide) (by decide)
      have hopen := hi.ne (d := '[') (by decide) (by decide)
      have hquote := hi.ne (d := '"') (by decide) (by decide)
      rw [List.forall_mem_cons] at hclose hopen hquote
      have hmore : ∀ d ∈ more, d ≠ ']' ∧ d ≠ '[' := fun d hd => ⟨hclose.2 d hd, hopen.2 d hd⟩
      rw [List.append_assoc, List.cons_append, scan, if_neg hclose.1, if_neg hopen.1,
        if_neg fun h => hquote.1 h.1, List.nil_append,
        scan_inIndex_append hmore (List.cons_ne_nil c [])]
      simp [readIndex?_eq_some_iff.mpr hi, map_cons_eq_ok]
  | @name raw name hname =>
    rw [List.cons_append, List.append_assoc, scan, if_neg (by decide), if_neg (by decide),
      if_pos ⟨rfl, rfl⟩, scan_inQuotes_append hname, List.cons_append, scan, if_pos rfl]
    simp [map_cons_eq_ok, scan_afterQuotedKey_iff]

/-- Behind an opening bracket, the rest of a bracket is read. -/
theorem scan_bracket_iff :
    scan (.inIndex []) cs = .ok p ↔
      ∃ tail s rest q, cs = tail ++ rest ∧ Bracket ('[' :: tail) s ∧
        scan .afterIndex rest = .ok q ∧ p = s :: q := by
  constructor
  · intro h
    cases cs with
    | nil => cases h
    | cons c cs =>
      rw [scan] at h
      split at h
      · cases h
      · split at h
        · cases h
        · -- A quote opens a name, and anything else a position.
          split at h
          · rename_i hquote
            obtain ⟨rfl, -⟩ := hquote
            obtain ⟨raw, name, rest, rfl, hname⟩ := exists_quoted.1 _ h
            rw [scan_inQuotes_append hname, scan, if_pos rfl, scan_afterQuotes_iff] at h
            obtain ⟨rest, q, rfl, hq, rfl⟩ := h
            exact ⟨_, _, rest, q, by simp, .name hname, hq, rfl⟩
          · obtain ⟨more, rest, rfl, hmore⟩ := exists_close (List.cons_ne_nil c []) h
            rw [List.nil_append, scan_inIndex_append hmore (List.cons_ne_nil c []),
              scan_inIndex_close_iff] at h
            obtain ⟨i, q, hi, hq, rfl⟩ := h
            exact ⟨_, _, rest, q, by simp, .position hi, hq, rfl⟩
  · rintro ⟨tail, s, rest, q, rfl, hbracket, hq, rfl⟩
    exact (hbracket.scan_tail rest).mpr ⟨q, hq, rfl⟩

/-! ### Whole texts -/

theorem Bracket.exists_tail {s : Step} (h : Bracket cs s) : ∃ tail, cs = '[' :: tail := by
  cases h <;> exact ⟨_, rfl⟩

/-- What stands behind a segment begins with no bare character. -/
theorem Later.not_bare {rest : List Char} (h : Later rest p) :
    ∀ c, rest.head? = some c → ¬ IsBare c := by
  cases h with
  | nil => simp
  | bare => simp [IsBare]
  | bracket h =>
    obtain ⟨tail, rfl⟩ := h.exists_tail
    simp [IsBare]

/-- **Behind a segment**, the scan reads what the grammar admits there. -/
theorem scan_afterIndex_iff : scan .afterIndex cs = .ok p ↔ Later cs p := by
  constructor
  · intro h
    induction hn : cs.length using Nat.strongRecOn generalizing cs p with
    | _ n ih =>
      cases cs with
      | nil =>
        obtain rfl := Except.ok.inj h
        exact .nil
      | cons c cs =>
        rw [scan] at h
        split at h
        · rename_i hdot
          obtain ⟨name, rest, q, rfl, hname, hq, rfl⟩ := scan_afterDot_iff.mp h
          rw [hdot]
          exact .bare hname (ih rest.length (by simp at hn; omega) hq rfl)
        · split at h
          · rename_i hopen
            obtain ⟨tail, s, rest, q, rfl, hbracket, hq, rfl⟩ := scan_bracket_iff.mp h
            rw [hopen]
            exact .bracket hbracket (ih rest.length (by simp at hn; omega) hq rfl)
          · cases h
  · intro h
    induction h with
    | nil => rfl
    | bare hname _ ih =>
      rw [scan, if_pos rfl]
      exact scan_afterDot_iff.mpr ⟨_, _, _, rfl, hname, ih, rfl⟩
    | @bracket cs rest s p hbracket _ ih =>
      obtain ⟨tail, rfl⟩ := hbracket.exists_tail
      rw [List.cons_append, scan, if_neg (by decide), if_pos rfl]
      exact scan_bracket_iff.mpr ⟨tail, s, rest, p, rfl, hbracket, ih, rfl⟩

/-- At the start, a row of segments is read. -/
theorem scan_start_iff_segments : scan .start cs = .ok p ↔ Segments cs p := by
  simp only [scan_start_iff, scan_afterDot_iff, scan_bracket_iff, scan_afterIndex_iff]
  constructor
  · rintro (⟨name, rest, q, rfl, hname, hq, rfl⟩ | ⟨_, rfl, tail, s, rest, q, rfl, hs, hq, rfl⟩)
    · exact .bare hname hq
    · exact .bracket hs hq
  · intro h
    cases h with
    | bare hname hq => exact Or.inl ⟨_, _, _, rfl, hname, hq, rfl⟩
    | @bracket cs rest s q hs hq =>
      obtain ⟨tail, rfl⟩ := hs.exists_tail
      exact Or.inr ⟨_, rfl, tail, s, rest, q, rfl, hs, hq, rfl⟩

/-- Segments spell at least one step. -/
theorem Segments.ne_root (h : Segments cs p) : p ≠ root := by
  cases h <;> exact List.cons_ne_nil _ _

/-- **A text is read as a path exactly if it spells it.** -/
theorem parse_eq_ok_iff {text : String} : parse text = .ok p ↔ Spells text p := by
  unfold parse Spells
  split
  · rename_i hroot
    simp [hroot, eq_comm]
  · rename_i hroot
    rw [← scan_start_iff_segments]
    cases scan .start text.toList <;> simp [hroot]

/-- **Reading accepts exactly the grammar.**  A text is read as a path exactly if it spells it,
every other text is an error, and only `$` is the root. -/
theorem parse_accepts_grammar (text : String) :
    (∀ p, parse text = .ok p ↔ Spells text p) ∧
      ((¬ ∃ p, Spells text p) ↔ ∃ fault, parse text = .error ⟨text, fault⟩) ∧
      (parse text = .ok root ↔ text = "$") := by
  refine ⟨fun p => parse_eq_ok_iff, ?_, ?_⟩
  · simp only [← parse_eq_ok_iff, parse]
    split
    · simp
    · cases scan .start text.toList <;> simp
  · rw [parse_eq_ok_iff, Spells]
    constructor
    · rintro (⟨htext, -⟩ | ⟨-, hsegments⟩)
      · exact htext
      · exact absurd rfl hsegments.ne_root
    · exact fun htext => Or.inl ⟨htext, rfl⟩

end Path

end DocumentRules
