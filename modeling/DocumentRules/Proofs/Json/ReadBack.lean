/-
Written JSON is read back.

The tokens of a written value build a syntax tree, whatever containers are open around it, and
the tree stands for the value.

* `Reads` — a text is read as a tree;
* **`reads_array`**, **`reads_object`** — containers are read of what their members are read of;
* **`Writable.exists_tree`** — a value with integers of 64 bits and finite floating-point numbers
  is written as the text of a tree that stands for it;
* **`render_injective`** — so two such values with one text are the same;
* **`parse_render`** — nested no deeper than texts may be, the value is read from its text.
-/
import DocumentRules.Proofs.Json.Real
import Mathlib.Data.List.Forall2

namespace DocumentRules.Json

open DocumentRules.Json.Tree (readToken afterValue)

/-- The tokens build this tree where a value is expected. -/
def Builds (tokens : List Token) (t : Tree) : Prop :=
  ∀ stack, tokens.foldlM readToken (stack, .value) = some (afterValue stack t)

/-- The text is read as this tree. -/
def Reads (text : List Char) (t : Tree) : Prop := ∃ tokens, Spells text tokens ∧ Builds tokens t

theorem Reads.parse? {text : List Char} {t : Tree} (h : Reads text t) :
    Tree.parse? (String.ofList text) = some t := by
  obtain ⟨tokens, hspells, hbuilds⟩ := h
  have hlex : lex text = some tokens := by
    have hfrom := hspells [] [] trivial
    rw [List.append_nil, List.append_nil, lexFrom_nil] at hfrom
    show lexFrom ([], .between) text = _
    rw [hfrom]
    simp [lexEnd]
  rw [Tree.parse?, String.toList_ofList, hlex, Option.bind_some, Tree.ofTokens?, hbuilds]
  rfl

theorem reads_token {text : List Char} {token : Token} {t : Tree} (hspells : Spells text [token])
    (ht : ∀ stack, Tree.readValue stack token = some (afterValue stack t)) : Reads text t := by
  refine ⟨[token], hspells, fun stack => ?_⟩
  have hread : readToken (stack, .value) token = some (afterValue stack t) := ht stack
  rw [List.foldlM_cons, hread]
  rfl

/-- What is read where a value is expected is also read where an array may close. -/
theorem Builds.valueOrClose {tokens : List Token} {t : Tree} (h : Builds tokens t)
    (stack : List Tree.Frame) :
    tokens.foldlM readToken (.array [] :: stack, .valueOrClose) =
      some (afterValue (.array [] :: stack) t) := by
  rw [← h]
  -- The states differ in what they do with a bracket that closes, and no value begins with one.
  cases tokens with
  | nil => cases h []
  | cons token tokens =>
    rw [List.foldlM_cons, List.foldlM_cons]
    cases token with
    | closeArray => cases h []
    | _ => rfl

/-! ### Containers -/

/-- The further members of an array, up to its end. -/
theorem spells_items {items : List Json} {trees : List Tree}
    (h : List.Forall₂ (fun j t => Reads (chars j) t) items trees) :
    ∃ tokens, Spells (itemChars items ++ [']']) tokens ∧ ∀ stack before last,
      tokens.foldlM readToken (.array before :: stack, .separator last) =
        some (afterValue stack (.array ((last :: before).reverse ++ trees))) := by
  induction h with
  | nil =>
    refine ⟨[.closeArray], spells_nil.mark rfl, fun stack before last => ?_⟩
    rw [List.append_nil]
    rfl
  | @cons item t items trees hitem _ ih =>
    obtain ⟨ts, hts, hbuilds⟩ := hitem
    obtain ⟨us, hus, hrest⟩ := ih
    refine ⟨.comma :: (ts ++ us), ?_, fun stack before last => ?_⟩
    · rw [itemChars, List.cons_append, List.append_assoc]
      refine Spells.mark rfl (hts.append hus ?_ (by simp))
      cases items <;> simp [itemChars, AtEnd]
    · have hcomma : readToken (.array before :: stack, .separator last) .comma =
          some (.array (last :: before) :: stack, .value) := rfl
      rw [List.foldlM_cons, hcomma]
      show (ts ++ us).foldlM readToken _ = _
      rw [List.foldlM_append, hbuilds]
      show us.foldlM readToken (.array (last :: before) :: stack, .separator t) = _
      rw [hrest]
      simp

/-- **An array is read of what its members are read of.** -/
theorem reads_array {items : List Json} {trees : List Tree}
    (h : List.Forall₂ (fun j t => Reads (chars j) t) items trees) :
    Reads (chars (.array items)) (.array trees) := by
  cases h with
  | nil =>
    exact ⟨[.openArray, .closeArray], (spells_nil.mark rfl).mark rfl, fun stack => rfl⟩
  | @cons item t items trees hitem hitems =>
    obtain ⟨ts, hts, hbuilds⟩ := hitem
    obtain ⟨us, hus, hrest⟩ := spells_items hitems
    refine ⟨.openArray :: (ts ++ us), ?_, fun stack => ?_⟩
    · rw [chars]
      refine Spells.mark rfl (hts.append hus ?_ (by simp))
      cases items <;> simp [itemChars, AtEnd]
    · have hopen : readToken (stack, .value) .openArray =
          some (.array [] :: stack, .valueOrClose) := rfl
      rw [List.foldlM_cons, hopen]
      show (ts ++ us).foldlM readToken _ = _
      rw [List.foldlM_append, hbuilds.valueOrClose]
      exact hrest stack [] t

/-- The entry is read as this one: the pieces of its name, and the tree of its value. -/
structure ReadsEntry (e : String × Json) (t : List Piece × Tree) : Prop where
  name : t.1 = e.1.toList.map Piece.ofChar
  value : Reads (chars e.2) t.2

/-- The further entries of an object, up to its end. -/
theorem spells_entries {entries : List (String × Json)} {trees : List (List Piece × Tree)}
    (h : List.Forall₂ ReadsEntry entries trees) :
    ∃ tokens, Spells (entryChars entries ++ ['}']) tokens ∧ ∀ stack before name last,
      tokens.foldlM readToken (.object before name :: stack, .separator last) =
        some (afterValue stack (.object (((name, last) :: before).reverse ++ trees))) := by
  induction h with
  | nil =>
    refine ⟨[.closeObject], spells_nil.mark rfl, fun stack before name last => ?_⟩
    rw [List.append_nil]
    rfl
  | @cons e t entries trees hentry _ ih =>
    obtain ⟨key, value⟩ := e
    obtain ⟨pieces, t⟩ := t
    obtain ⟨rfl, ts, hts, hbuilds⟩ := hentry
    obtain ⟨us, hus, hrest⟩ := ih
    refine ⟨.comma :: .string (key.toList.map Piece.ofChar) :: .colon :: (ts ++ us), ?_,
      fun stack before name last => ?_⟩
    · rw [entryChars, List.cons_append, List.append_assoc, List.cons_append, List.append_assoc]
      refine Spells.mark rfl (Spells.string key (Spells.mark rfl (hts.append hus ?_ (by simp))))
      cases entries <;> simp [entryChars, AtEnd]
    · show (ts ++ us).foldlM readToken
        (.object ((name, last) :: before) (key.toList.map Piece.ofChar) :: stack, .value) = _
      rw [List.foldlM_append, hbuilds]
      show us.foldlM readToken (.object ((name, last) :: before) _ :: stack, .separator t) = _
      rw [hrest]
      simp

/-- **An object is read of what its entries are read of.** -/
theorem reads_object {entries : List (String × Json)} {trees : List (List Piece × Tree)}
    (h : List.Forall₂ ReadsEntry entries trees) :
    Reads (chars (.object entries)) (.object trees) := by
  cases h with
  | nil =>
    exact ⟨[.openObject, .closeObject], (spells_nil.mark rfl).mark rfl, fun stack => rfl⟩
  | @cons e t entries trees hentry hentries =>
    obtain ⟨key, value⟩ := e
    obtain ⟨pieces, t⟩ := t
    obtain ⟨rfl, ts, hts, hbuilds⟩ := hentry
    obtain ⟨us, hus, hrest⟩ := spells_entries hentries
    refine ⟨.openObject :: .string (key.toList.map Piece.ofChar) :: .colon :: (ts ++ us), ?_,
      fun stack => ?_⟩
    · rw [chars]
      refine Spells.mark rfl (Spells.string key (Spells.mark rfl (hts.append hus ?_ (by simp))))
      cases entries <;> simp [entryChars, AtEnd]
    · show (ts ++ us).foldlM readToken
        (.object [] (key.toList.map Piece.ofChar) :: stack, .value) = _
      rw [List.foldlM_append, hbuilds]
      exact hrest stack [] _ t

/-! ### The value of what is read -/

/-- The value nests at most this many containers, and the numbers in it are such that a text can
stand for them. -/
inductive Writable : Nat → Json → Prop where
  | null {d : Nat} : Writable d .null
  | bool {d : Nat} (b : Bool) : Writable d (.bool b)
  | integer {d : Nat} {i : Int} (hlow : Int64.minValue.toInt ≤ i) (hhigh : i < UInt64.size) :
      Writable d (.integer i)
  | real {d : Nat} {x : Binary64} (h : x.isFinite = true) : Writable d (.real x)
  | string {d : Nat} (s : String) : Writable d (.string s)
  | array {d : Nat} {items : List Json} (h : ∀ j ∈ items, Writable d j) :
      Writable (d + 1) (.array items)
  | object {d : Nat} {entries : List (String × Json)} (h : ∀ e ∈ entries, Writable d e.2) :
      Writable (d + 1) (.object entries)

theorem Writable.mono {d d' : Nat} {j : Json} (h : Writable d j) (hd : d ≤ d') :
    Writable d' j := by
  induction h generalizing d' with
  | null => exact .null
  | bool b => exact .bool b
  | integer hlow hhigh => exact .integer hlow hhigh
  | real h => exact .real h
  | string s => exact .string s
  | array _ ih =>
    obtain ⟨d', rfl⟩ : ∃ n, d' = n + 1 := ⟨d' - 1, by omega⟩
    exact .array fun j hj => ih j hj (by omega)
  | object _ ih =>
    obtain ⟨d', rfl⟩ : ∃ n, d' = n + 1 := ⟨d' - 1, by omega⟩
    exact .object fun e he => ih e he (by omega)

mutual

/-- The greatest number of containers that are open at once in the text of a value. -/
def nesting : Json → Nat
  | .array items => itemsNesting items + 1
  | .object entries => entriesNesting entries + 1
  | _ => 0

def itemsNesting : List Json → Nat
  | [] => 0
  | j :: js => max (nesting j) (itemsNesting js)

def entriesNesting : List (String × Json) → Nat
  | [] => 0
  | (_, j) :: es => max (nesting j) (entriesNesting es)

end

theorem nesting_le_itemsNesting {j : Json} {items : List Json} (hj : j ∈ items) :
    j.nesting ≤ itemsNesting items := by
  induction hj with
  | head => exact le_max_left ..
  | tail _ _ ih => exact ih.trans (le_max_right ..)

theorem nesting_le_entriesNesting {e : String × Json} {entries : List (String × Json)}
    (he : e ∈ entries) : e.2.nesting ≤ entriesNesting entries := by
  induction he with
  | head => exact le_max_left ..
  | tail _ _ ih => exact ih.trans (le_max_right ..)

/-- **What can be written at all is written at the depth that it has.** -/
theorem Writable.at_nesting {d : Nat} {j : Json} (h : Writable d j) : Writable j.nesting j := by
  induction h with
  | null => exact .null
  | bool b => exact .bool b
  | integer hlow hhigh => exact .integer hlow hhigh
  | real h => exact .real h
  | string s => exact .string s
  | array _ ih =>
    rw [nesting]
    exact .array fun j hj => (ih j hj).mono (nesting_le_itemsNesting hj)
  | object _ ih =>
    rw [nesting]
    exact .object fun e he => (ih e he).mono (nesting_le_entriesNesting he)

theorem magnitude?_toDigits {negative : Bool} {n : Nat} {i : Int}
    (hi : i = if negative then -(n : Int) else n) (hzero : negative = true → n ≠ 0)
    (hlow : Int64.minValue.toInt ≤ i) (hhigh : i < UInt64.size) :
    magnitude? negative (Nat.toDigits 10 n) = some (.integer i) := by
  have hdigits : (Nat.toDigits 10 n).all Char.isDigit = true :=
    List.all_eq_true.mpr fun _ => Nat.isDigit_of_mem_toDigits (by decide) (by decide)
  have hreal : ¬ ((negative && n == 0) || i < Int64.minValue.toInt || UInt64.size ≤ i) = true := by
    simp only [Bool.or_eq_true, Bool.and_eq_true, beq_iff_eq, decide_eq_true_eq]
    rintro ((⟨hnegative, hn⟩ | hbelow) | habove)
    · exact hzero hnegative hn
    · exact absurd hbelow (Int.not_lt.mpr hlow)
    · exact absurd habove (Int.not_le.mpr hhigh)
  have hvalue : Numeral.natValue (Nat.toDigits 10 n) = n := Numeral.natValue_digits n
  rw [magnitude?, if_pos hdigits, hvalue]
  subst hi
  exact if_neg hreal

/-- **The digits of an integer stand for it.** -/
theorem number?_integerChars {i : Int} (hlow : Int64.minValue.toInt ≤ i)
    (hhigh : i < UInt64.size) : number? (integerChars i) = some (.integer i) := by
  rw [integerChars]
  split
  · rename_i hneg
    have hvalue : i = if true then -(i.natAbs : Int) else i.natAbs := by
      rw [if_pos rfl]
      omega
    exact magnitude?_toDigits hvalue (by omega) hlow hhigh
  · rename_i hneg
    have hsign : ∀ cs, Nat.toDigits 10 i.natAbs ≠ '-' :: cs := by
      intro cs hcs
      have hdigit : '-'.isDigit = true :=
        Nat.isDigit_of_mem_toDigits (b := 10) (n := i.natAbs) (by decide) (by decide)
          (hcs ▸ List.mem_cons_self ..)
      exact absurd hdigit (by decide)
    rw [number?]
    · have hvalue : i = if false then -(i.natAbs : Int) else i.natAbs := by
        rw [if_neg Bool.false_ne_true]
        omega
      exact magnitude?_toDigits hvalue (absurd · Bool.false_ne_true) hlow hhigh
    · exact hsign

theorem exists_forall₂ {α β : Type} {R : α → β → Prop} {as : List α}
    (h : ∀ a ∈ as, ∃ b, R a b) : ∃ bs, List.Forall₂ R as bs := by
  induction as with
  | nil => exact ⟨[], .nil⟩
  | cons a as ih =>
    obtain ⟨⟨b, hb⟩, hrest⟩ := List.forall_mem_cons.mp h
    obtain ⟨bs, hbs⟩ := ih hrest
    exact ⟨b :: bs, .cons hb hbs⟩

theorem itemValues?_eq {d : Nat} {items : List Json} {trees : List Tree}
    (h : List.Forall₂ (fun j t => t.value? .whole d = some j) items trees) (i : Nat) :
    Tree.itemValues? .whole d i trees = some items := by
  induction h generalizing i with
  | nil => rfl
  | cons hitem _ ih =>
    rw [Tree.itemValues?, Shape.item, hitem, ih]
    rfl

theorem entryValues?_eq {d : Nat} {entries : List (String × Json)}
    {trees : List (List Piece × Tree)}
    (h : List.Forall₂ (fun e t => t.1 = e.1.toList.map Piece.ofChar ∧
      t.2.value? .whole d = some e.2) entries trees) :
    Tree.entryValues? .whole d trees = some entries := by
  induction h with
  | nil => rfl
  | @cons e t entries trees hentry _ ih =>
    obtain ⟨pieces, t⟩ := t
    obtain ⟨rfl, hvalue⟩ := hentry
    rw [Tree.entryValues?, Piece.text?_ofChar]
    simp only [Option.bind_eq_bind, Option.bind_some, Shape.entry?, hvalue, ih]
    rfl

/-- **A written value is the text of a tree that stands for it.** -/
theorem Writable.exists_tree {d : Nat} {j : Json} (h : Writable d j) :
    ∃ t, Reads (chars j) t ∧ t.value? .whole d = some j := by
  induction h with
  | null => exact ⟨.word .null, reads_token spells_null fun _ => rfl, rfl⟩
  | bool b => exact ⟨.word (.bool b), reads_token (spells_bool b) fun _ => rfl, rfl⟩
  | @integer d i hlow hhigh =>
    exact ⟨.number _, reads_token (spells_integer i) fun _ => rfl,
      number?_integerChars hlow hhigh⟩
  | real h => exact ⟨.number _, reads_token (spells_real h) fun _ => rfl, number?_realChars h⟩
  | string s =>
    have hspells : Spells (stringChars s ++ []) _ := spells_nil.string s
    rw [List.append_nil] at hspells
    refine ⟨.string _, reads_token hspells fun _ => rfl, ?_⟩
    rw [Tree.value?, Piece.text?_ofChar]
    rfl
  | @array d items _ ih =>
    obtain ⟨trees, htrees⟩ := exists_forall₂ ih
    refine ⟨.array trees, reads_array (htrees.imp fun _ _ h => h.1), ?_⟩
    rw [Tree.value?, if_neg (by omega), Nat.add_sub_cancel,
      itemValues?_eq (htrees.imp fun _ _ h => h.2)]
    rfl
  | @object d entries _ ih =>
    have hentries : ∀ e ∈ entries, ∃ t, ReadsEntry e t ∧ t.2.value? .whole d = some e.2 := by
      intro e he
      obtain ⟨t, hreads, hvalue⟩ := ih e he
      exact ⟨(_, t), ⟨rfl, hreads⟩, hvalue⟩
    obtain ⟨trees, htrees⟩ := exists_forall₂ hentries
    refine ⟨.object trees, reads_object (htrees.imp fun _ _ h => h.1), ?_⟩
    rw [Tree.value?, if_neg (by omega), Nat.add_sub_cancel,
      entryValues?_eq (htrees.imp fun _ _ h => ⟨h.1.name, h.2⟩)]
    rfl

/-! ### Whole texts -/

/-- **Values with the same text are the same.** -/
theorem render_injective {d : Nat} {j k : Json} (hj : Writable d j) (hk : Writable d k)
    (h : render j = render k) : j = k := by
  obtain ⟨t, ht, htvalue⟩ := hj.exists_tree
  obtain ⟨u, hu, huvalue⟩ := hk.exists_tree
  have htu : some t = some u := by
    rw [← ht.parse?, ← hu.parse?]
    exact congrArg Tree.parse? h
  rw [Option.some.inj htu, huvalue] at htvalue
  exact (Option.some.inj htvalue).symm

/-- **A value is read from its text**, if it is nested no deeper than texts may be. -/
theorem parse_render {j : Json} (h : Writable maxDepth j) : parse (render j) = some j := by
  obtain ⟨t, ht, hvalue⟩ := h.exists_tree
  rw [parse, parseAs, render, ht.parse?, Option.bind_some, hvalue]

end DocumentRules.Json
