/-
The decimal mark of a number text.

Of the comma and the point the one that occurs last is the decimal mark, and the other one
separates thousands.  `Normalize.plainNumber` finds it from behind; here the mark is said by the
places at which the two occur.

* `Normalize.Separated` — the decimal mark, and what is left when the other one is dropped;
* **`Normalize.exists_separated`** — every text can be separated;
* **`Normalize.plainNumber_eq`** — what is left, with a point for the mark.
-/
import DocumentRules.Block.Normalize
import Mathlib.Data.List.Basic
import Mathlib.Tactic.ByContra

namespace DocumentRules.Normalize

/-! ### What is left of a text -/

/-- The characters that may be the decimal mark. -/
inductive Mark where
  | comma
  | point
  deriving DecidableEq

namespace Mark

def char : Mark → Char
  | comma => ','
  | point => '.'

def other : Mark → Mark
  | comma => point
  | point => comma

end Mark

/-- The characters of a text that number text may hold. -/
def kept (s : String) : List Char := s.toList.filter isNumberChar

/-- The decimal mark of the characters that were kept, and what is left of them. -/
inductive Separated (cs : List Char) : Mark → List Char → Prop where
  /-- The other mark does not occur. Where neither does, it makes no difference which one counts. -/
  | single {k : Mark} (absent : k.other.char ∉ cs) : Separated cs k cs
  /-- Both marks occur. The last one is the decimal mark, and the other one is dropped. -/
  | both {k : Mark} {front back : List Char} (eq : cs = front ++ k.char :: back)
      (before : k.other.char ∈ front) (last : ∀ j : Mark, j.char ∉ back) :
      Separated cs k (cs.filter (· ≠ k.other.char))

variable {k : Mark} {cs rest : List Char} {s : String}

def isMark (c : Char) : Bool := c == '.' || c == ','

theorem isMark_iff (k : Mark) {c : Char} : isMark c = true ↔ c = k.char ∨ c = k.other.char := by
  cases k <;> simp [isMark, Mark.char, Mark.other, or_comm]

theorem isMark_char (k : Mark) : isMark k.char = true := (isMark_iff k).mpr (Or.inl rfl)

theorem char_ne_other (k : Mark) : k.char ≠ k.other.char := by
  cases k <;> decide

/-- One character in the place of another. -/
def replace (m m' c : Char) : Char := if c == m then m' else c

theorem replace_of_ne {m c : Char} (h : c ≠ m) (m' : Char) : replace m m' c = c :=
  if_neg (by simpa using h)

theorem replace_self (m m' : Char) : replace m m' m = m' := if_pos (by simp)

theorem map_replace_of_not_mem {m : Char} (h : m ∉ cs) (m' : Char) : cs.map (replace m m') = cs := by
  refine (List.map_congr_left fun c hc => replace_of_ne ?_ m').trans (List.map_id' cs)
  rintro rfl
  exact h hc

/-- The last mark is the first one from behind. -/
theorem find?_last {front back : List Char} (heq : cs = front ++ k.char :: back)
    (hlast : ∀ j : Mark, j.char ∉ back) : cs.reverse.find? isMark = some k.char := by
  have hback : back.reverse.find? isMark = none := by
    refine List.find?_eq_none.mpr fun c hc hmark => ?_
    rw [List.mem_reverse] at hc
    rcases (isMark_iff k).mp hmark with rfl | rfl
    · exact hlast k hc
    · exact hlast k.other hc
  rw [heq, List.reverse_append, List.reverse_cons, List.append_assoc, List.find?_append, hback,
    Option.none_or, List.singleton_append, List.find?_cons_of_pos (isMark_char k)]

/-- A row of characters has a last mark, or none. -/
theorem exists_last_mark (cs : List Char) :
    (cs.reverse.find? isMark = none ∧ ∀ j : Mark, j.char ∉ cs) ∨
      ∃ (k : Mark) (front back : List Char), cs = front ++ k.char :: back ∧
        ∀ j : Mark, j.char ∉ back := by
  cases hfind : cs.reverse.find? isMark with
  | none =>
    refine Or.inl ⟨rfl, fun j hj => ?_⟩
    exact List.find?_eq_none.mp hfind _ (List.mem_reverse.mpr hj) (isMark_char j)
  | some c =>
    obtain ⟨hmark, back, front, heq, hlast⟩ := List.find?_eq_some_iff_append.mp hfind
    obtain ⟨k, rfl⟩ : ∃ k : Mark, c = k.char := by
      rcases (isMark_iff .comma).mp hmark with rfl | rfl
      · exact ⟨.comma, rfl⟩
      · exact ⟨.point, rfl⟩
    refine Or.inr ⟨k, front.reverse, back.reverse, ?_, fun j hj => ?_⟩
    · rw [← List.reverse_inj, heq]
      simp
    · have := hlast _ (List.mem_reverse.mp hj)
      rw [isMark_char] at this
      cases this

/-- To pass over the marks other than `k` is to drop the other mark. -/
theorem passes_iff (k : Mark) (c : Char) :
    (c == k.char || !isMark c) = decide (c ≠ k.other.char) := by
  have hne := char_ne_other k
  rw [Bool.eq_iff_iff, Bool.or_eq_true, Bool.not_eq_true', ← Bool.not_eq_true, isMark_iff k,
    beq_iff_eq, decide_eq_true_eq]
  constructor
  · rintro (rfl | h)
    · exact hne
    · exact fun hc => h (Or.inr hc)
  · intro h
    exact (em (c = k.char)).imp id fun hc => not_or.mpr ⟨hc, h⟩

theorem plainNumber_of_no_mark (h : (kept s).reverse.find? isMark = none) :
    plainNumber s.toList = kept s := by
  simp only [plainNumber]
  split
  · rfl
  · rename_i heq
    cases heq.symm.trans h

theorem plainNumber_of_mark (h : (kept s).reverse.find? isMark = some k.char) :
    plainNumber s.toList =
      ((kept s).filter (· ≠ k.other.char)).map (replace k.char '.') := by
  simp only [plainNumber]
  split
  · rename_i heq
    cases heq.symm.trans h
  · rename_i mark heq
    obtain rfl : mark = k.char := Option.some.inj (heq.symm.trans h)
    exact congrArg (List.map (replace k.char '.')) (List.filter_congr fun c _ => passes_iff k c)

/-- **What is left of a text**, with a point for the decimal mark. -/
theorem plainNumber_eq (h : Separated (kept s) k rest) :
    plainNumber s.toList = rest.map (replace k.char '.') := by
  cases h with
  | single habsent =>
    rcases exists_last_mark (kept s) with ⟨hfind, hnone⟩ | ⟨j, front, back, heq, hlast⟩
    · rw [plainNumber_of_no_mark hfind, map_replace_of_not_mem (hnone k)]
    · -- The last mark is the only one that occurs, so nothing is dropped.
      obtain rfl : j = k := by
        by_contra hjk
        refine habsent ?_
        rw [heq]
        cases j <;> cases k <;> simp_all [Mark.other]
      rw [plainNumber_of_mark (find?_last heq hlast), List.filter_eq_self.mpr fun c hc => ?_]
      rw [decide_eq_true_eq]
      rintro rfl
      exact habsent hc
  | both heq hbefore hlast => exact plainNumber_of_mark (find?_last heq hlast)

/-- **Every row of characters can be separated.** -/
theorem exists_separated (cs : List Char) : ∃ k rest, Separated cs k rest := by
  rcases exists_last_mark cs with ⟨-, hnone⟩ | ⟨k, front, back, heq, hlast⟩
  · exact ⟨.comma, cs, .single (hnone _)⟩
  · by_cases hother : k.other.char ∈ cs
    · refine ⟨k, _, .both heq ?_ hlast⟩
      rw [heq, List.mem_append, List.mem_cons] at hother
      rcases hother with hfront | hmark | hback
      · exact hfront
      · exact absurd hmark.symm (char_ne_other k)
      · exact absurd hback (hlast _)
    · exact ⟨k, cs, .single hother⟩

theorem Separated.not_mem (h : Separated cs k rest) : k.other.char ∉ rest := by
  cases h with
  | single habsent => exact habsent
  | both _ _ _ => simp

theorem Separated.mem (h : Separated cs k rest) {c : Char} (hc : c ∈ rest) : c ∈ cs := by
  cases h with
  | single _ => exact hc
  | both _ _ _ => exact List.mem_of_mem_filter hc

/-- No minus sign is dropped. -/
theorem Separated.count_minus (h : Separated cs k rest) : rest.count '-' = cs.count '-' := by
  cases h with
  | single _ => rfl
  | both _ _ _ =>
    refine List.count_filter ?_
    cases k <;> decide

/-- The mark can be put back in the place of the point. -/
theorem Separated.map_replace_replace (h : Separated cs k rest) :
    (rest.map (replace k.char '.')).map (replace '.' k.char) = rest := by
  rw [List.map_map]
  refine (List.map_congr_left fun c hc => ?_).trans (List.map_id' rest)
  rw [Function.comp_apply]
  by_cases hmark : c = k.char
  · rw [hmark, replace_self, replace_self]
  · rw [replace_of_ne hmark, replace_of_ne]
    rintro rfl
    cases k with
    | comma => exact h.not_mem hc
    | point => exact hmark rfl

end DocumentRules.Normalize
