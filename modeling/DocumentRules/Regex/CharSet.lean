/-
Sets of characters as ranges of code points.

A set in canonical form lists its ranges in ascending order, with a gap between any two
of them; `canonical` brings any list of ranges into this form, and `complement` works on
canonical sets.

* **`contains_canonical`**, **`apart_canonical`** — the canonical form holds the same characters,
  in ranges that are apart;
* **`contains_complement`** — the complement holds the characters that the set does not hold.
-/
import DocumentRules.Order.Sorting

namespace DocumentRules.Regex

/-- A set of characters: closed ranges of code points. -/
abbrev CharSet := List (Nat × Nat)

namespace CharSet

/-- The greatest code point. -/
def maxCodePoint : Nat := 0x10ffff

def contains (s : CharSet) (c : Char) : Bool := s.any fun r => r.1 ≤ c.toNat && c.toNat ≤ r.2

/-- Join the ranges that touch or overlap to the range in front of them; the ranges ascend by
their lower ends. -/
def mergeInto (r : Nat × Nat) : CharSet → CharSet
  | [] => [r]
  | s :: rest =>
    if s.1 ≤ r.2 + 1 then mergeInto (r.1, max r.2 s.2) rest else r :: mergeInto s rest

/-- Join ranges that touch or overlap; the ranges ascend by their lower ends. -/
def merge : CharSet → CharSet
  | [] => []
  | r :: rest => mergeInto r rest

/-- The same set with its ranges ascending and apart. -/
def canonical (s : CharSet) : CharSet := merge (sortBy (fun a b => a.1 ≤ b.1) s)

/-- The ranges between the ranges of a canonical set, from `low` on. -/
def gaps (low : Nat) : CharSet → CharSet
  | [] => if low ≤ maxCodePoint then [(low, maxCodePoint)] else []
  | r :: rest => if low < r.1 then (low, r.1 - 1) :: gaps (r.2 + 1) rest else gaps (r.2 + 1) rest

def complement (s : CharSet) : CharSet := gaps 0 (canonical s)

/-! ### Laws -/

/-- The ranges ascend, with a gap between any two of them. -/
def Apart (s : CharSet) : Prop := s.Pairwise fun a b => a.2 + 1 < b.1

/-- No range is empty. -/
def Inhabited (s : CharSet) : Prop := ∀ r ∈ s, r.1 ≤ r.2

theorem contains_iff {s : CharSet} {c : Char} :
    s.contains c = true ↔ ∃ r ∈ s, r.1 ≤ c.toNat ∧ c.toNat ≤ r.2 := by
  simp [contains]

theorem contains_cons {r : Nat × Nat} {s : CharSet} {c : Char} :
    contains (r :: s) c = true ↔ (r.1 ≤ c.toNat ∧ c.toNat ≤ r.2) ∨ s.contains c = true := by
  simp [contains]

theorem contains_mergeInto {c : Char} (s : CharSet) (r : Nat × Nat)
    (h : (r :: s).Pairwise fun a b => a.1 ≤ b.1) :
    (mergeInto r s).contains c = true ↔ contains (r :: s) c = true := by
  induction s generalizing r with
  | nil => rfl
  | cons s rest ih =>
    have hrs : r.1 ≤ s.1 := (List.pairwise_cons.mp h).1 s (by simp)
    unfold mergeInto
    split
    · rename_i touch
      obtain ⟨hr, hs⟩ := List.pairwise_cons.mp h
      rw [ih (r.1, max r.2 s.2) (List.pairwise_cons.mpr ⟨fun t ht => hr t (by simp [ht]), hs.tail⟩)]
      simp only [contains_cons]
      rw [← or_assoc]
      refine or_congr_left ?_
      omega
    · rw [contains_cons, ih _ (List.pairwise_cons.mp h).2, contains_cons (r := r)]

theorem apart_mergeInto (s : CharSet) (r : Nat × Nat)
    (h : (r :: s).Pairwise fun a b => a.1 ≤ b.1) :
    Apart (mergeInto r s) ∧ ∀ t ∈ mergeInto r s, r.1 ≤ t.1 := by
  induction s generalizing r with
  | nil => simp [mergeInto, Apart]
  | cons s rest ih =>
    obtain ⟨hr, hs⟩ := List.pairwise_cons.mp h
    unfold mergeInto
    split
    · exact ih _ (List.pairwise_cons.mpr ⟨fun t ht => hr t (by simp [ht]), hs.tail⟩)
    · rename_i gap
      obtain ⟨apart, low⟩ := ih s hs
      refine ⟨List.pairwise_cons.mpr ⟨fun t ht => ?_, apart⟩, fun t ht => ?_⟩
      · have := low t ht
        omega
      · rcases List.mem_cons.mp ht with rfl | ht
        · exact Nat.le_refl _
        · have := low t ht
          have := hr s (by simp)
          omega

theorem inhabited_mergeInto (s : CharSet) (r : Nat × Nat) (h : Inhabited (r :: s)) :
    Inhabited (mergeInto r s) := by
  induction s generalizing r with
  | nil => exact h
  | cons s rest ih =>
    have hr : r.1 ≤ r.2 := h r (by simp)
    have hrest : ∀ t ∈ rest, t.1 ≤ t.2 := fun t ht => h t (by simp [ht])
    unfold mergeInto
    split
    · refine ih _ fun t ht => ?_
      rcases List.mem_cons.mp ht with rfl | ht
      · simp only
        omega
      · exact hrest t ht
    · intro t ht
      rcases List.mem_cons.mp ht with rfl | ht
      · exact hr
      · exact ih s (fun u hu => h u (by simp [List.mem_cons.mp hu])) t ht

/-- The ranges in the order in which they are merged. -/
theorem ascending_sorted (s : CharSet) :
    (sortBy (fun a b : Nat × Nat => decide (a.1 ≤ b.1)) s).Pairwise fun a b => a.1 ≤ b.1 := by
  have h := @sortBy_pairwise (Nat × Nat) (fun a b => decide (a.1 ≤ b.1))
    (by simp only [decide_eq_false_iff_not, decide_eq_true_eq]; omega)
    (by simp only [decide_eq_true_eq]; omega) s
  exact h.imp (by simp)

theorem contains_canonical (s : CharSet) (c : Char) : s.canonical.contains c = s.contains c := by
  have sorted : contains (sortBy (fun a b => decide (a.1 ≤ b.1)) s) c = true ↔
      s.contains c = true := by
    simp [contains_iff]
  rw [Bool.eq_iff_iff, ← sorted]
  unfold canonical merge
  have h := ascending_sorted s
  split
  · rename_i empty
    rw [empty]
  · rename_i r rest cons
    rw [cons] at h ⊢
    exact contains_mergeInto rest r h

theorem apart_canonical (s : CharSet) : Apart s.canonical := by
  unfold canonical merge
  have h := ascending_sorted s
  split
  · exact List.Pairwise.nil
  · rename_i r rest cons
    rw [cons] at h
    exact (apart_mergeInto rest r h).1

theorem inhabited_canonical {s : CharSet} (h : Inhabited s) : Inhabited s.canonical := by
  have sorted : Inhabited (sortBy (fun a b : Nat × Nat => decide (a.1 ≤ b.1)) s) :=
    fun r hr => h r (by simpa using hr)
  unfold canonical merge
  split
  · simp [Inhabited]
  · rename_i r rest cons
    rw [cons] at sorted
    exact inhabited_mergeInto rest r sorted

theorem contains_gaps {c : Char} (s : CharSet) (low : Nat) (apart : Apart s) (h : Inhabited s)
    (hlow : ∀ r ∈ s, low ≤ r.1) :
    (gaps low s).contains c = true ↔ low ≤ c.toNat ∧ s.contains c = false := by
  induction s generalizing low with
  | nil =>
    have : c.toNat ≤ maxCodePoint := by
      have := c.valid
      simp only [UInt32.isValidChar, Nat.isValidChar] at this
      simp only [maxCodePoint, Char.toNat]
      omega
    unfold gaps
    split <;> simp [contains] <;> omega
  | cons r rest ih =>
    obtain ⟨hr, hrest⟩ := List.pairwise_cons.mp apart
    have inhabited : r.1 ≤ r.2 := h r (by simp)
    have := hlow r (by simp)
    have behind := ih (r.2 + 1) hrest (fun t ht => h t (by simp [ht]))
      fun t ht => Nat.le_of_lt (hr t ht)
    have outside : c.toNat ≤ r.2 → contains rest c = false := by
      intro hc
      rw [Bool.eq_false_iff, Ne, contains_iff]
      rintro ⟨t, ht, below, -⟩
      have := hr t ht
      omega
    have split_head : contains (r :: rest) c = false ↔
        ¬ (r.1 ≤ c.toNat ∧ c.toNat ≤ r.2) ∧ contains rest c = false := by
      rw [Bool.eq_false_iff, Ne, contains_cons, not_or, Bool.not_eq_true]
    rw [split_head]
    unfold gaps
    split
    · rw [contains_cons, behind]
      simp only
      constructor
      · rintro (⟨_, _⟩ | ⟨_, away⟩)
        · exact ⟨by omega, by omega, outside (by omega)⟩
        · exact ⟨by omega, by omega, away⟩
      · rintro ⟨_, _, away⟩
        by_cases c.toNat < r.1
        · exact .inl (by omega)
        · exact .inr ⟨by omega, away⟩
    · rw [behind]
      constructor
      · rintro ⟨_, away⟩
        exact ⟨by omega, by omega, away⟩
      · rintro ⟨_, _, away⟩
        exact ⟨by omega, away⟩

theorem contains_complement {s : CharSet} (h : Inhabited s) (c : Char) :
    s.complement.contains c = !s.contains c := by
  rw [Bool.eq_iff_iff, complement,
    contains_gaps _ 0 (apart_canonical s) (inhabited_canonical h) (by simp), contains_canonical]
  simp

/-! ### Letter case -/

/-- The letters of the other case for the small letters of a range, or, if it has none, for
its capital letters. Only the letters of ASCII have another case here. -/
def otherCase? (r : Nat × Nat) : Option (Nat × Nat) :=
  let low := max r.1 0x61
  let high := min r.2 0x7a
  if low ≤ high then some (low - 32, high - 32)
  else
    let low := max r.1 0x41
    let high := min r.2 0x5a
    if low ≤ high then some (low + 32, high + 32) else none

/-- The set together with the other case of its letters. -/
def foldCase (s : CharSet) : CharSet := canonical (s ++ s.filterMap otherCase?)

/-! ### Named sets -/

def digit : CharSet := [(0x30, 0x39)]

def space : CharSet := [(0x09, 0x0d), (0x20, 0x20)]

def word : CharSet := [(0x30, 0x39), (0x41, 0x5a), (0x5f, 0x5f), (0x61, 0x7a)]

/-- The sets that may be named between `[:` and `:]`. -/
def named? (name : String) : Option CharSet :=
  if name = "alnum" then some [(0x30, 0x39), (0x41, 0x5a), (0x61, 0x7a)]
  else if name = "alpha" then some [(0x41, 0x5a), (0x61, 0x7a)]
  else if name = "ascii" then some [(0x00, 0x7f)]
  else if name = "blank" then some [(0x09, 0x09), (0x20, 0x20)]
  else if name = "cntrl" then some [(0x00, 0x1f), (0x7f, 0x7f)]
  else if name = "digit" then some digit
  else if name = "graph" then some [(0x21, 0x7e)]
  else if name = "lower" then some [(0x61, 0x7a)]
  else if name = "print" then some [(0x20, 0x7e)]
  else if name = "punct" then some [(0x21, 0x2f), (0x3a, 0x40), (0x5b, 0x60), (0x7b, 0x7e)]
  else if name = "space" then some space
  else if name = "upper" then some [(0x41, 0x5a)]
  else if name = "word" then some word
  else if name = "xdigit" then some [(0x30, 0x39), (0x41, 0x46), (0x61, 0x66)]
  else none

/-- Any character but a line feed. -/
def notLineFeed : CharSet := [(0x00, 0x09), (0x0b, maxCodePoint)]

/-- Any character but a line feed and a carriage return. -/
def notLineBreak : CharSet := [(0x00, 0x09), (0x0b, 0x0c), (0x0e, maxCodePoint)]

def all : CharSet := [(0x00, maxCodePoint)]

end CharSet

end DocumentRules.Regex
