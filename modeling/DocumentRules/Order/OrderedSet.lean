/-
Finite sets in ascending order.

An `OrderedSet α` is the strictly ascending list of its members, so that two
sets with the same members are equal and every listing of a set is sorted.

* **`mem_insert`**, **`mem_ofList`**, **`mem_union`** — what the operations hold;
* **`OrderedSet.ext`** — a set is determined by its members.

The list carries the proof that it ascends; no operation can lose the order.
-/
import DocumentRules.Order.Strict

namespace DocumentRules

/-- A finite set, as the strictly ascending list of its members. -/
structure OrderedSet (α : Type) [LT α] where
  toList : List α
  ascending : toList.Pairwise (· < ·)

namespace OrderedSet

variable {α : Type} [LT α]

instance : Membership α (OrderedSet α) := ⟨fun s a => a ∈ s.toList⟩

theorem mem_toList {s : OrderedSet α} {a : α} : a ∈ s.toList ↔ a ∈ s := Iff.rfl

instance [DecidableEq α] (a : α) (s : OrderedSet α) : Decidable (a ∈ s) :=
  inferInstanceAs (Decidable (a ∈ s.toList))

instance [DecidableEq α] : DecidableEq (OrderedSet α) := fun s t =>
  if h : s.toList = t.toList then
    isTrue (by cases s; cases t; cases h; rfl)
  else
    isFalse (fun e => h (e ▸ rfl))

def empty : OrderedSet α := ⟨[], List.Pairwise.nil⟩

instance : EmptyCollection (OrderedSet α) := ⟨empty⟩
instance : Inhabited (OrderedSet α) := ⟨empty⟩

@[simp] theorem not_mem_empty (a : α) : a ∉ (∅ : OrderedSet α) := List.not_mem_nil

def size (s : OrderedSet α) : Nat := s.toList.length

def filter (p : α → Bool) (s : OrderedSet α) : OrderedSet α :=
  ⟨s.toList.filter p, s.ascending.filter p⟩

@[simp] theorem mem_filter {p : α → Bool} {s : OrderedSet α} {a : α} :
    a ∈ s.filter p ↔ a ∈ s ∧ p a = true := List.mem_filter

variable [DecidableLT α] [DecidableEq α]

/-- Insert into an ascending list: in front of the first greater member, unless `a` is met. -/
def insertAscending (a : α) : List α → List α
  | [] => [a]
  | b :: bs => if a < b then a :: b :: bs else if a = b then b :: bs else b :: insertAscending a bs

private theorem mem_insertAscending {a c : α} {bs : List α} :
    c ∈ insertAscending a bs ↔ c = a ∨ c ∈ bs := by
  induction bs with
  | nil => simp [insertAscending]
  | cons b bs ih =>
    unfold insertAscending
    split
    · simp
    · split
      · rename_i h; subst h; simp
      · simp only [List.mem_cons, ih]
        exact ⟨fun h => h.elim (Or.inr ∘ Or.inl) (Or.imp id Or.inr),
          fun h => h.elim (Or.inr ∘ Or.inl) (Or.imp id Or.inr)⟩

variable [StrictOrder α]

private theorem insertAscending_ascending (a : α) {bs : List α} (h : bs.Pairwise (· < ·)) :
    (insertAscending a bs).Pairwise (· < ·) := by
  induction bs with
  | nil => simp [insertAscending]
  | cons b bs ih =>
    have hb := List.pairwise_cons.mp h
    unfold insertAscending
    split
    · rename_i hab
      refine List.pairwise_cons.mpr ⟨fun c hc => ?_, h⟩
      rcases List.mem_cons.mp hc with rfl | hc
      · exact hab
      · exact StrictOrder.trans hab (hb.1 c hc)
    · rename_i hab
      split
      · exact h
      · rename_i hne
        refine List.pairwise_cons.mpr ⟨fun c hc => ?_, ih hb.2⟩
        rcases mem_insertAscending.mp hc with rfl | hc
        · exact (StrictOrder.lt_or_lt_of_ne hne).resolve_left hab
        · exact hb.1 c hc

/-- The set with one more member. -/
def insert (a : α) (s : OrderedSet α) : OrderedSet α :=
  ⟨insertAscending a s.toList, insertAscending_ascending a s.ascending⟩

@[simp] theorem mem_insert {a c : α} {s : OrderedSet α} : c ∈ s.insert a ↔ c = a ∨ c ∈ s :=
  mem_insertAscending

def ofList (as : List α) : OrderedSet α := as.foldr insert ∅

@[simp] theorem mem_ofList {c : α} {as : List α} : c ∈ ofList as ↔ c ∈ as := by
  induction as with
  | nil => simp [ofList]
  | cons a as ih =>
    change c ∈ (ofList as).insert a ↔ _
    rw [mem_insert, ih, List.mem_cons]

def union (s t : OrderedSet α) : OrderedSet α := t.toList.foldr insert s

@[simp] theorem mem_union {c : α} {s t : OrderedSet α} : c ∈ s.union t ↔ c ∈ s ∨ c ∈ t := by
  have h : ∀ bs : List α, c ∈ bs.foldr insert s ↔ c ∈ s ∨ c ∈ bs := by
    intro bs
    induction bs with
    | nil => simp
    | cons b bs ih => rw [List.foldr_cons, mem_insert, ih, List.mem_cons, or_left_comm]
  exact h t.toList

def isSubset (s t : OrderedSet α) : Bool := s.toList.all (· ∈ t)

omit [DecidableLT α] [StrictOrder α] in
@[simp] theorem isSubset_iff {s t : OrderedSet α} : s.isSubset t = true ↔ ∀ a ∈ s, a ∈ t := by
  simp [isSubset, mem_toList]

omit [DecidableLT α] [DecidableEq α] in
/-- Two ascending lists with the same members are the same list. -/
theorem eq_of_ascending {as bs : List α} (ha : as.Pairwise (· < ·)) (hb : bs.Pairwise (· < ·))
    (h : ∀ c, c ∈ as ↔ c ∈ bs) : as = bs := by
  induction as generalizing bs with
  | nil =>
    cases bs with
    | nil => rfl
    | cons b bs => exact absurd ((h b).mpr (List.mem_cons_self ..)) List.not_mem_nil
  | cons a as ih =>
    cases bs with
    | nil => exact absurd ((h a).mp (List.mem_cons_self ..)) List.not_mem_nil
    | cons b bs =>
      rw [List.pairwise_cons] at ha hb
      have hab : a = b := by
        rcases List.mem_cons.mp ((h a).mp (List.mem_cons_self ..)) with e | hm
        · exact e
        · rcases List.mem_cons.mp ((h b).mpr (List.mem_cons_self ..)) with e | hm'
          · exact e.symm
          · exact absurd (ha.1 b hm') (StrictOrder.asymm (hb.1 a hm))
      subst hab
      refine congrArg (a :: ·) (ih ha.2 hb.2 fun c => ⟨fun hc => ?_, fun hc => ?_⟩)
      · rcases List.mem_cons.mp ((h c).mp (List.mem_cons_of_mem _ hc)) with rfl | hc'
        · exact absurd (ha.1 c hc) (StrictOrder.irrefl c)
        · exact hc'
      · rcases List.mem_cons.mp ((h c).mpr (List.mem_cons_of_mem _ hc)) with rfl | hc'
        · exact absurd (hb.1 c hc) (StrictOrder.irrefl c)
        · exact hc'

omit [DecidableLT α] [DecidableEq α] in
/-- A set is determined by its members. -/
theorem ext {s t : OrderedSet α} (h : ∀ a, a ∈ s ↔ a ∈ t) : s = t := by
  cases s with
  | mk as ha =>
    cases t with
    | mk bs hb =>
      have : as = bs := eq_of_ascending ha hb h
      subst this
      rfl

end OrderedSet

end DocumentRules
