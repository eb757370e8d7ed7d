/-
Equality of values as a relation.

`Value.equal` compares numbers numerically, so it is neither equality as data (the two
zeros are equal) nor reflexive (`nan` equals nothing):

* **`Value.equal_symm`**, **`Value.equal_trans`** — it is a partial equivalence;
* **`Value.equal_refl`**, **`Value.looselyEqual_refl`** — it is reflexive on values without `nan`,
  and so is loose equality;
* **`Value.nanFree_of_equal_self`** — and on no others;
* **`sameValue_symm`**, **`sameValue_trans`**, **`sameValue_refl`** — the same for values that
  may be missing;
* **`Value.equal_of_children`** — two maps, or two lists, with the same children are equal;
* **`Value.eq_of_children`** — with identical children they are identical.
-/
import DocumentRules.Change.Mutation
import Mathlib.Data.List.Forall2

namespace DocumentRules

namespace Value

/-- Induction on a value: a scalar, or a container whose members have the property. -/
@[elab_as_elim]
theorem memberInduction {motive : Value → Prop}
    (scalar : ∀ v, v.isContainer = false → motive v)
    (list : ∀ items, (∀ v ∈ items, motive v) → motive (.list items))
    (map : ∀ entries, (∀ e ∈ entries, motive e.2) → motive (.map entries)) (v : Value) :
    motive v :=
  match v with
  | .null => scalar .null rfl
  | .bool b => scalar (.bool b) rfl
  | .int i => scalar (.int i) rfl
  | .float x => scalar (.float x) rfl
  | .string s => scalar (.string s) rfl
  | .list items => list items fun w _ => memberInduction scalar list map w
  | .map entries => map entries fun e he =>
    have : sizeOf e.2 < sizeOf entries := by
      have := List.sizeOf_lt_of_mem he
      have : sizeOf e = 1 + sizeOf e.1 + sizeOf e.2 := by cases e; rfl
      omega
    memberInduction scalar list map e.2

end Value

/-! ### Numbers -/

namespace Binary64

/-- Two numbers are equal if they are the same infinity or have the same exact value. -/
theorem eq_iff {x y : Binary64} :
    x.eq y = true ↔
      (∃ s, x = .infinity s ∧ y = .infinity s) ∨
        (x.isFinite = true ∧ y.isFinite = true ∧ x.toRat = y.toRat) := by
  cases x <;> cases y <;>
    simp only [Binary64.eq, partialCompare, isFinite, beq_iff_eq, reduceCtorEq, Option.some.injEq]
  all_goals grind

theorem eq_symm {x y : Binary64} (h : x.eq y = true) : y.eq x = true := by
  rw [eq_iff] at h ⊢
  rcases h with ⟨s, hx, hy⟩ | ⟨hx, hy, hr⟩
  · exact Or.inl ⟨s, hy, hx⟩
  · exact Or.inr ⟨hy, hx, hr.symm⟩

theorem eq_trans {x y z : Binary64} (h : x.eq y = true) (h' : y.eq z = true) :
    x.eq z = true := by
  rw [eq_iff] at h h' ⊢
  rcases h with ⟨s, rfl, rfl⟩ | ⟨hx, hy, hr⟩
  · rcases h' with ⟨t, ht, rfl⟩ | ⟨hy, _⟩
    · exact Or.inl ⟨t, ht, rfl⟩
    · simp [isFinite] at hy
  · rcases h' with ⟨t, rfl, rfl⟩ | ⟨_, hz, hr'⟩
    · simp [isFinite] at hy
    · exact Or.inr ⟨hx, hz, hr.trans hr'⟩

theorem eq_refl {x : Binary64} (h : x ≠ .nan) : x.eq x = true := by
  rw [eq_iff]
  cases x with
  | nan => exact absurd rfl h
  | infinity s => exact Or.inl ⟨s, rfl, rfl⟩
  | finite => exact Or.inr ⟨rfl, rfl, rfl⟩

end Binary64

/-! ### Values -/

namespace Value

mutual

/-- No number in the value, at any depth, is `nan`. -/
def NanFree : Value → Prop
  | .float x => x ≠ .nan
  | .list items => ItemsNanFree items
  | .map entries => EntriesNanFree entries
  | _ => True

def ItemsNanFree : List Value → Prop
  | [] => True
  | v :: vs => NanFree v ∧ ItemsNanFree vs

def EntriesNanFree : List (String × Value) → Prop
  | [] => True
  | (_, v) :: es => NanFree v ∧ EntriesNanFree es

end

mutual

def decidableNanFree : (v : Value) → Decidable (NanFree v)
  | .float x => inferInstanceAs (Decidable (x ≠ .nan))
  | .list items => decidableItemsNanFree items
  | .map entries => decidableEntriesNanFree entries
  | .null | .bool _ | .int _ | .string _ => isTrue trivial

def decidableItemsNanFree : (items : List Value) → Decidable (ItemsNanFree items)
  | [] => isTrue trivial
  | v :: vs =>
    match decidableNanFree v, decidableItemsNanFree vs with
    | isTrue hv, isTrue hvs => isTrue ⟨hv, hvs⟩
    | isFalse hv, _ => isFalse fun h => hv h.1
    | _, isFalse hvs => isFalse fun h => hvs h.2

def decidableEntriesNanFree : (entries : List (String × Value)) →
    Decidable (EntriesNanFree entries)
  | [] => isTrue trivial
  | (_, v) :: es =>
    match decidableNanFree v, decidableEntriesNanFree es with
    | isTrue hv, isTrue hes => isTrue ⟨hv, hes⟩
    | isFalse hv, _ => isFalse fun h => hv h.1
    | _, isFalse hes => isFalse fun h => hes h.2

end

instance : DecidablePred NanFree := decidableNanFree

theorem itemsNanFree_iff {items : List Value} : ItemsNanFree items ↔ ∀ v ∈ items, NanFree v := by
  induction items with
  | nil => simp [ItemsNanFree]
  | cons v vs ih => simp [ItemsNanFree, ih]

theorem entriesNanFree_iff {entries : List (String × Value)} :
    EntriesNanFree entries ↔ ∀ e ∈ entries, NanFree e.2 := by
  induction entries with
  | nil => simp [EntriesNanFree]
  | cons e es ih =>
    obtain ⟨k, v⟩ := e
    simp [EntriesNanFree, ih]

/-- Scalars are equal if they are the same, or two equal numbers. -/
theorem equal_scalar_iff {u v : Value} (hu : u.isContainer = false) :
    equal u v = true ↔
      (u = v ∧ ∀ x, u ≠ .float x) ∨ ∃ x y, u = .float x ∧ v = .float y ∧ x.eq y = true := by
  cases u <;> cases v <;> simp_all [equal, isContainer]

theorem equalItems_iff {as bs : List Value} :
    equalItems as bs = true ↔ List.Forall₂ (fun a b => equal a b = true) as bs := by
  induction as generalizing bs with
  | nil => cases bs <;> simp [equalItems]
  | cons a as ih => cases bs <;> simp [equalItems, ih]

theorem equalEntries_iff {as bs : List (String × Value)} :
    equalEntries as bs = true ↔
      List.Forall₂ (fun e f => e.1 = f.1 ∧ equal e.2 f.2 = true) as bs := by
  induction as generalizing bs with
  | nil => cases bs <;> simp [equalEntries]
  | cons e as ih =>
    obtain ⟨k, a⟩ := e
    cases bs with
    | nil => simp [equalEntries]
    | cons f bs =>
      obtain ⟨l, b⟩ := f
      simp [equalEntries, ih]

theorem equal_list_iff {as : List Value} {v : Value} :
    equal (.list as) v = true ↔
      ∃ bs, v = .list bs ∧ List.Forall₂ (fun a b => equal a b = true) as bs := by
  cases v <;> simp [equal, equalItems_iff]

theorem equal_map_iff {as : List (String × Value)} {v : Value} :
    equal (.map as) v = true ↔
      ∃ bs, v = .map bs ∧
        List.Forall₂ (fun e f => e.1 = f.1 ∧ equal e.2 f.2 = true) as bs := by
  cases v <;> simp [equal, equalEntries_iff]

end Value

/-! ### A partial equivalence -/

section Members

variable {α : Type} {R : α → α → Prop}

theorem forall₂_symm_of_mem {as bs : List α} (hR : ∀ a ∈ as, ∀ b, R a b → R b a)
    (h : List.Forall₂ R as bs) : List.Forall₂ R bs as := by
  induction h with
  | nil => exact .nil
  | cons hab _ ih =>
    exact .cons (hR _ (List.mem_cons_self ..) _ hab)
      (ih fun a ha => hR a (List.mem_cons_of_mem _ ha))

theorem forall₂_trans_of_mem {as bs cs : List α}
    (hR : ∀ a ∈ as, ∀ b c, R a b → R b c → R a c)
    (h : List.Forall₂ R as bs) (h' : List.Forall₂ R bs cs) : List.Forall₂ R as cs := by
  induction h generalizing cs with
  | nil =>
    cases h'
    exact .nil
  | cons hab _ ih =>
    cases h' with
    | cons hbc hbcs =>
      exact .cons (hR _ (List.mem_cons_self ..) _ _ hab hbc)
        (ih (fun a ha => hR a (List.mem_cons_of_mem _ ha)) hbcs)

end Members

namespace Value

theorem equal_symm {u v : Value} (h : equal u v = true) : equal v u = true := by
  induction u using memberInduction generalizing v with
  | scalar u hu =>
    rcases (equal_scalar_iff hu).mp h with ⟨rfl, _⟩ | ⟨x, y, rfl, rfl, hxy⟩
    · exact h
    · exact Binary64.eq_symm hxy
  | list as ih =>
    obtain ⟨bs, rfl, hb⟩ := equal_list_iff.mp h
    exact equal_list_iff.mpr ⟨as, rfl, forall₂_symm_of_mem (fun a ha b => ih a ha) hb⟩
  | map as ih =>
    obtain ⟨bs, rfl, hb⟩ := equal_map_iff.mp h
    exact equal_map_iff.mpr ⟨as, rfl, forall₂_symm_of_mem
      (fun e he f hef => ⟨hef.1.symm, ih e he hef.2⟩) hb⟩

theorem equal_trans {u v w : Value} (h : equal u v = true) (h' : equal v w = true) :
    equal u w = true := by
  induction u using memberInduction generalizing v w with
  | scalar u hu =>
    rcases (equal_scalar_iff hu).mp h with ⟨rfl, _⟩ | ⟨x, y, rfl, rfl, hxy⟩
    · exact h'
    · rcases (equal_scalar_iff rfl).mp h' with ⟨_, hy⟩ | ⟨y, z, hy, rfl, hyz⟩
      · exact absurd rfl (hy y)
      · cases hy
        exact Binary64.eq_trans hxy hyz
  | list as ih =>
    obtain ⟨bs, rfl, hb⟩ := equal_list_iff.mp h
    obtain ⟨cs, rfl, hc⟩ := equal_list_iff.mp h'
    exact equal_list_iff.mpr ⟨cs, rfl, forall₂_trans_of_mem (fun a ha b c => ih a ha) hb hc⟩
  | map as ih =>
    obtain ⟨bs, rfl, hb⟩ := equal_map_iff.mp h
    obtain ⟨cs, rfl, hc⟩ := equal_map_iff.mp h'
    exact equal_map_iff.mpr ⟨cs, rfl, forall₂_trans_of_mem
      (fun e he f g hef hfg => ⟨hef.1.trans hfg.1, ih e he hef.2 hfg.2⟩) hb hc⟩

/-- Without `nan`, a value equals itself. -/
theorem equal_refl {v : Value} (hv : NanFree v) : equal v v = true := by
  induction v using memberInduction with
  | scalar v h =>
    rw [equal_scalar_iff h]
    cases v with
    | float x => exact Or.inr ⟨x, x, rfl, rfl, Binary64.eq_refl hv⟩
    | list items => simp [isContainer] at h
    | map entries => simp [isContainer] at h
    | _ => simp
  | list items ih =>
    rw [equal_list_iff]
    exact ⟨items, rfl, List.forall₂_same.mpr fun a ha => ih a ha (itemsNanFree_iff.mp hv a ha)⟩
  | map entries ih =>
    rw [equal_map_iff]
    exact ⟨entries, rfl, List.forall₂_same.mpr fun e he =>
      ⟨rfl, ih e he (entriesNanFree_iff.mp hv e he)⟩⟩

/-- Only values without `nan` equal themselves. -/
theorem nanFree_of_equal_self {v : Value} (h : equal v v = true) : NanFree v := by
  induction v using memberInduction with
  | scalar v hv =>
    cases v with
    | float x =>
      rintro rfl
      cases h
    | list items => simp [isContainer] at hv
    | map entries => simp [isContainer] at hv
    | _ => exact trivial
  | list items ih =>
    obtain ⟨items', heq, hsame⟩ := equal_list_iff.mp h
    cases heq
    exact itemsNanFree_iff.mpr fun a ha => ih a ha (List.forall₂_same.mp hsame a ha)
  | map entries ih =>
    obtain ⟨entries', heq, hsame⟩ := equal_map_iff.mp h
    cases heq
    exact entriesNanFree_iff.mpr fun e he => ih e he (List.forall₂_same.mp hsame e he).2

/-- A value equals itself loosely, too. -/
theorem looselyEqual_refl {v : Value} (hv : NanFree v) : looselyEqual v v = true := by
  induction v using memberInduction with
  | scalar v h =>
    cases v with
    | float x => exact Binary64.eq_refl hv
    | _ => simp_all [looselyEqual, isContainer]
  | list items ih =>
    show looselyEqualItems items items = true
    have hnan := itemsNanFree_iff.mp hv
    clear hv
    induction items with
    | nil => rfl
    | cons v vs ihs =>
      rw [List.forall_mem_cons] at ih hnan
      rw [looselyEqualItems, ih.1 hnan.1, ihs ih.2 hnan.2, Bool.and_self]
  | map entries ih =>
    show looselyEqualEntries entries entries = true
    have hnan := entriesNanFree_iff.mp hv
    clear hv
    induction entries with
    | nil => rfl
    | cons e es ihs =>
      obtain ⟨k, v⟩ := e
      rw [List.forall_mem_cons] at ih hnan
      rw [looselyEqualEntries, ih.1 hnan.1, ihs ih.2 hnan.2, beq_self_eq_true, Bool.and_self,
        Bool.and_self]

/-! ### Containers by their children -/

/-- The two values are both maps or both lists, whatever they hold. -/
def alike : Value → Value → Bool
  | .map _, .map _ => true
  | .list _, .list _ => true
  | _, _ => false

theorem alike_comm (u v : Value) : alike u v = alike v u := by
  cases u <;> cases v <;> rfl

theorem alike_of_equal {u v : Value} (hu : u.isContainer = true) (h : equal u v = true) :
    alike u v = true := by
  cases u <;> cases v <;> simp_all [equal, isContainer, alike]

theorem alike_trans {u v w : Value} (h : alike u v = true) (h' : alike v w = true) :
    alike u w = true := by
  cases u <;> cases v <;> simp only [alike, reduceCtorEq] at h <;> cases w <;>
    simp_all [alike]

theorem isContainer_of_alike {u v : Value} (h : alike u v = true) : u.isContainer = true := by
  cases u <;> first | rfl | simp [alike] at h

end Value

/-! ### Values that may be missing -/

namespace Mutation

theorem sameValue_symm {a b : Option Value} (h : sameValue a b = true) :
    sameValue b a = true := by
  cases a <;> cases b <;> simp only [sameValue, reduceCtorEq] at h ⊢
  exact Value.equal_symm h

theorem sameValue_trans {a b c : Option Value} (h : sameValue a b = true)
    (h' : sameValue b c = true) : sameValue a c = true := by
  cases a <;> cases b <;> simp only [sameValue, reduceCtorEq] at h <;>
    cases c <;> simp only [sameValue, reduceCtorEq] at h' ⊢
  exact Value.equal_trans h h'

theorem sameValue_refl {a : Option Value} (ha : ∀ v, a = some v → v.NanFree) :
    sameValue a a = true := by
  cases a with
  | none => rfl
  | some v => exact Value.equal_refl (ha v rfl)

theorem sameValue_none_left {b : Option Value} : sameValue none b = true ↔ b = none := by
  cases b <;> simp [sameValue]

theorem sameValue_none_right {a : Option Value} : sameValue a none = true ↔ a = none := by
  cases a <;> simp [sameValue]

theorem sameValue_some_left {u : Value} {b : Option Value} :
    sameValue (some u) b = true ↔ ∃ v, b = some v ∧ u.equal v = true := by
  cases b <;> simp [sameValue]

end Mutation

namespace Value

open Mutation (sameValue)

/-- Two lists with the same members are equal. -/
theorem equalItems_of_children {as bs : List Value}
    (h : ∀ i : Nat, sameValue as[i]? bs[i]? = true) : equalItems as bs = true := by
  induction as generalizing bs with
  | nil =>
    cases bs with
    | nil => rfl
    | cons b bs => simpa [sameValue] using h 0
  | cons a as ih =>
    cases bs with
    | nil => simpa [sameValue] using h 0
    | cons b bs =>
      simp only [equalItems, Bool.and_eq_true]
      exact ⟨by simpa [sameValue] using h 0, ih fun i => by simpa using h (i + 1)⟩

end Value

namespace Entries

variable {κ α : Type} [LT κ] [DecidableEq κ] [StrictOrder κ]

omit [LT κ] [StrictOrder κ] in
theorem find?_eq_none {k : κ} {entries : List (κ × α)} (h : ∀ e ∈ entries, e.1 ≠ k) :
    find? k entries = none := by
  induction entries with
  | nil => rfl
  | cons e rest ih =>
    obtain ⟨k', v⟩ := e
    have hk : ¬ k = k' := fun e => h (k', v) (List.mem_cons_self ..) e.symm
    rw [find?, if_neg hk]
    exact ih fun e he => h e (List.mem_cons_of_mem _ he)

/-- The first key of ascending entries is found there and nowhere behind. -/
theorem find?_head_tail {k : κ} {v : α} {rest : List (κ × α)} (h : Ascending ((k, v) :: rest)) :
    find? k rest = none :=
  find?_eq_none fun e he hk => StrictOrder.irrefl k (hk ▸ (List.pairwise_cons.mp h).1 e he)

/-- A key below the first one is not found. -/
theorem find?_of_lt_head {k l : κ} {v : α} {rest : List (κ × α)} (hlt : k < l)
    (h : Ascending ((l, v) :: rest)) : find? k ((l, v) :: rest) = none := by
  refine find?_eq_none ?_
  intro e he
  rcases List.mem_cons.mp he with rfl | he
  · exact (StrictOrder.ne_of_lt hlt).symm
  · exact (StrictOrder.ne_of_lt
      (StrictOrder.trans hlt ((List.pairwise_cons.mp h).1 e he))).symm

/-- In ascending entries, what is listed is what is found. -/
theorem find?_eq_some_iff {k : κ} {v : α} {entries : List (κ × α)} (h : Ascending entries) :
    find? k entries = some v ↔ (k, v) ∈ entries := by
  refine ⟨mem_of_find?, fun hm => ?_⟩
  induction entries with
  | nil => simp at hm
  | cons e rest ih =>
    obtain ⟨k', v'⟩ := e
    rw [List.mem_cons] at hm
    rcases hm with hm | hm
    · cases hm
      simp [find?]
    · have hlt : k' < k := (List.pairwise_cons.mp h).1 _ hm
      rw [find?, if_neg (StrictOrder.ne_of_lt hlt).symm]
      exact ih (List.pairwise_cons.mp h).2 hm

/-- Two ascending lists of entries in which every key finds the same are one list. -/
theorem eq_of_find? {as bs : List (κ × α)} (ha : Ascending as) (hb : Ascending bs)
    (h : ∀ k, find? k as = find? k bs) : as = bs := by
  have hirrefl (e f : κ × α) (hlt : e.1 < f.1) : e ≠ f := by
    rintro rfl
    exact StrictOrder.irrefl e.1 hlt
  have hperm : as.Perm bs := by
    refine (List.perm_ext_iff_of_nodup (ha.imp (hirrefl _ _)) (hb.imp (hirrefl _ _))).mpr ?_
    rintro ⟨k, v⟩
    rw [← find?_eq_some_iff ha, ← find?_eq_some_iff hb, h k]
  refine hperm.eq_of_pairwise ?_ ha hb
  intro e f _ _ hlt hgt
  exact absurd hgt (StrictOrder.asymm hlt)

end Entries

namespace Value

open Mutation (sameValue)

/-- Two ascending lists of entries in which every key finds the same are equal. -/
theorem equalEntries_of_children {as bs : List (String × Value)} (ha : Entries.Ascending as)
    (hb : Entries.Ascending bs)
    (h : ∀ k, sameValue (Entries.find? k as) (Entries.find? k bs) = true) :
    equalEntries as bs = true := by
  induction as generalizing bs with
  | nil =>
    cases bs with
    | nil => rfl
    | cons f bs =>
      obtain ⟨l, b⟩ := f
      simpa [Entries.find?, sameValue] using h l
  | cons e as ih =>
    obtain ⟨k, a⟩ := e
    cases bs with
    | nil => simpa [Entries.find?, sameValue] using h k
    | cons f bs =>
      obtain ⟨l, b⟩ := f
      -- Each of the two first keys is found on the other side, so neither precedes the other.
      have hkl : k = l := by
        refine StrictOrder.connected (fun hlt => ?_) (fun hlt => ?_)
        · have := h k
          rw [Entries.find?_of_lt_head hlt hb] at this
          simp [Entries.find?, sameValue] at this
        · have := h l
          rw [Entries.find?_of_lt_head hlt ha] at this
          simp [Entries.find?, sameValue] at this
      subst hkl
      have hhead : equal a b = true := by simpa [Entries.find?, sameValue] using h k
      have htail : equalEntries as bs = true := by
        refine ih (List.pairwise_cons.mp ha).2 (List.pairwise_cons.mp hb).2 ?_
        intro l
        by_cases hl : l = k
        · rw [hl, Entries.find?_head_tail ha, Entries.find?_head_tail hb]
          rfl
        · simpa [Entries.find?, hl] using h l
      simp [equalEntries, hhead, htail]

/-- Two maps, or two lists, with the same children are equal. -/
theorem equal_of_children {u v : Value} (hu : u.WellFormed) (hv : v.WellFormed)
    (hk : alike u v = true) (h : ∀ s, sameValue (child? u s) (child? v s) = true) :
    equal u v = true := by
  cases u with
  | list as =>
    cases v with
    | list bs => exact equalItems_of_children fun i => h (.index i)
    | _ => simp [alike] at hk
  | map as =>
    cases v with
    | map bs =>
      exact equalEntries_of_children (wellFormed_map.mp hu).1 (wellFormed_map.mp hv).1
        fun k => h (.key k)
    | _ => simp [alike] at hk
  | _ => simp [alike] at hk

/-- Two maps, or two lists, with identical children are identical. -/
theorem eq_of_children {u v : Value} (hu : u.WellFormed) (hv : v.WellFormed)
    (hk : alike u v = true) (h : ∀ s, child? u s = child? v s) : u = v := by
  cases u with
  | list as =>
    cases v with
    | list bs => rw [List.ext_getElem? fun i => h (.index i)]
    | _ => simp [alike] at hk
  | map as =>
    cases v with
    | map bs =>
      rw [Entries.eq_of_find? (wellFormed_map.mp hu).1 (wellFormed_map.mp hv).1
        fun k => h (.key k)]
    | _ => simp [alike] at hk
  | _ => simp [alike] at hk

end Value

end DocumentRules
