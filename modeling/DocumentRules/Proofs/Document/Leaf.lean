/-
Where the leaves of a value stand.

A leaf is a scalar or an empty container.  `Value.leaves` lists the paths of leaves; here they
are found by looking values up:

* **`Value.get?_append`** — looking up a path in two parts;
* **`Value.nanFree_iff_get?`** — a value is free of `nan` if no path leads to one;
* **`Value.mem_leaves_iff`** — the listed paths are those at which a leaf stands;
* **`Value.exists_mem_leaves`** — every value has a leaf;
* **`Value.eq_of_leaves`** — a value is determined by its leaves.
-/
import DocumentRules.Proofs.Document.Sameness

namespace DocumentRules

namespace Value

/-! ### Looking up -/

@[simp] theorem get?_nil (d : Value) : get? d [] = some d := rfl

theorem get?_cons (d : Value) (s : Step) (p : Path) :
    get? d (s :: p) = (child? d s).bind fun c => get? c p := rfl

theorem get?_append (d : Value) (p q : Path) :
    get? d (p ++ q) = (get? d p).bind fun c => get? c q := by
  induction p generalizing d with
  | nil => rfl
  | cons s p ih =>
    rw [List.cons_append, get?_cons, get?_cons]
    cases child? d s with
    | none => rfl
    | some c => exact ih c

@[simp] theorem bind_get?_nil (field : Option Value) : (field.bind fun d => get? d []) = field :=
  Option.bind_fun_some field

/-- What stands one step further down, where something may be missing. -/
theorem bind_child?_bind_get? (field : Option Value) (s : Step) (p : Path) :
    ((field.bind fun d => child? d s).bind fun c => get? c p) =
      field.bind fun d => get? d (s :: p) :=
  Option.bind_assoc ..

/-- What is found below a path is found below a child of what stands there. -/
theorem exists_child?_of_get? {d c : Value} {r p : Path} {s : Step}
    (hc : get? d (r ++ s :: p) = some c) :
    ∃ b a, get? d r = some b ∧ child? b s = some a ∧ get? a p = some c := by
  rw [get?_append, Option.bind_eq_some_iff] at hc
  obtain ⟨b, hb, hc⟩ := hc
  rw [get?_cons, Option.bind_eq_some_iff] at hc
  obtain ⟨a, ha, hc⟩ := hc
  exact ⟨b, a, hb, ha, hc⟩

theorem nanFree_of_child? {d c : Value} {s : Step} (hd : NanFree d) (h : child? d s = some c) :
    NanFree c := by
  cases d <;> cases s <;> simp only [child?, reduceCtorEq] at h
  · exact itemsNanFree_iff.mp hd c (List.mem_of_getElem? h)
  · exact entriesNanFree_iff.mp hd _ (Entries.mem_of_find? h)

theorem nanFree_of_get? {d c : Value} {p : Path} (hd : NanFree d) (h : get? d p = some c) :
    NanFree c := by
  induction p generalizing d with
  | nil =>
    cases h
    exact hd
  | cons s p ih =>
    rw [get?_cons, Option.bind_eq_some_iff] at h
    obtain ⟨m, hm, hc⟩ := h
    exact ih (nanFree_of_child? hd hm) hc

/-- A value is free of `nan` if no path leads to one. -/
theorem nanFree_iff_get? {v : Value} (hv : WellFormed v) :
    NanFree v ↔ ∀ p, get? v p ≠ some (.float .nan) := by
  constructor
  · intro h p hp
    exact nanFree_of_get? h hp rfl
  · intro h
    induction v using memberInduction with
    | scalar v hscalar =>
      cases v with
      | float x =>
        rintro rfl
        exact h [] rfl
      | list items => simp [isContainer] at hscalar
      | map entries => simp [isContainer] at hscalar
      | _ => exact trivial
    | list items ih =>
      refine itemsNanFree_iff.mpr fun a ha => ih a ha (wellFormed_list.mp hv a ha) fun p hp => ?_
      obtain ⟨i, hi⟩ := List.getElem?_of_mem ha
      exact h (.index i :: p) (by rw [get?_cons, child?, hi, Option.bind_some, hp])
    | map entries ih =>
      obtain ⟨hasc, hentries⟩ := wellFormed_map.mp hv
      refine entriesNanFree_iff.mpr fun e he => ih e he (hentries e he) fun p hp => ?_
      have hentry : Entries.find? e.1 entries = some e.2 := (Entries.find?_eq_some_iff hasc).mpr he
      exact h (.key e.1 :: p) (by rw [get?_cons, child?, hentry, Option.bind_some, hp])

/-- Induction on a value: what holds of all its children holds of the value. -/
@[elab_as_elim]
theorem childInduction {motive : Value → Prop}
    (step : ∀ v, (∀ s c, child? v s = some c → motive c) → motive v) (v : Value) : motive v := by
  induction v using memberInduction with
  | scalar v hv => exact step v fun s c hc => by cases v <;> simp_all [child?, isContainer]
  | list items ih =>
    refine step _ ?_
    intro s c hc
    cases s with
    | index i => exact ih c (List.mem_of_getElem? hc)
    | key k => simp [child?] at hc
  | map entries ih =>
    refine step _ ?_
    intro s c hc
    cases s with
    | key k => exact ih (k, c) (Entries.mem_of_find? hc)
    | index i => simp [child?] at hc

/-- Nothing stands below a scalar. -/
theorem child?_of_scalar {d : Value} (hd : d.isContainer = false) (s : Step) :
    child? d s = none := by
  cases d <;> cases s <;> first | rfl | simp [isContainer] at hd

/-- Values of which one has a child at a step are alike if both have. -/
theorem alike_of_child? {u v a b : Value} {s : Step} (hu : child? u s = some a)
    (hv : child? v s = some b) : alike u v = true := by
  cases s <;> cases u <;> simp only [child?, reduceCtorEq] at hu <;>
    cases v <;> simp only [child?, reduceCtorEq] at hv <;> rfl

/-! ### Leaves -/

/-- A scalar or an empty container. -/
def isLeaf : Value → Bool
  | .list (_ :: _) | .map (_ :: _) => false
  | _ => true

theorem isLeaf_of_scalar {v : Value} (hv : v.isContainer = false) : v.isLeaf = true := by
  cases v <;> first | rfl | simp [isContainer] at hv

/-- Nothing stands below a leaf. -/
theorem child?_of_isLeaf {v : Value} (hv : v.isLeaf = true) (s : Step) : child? v s = none := by
  match v, s with
  | .list [], .index _ => rfl
  | .map [], .key _ => rfl
  | .list (_ :: _), _ => simp [isLeaf] at hv
  | .map (_ :: _), _ => simp [isLeaf] at hv
  | .null, _ | .bool _, _ | .int _, _ | .float _, _ | .string _, _ => exact child?_of_scalar rfl _
  | .list [], .key _ => rfl
  | .map [], .index _ => rfl

/-- Nothing is found below a leaf. -/
theorem get?_below_leaf {v c : Value} {q : Path} (hc : get? v q = some c) (hl : c.isLeaf = true)
    (s : Step) (r : Path) : get? v (q ++ s :: r) = none := by
  rw [get?_append, hc, Option.bind_some, get?_cons, child?_of_isLeaf hl, Option.bind_none]

theorem mem_itemLeaves {i : Nat} {items : List Value} {p : Path} :
    p ∈ itemLeaves i items ↔
      ∃ j v q, items[j]? = some v ∧ q ∈ leaves v ∧ p = .index (i + j) :: q := by
  induction items generalizing i with
  | nil => simp [itemLeaves]
  | cons w ws ih =>
    simp only [itemLeaves, List.mem_append, List.mem_map, ih]
    constructor
    · rintro (⟨q, hq, rfl⟩ | ⟨j, v, q, hv, hq, rfl⟩)
      · exact ⟨0, w, q, rfl, hq, rfl⟩
      · exact ⟨j + 1, v, q, hv, hq, by rw [Nat.add_right_comm, Nat.add_assoc]⟩
    · rintro ⟨j, v, q, hv, hq, rfl⟩
      cases j with
      | zero =>
        cases hv
        exact Or.inl ⟨q, hq, rfl⟩
      | succ j =>
        exact Or.inr ⟨j, v, q, hv, hq, by rw [Nat.add_right_comm, Nat.add_assoc]⟩

theorem mem_entryLeaves {entries : List (String × Value)} {p : Path} :
    p ∈ entryLeaves entries ↔
      ∃ k v q, (k, v) ∈ entries ∧ q ∈ leaves v ∧ p = .key k :: q := by
  induction entries with
  | nil => simp [entryLeaves]
  | cons e es ih =>
    obtain ⟨l, w⟩ := e
    simp only [entryLeaves, List.mem_append, List.mem_map, ih, List.mem_cons, Prod.mk.injEq]
    constructor
    · rintro (⟨q, hq, rfl⟩ | ⟨k, v, q, hv, hq, rfl⟩)
      · exact ⟨l, w, q, Or.inl ⟨rfl, rfl⟩, hq, rfl⟩
      · exact ⟨k, v, q, Or.inr hv, hq, rfl⟩
    · rintro ⟨k, v, q, ⟨rfl, rfl⟩ | hv, hq, rfl⟩
      · exact Or.inl ⟨q, hq, rfl⟩
      · exact Or.inr ⟨k, v, q, hv, hq, rfl⟩

theorem leaves_of_isLeaf {v : Value} (hv : v.isLeaf = true) : leaves v = [[]] := by
  match v with
  | .list [] | .map [] => rfl
  | .list (_ :: _) | .map (_ :: _) => simp [isLeaf] at hv
  | .null | .bool _ | .int _ | .float _ | .string _ => rfl

/-- The leaves of a container with members stand below it. -/
theorem mem_leaves_of_not_isLeaf {v : Value} (hw : v.WellFormed) (hv : v.isLeaf = false)
    {p : Path} :
    p ∈ leaves v ↔ ∃ s c q, child? v s = some c ∧ q ∈ leaves c ∧ p = s :: q := by
  match v with
  | .list (item :: items) =>
    rw [show leaves (.list (item :: items)) = itemLeaves 0 (item :: items) from rfl,
      mem_itemLeaves]
    constructor
    · rintro ⟨j, c, q, hc, hq, rfl⟩
      exact ⟨.index j, c, q, hc, hq, by rw [Nat.zero_add]⟩
    · rintro ⟨s, c, q, hc, hq, rfl⟩
      cases s with
      | index j => exact ⟨j, c, q, hc, hq, by rw [Nat.zero_add]⟩
      | key k => simp [child?] at hc
  | .map (entry :: entries) =>
    rw [show leaves (.map (entry :: entries)) = entryLeaves (entry :: entries) from rfl,
      mem_entryLeaves]
    have hasc := (wellFormed_map.mp hw).1
    constructor
    · rintro ⟨k, c, q, hc, hq, rfl⟩
      exact ⟨.key k, c, q, (Entries.find?_eq_some_iff hasc).mpr hc, hq, rfl⟩
    · rintro ⟨s, c, q, hc, hq, rfl⟩
      cases s with
      | key k => exact ⟨k, c, q, (Entries.find?_eq_some_iff hasc).mp hc, hq, rfl⟩
      | index j => simp [child?] at hc
  | .list [] | .map [] | .null | .bool _ | .int _ | .float _ | .string _ => simp [isLeaf] at hv

/-- A leaf stands at the path. -/
def LeafAt (v : Value) (p : Path) : Prop := ∃ w, get? v p = some w ∧ w.isLeaf = true

theorem leafAt_nil {v : Value} : LeafAt v [] ↔ v.isLeaf = true := by
  simp [LeafAt]

theorem leafAt_cons {v : Value} {s : Step} {p : Path} :
    LeafAt v (s :: p) ↔ ∃ c, child? v s = some c ∧ LeafAt c p := by
  simp only [LeafAt, get?_cons, Option.bind_eq_some_iff]
  constructor
  · rintro ⟨w, ⟨c, hc, hw⟩, hl⟩
    exact ⟨c, hc, w, hw, hl⟩
  · rintro ⟨c, hc, w, hw, hl⟩
    exact ⟨w, ⟨c, hc, hw⟩, hl⟩

theorem leafAt_append {v : Value} {p q : Path} :
    LeafAt v (p ++ q) ↔ ∃ c, get? v p = some c ∧ LeafAt c q := by
  induction p generalizing v with
  | nil => simp
  | cons s p ih =>
    simp only [List.cons_append, leafAt_cons, ih, get?_cons, Option.bind_eq_some_iff]
    constructor
    · rintro ⟨c, hc, w, hw, hl⟩
      exact ⟨w, ⟨c, hc, hw⟩, hl⟩
    · rintro ⟨w, ⟨c, hc, hw⟩, hl⟩
      exact ⟨c, hc, w, hw, hl⟩

/-- **The listed paths are those at which a leaf stands.** -/
theorem mem_leaves_iff {v : Value} (hv : v.WellFormed) {p : Path} :
    p ∈ leaves v ↔ LeafAt v p := by
  induction p generalizing v with
  | nil =>
    rw [leafAt_nil]
    by_cases hl : v.isLeaf = true
    · simp [leaves_of_isLeaf hl, hl]
    · rw [mem_leaves_of_not_isLeaf hv (by simpa using hl)]
      simp [hl]
  | cons s p ih =>
    rw [leafAt_cons]
    by_cases hl : v.isLeaf = true
    · simp [leaves_of_isLeaf hl, child?_of_isLeaf hl]
    · rw [mem_leaves_of_not_isLeaf hv (by simpa using hl)]
      constructor
      · rintro ⟨_, c, _, hc, hq, he⟩
        cases he
        exact ⟨c, hc, (ih (wellFormed_of_child? hv hc)).mp hq⟩
      · rintro ⟨c, hc, hq⟩
        exact ⟨s, c, p, hc, (ih (wellFormed_of_child? hv hc)).mpr hq, rfl⟩

/-- A container with members has a child. -/
theorem exists_child? {v : Value} (hv : v.isLeaf = false) : ∃ s c, child? v s = some c := by
  match v with
  | .list (item :: items) => exact ⟨.index 0, item, rfl⟩
  | .map ((k, w) :: entries) => exact ⟨.key k, w, by simp [child?, Entries.find?]⟩
  | .list [] | .map [] | .null | .bool _ | .int _ | .float _ | .string _ => simp [isLeaf] at hv

/-- Every value has a leaf. -/
theorem exists_mem_leaves (v : Value) (hv : v.WellFormed) : ∃ p, p ∈ leaves v := by
  induction v using childInduction with
  | _ v ih =>
    by_cases hl : v.isLeaf = true
    · exact ⟨[], by simp [leaves_of_isLeaf hl]⟩
    · have hl' : v.isLeaf = false := by simpa using hl
      obtain ⟨s, c, hc⟩ := exists_child? hl'
      obtain ⟨p, hp⟩ := ih s c hc (wellFormed_of_child? hv hc)
      exact ⟨s :: p, (mem_leaves_of_not_isLeaf hv hl').mpr ⟨s, c, p, hc, hp, rfl⟩⟩

theorem exists_leafAt {v : Value} (hv : v.WellFormed) : ∃ p, LeafAt v p := by
  obtain ⟨p, hp⟩ := exists_mem_leaves v hv
  exact ⟨p, (mem_leaves_iff hv).mp hp⟩

/-- Every child leads to a leaf, so another value with all these leaves has a child there too. -/
theorem exists_child?_of_leaves {u v a : Value} {s : Step} (hu : u.WellFormed)
    (h : ∀ q c, c.isLeaf = true → get? u q = some c → get? v q = some c)
    (ha : child? u s = some a) : ∃ b, child? v s = some b := by
  obtain ⟨p, c, hc, hl⟩ := exists_leafAt (wellFormed_of_child? hu ha)
  have hleaf : get? u (s :: p) = some c := by rw [get?_cons, ha, Option.bind_some, hc]
  have hother := h (s :: p) c hl hleaf
  rw [get?_cons, Option.bind_eq_some_iff] at hother
  obtain ⟨b, hb, -⟩ := hother
  exact ⟨b, hb⟩

/-- **A value is determined by its leaves.** -/
theorem eq_of_leaves {u v : Value} (hu : u.WellFormed) (hv : v.WellFormed)
    (h : ∀ q c, c.isLeaf = true → (get? u q = some c ↔ get? v q = some c)) : u = v := by
  induction u using childInduction generalizing v with
  | _ u ih =>
    by_cases hlu : u.isLeaf = true
    · exact (Option.some.inj ((h [] u hlu).mp rfl)).symm
    by_cases hlv : v.isLeaf = true
    · exact Option.some.inj ((h [] v hlv).mpr rfl)
    have huv := fun q c hl => (h q c hl).mp
    have hvu := fun q c hl => (h q c hl).mpr
    have halike : alike u v = true := by
      obtain ⟨s, a, ha⟩ := exists_child? (by simpa using hlu)
      obtain ⟨b, hb⟩ := exists_child?_of_leaves hu huv ha
      exact alike_of_child? ha hb
    refine eq_of_children hu hv halike fun s => ?_
    cases ha : child? u s with
    | none =>
      cases hb : child? v s with
      | none => rfl
      | some b =>
        obtain ⟨a, ha'⟩ := exists_child?_of_leaves hv hvu hb
        rw [ha] at ha'
        cases ha'
    | some a =>
      obtain ⟨b, hb⟩ := exists_child?_of_leaves hu huv ha
      -- The leaves of the children are those of the values, behind the step.
      have hab : a = b := by
        refine ih s a ha (wellFormed_of_child? hu ha) (wellFormed_of_child? hv hb) ?_
        intro q c hl
        have hq := h (s :: q) c hl
        rwa [get?_cons, get?_cons, ha, hb] at hq
      rw [hb, hab]

end Value

end DocumentRules
