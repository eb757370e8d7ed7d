/-
What a document holds after a value has been set.

`Value.set` creates the containers that are missing on the way to the path.  Whatever stands
in the way gives way to a fresh container, and a list that is too short is padded:

* **`Value.get?_set_append`** — at every path on the way stands what setting the rest makes of
  the old value there;
* **`Value.child?_putChild_of_ne`** — beside the step that is taken the children stay if the
  old value fits the step, and are lost otherwise; in front of an index there may be padding;
* **`Value.get?_set_beside`** — so beside the path stands what stood there, nothing, or null;
* **`Value.get?_set_congr`** — what stands at a path afterwards depends only on what stood there;
* **`Value.get?_set_of_open`**, **`Value.leafAt_set`** — what an assignment keeps outside its
  path, and what it brings there;
* **`Value.get?_set_of_not_prefix`** — where something stands at the path already, nothing changes
  beside it;
* **`assignment_effect`** — the complete effect, at every path.

Two paths that do not lie on one another part at some step (`Path.parts`); the value where
they part decides what becomes of one when the other is set.
-/
import DocumentRules.Proofs.Document.Leaf

namespace DocumentRules

namespace Path

/-- Two paths: the first covers the second, or goes on below it, or they part. -/
theorem parts (p q : Path) :
    p <+: q ∨ (∃ s r, p = q ++ s :: r) ∨
      ∃ r s t p' q', s ≠ t ∧ p = r ++ s :: p' ∧ q = r ++ t :: q' := by
  induction p generalizing q with
  | nil => exact Or.inl (List.nil_prefix ..)
  | cons s p ih =>
    cases q with
    | nil => exact Or.inr (Or.inl ⟨s, p, rfl⟩)
    | cons t q =>
      by_cases hst : s = t
      · subst hst
        rcases ih q with h | ⟨u, r, rfl⟩ | ⟨r, u, v, p', q', hne, rfl, rfl⟩
        · exact Or.inl (List.prefix_cons_inj s |>.mpr h)
        · exact Or.inr (Or.inl ⟨u, r, rfl⟩)
        · exact Or.inr (Or.inr ⟨s :: r, u, v, p', q', hne, rfl, rfl⟩)
      · exact Or.inr (Or.inr ⟨[], s, t, p, q, hst, rfl, rfl⟩)

end Path

/-- Two steps that can be taken in containers of one kind: two keys, or two indices. -/
def Step.sameKind : Step → Step → Bool
  | .key _, .key _ => true
  | .index _, .index _ => true
  | _, _ => false

/-- Both steps are positions, the first one in front of the second. -/
def Step.InFront : Step → Step → Prop
  | .index j, .index i => j < i
  | _, _ => False

theorem Step.InFront.lt {s t : Step} (h : s.InFront t) : s < t := by
  cases s <;> cases t <;> first | exact h | exact h.elim

namespace Value

/-- The value is a container in which the step can be taken. -/
def fits : Value → Step → Bool
  | .map _, .key _ => true
  | .list _, .index _ => true
  | _, _ => false

/-- What stands beside a step that is set in a container without children: null in front of
an index. -/
def padding : Step → Step → Option Value
  | .index i, .index j => if j < i then some .null else none
  | _, _ => none

theorem padding_index (i j : Nat) :
    padding (.index i) (.index j) = if j < i then some .null else none := rfl

theorem padding_eq_some {s t : Step} {v : Value} (h : padding s t = some v) :
    v = .null ∧ ∃ i j, s = .index i ∧ t = .index j ∧ j < i := by
  cases s <;> cases t <;> simp only [padding, reduceCtorEq] at h
  split at h
  · rename_i j hlt
    cases h
    exact ⟨rfl, _, _, rfl, rfl, hlt⟩
  · cases h

/-- A value in which a step leads to a child fits it. -/
theorem fits_of_child? {d c : Value} {s : Step} (h : child? d s = some c) : d.fits s = true := by
  cases d <;> cases s <;> simp_all [child?, fits]

/-- Where one step can be taken, exactly those of its kind can. -/
theorem fits_eq_sameKind {d : Value} {t : Step} (h : d.fits t = true) (s : Step) :
    d.fits s = s.sameKind t := by
  cases d <;> cases t <;> simp only [fits, reduceCtorEq] at h <;> cases s <;> rfl

/-- Steps that lead to children of one value are of one kind. -/
theorem sameKind_of_child? {d a b : Value} {s t : Step} (ha : child? d s = some a)
    (hb : child? d t = some b) : s.sameKind t = true := by
  rw [← fits_eq_sameKind (fits_of_child? hb), fits_of_child? ha]

theorem getElem?_putItem_self (i : Nat) (v : Value) (items : List Value) :
    (putItem i v items)[i]? = some v := by
  unfold putItem
  split
  · rename_i h
    rw [List.getElem?_set_self h]
  · rename_i h
    rw [List.getElem?_append_right (by omega), List.getElem?_append_right (by simp)]
    simp

theorem getElem?_putItem_of_ne {i j : Nat} (hne : i ≠ j) (v : Value) (items : List Value) :
    (putItem i v items)[j]? = items[j]?.or (padding (.index i) (.index j)) := by
  rw [padding_index, putItem]
  split
  · rename_i h
    rw [List.getElem?_set_ne hne]
    cases hj : items[j]? with
    | some w => rfl
    | none =>
      have : items.length ≤ j := List.getElem?_eq_none_iff.mp hj
      rw [if_neg (by omega), Option.or_none]
  · rename_i h
    by_cases hj : j < items.length
    · rw [List.getElem?_append_left hj, List.getElem?_eq_getElem hj]
      rfl
    · have hnone : items[j]? = none := List.getElem?_eq_none (by omega)
      rw [List.getElem?_append_right (by omega), hnone]
      by_cases hlt : j < i
      · have hpad : j - items.length < i - items.length := by omega
        rw [List.getElem?_append_left (by simpa using hpad), if_pos hlt,
          List.getElem?_replicate, if_pos hpad]
        rfl
      · rw [List.getElem?_eq_none (by simp; omega), if_neg hlt]
        rfl

/-- At the step that is set stands the value. -/
theorem child?_putChild_self (d : Value) (s : Step) (v : Value) :
    child? (putChild d s v) s = some v := by
  cases d <;> cases s <;>
    simp [putChild, child?, getElem?_putItem_self, Entries.find?_put_self, Entries.find?]

/-- **Beside the step that is set** the children of a value that fits it stay. -/
theorem child?_putChild_of_ne {s t : Step} (hne : s ≠ t) (d v : Value) :
    child? (putChild d s v) t =
      (if d.fits s then child? d t else none).or (padding s t) := by
  cases s with
  | key k =>
    cases t with
    | key l =>
      have hlk : l ≠ k := fun e => hne (e ▸ rfl)
      cases d <;>
        simp [putChild, child?, fits, padding, Entries.find?_put_of_ne, Entries.find?, hlk]
    | index j => cases d <;> simp [putChild, child?, fits, padding]
  | index i =>
    cases t with
    | key l => cases d <;> simp [putChild, child?, fits, padding]
    | index j =>
      have hij : i ≠ j := fun e => hne (e ▸ rfl)
      cases d <;> simp [putChild, child?, fits, getElem?_putItem_of_ne hij]

/-- **On the way to the path** stands what setting the rest makes of the old value. -/
theorem get?_set_append (d v : Value) (r p : Path) :
    get? (set d (r ++ p) v) r = some (set ((get? d r).getD .null) p v) := by
  induction r generalizing d with
  | nil => rfl
  | cons s r ih =>
    rw [List.cons_append, set, get?_cons, child?_putChild_self, Option.bind_some, ih, get?_cons]
    cases child? d s with
    | none => cases r <;> rfl
    | some c => rfl

/-- At the path stands the value. -/
theorem get?_set_self (d v : Value) (p : Path) : get? (set d p v) p = some v := by
  have := get?_set_append d v p []
  rwa [List.append_nil] at this

/-- **Beside the path**, from the step on at which another path parts from it. -/
theorem get?_set_part {s t : Step} (hne : s ≠ t) (d v : Value) (r p q : Path) :
    get? (set d (r ++ s :: p) v) (r ++ t :: q) =
      ((if ((get? d r).getD .null).fits s then (get? d r).bind (child? · t) else none).or
        (padding s t)).bind (get? · q) := by
  have hchild : ((get? d r).bind (child? · t)) = child? ((get? d r).getD .null) t := by
    cases get? d r with
    | none => rfl
    | some c => rfl
  rw [get?_append, get?_set_append, Option.bind_some, get?_cons, set, child?_putChild_of_ne hne,
    hchild]

/-- **Beside the path** stands what stood there if the steps at which the paths part are of
one kind, and otherwise nothing; what is missing there may be padding. -/
theorem get?_set_beside {s t : Step} (hne : s ≠ t) (d v : Value) (r p q : Path) :
    get? (set d (r ++ s :: p) v) (r ++ t :: q) =
      (if s.sameKind t then get? d (r ++ t :: q) else none).or
        ((padding s t).bind (get? · q)) := by
  rw [get?_set_part hne, get?_append]
  cases hd : get? d r with
  | none => simp
  | some b =>
    rw [Option.getD_some, Option.bind_some, Option.bind_some, get?_cons]
    cases hb : child? b t with
    | none => simp
    | some a =>
      rw [fits_eq_sameKind (fits_of_child? hb), Option.bind_some]
      split
      · -- Padding is null, below which there is nothing that could take the place of a child.
        cases ha : get? a q with
        | some c => simp [ha]
        | none =>
          cases q with
          | nil => cases ha
          | cons u q =>
            cases hpad : padding s t with
            | none => simp [ha]
            | some n =>
              obtain ⟨rfl, -⟩ := padding_eq_some hpad
              rw [Option.some_or, Option.bind_some, ha]
              rfl
      · rfl

/-- Where the paths do not overlap, a value stays, or is lost, or null takes its place. -/
theorem get?_set_of_apart {p q : Path} (h : ¬ Path.overlaps p q = true) (d v : Value) :
    get? (set d p v) q = get? d q ∨ get? (set d p v) q = none ∨
      get? (set d p v) q = some .null := by
  rw [Path.overlaps_iff, not_or] at h
  rcases Path.parts p q with hpq | ⟨s, r, rfl⟩ | ⟨r, s, t, p', q', hne, rfl, rfl⟩
  · exact absurd hpq h.1
  · exact absurd (List.prefix_append ..) h.2
  · -- What may come in the place of a missing value is padding.
    have hpadding : (padding s t).bind (get? · q') = none ∨
        (padding s t).bind (get? · q') = some .null := by
      cases hpad : padding s t with
      | none => exact Or.inl rfl
      | some n =>
        obtain ⟨rfl, -⟩ := padding_eq_some hpad
        cases q' with
        | nil => exact Or.inr rfl
        | cons u q' => exact Or.inl rfl
    rw [get?_set_beside hne]
    split
    · cases get? d (r ++ t :: q') with
      | none => exact Or.inr hpadding
      | some c => exact Or.inl rfl
    · exact Or.inr hpadding

/-- **What stands at a path after an assignment** depends only on what stood there before. -/
theorem get?_set_congr {d e : Value} {q : Path} (h : get? d q = get? e q) (p : Path) (v : Value) :
    get? (set d p v) q = get? (set e p v) q := by
  rcases Path.parts p q with ⟨r, rfl⟩ | ⟨s, r, rfl⟩ | ⟨r, s, t, p', q', hne, rfl, rfl⟩
  · -- The path is covered: the value that is set does not depend on the document.
    rw [get?_append, get?_append, get?_set_self, get?_set_self]
  · rw [get?_set_append, get?_set_append, h]
  · rw [get?_set_beside hne, get?_set_beside hne, h]

/-! ### What one assignment keeps and brings -/

/-- The step that a path takes behind `r` cannot be taken in the value. -/
def Obstructs (d : Value) (p : Path) (r : Path) : Prop :=
  ∃ s c, r ++ [s] <+: p ∧ get? d r = some c ∧ c.fits s = false

/-- The second path is a place in a list, in front of the place that the first one leads to. -/
def InFront (p q : Path) : Prop :=
  ∃ r i j, r ++ [.index i] <+: p ∧ q = r ++ [.index j] ∧ j < i

/-- The second value is the first one, or a container of its kind. -/
def Persists (c c' : Value) : Prop := c' = c ∨ alike c c' = true

theorem Persists.trans {a b c : Value} (h : a.Persists b) (h' : b.Persists c) :
    a.Persists c := by
  rcases h with rfl | h
  · exact h'
  · rcases h' with rfl | h'
    · exact Or.inr h
    · exact Or.inr (alike_trans h h')

theorem alike_of_persists {a b c : Value} (h : a.Persists b) (h' : alike a c = true) :
    alike b c = true := by
  rcases h with rfl | h
  · exact h'
  · rw [alike_comm] at h
    exact alike_trans h h'

theorem Persists.fits {a b : Value} (h : a.Persists b) (s : Step) : b.fits s = a.fits s := by
  rcases h with rfl | h
  · rfl
  · cases a <;> cases b <;> simp_all [alike] <;> cases s <;> rfl

theorem alike_putChild {c v : Value} {s : Step} (h : c.fits s = true) :
    alike c (putChild c s v) = true := by
  cases c <;> cases s <;> simp_all [fits, putChild, alike]

/-- **What an assignment keeps**: a value that the path does not cover, and to which no value
in the way of the path leads, stays; if it is a container, it may have got other children. -/
theorem get?_set_of_open {d v c : Value} {p q : Path} (hp : ¬ p <+: q) (hc : get? d q = some c)
    (hopen : ∀ r, r <+: q → ¬ Obstructs d p r) :
    ∃ c', get? (set d p v) q = some c' ∧ c.Persists c' := by
  rcases Path.parts p q with h | ⟨s, r, rfl⟩ | ⟨r, s, t, p', q', hne, rfl, rfl⟩
  · exact absurd h hp
  · -- The value stands on the way: it is a container and gets another child.
    have hfits : c.fits s = true := by
      by_contra hf
      exact hopen q (List.prefix_refl q) ⟨s, c, by simp, hc, by simpa using hf⟩
    refine ⟨set c (s :: r) v, ?_, Or.inr (alike_putChild hfits)⟩
    rw [get?_set_append, hc, Option.getD_some]
  · -- The value stands beside the way, behind the step at which the paths part.
    obtain ⟨b, a, hb, ha, hc⟩ := exists_child?_of_get? hc
    have hfits : b.fits s = true := by
      by_contra hf
      exact hopen r (List.prefix_append ..) ⟨s, b, by simp, hb, by simpa using hf⟩
    refine ⟨c, ?_, Or.inl rfl⟩
    rw [get?_set_part hne, hb, Option.getD_some, if_pos hfits, Option.bind_some, ha]
    exact hc

/-- **What an assignment brings**: a leaf that the path does not cover was there before, or is
padding. -/
theorem leafAt_set {d v : Value} {p q : Path} (hp : ¬ p <+: q) (h : LeafAt (set d p v) q) :
    get? (set d p v) q = get? d q ∨ (get? (set d p v) q = some .null ∧ InFront p q) := by
  obtain ⟨w, hw, hleaf⟩ := h
  rcases Path.parts p q with h | ⟨s, r, rfl⟩ | ⟨r, s, t, p', q', hne, rfl, rfl⟩
  · exact absurd h hp
  · -- A container on the way has the child that was set, so it is no leaf.
    rw [get?_set_append, Option.some.injEq] at hw
    have hchild : child? w s = none := child?_of_isLeaf hleaf s
    rw [← hw, set, child?_putChild_self] at hchild
    cases hchild
  · rw [get?_set_beside hne] at hw ⊢
    cases hold : (if s.sameKind t then get? d (r ++ t :: q') else none) with
    | some a =>
      refine Or.inl ?_
      split at hold
      · rw [Option.some_or, hold]
      · cases hold
    | none =>
      -- Nothing was there, so the leaf is in the padding.
      rw [hold, Option.none_or] at hw
      obtain ⟨n, hpad, hn⟩ := Option.bind_eq_some_iff.mp hw
      obtain ⟨rfl, i, j, rfl, rfl, hlt⟩ := padding_eq_some hpad
      cases q' with
      | cons _ _ => cases hn
      | nil =>
        refine Or.inr ⟨?_, r, i, j, by simp, rfl, hlt⟩
        rw [Option.none_or, hpad]
        rfl

/-! ### Setting a value where one stands -/

theorem padding_eq_none {s t : Step} (h : ¬ t.InFront s) : padding s t = none := by
  cases s <;> cases t <;> first | rfl | exact if_neg h

/-- A list member has members in front of it. -/
theorem child?_of_inFront {d c : Value} {s t : Step} (hc : child? d s = some c)
    (ht : t.InFront s) : child? d t ≠ none := by
  cases s <;> cases t <;> try exact ht.elim
  cases d <;> simp only [child?, reduceCtorEq] at hc
  rename_i i j items
  obtain ⟨hi, -⟩ := List.getElem?_eq_some_iff.mp hc
  have hj : j < items.length := Nat.lt_trans ht hi
  rw [child?, List.getElem?_eq_getElem hj]
  exact Option.some_ne_none _

/-- Beside a step at which a value is set nothing changes if every position in front of it is
taken. -/
theorem child?_putChild_of_filled {d v : Value} {s t : Step} (hne : s ≠ t)
    (hfits : d.fits s = true) (hfilled : t.InFront s → child? d t ≠ none) :
    child? (putChild d s v) t = child? d t := by
  rw [child?_putChild_of_ne hne, if_pos hfits]
  cases hd : child? d t with
  | some c => rfl
  | none => rw [padding_eq_none fun ht => hfilled ht hd, Option.or_none]

theorem putItem_putItem (i : Nat) (v w : Value) (items : List Value) :
    putItem i w (putItem i v items) = putItem i w items := by
  refine List.ext_getElem? fun j => ?_
  by_cases hij : i = j
  · rw [← hij, getElem?_putItem_self, getElem?_putItem_self]
  · rw [getElem?_putItem_of_ne hij, getElem?_putItem_of_ne hij, getElem?_putItem_of_ne hij,
      Option.or_assoc, Option.or_self]

/-- Of two values set at one step the later one counts. -/
theorem putChild_putChild (d c c' : Value) (s : Step) :
    putChild (putChild d s c) s c' = putChild d s c' := by
  cases d <;> cases s <;> simp only [putChild, putItem_putItem, Entries.put_put]
  all_goals exact congrArg Value.map (Entries.put_put _ _ _ [])

theorem putChild_child? {d c : Value} {s : Step} (hd : d.WellFormed) (hc : child? d s = some c) :
    putChild d s c = d := by
  have hcw := wellFormed_of_child? hd hc
  have hfits := fits_of_child? hc
  have halike : alike (putChild d s c) d = true := by
    rw [alike_comm]
    exact alike_putChild hfits
  refine eq_of_children (wellFormed_putChild hd hcw) hd halike fun t => ?_
  by_cases hst : s = t
  · rw [← hst, child?_putChild_self, hc]
  · exact child?_putChild_of_filled hst hfits (child?_of_inFront hc)

/-- A value is set at a path by setting what comes of the value on the way. -/
theorem set_append (d v : Value) (r p : Path) :
    set d (r ++ p) v = set d r (set ((get? d r).getD .null) p v) := by
  induction r generalizing d with
  | nil => rfl
  | cons s r ih =>
    rw [List.cons_append, set, set, ih, get?_cons]
    cases child? d s with
    | none => cases r <;> rfl
    | some c => rfl

/-- **Away from a path at which something stands** an assignment changes nothing: nothing is in
its way, and no list is too short for it. -/
theorem get?_set_of_not_prefix {d c : Value} {p q : Path} (hc : get? d p = some c)
    (hpq : ¬ p <+: q) (hqp : ¬ q <+: p) (v : Value) : get? (set d p v) q = get? d q := by
  rcases Path.parts p q with h | ⟨s, r, rfl⟩ | ⟨r, s, t, p', q', hne, rfl, rfl⟩
  · exact absurd h hpq
  · exact absurd (List.prefix_append ..) hqp
  · obtain ⟨b, a, hb, ha, -⟩ := exists_child?_of_get? hc
    rw [get?_append, get?_append, get?_set_append, hb, Option.getD_some, Option.bind_some,
      Option.bind_some, get?_cons, get?_cons, set,
      child?_putChild_of_filled hne (fits_of_child? ha) (child?_of_inFront ha)]

/-- **Away from an entry of a map** that is there, setting the entry changes nothing, whether the
map has had it before or not. -/
theorem get?_set_entry {d : Value} {r q : Path} {entries : List (String × Value)} {k : String}
    (hr : get? d r = some (.map entries)) (hpq : ¬ r ++ [.key k] <+: q)
    (hqp : ¬ q <+: r ++ [.key k]) (v : Value) :
    get? (set d (r ++ [.key k]) v) q = get? d q := by
  rw [set_append, hr, Option.getD_some]
  by_cases hrq : r <+: q
  · obtain ⟨rest, rfl⟩ := hrq
    cases rest with
    | nil => exact absurd (by simp) hqp
    | cons t q' =>
      have hne : Step.key k ≠ t := by
        rintro rfl
        exact hpq (by simp)
      rw [get?_append, get?_append, get?_set_self, hr, Option.bind_some, Option.bind_some,
        get?_cons, get?_cons, set, child?_putChild_of_ne hne]
      simp [fits, padding]
  · exact get?_set_of_not_prefix hr hrq (fun h => hqp (h.trans (List.prefix_append ..))) _

/-- Setting what stands there changes nothing at all. -/
theorem set_get? {d c : Value} {p : Path} (hd : d.WellFormed) (hc : get? d p = some c) :
    set d p c = d := by
  induction p generalizing d with
  | nil => exact (Option.some.inj hc).symm
  | cons s p ih =>
    rw [get?_cons, Option.bind_eq_some_iff] at hc
    obtain ⟨a, ha, hc⟩ := hc
    rw [set, ha, Option.getD_some, ih (wellFormed_of_child? hd ha) hc, putChild_child? hd ha]

/-! ### The complete effect -/

/-- What is found beside a path that has been set, given what was found there before.  The path
that was set takes the first step where the two paths part, the other one takes the second step
and goes on with the rest. -/
def besideSet : Step → Step → Path → Option Value → Option Value
  | .key _, .key _, _, old => old
  | .index i, .index j, rest, old => old.or (if rest = [] ∧ j < i then some .null else none)
  | _, _, _, _ => none

theorem get?_set_beside_eq {s t : Step} (hne : s ≠ t) (d v : Value) (r p q : Path) :
    get? (set d (r ++ s :: p) v) (r ++ t :: q) = besideSet s t q (get? d (r ++ t :: q)) := by
  rw [get?_set_beside hne]
  cases s with
  | key k => cases t <;> simp [Step.sameKind, padding, besideSet]
  | index i =>
    cases t with
    | key k => simp [Step.sameKind, padding, besideSet]
    | index j =>
      have hpadding : (padding (.index i) (.index j)).bind (get? · q) =
          if q = [] ∧ j < i then some .null else none := by
        rw [padding_index]
        by_cases hlt : j < i <;> cases q <;> simp [hlt, get?_cons, child?]
      rw [hpadding, besideSet]
      rfl

end Value

/-- **The complete effect of an assignment.**  At and below the path stands what was set; on the
way to it stand containers in which its steps can be taken; and where another path parts from it,
what stood there stays if both paths take a key, or both an index, where it may be that a list
that was too short has been filled with nulls; otherwise nothing is left.  Every path is in one
of these places (`Path.parts`). -/
theorem assignment_effect (d v : Document) (p : Path) :
    (∀ q, (d.set p v).value.get? (p ++ q) = v.value.get? q) ∧
    (∀ q s r, p = q ++ s :: r → ∃ c, (d.set p v).value.get? q = some c ∧ c.fits s = true) ∧
    ∀ r s t p' q', s ≠ t → p = r ++ s :: p' →
      (d.set p v).value.get? (r ++ t :: q') =
        Value.besideSet s t q' (d.value.get? (r ++ t :: q')) := by
  refine ⟨fun q => ?_, ?_, ?_⟩
  · rw [Value.get?_append]
    exact congrArg (·.bind fun c => c.get? q) (Value.get?_set_self d.value v.value p)
  · rintro q s r rfl
    refine ⟨_, Value.get?_set_append d.value v.value q (s :: r), ?_⟩
    exact Value.fits_of_child? (Value.child?_putChild_self ..)
  · rintro r s t p' q' hne rfl
    exact Value.get?_set_beside_eq hne d.value v.value r p' q'

/-! ### A path that leads behind the end of a list -/

namespace Padded

/-- The document `{"a": [1], "b": 2}`. -/
def document : Document :=
  (Document.emptyMap.setScalar [.key "a", .index 0] (.int 1)).setScalar [.key "b"] (.int 2)

def path : Path := [.key "a", .index 2, .key "c"]

end Padded

open Padded in
theorem assignment_effect_padded :
    let after := (document.set path (.bool true)).value
    after.get? path = some (.bool true) ∧
    (∃ c, after.get? [.key "a"] = some c ∧ c.fits (.index 2) = true) ∧
    after.get? [.key "a", .index 0] = some (.int 1) ∧
    after.get? [.key "a", .index 1] = some .null ∧
    after.get? [.key "a", .key "x"] = none ∧
    after.get? [.key "b"] = some (.int 2) := by
  obtain ⟨hself, hway, hbeside⟩ := assignment_effect document (.bool true) path
  have hlist (t : Step) (ht : .index 2 ≠ t) := hbeside [.key "a"] (.index 2) t [.key "c"] [] ht rfl
  exact ⟨hself [], hway [.key "a"] (.index 2) [.key "c"] rfl,
    hlist (.index 0) (by decide), hlist (.index 1) (by decide), hlist (.key "x") (by decide),
    hbeside [] (.key "a") (.key "b") [.index 2, .key "c"] [] (by decide) rfl⟩

end DocumentRules
