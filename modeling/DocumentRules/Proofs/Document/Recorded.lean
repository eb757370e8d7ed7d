/-
What a document keeps when it is recorded as JSON.

JSON has no `nan` and no infinities, and the positions that a path is read with fit 64 bits.
Everything else that a document holds comes back as it was.

* `Value.PassesToChildren` — what holds of a value holds of its children, and so of the members
  of a container;
* `Value.Finite` — every number of the value is finite, wherever it stands;
* **`Value.Recordable`** — moreover every position in it fits 64 bits;
* **`Value.Recordable.readable`** — the paths of such a value are read from their written form;
* **`Value.Finite.ofJson_toJson`** — a value with finite numbers is read from its JSON.
-/
import DocumentRules.Document.Json
import DocumentRules.Proofs.Document.Leaf
import DocumentRules.Proofs.Document.PathText

namespace DocumentRules

namespace Value

/-! ### What passes to the members of a container -/

/-- What holds of a value holds of its children. -/
def PassesToChildren (P : Value → Prop) : Prop := ∀ v s c, P v → child? v s = some c → P c

namespace PassesToChildren

variable {P : Value → Prop}

theorem items (hpass : PassesToChildren P) {items : List Value} (h : P (.list items)) :
    ∀ v ∈ items, P v := by
  intro v hv
  obtain ⟨i, hi⟩ := List.mem_iff_getElem?.mp hv
  exact hpass _ (.index i) v h hi

theorem entries (hpass : PassesToChildren P) {entries : List (String × Value)}
    (h : P (.map entries)) (hasc : Entries.Ascending entries) : ∀ e ∈ entries, P e.2 :=
  fun e he => hpass _ (.key e.1) e.2 h ((Entries.find?_eq_some_iff hasc).mpr he)

end PassesToChildren

/-! ### Finite numbers -/

/-- Every number of the value is finite. -/
def Finite (v : Value) : Prop := ∀ p x, get? v p = some (.float x) → x.isFinite = true

theorem Finite.passes : PassesToChildren Finite := fun _ s _ h hc p x hx =>
  h (s :: p) x (by rw [get?_cons, hc, Option.bind_some, hx])

/-- The numbers of a value are finite if its own and those of its children are. -/
theorem finite_of_children {v : Value} (hfloat : ∀ x, v = .float x → x.isFinite = true)
    (hchildren : ∀ s c, child? v s = some c → c.Finite) : v.Finite := by
  intro p x hx
  cases p with
  | nil => exact hfloat x (Option.some.inj hx)
  | cons s p =>
    rw [get?_cons, Option.bind_eq_some_iff] at hx
    obtain ⟨c, hc, hx⟩ := hx
    exact hchildren s c hc p x hx

theorem finite_of_scalar {v : Value} (hscalar : v.isContainer = false)
    (h : ∀ x, v = .float x → x.isFinite = true) : v.Finite :=
  finite_of_children h fun s c hc => by
    rw [child?_of_scalar hscalar] at hc
    cases hc

theorem finite_list {items : List Value} (h : ∀ v ∈ items, v.Finite) : Finite (.list items) := by
  refine finite_of_children (fun _ h => nomatch h) fun s c hc => ?_
  cases s with
  | key k => cases hc
  | index i => exact h c (List.mem_of_getElem? hc)

/-! ### What can be recorded -/

/-- Every number of the value is finite, and the position of every list member fits 64 bits. -/
structure Recordable (v : Value) : Prop where
  finite : ∀ p x, get? v p = some (.float x) → x.isFinite = true
  positions : ∀ p i c, get? v (p ++ [.index i]) = some c → i < UInt64.size

namespace Recordable

variable {v c : Value}

theorem of_get? (h : v.Recordable) {p : Path} (hc : get? v p = some c) : c.Recordable where
  finite q x hx := h.finite (p ++ q) x (by rw [get?_append, hc, Option.bind_some, hx])
  positions q i d hd := by
    refine h.positions (p ++ q) i d ?_
    rw [List.append_assoc, get?_append, hc, Option.bind_some, hd]

theorem of_child? (h : v.Recordable) {s : Step} (hc : child? v s = some c) : c.Recordable :=
  h.of_get? (p := [s]) (by rw [get?_cons, hc]; rfl)

/-- **The paths of the value are read from their written form.** -/
theorem readable (h : v.Recordable) {p : Path} (hc : get? v p = some c) : p.Readable := by
  intro i hi
  obtain ⟨q, r, rfl⟩ := List.append_of_mem hi
  rw [List.append_cons, get?_append, Option.bind_eq_some_iff] at hc
  obtain ⟨d, hd, -⟩ := hc
  exact h.positions q i d hd

end Recordable

/-- A value is recordable if its children are. -/
theorem recordable_of_children {v : Value} (hfloat : ∀ x, v = .float x → x.isFinite = true)
    (hchildren : ∀ s c, child? v s = some c → c.Recordable ∧ Path.Readable [s]) :
    v.Recordable where
  finite := finite_of_children hfloat fun s c hc => (hchildren s c hc).1.finite
  positions p i d hd := by
    cases p with
    | nil =>
      rw [List.nil_append, get?_cons, Option.bind_eq_some_iff] at hd
      obtain ⟨c, hc, -⟩ := hd
      exact (hchildren _ c hc).2 i (List.mem_singleton.mpr rfl)
    | cons s p =>
      rw [List.cons_append, get?_cons, Option.bind_eq_some_iff] at hd
      obtain ⟨c, hc, hd⟩ := hd
      exact (hchildren s c hc).1.positions p i d hd

theorem recordable_null : Recordable .null :=
  recordable_of_children (fun _ h => nomatch h) fun _ _ h => nomatch h

theorem recordable_int (i : Int64) : Recordable (.int i) :=
  recordable_of_children (fun _ h => nomatch h) fun _ _ h => nomatch h

theorem recordable_map {entries : List (String × Value)}
    (h : ∀ e ∈ entries, e.2.Recordable) : Recordable (.map entries) := by
  refine recordable_of_children (fun _ h => nomatch h) fun s c hc => ?_
  cases s with
  | index i => cases hc
  | key k =>
    exact ⟨h (k, c) (Entries.mem_of_find? hc), by simp [Path.Readable]⟩

/-! ### Back from JSON -/

theorem itemsToJson_eq_map (items : List Value) : itemsToJson items = items.map toJson := by
  induction items with
  | nil => rfl
  | cons v vs ih => rw [itemsToJson, ih, List.map_cons]

theorem ofJsonItems_eq_map (js : List Json) : ofJsonItems js = js.map ofJson := by
  induction js with
  | nil => rfl
  | cons j js ih => rw [ofJsonItems, ih, List.map_cons]

theorem ofJsonEntries_entriesToJson {done entries : List (String × Value)}
    (hasc : Entries.Ascending (done ++ entries))
    (hback : ∀ e ∈ entries, ofJson (toJson e.2) = e.2) :
    ofJsonEntries done (entriesToJson entries) = done ++ entries := by
  induction entries generalizing done with
  | nil => rw [entriesToJson, ofJsonEntries, List.append_nil]
  | cons e entries ih =>
    obtain ⟨k, v⟩ := e
    have hlast : ∀ f ∈ done, f.1 < k := fun f hf =>
      (List.pairwise_append.mp hasc).2.2 f hf (k, v) (List.mem_cons_self ..)
    have hv : ofJson (toJson v) = v := hback (k, v) (List.mem_cons_self ..)
    rw [entriesToJson, ofJsonEntries, hv, Entries.put_of_forall_lt v hlast, ih]
    · rw [List.append_assoc, List.cons_append, List.nil_append]
    · rwa [List.append_assoc, List.cons_append, List.nil_append]
    · exact fun f hf => hback f (List.mem_cons_of_mem _ hf)

/-- **A value is read from its JSON**, if its numbers are finite. -/
theorem Finite.ofJson_toJson {v : Value} (h : v.Finite) (hv : v.WellFormed) :
    ofJson (toJson v) = v := by
  induction v using memberInduction with
  | scalar v hscalar =>
    cases v with
    | int i =>
      rw [toJson, ofJson, if_pos ⟨Int64.minValue_le_toInt i, Int64.toInt_le i⟩, Int64.ofInt_toInt]
    | float x =>
      have hx : x.isFinite = true := h [] x rfl
      rw [toJson, if_pos hx, ofJson]
    | list items => simp [isContainer] at hscalar
    | map entries => simp [isContainer] at hscalar
    | _ => rfl
  | list items ih =>
    have hback : items.map (ofJson ∘ toJson) = items := by
      refine (List.map_congr_left fun a ha => ?_).trans (List.map_id items)
      exact ih a ha (Finite.passes.items h a ha) (wellFormed_list.mp hv a ha)
    rw [toJson, ofJson, itemsToJson_eq_map, ofJsonItems_eq_map, List.map_map, hback]
  | map entries ih =>
    obtain ⟨hasc, hwell⟩ := wellFormed_map.mp hv
    have hback : ∀ e ∈ entries, ofJson (toJson e.2) = e.2 := fun e he =>
      ih e he (Finite.passes.entries h hasc e he) (hwell e he)
    have hentries : ofJsonEntries [] (entriesToJson entries) = [] ++ entries :=
      ofJsonEntries_entriesToJson hasc hback
    rw [toJson, ofJson, hentries, List.nil_append]

theorem ofJson_toJson {v : Value} (hv : v.WellFormed) (hr : v.Recordable) :
    ofJson (toJson v) = v :=
  Finite.ofJson_toJson hr.finite hv

/-- Only null is written as null. -/
theorem toJson_eq_null_iff {v : Value} (hr : v.Recordable) : toJson v = .null ↔ v = .null := by
  cases v with
  | float x =>
    have hx : x.isFinite = true := hr.finite [] x rfl
    simp [toJson, hx]
  | _ => simp [toJson]

end Value

theorem Document.ofJson_toJson {d : Document} (h : d.value.Finite) : ofJson d.toJson = d :=
  Document.ext (h.ofJson_toJson d.wellFormed)

end DocumentRules
