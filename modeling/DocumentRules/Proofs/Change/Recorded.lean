/-
What the changes of a difference keep when they are recorded as JSON.

A change is recorded with its path and with the values that were and are there.  Null counts as
nothing when such a value is read, so of a change that says that null was or is there, this is
lost (`Mutation.readBack`).  Everything else comes back.

* **`Value.old_new_of_mem_diff`** — a change of a difference holds what stands at its path;
* **`Mutation.ofJson?_toJson`** — a recorded change is read back up to its nulls;
* **`Mutation.readBack_eq_self_iff`** — it comes back as it was exactly if neither is null;
* **`Mutation.mem_touchedLeaves_iff_readBack`** — of the leaves that it touches only the one at
  its path can be lost;
* **`Coverage.Fact.ofJson?_toJson`** — a fact about a leaf comes back as it was.
-/
import DocumentRules.Coverage.Fact
import DocumentRules.Proofs.Change.Listing
import DocumentRules.Proofs.Document.Recorded
import DocumentRules.Proofs.Json.Record

namespace DocumentRules

open Value (diffBetween changesBetween blocks steps)

/-! ### Values that may be missing -/

/-- What is read back of a value that may be missing: null counts as nothing. -/
def Value.readBack (o : Option Value) : Option Value := o.filter (!·.isNull)

theorem Value.readBack_eq_self_iff {o : Option Value} :
    Value.readBack o = o ↔ o ≠ some .null := by
  cases o with
  | none => simp [readBack]
  | some v => cases v <;> simp [readBack, isNull]

theorem Value.readBack_eq_some_iff {o : Option Value} {v : Value} :
    Value.readBack o = some v ↔ o = some v ∧ v ≠ .null := by
  rw [readBack, Option.filter_eq_some_iff, Bool.not_eq_true', isNull_eq_false_iff]

theorem Record.optional_value {r : Record} {n : String} {o : Option Value}
    (h : r.get? n = o.map Value.toJson) (ho : ∀ v ∈ o, v.WellFormed ∧ v.Recordable) :
    r.optional n (some ∘ Value.ofJson) = some (Value.readBack o) := by
  cases o with
  | none => exact Record.optional_map (o := none) h fun _ ha => nomatch ha
  | some v =>
    obtain ⟨hv, hr⟩ := ho v rfl
    by_cases hnull : v = .null
    · subst hnull
      exact Record.optional_null h
    · have hback : Value.readBack (some v) = some v :=
        Value.readBack_eq_self_iff.mpr fun e => hnull (Option.some.inj e)
      rw [hback]
      refine Record.optional_map h fun a ha => ?_
      cases ha
      exact ⟨fun e => hnull ((Value.toJson_eq_null_iff hr).mp e),
        congrArg some (Value.ofJson_toJson hv hr)⟩

/-- A field that is written as null where there is no value. -/
theorem Record.nullable_value {r : Record} {n : String} {o : Option Value}
    (hr : r.positional = false) (h : r.get? n = some (Json.ofOption (o.map Value.toJson)))
    (ho : ∀ v ∈ o, v.WellFormed ∧ v.Recordable) :
    r.nullable n (some ∘ Value.ofJson) = some (Value.readBack o) := by
  rw [nullable, hr, Bool.false_and, if_neg (by decide)]
  cases o with
  | none => exact optional_null h
  | some v => exact optional_value h ho

theorem Path.ofJson?_toJson {p : Path} (hp : p.Readable) : Path.ofJson? p.toJson = some p := by
  rw [Path.ofJson?, Path.toJson, Json.string?, Option.bind_some, Path.parse_text hp]
  rfl

/-! ### One change -/

theorem MutationOp.ofText?_word (op : MutationOp) :
    (Json.string op.text).word?.bind ofText? = some op := by
  cases op <;> rfl

namespace Mutation

/-- What is read back of a recorded change. -/
def readBack (m : Mutation) : Mutation :=
  { m with old := Value.readBack m.old, new := Value.readBack m.new }

theorem readBack_eq_self_iff {m : Mutation} :
    m.readBack = m ↔ m.old ≠ some .null ∧ m.new ≠ some .null := by
  rw [← Value.readBack_eq_self_iff, ← Value.readBack_eq_self_iff]
  obtain ⟨path, op, old, new, rule⟩ := m
  simp [readBack]

/-- What a recorded change holds can be read. -/
structure Recordable (m : Mutation) : Prop where
  path : m.path.Readable
  old : ∀ v ∈ m.old, v.WellFormed ∧ v.Recordable
  new : ∀ v ∈ m.new, v.WellFormed ∧ v.Recordable

/-- The leaves that such a change touches are read from their written form. -/
theorem Recordable.readable_of_mem {m : Mutation} (h : m.Recordable) {q : Path}
    (hq : q ∈ m.touchedLeaves) : q.Readable := by
  obtain ⟨v, hv, p, hp, rfl⟩ := mem_touchedLeaves.mp hq
  have hvalue : v.WellFormed ∧ v.Recordable := hv.elim (h.old v) (h.new v)
  obtain ⟨w, hw, -⟩ := (Value.mem_leaves_iff hvalue.1).mp hp
  intro i hi
  exact (List.mem_append.mp hi).elim (h.path i) (hvalue.2.readable hw i)

/-- **A lost null takes the leaf at the path of the change with it**, and no other leaf. -/
theorem mem_touchedLeaves_iff_readBack {m : Mutation} {q : Path} :
    q ∈ m.touchedLeaves ↔ q ∈ m.readBack.touchedLeaves ∨
      (q = m.path ∧ (m.old = some .null ∨ m.new = some .null)) := by
  have hnull : Value.leaves .null = [[]] := rfl
  simp only [mem_touchedLeaves, readBack, Value.readBack_eq_some_iff]
  constructor
  · rintro ⟨v, hv, p, hp, rfl⟩
    by_cases hv' : v = .null
    · subst hv'
      rw [hnull, List.mem_singleton] at hp
      rw [hp, List.append_nil]
      exact Or.inr ⟨rfl, hv⟩
    · exact Or.inl ⟨v, hv.imp (⟨·, hv'⟩) (⟨·, hv'⟩), p, hp, rfl⟩
  · rintro (⟨v, hv, p, hp, rfl⟩ | ⟨rfl, hv⟩)
    · exact ⟨v, hv.imp And.left And.left, p, hp, rfl⟩
    · exact ⟨.null, hv, [], List.mem_singleton.mpr rfl, (List.append_nil _).symm⟩

/-- **A recorded change is read back**, up to its nulls. -/
theorem ofJson?_toJson {m : Mutation} (h : m.Recordable) :
    ofJson? m.toJson = some m.readBack := by
  have hjson : m.toJson = .object (Record.written [("path", some m.path.toJson),
      ("op", some (.string m.op.text)), ("from", m.old.map Value.toJson),
      ("to", m.new.map Value.toJson), ("rule", m.rule.map .string)]) := by
    simp [toJson, Record.written, Json.optional]
  obtain ⟨r, hr, -, hpath, hop, hold, hnew, hrule⟩ := Record.exists_ofJson?_written
    ["path", "op", "from", "to", "rule"] hjson rfl (by decide)
  rw [ofJson?, hr]
  simp only [Option.bind_eq_bind, Option.bind_some, Record.required_eq hpath,
    Path.ofJson?_toJson h.path, Record.required_eq hop, MutationOp.ofText?_word,
    Record.optional_value hold h.old, Record.optional_value hnew h.new,
    Record.optional_string hrule]
  rfl

end Mutation

/-! ### The changes of a difference -/

namespace Value

variable {u v : Value}

/-- **A change holds what stands at its path**, in the old and in the new document, and
something stands there in one of them. -/
theorem old_new_of_mem_diff (hu : u.WellFormed) (hv : v.WellFormed) {m : Mutation}
    (hm : m ∈ diff u v) :
    m.old = get? u m.path ∧ m.new = get? v m.path ∧
      ((∃ a, get? u m.path = some a) ∨ ∃ b, get? v m.path = some b) := by
  induction u using childInduction generalizing v m with
  | _ u ih =>
  by_cases hk : alike u v = true
  · rw [diff_eq_blocks hu hv hk, blocks, List.mem_flatMap] at hm
    obtain ⟨s, -, hm⟩ := hm
    obtain ⟨b, hb, rfl⟩ := List.mem_map.mp hm
    rw [show (b.under s).path = s :: b.path from rfl, get?_cons, get?_cons]
    cases hu' : child? u s with
    | none =>
      cases hv' : child? v s with
      | none =>
        rw [hu', hv'] at hb
        cases hb
      | some w =>
        rw [hu', hv'] at hb
        cases List.mem_singleton.mp hb
        exact ⟨rfl, rfl, Or.inr ⟨w, rfl⟩⟩
    | some w =>
      cases hv' : child? v s with
      | none =>
        rw [hu', hv'] at hb
        cases List.mem_singleton.mp hb
        exact ⟨rfl, rfl, Or.inl ⟨w, rfl⟩⟩
      | some w' =>
        rw [hu', hv'] at hb
        exact ih s w hu' (wellFormed_of_child? hu hu') (wellFormed_of_child? hv hv') hb
  · rw [diff_of_not_alike (by simpa using hk)] at hm
    split at hm
    · cases hm
    · rw [List.mem_singleton.mp hm]
      exact ⟨rfl, rfl, Or.inl ⟨u, rfl⟩⟩

/-- The changes between recordable documents are recordable. -/
theorem recordable_of_mem_diff (hu : u.WellFormed) (hv : v.WellFormed) (hur : u.Recordable)
    (hvr : v.Recordable) {m : Mutation} (hm : m ∈ diff u v) : m.Recordable := by
  obtain ⟨hold, hnew, hpath⟩ := old_new_of_mem_diff hu hv hm
  refine ⟨?_, fun a ha => ?_, fun b hb => ?_⟩
  · rcases hpath with ⟨a, ha⟩ | ⟨b, hb⟩
    · exact hur.readable ha
    · exact hvr.readable hb
  · rw [hold] at ha
    exact ⟨wellFormed_of_get? hu ha, hur.of_get? ha⟩
  · rw [hnew] at hb
    exact ⟨wellFormed_of_get? hv hb, hvr.of_get? hb⟩

/-- Who made the changes plays no part in this. -/
theorem recordable_of_mem_diffBy (hu : u.WellFormed) (hv : v.WellFormed) (hur : u.Recordable)
    (hvr : v.Recordable) {id : String} {m : Mutation} (hm : m ∈ diffBy id u v) :
    m.Recordable := by
  obtain ⟨b, hb, rfl⟩ := List.mem_map.mp hm
  have hb := recordable_of_mem_diff hu hv hur hvr hb
  exact ⟨hb.path, hb.old, hb.new⟩

end Value

/-- **A fact about a leaf comes back as it was.** -/
theorem Coverage.Fact.ofJson?_toJson {f : Coverage.Fact} (hf : f.path.Readable) :
    Coverage.Fact.ofJson? f.toJson = some f := by
  have hjson : f.toJson = .object (Record.written [("rule_id", some (.string f.rule)),
      ("path", some f.path.toJson)]) := rfl
  obtain ⟨r, hr, -, hrule, hpath⟩ := Record.exists_ofJson?_written
    Fact.fieldNames hjson rfl (by decide)
  rw [ofJson?, hr]
  simp only [Option.bind_eq_bind, Option.bind_some, Record.required_eq hrule,
    Record.required_eq hpath, Path.ofJson?_toJson hf, Json.string?]
  rfl

/-- The facts of a recordable change come back. -/
theorem Mutation.Recordable.ofJson?_fact {m : Mutation} (h : m.Recordable) {f : Coverage.Fact}
    (hf : f ∈ m.facts) : Coverage.Fact.ofJson? f.toJson = some f := by
  unfold facts at hf
  split at hf
  · obtain ⟨q, hq, rfl⟩ := List.mem_map.mp hf
    exact Coverage.Fact.ofJson?_toJson (h.readable_of_mem (OrderedSet.mem_toList.mp hq))
  · cases hf

end DocumentRules
