/-
Reading back a record.

A record is written as an object that leaves out the fields without a value
(`Record.written`).  When it is read, every field is found with what was written of it.

* **`Record.ofJson?_written`**, **`Record.get?_written`** — the record and its fields;
* **`Record.optional_map`** — an optional field comes back, as long as its value is not written
  as null;
* **`Json.list?_map`** — a list comes back if its members do.
-/
import DocumentRules.Json.Record
import Mathlib.Data.List.Nodup

namespace DocumentRules

namespace Record

/-- The entries of the fields that have a value, in their order. -/
def written (fields : List (String × Option Json)) : List (String × Json) :=
  fields.flatMap fun f => Json.optional f.1 f.2

theorem mem_written {fields : List (String × Option Json)} {n : String} {j : Json} :
    (n, j) ∈ written fields ↔ (n, some j) ∈ fields := by
  simp only [written, List.mem_flatMap]
  constructor
  · rintro ⟨⟨k, o⟩, hf, hj⟩
    cases o with
    | none => cases hj
    | some j' =>
      cases List.mem_singleton.mp hj
      exact hf
  · intro h
    exact ⟨(n, some j), h, List.mem_singleton.mpr rfl⟩

/-- The names that are written are among those of the fields, in their order. -/
theorem written_sublist (fields : List (String × Option Json)) :
    ((written fields).map (·.1)).Sublist (fields.map (·.1)) := by
  induction fields with
  | nil => exact .slnil
  | cons f fields ih =>
    obtain ⟨n, o⟩ := f
    cases o with
    | none => exact ih.cons n
    | some j => exact ih.cons_cons n

theorem allDistinct_iff {names : List String} : allDistinct names = true ↔ names.Nodup := by
  induction names with
  | nil => simp [allDistinct]
  | cons n names ih => simp [allDistinct, ih]

section Written

variable {fields : List (String × Option Json)}

/-- **A written record is read**, if its fields have different names that are known. -/
theorem ofJson?_written {names : List String} (hnodup : (fields.map (·.1)).Nodup)
    (hnames : ∀ f ∈ fields, f.1 ∈ names) :
    ofJson? names (.object (written fields)) = some ⟨written fields, false⟩ := by
  have hknown : (written fields).filter (fun e => names.contains e.1) = written fields := by
    refine List.filter_eq_self.mpr fun e he => ?_
    exact List.contains_iff_mem.mpr (hnames _ (mem_written.mp he))
  have hdistinct : allDistinct ((written fields).map (·.1)) = true :=
    allDistinct_iff.mpr (hnodup.sublist (written_sublist fields))
  simp only [ofJson?, hknown, hdistinct, if_true]

/-- **A field is found with what was written of it.** -/
theorem get?_written (hnodup : (fields.map (·.1)).Nodup) {n : String} {o : Option Json}
    (hf : (n, o) ∈ fields) (positional : Bool) : get? ⟨written fields, positional⟩ n = o := by
  have hsame {o' : Option Json} (hf' : (n, o') ∈ fields) : o' = o := by
    have hinj := List.inj_on_of_nodup_map hnodup hf' hf rfl
    exact congrArg Prod.snd hinj
  rw [get?]
  cases hfind : (written fields).find? (·.1 == n) with
  | none =>
    cases o with
    | none => rfl
    | some j =>
      have hnone := List.find?_eq_none.mp hfind (n, j) (mem_written.mpr hf)
      exact absurd (beq_self_eq_true n) hnone
  | some e =>
    obtain ⟨k, j⟩ := e
    have hk : k = n := by simpa using List.find?_some hfind
    subst hk
    exact hsame (mem_written.mp (List.mem_of_find?_eq_some hfind))

/-- A written record is read, and every field is found in what is read. -/
theorem exists_ofJson?_written (names : List String) {j : Json} (hj : j = .object (written fields))
    (hnames : fields.map (·.1) = names) (hnodup : names.Nodup) :
    ∃ r, ofJson? names j = some r ∧ r.positional = false ∧
      fields.Forall fun f => r.get? f.1 = f.2 := by
  subst hj hnames
  have hread := ofJson?_written hnodup fun f hf => List.mem_map_of_mem hf
  refine ⟨⟨written fields, false⟩, hread, rfl, List.forall_iff_forall_mem.mpr ?_⟩
  exact fun f hf => get?_written hnodup hf false

end Written

section Fields

variable {α : Type} {r : Record} {n : String} {read : Json → Option α}

theorem required_eq {j : Json} (h : r.get? n = some j) : r.required n read = read j := by
  rw [required, h, Option.bind_some]

theorem defaulted_eq {j : Json} (h : r.get? n = some j) (default : α) :
    r.defaulted n read default = read j := by
  rw [defaulted, h]

/-- **An optional field comes back**, as long as its value is not written as null. -/
theorem optional_map {write : α → Json} {o : Option α} (h : r.get? n = o.map write)
    (hread : ∀ a ∈ o, write a ≠ .null ∧ read (write a) = some a) : r.optional n read = some o := by
  cases o with
  | none =>
    rw [Option.map_none] at h
    rw [optional, h]
  | some a =>
    obtain ⟨hnull, ha⟩ := hread a rfl
    rw [Option.map_some] at h
    rw [optional, h]
    cases hw : write a <;> simp_all

theorem optional_string {o : Option String} (h : r.get? n = o.map .string) :
    r.optional n Json.string? = some o :=
  optional_map h fun _ _ => ⟨Json.noConfusion, rfl⟩

theorem optional_null (h : r.get? n = some .null) : r.optional n read = some none := by
  rw [optional, h]

theorem optional_ofOption {o : Option String}
    (h : r.get? n = some (Json.ofOption (o.map .string))) :
    r.optional n Json.string? = some o := by
  cases o with
  | none => exact optional_null h
  | some s => exact optional_string h

end Fields

end Record

theorem Json.natural?_integer {n : Nat} (hn : n < UInt64.size) :
    natural? (.integer n) = some n := by
  rw [natural?, integerIn?, if_pos (by omega), Option.map_some, Int.toNat_natCast]

/-- **A list comes back if its members do.** -/
theorem Json.list?_map {α : Type} {write : α → Json} {read : Json → Option α} {f : α → α}
    (as : List α) (h : ∀ a ∈ as, read (write a) = some (f a)) :
    Json.list? read (.array (as.map write)) = some (as.map f) := by
  have hmap : (as.map write).mapM read = some (as.map f) := by
    induction as with
    | nil => rfl
    | cons a as ih =>
      rw [List.map_cons, List.mapM_cons, h a (List.mem_cons_self ..),
        ih fun b hb => h b (List.mem_cons_of_mem a hb)]
      rfl
  rw [Json.list?, Json.array?, Option.bind_some, hmap]

end DocumentRules
