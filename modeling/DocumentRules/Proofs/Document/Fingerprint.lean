/-
What the text under a fingerprint says.

A fingerprint is the digest of a JSON text.  The text of a value with finite numbers is read
back, so different values of this kind have different texts.  A value without floating-point
numbers is moreover its own canonical form.

* **`Value.float_of_get?_set`** — an assignment brings no floating-point numbers but those of the
  value that is set;
* **`Value.floatFree_set`** — setting values without floating-point numbers keeps a value free
  of them;
* **`Value.canonical_eq_self`** — such a value is spelled as it is;
* **`Value.eq_of_jsonText`** — a value with finite numbers is determined by its text;
* **`Document.eq_of_fingerprintText`** — without floating-point numbers also by the text under
  its fingerprint;
* `CollisionFree` — different texts have different digests.
-/
import DocumentRules.Document.Fingerprint
import DocumentRules.Proofs.Document.Assignment
import DocumentRules.Proofs.Document.Recorded
import DocumentRules.Proofs.Json.ReadBack

namespace DocumentRules

namespace Value

/-! ### Values without floating-point numbers -/

/-- There is no floating-point number in the value. -/
def FloatFree (v : Value) : Prop := ∀ p x, get? v p ≠ some (.float x)

variable {d u v c : Value}

theorem FloatFree.finite (h : v.FloatFree) : v.Finite := fun p x hx => absurd hx (h p x)

theorem FloatFree.passes : PassesToChildren FloatFree := fun _ s _ h hc p x hx =>
  h (s :: p) x (by rw [get?_cons, hc, Option.bind_some, hx])

theorem floatFree_of_scalar (hscalar : v.isContainer = false) (h : ∀ x, v ≠ .float x) :
    v.FloatFree := by
  intro p x hx
  cases p with
  | nil => exact h x (Option.some.inj hx)
  | cons s p =>
    rw [get?_cons, child?_of_scalar hscalar] at hx
    cases hx

theorem floatFree_null : FloatFree .null := floatFree_of_scalar rfl fun _ h => nomatch h

theorem floatFree_int (i : Int64) : FloatFree (.int i) :=
  floatFree_of_scalar rfl fun _ h => nomatch h

theorem putChild_ne_float (d v : Value) (s : Step) (x : Binary64) : putChild d s v ≠ .float x := by
  cases d <;> cases s <;> simp [putChild]

/-- A floating-point number that stands in a document after an assignment stood in what was set
or in the document before. -/
theorem float_of_get?_set {p q : Path} {x : Binary64} (h : get? (d.set p v) q = some (.float x)) :
    (∃ r, get? v r = some (.float x)) ∨ get? d q = some (.float x) := by
  rcases Path.parts p q with ⟨r, rfl⟩ | ⟨s, r, rfl⟩ | ⟨r, s, t, p', q', hne, rfl, rfl⟩
  · rw [get?_append, get?_set_self] at h
    exact Or.inl ⟨r, h⟩
  · rw [get?_set_append] at h
    exact absurd (Option.some.inj h) (putChild_ne_float _ _ _ _)
  · rw [get?_set_beside hne, Option.or_eq_some_iff] at h
    rcases h with h | ⟨-, h⟩
    · split at h
      · exact Or.inr h
      · cases h
    · obtain ⟨n, hn, h⟩ := Option.bind_eq_some_iff.mp h
      obtain ⟨rfl, -⟩ := padding_eq_some hn
      exact absurd h (floatFree_null q' x)

/-- **Setting a value keeps a value free of floating-point numbers** if there is none in
either. -/
theorem floatFree_set (hd : d.FloatFree) (hv : v.FloatFree) (p : Path) :
    (d.set p v).FloatFree := by
  intro q x hx
  rcases float_of_get?_set hx with ⟨r, hr⟩ | hq
  · exact hv r x hr
  · exact hd q x hq

/-! ### Their texts -/

theorem canonicalItems_eq_map (items : List Value) :
    canonicalItems items = items.map canonical := by
  induction items with
  | nil => rfl
  | cons v vs ih => rw [canonicalItems, ih, List.map_cons]

theorem canonicalEntries_eq_map (entries : List (String × Value)) :
    canonicalEntries entries = entries.map fun e => (e.1, canonical e.2) := by
  induction entries with
  | nil => rfl
  | cons e es ih =>
    obtain ⟨k, v⟩ := e
    rw [canonicalEntries, ih, List.map_cons]

theorem entriesToJson_eq_map (entries : List (String × Value)) :
    entriesToJson entries = entries.map fun e => (e.1, toJson e.2) := by
  induction entries with
  | nil => rfl
  | cons e es ih =>
    obtain ⟨k, v⟩ := e
    rw [entriesToJson, ih, List.map_cons]

/-- **A value without floating-point numbers is spelled as it is.** -/
theorem canonical_eq_self (hv : v.WellFormed) (h : v.FloatFree) : v.canonical = v := by
  induction v using memberInduction with
  | scalar v hscalar =>
    cases v with
    | float x => exact absurd rfl (h [] x)
    | list items => simp [isContainer] at hscalar
    | map entries => simp [isContainer] at hscalar
    | _ => rfl
  | list items ih =>
    have hself : items.map canonical = items.map id :=
      List.map_congr_left fun a ha =>
        ih a ha (wellFormed_list.mp hv a ha) (FloatFree.passes.items h a ha)
    rw [canonical, canonicalItems_eq_map, hself, List.map_id]
  | map entries ih =>
    obtain ⟨hasc, hentries⟩ := wellFormed_map.mp hv
    have hself : (entries.map fun e => (e.1, canonical e.2)) = entries.map id :=
      List.map_congr_left fun e he =>
        Prod.ext rfl (ih e he (hentries e he) (FloatFree.passes.entries h hasc e he))
    rw [canonical, canonicalEntries_eq_map, hself, List.map_id]

open Json (Writable)

/-- One depth for all members. -/
theorem exists_writable_all {js : List Json} (h : ∀ j ∈ js, ∃ n, Writable n j) :
    ∃ n, ∀ j ∈ js, Writable n j := by
  induction js with
  | nil => exact ⟨0, List.forall_mem_nil _⟩
  | cons j js ih =>
    obtain ⟨⟨m, hm⟩, hrest⟩ := List.forall_mem_cons.mp h
    obtain ⟨n, hn⟩ := ih hrest
    refine ⟨max m n, List.forall_mem_cons.mpr ⟨hm.mono (by omega), fun k hk => ?_⟩⟩
    exact (hn k hk).mono (by omega)

theorem Finite.exists_writable (h : v.Finite) (hv : v.WellFormed) :
    ∃ n, Writable n v.toJson := by
  induction v using memberInduction with
  | scalar v hscalar =>
    cases v with
    | null => exact ⟨0, .null⟩
    | bool b => exact ⟨0, .bool b⟩
    | int i =>
      have hbound : Int64.maxValue.toInt < UInt64.size := by decide
      exact ⟨0, .integer (Int64.minValue_le_toInt i) (by have := Int64.toInt_le i; omega)⟩
    | float x =>
      have hx : x.isFinite = true := h [] x rfl
      rw [toJson, if_pos hx]
      exact ⟨0, .real hx⟩
    | string s => exact ⟨0, .string s⟩
    | list items => simp [isContainer] at hscalar
    | map entries => simp [isContainer] at hscalar
  | list items ih =>
    have hitems : ∀ j ∈ items.map toJson, ∃ n, Writable n j :=
      List.forall_mem_map.mpr fun a ha =>
        ih a ha (Finite.passes.items h a ha) (wellFormed_list.mp hv a ha)
    obtain ⟨n, hn⟩ := exists_writable_all hitems
    refine ⟨n + 1, ?_⟩
    rw [toJson, itemsToJson_eq_map]
    exact .array hn
  | map entries ih =>
    obtain ⟨hasc, hentries⟩ := wellFormed_map.mp hv
    have hvalues : ∀ j ∈ entries.map fun e => toJson e.2, ∃ n, Writable n j :=
      List.forall_mem_map.mpr fun e he =>
        ih e he (Finite.passes.entries h hasc e he) (hentries e he)
    obtain ⟨n, hn⟩ := exists_writable_all hvalues
    refine ⟨n + 1, ?_⟩
    rw [toJson, entriesToJson_eq_map]
    exact .object (List.forall_mem_map.mpr (List.forall_mem_map.mp hn))

/-- **A value with finite numbers is determined by its text.** -/
theorem eq_of_jsonText (hu : u.WellFormed) (hv : v.WellFormed) (hfu : u.Finite) (hfv : v.Finite)
    (h : u.jsonText = v.jsonText) : u = v := by
  obtain ⟨m, hm⟩ := hfu.exists_writable hu
  obtain ⟨n, hn⟩ := hfv.exists_writable hv
  have hjson : u.toJson = v.toJson :=
    Json.render_injective (hm.mono (le_max_left m n)) (hn.mono (le_max_right m n)) h
  rw [← hfu.ofJson_toJson hu, ← hfv.ofJson_toJson hv, hjson]

end Value

/-- The text of which the fingerprint of a document is the digest. -/
def Document.fingerprintText (d : Document) : String := d.value.canonical.jsonText

theorem Document.fingerprint_eq (d : Document) : d.fingerprint = Sha256.hex d.fingerprintText := rfl

/-- **Documents without floating-point numbers that are digested as one text are the same.** -/
theorem Document.eq_of_fingerprintText {d e : Document} (hd : d.value.FloatFree)
    (he : e.value.FloatFree) (h : d.fingerprintText = e.fingerprintText) : d = e := by
  rw [fingerprintText, fingerprintText, Value.canonical_eq_self d.wellFormed hd,
    Value.canonical_eq_self e.wellFormed he] at h
  exact Document.ext (Value.eq_of_jsonText d.wellFormed e.wellFormed hd.finite he.finite h)

/-- The digests of the texts differ if the texts do. -/
def CollisionFree (texts : List String) : Prop :=
  ∀ a ∈ texts, ∀ b ∈ texts, Sha256.hex a = Sha256.hex b → a = b

end DocumentRules
