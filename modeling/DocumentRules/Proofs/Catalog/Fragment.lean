/-
Fragments that are parts of a value.

A fragment whose maps lead along the keys of a value to values that stand there holds of it,
except for the maps in it that are read as matchers: each of these must accept its field.

* `Value.Asks` — the fragment puts a matcher to the field at a path;
* `Value.PartOf` — the fragment is a part of what stands in its place;
* **`PartOf.contain_eq_nil_iff`**, **`compare_eq_nil_iff`** — a part holds exactly if its matchers
  accept;
* **`Asks.exists_matchKey`** — a part has a matcher only where the value has its key;
* **`PartOf.set`** — values that are set where they stand in the value make a part of it.
-/
import DocumentRules.Proofs.Catalog.Containment
import DocumentRules.Proofs.Document.Assignment

namespace DocumentRules

namespace Value

/-- Going down the keys of the fragment comes to a matcher at the path, and to none before. -/
inductive Asks : Value → Path → Matcher → Prop where
  | here {f : Value} {m : Matcher} (h : Matcher.of? f = some m) : Asks f [] m
  | entry {f w : Value} {k : String} {p : Path} {m : Matcher} (hf : Matcher.of? f = none)
      (hw : child? f (.key k) = some w) (h : Asks w p m) : Asks f (.key k :: p) m

/-- The fragment is what stands in its place, or has entries that are parts of the entries
there. -/
inductive PartOf : Value → Option Value → Prop where
  | whole (v : Value) : PartOf v (some v)
  | entries {f w : Value} {field : Option Value} {k : String} (hw : child? f (.key k) = some w)
      (h : ∀ l x, child? f (.key l) = some x → PartOf x (field.bind (child? · (.key l)))) :
      PartOf f field

variable {f w : Value} {field : Option Value}

theorem PartOf.child (h : f.PartOf field) {k : String} (hw : child? f (.key k) = some w) :
    w.PartOf (field.bind (child? · (.key k))) := by
  cases h with
  | whole v =>
    rw [Option.bind_some, hw]
    exact .whole w
  | entries _ h => exact h k w hw

/-- Something stands in the place of a part. -/
theorem PartOf.exists_field (h : f.PartOf field) : ∃ v, field = some v := by
  induction h with
  | whole v => exact ⟨v, rfl⟩
  | @entries f w field k hw _ ih =>
    obtain ⟨c, hc⟩ := ih k w hw
    obtain ⟨v, hv, -⟩ := Option.bind_eq_some_iff.mp hc
    exact ⟨v, hv⟩

/-- A part without entries is all that stands in its place. -/
theorem PartOf.eq_field (h : f.PartOf field) (hf : ∀ k, child? f (.key k) = none) :
    field = some f := by
  cases h with
  | whole => rfl
  | @entries _ w _ k hw _ =>
    rw [hf k] at hw
    cases hw

theorem of?_eq_some {m : Matcher} (h : Matcher.of? f = some m) :
    ∃ rules, child? f (.key Matcher.matchKey) = some rules := by
  unfold Matcher.of? at h
  split at h
  · rename_i k rules
    split at h
    · rename_i hk
      exact ⟨rules, by simp [child?, Entries.find?, hk]⟩
    · cases h
  · cases h

/-! ### Where a part holds -/

theorem asks_of_matcher {m m' : Matcher} {p : Path} (hm : Matcher.of? f = some m) :
    f.Asks p m' ↔ p = [] ∧ m' = m := by
  constructor
  · intro h
    cases h with
    | here h =>
      rw [hm] at h
      exact ⟨rfl, (Option.some.inj h).symm⟩
    | entry hf =>
      rw [hm] at hf
      cases hf
  · rintro ⟨rfl, rfl⟩
    exact .here hm

theorem asks_of_plain {m : Matcher} {p : Path} (hf : Matcher.of? f = none) :
    f.Asks p m ↔ ∃ k w q, child? f (.key k) = some w ∧ p = .key k :: q ∧ w.Asks q m := by
  constructor
  · intro h
    cases h with
    | here h =>
      rw [hf] at h
      cases h
    | entry _ hw h => exact ⟨_, _, _, hw, rfl, h⟩
  · rintro ⟨k, w, q, hw, rfl, h⟩
    exact .entry hf hw h

theorem containEntries_eq_nil_iff {entries : List (String × Value)}
    (he : (Value.map entries).WellFormed) :
    containEntries field entries = [] ↔
      ∀ k w, child? (.map entries) (.key k) = some w →
        contain (field.bind (child? · (.key k))) w = [] := by
  rw [containEntries_eq_flatMap, List.flatMap_eq_nil_iff]
  simp only [List.map_eq_nil_iff, Prod.forall, child?,
    Entries.find?_eq_some_iff (wellFormed_map.mp he).1]

/-- A value without entries is contained in itself, unless it is read as a matcher. -/
theorem contain_self (hm : Matcher.of? f = none) (hf : ∀ k, child? f (.key k) = none)
    (hnan : f.NanFree) : contain (some f) f = [] := by
  match f with
  | .map ((k, w) :: es) =>
    have hk := hf k
    simp [child?, Entries.find?] at hk
  | .map [] => simp [contain, hm, entries?]
  | .null | .bool _ | .int _ | .float _ | .string _ | .list _ =>
    simp [contain, hm, looselyEqual_refl hnan]

/-- A part that is not read as a matcher holds if its entries do. -/
theorem PartOf.contain_eq_nil_iff_entries (h : f.PartOf field) (hf : f.WellFormed)
    (hnan : ∀ v ∈ field, v.NanFree) (hm : Matcher.of? f = none) :
    contain field f = [] ↔ ∀ k w, child? f (.key k) = some w →
      contain (field.bind (child? · (.key k))) w = [] := by
  by_cases hnone : ∀ k, child? f (.key k) = none
  · obtain rfl := h.eq_field hnone
    refine iff_of_true (contain_self hm hnone (hnan f rfl)) fun k w hw => ?_
    rw [hnone k] at hw
    cases hw
  · match f with
    | .map (e :: es) => rw [← containEntries_eq_nil_iff hf, contain, hm]
    | .map [] | .null | .bool _ | .int _ | .float _ | .string _ | .list _ =>
      exact absurd (fun _ => rfl) hnone

/-- **A part holds exactly if its matchers accept** what stands at their places. -/
theorem PartOf.contain_eq_nil_iff (h : f.PartOf field) (hf : f.WellFormed)
    (hnan : ∀ v ∈ field, v.NanFree) :
    contain field f = [] ↔
      ∀ p m, f.Asks p m → m.check (field.bind (get? · p)) = .ok () := by
  induction f using childInduction generalizing field with
  | _ f ih =>
  cases hm : Matcher.of? f with
  | some m =>
    -- The matcher alone decides, and nothing below it is read as a matcher.
    unfold contain
    simp only [hm, asks_of_matcher hm, and_imp, forall_eq, forall_eq_apply_imp_iff, bind_get?_nil]
    cases m.check field <;> simp
  | none =>
    have hchild {k : String} {w : Value} (hw : child? f (.key k) = some w) :
        contain (field.bind (child? · (.key k))) w = [] ↔
          ∀ p m, w.Asks p m → m.check (field.bind (get? · (.key k :: p))) = .ok () := by
      rw [ih (.key k) w hw (h.child hw) (wellFormed_of_child? hf hw)]
      · simp only [Option.bind_assoc, get?_cons]
      · intro c hc
        obtain ⟨v, hv, hc⟩ := Option.bind_eq_some_iff.mp hc
        exact nanFree_of_child? (hnan v hv) hc
    rw [h.contain_eq_nil_iff_entries hf hnan hm]
    constructor
    · intro hentries p m hask
      obtain ⟨k, w, q, hw, rfl, hbelow⟩ := (asks_of_plain hm).mp hask
      exact (hchild hw).mp (hentries k w hw) q m hbelow
    · intro hchecks k w hw
      exact (hchild hw).mpr fun p m hask => hchecks _ m (.entry hm hw hask)

theorem not_asks_empty (p : Path) (m : Matcher) : ¬ Asks (.map []) p m := by
  intro hask
  obtain ⟨k, w, q, hw, -⟩ := (asks_of_plain rfl).mp hask
  cases hw

/-- **What a part expects of the whole document**; an empty fragment expects nothing. -/
theorem compare_eq_nil_iff {v : Value} (h : f = .map [] ∨ f.PartOf (some v)) (hf : f.WellFormed)
    (hnan : v.NanFree) :
    compare f v = [] ↔ ∀ p m, f.Asks p m → m.check (get? v p) = .ok () := by
  by_cases hempty : f = .map []
  · subst hempty
    exact iff_of_true rfl fun p m hask => absurd hask (not_asks_empty p m)
  · rw [compare_eq_contain hempty]
    exact (h.resolve_left hempty).contain_eq_nil_iff hf fun w hw => Option.some.inj hw ▸ hnan

/-- A part has a matcher only where the value has its key. -/
theorem Asks.exists_matchKey {p : Path} {m : Matcher} (hask : f.Asks p m) (h : f.PartOf field) :
    ∃ u, field.bind (get? · (p ++ [.key Matcher.matchKey])) = some u := by
  induction hask generalizing field with
  | here hm =>
    obtain ⟨rules, hrules⟩ := of?_eq_some hm
    obtain ⟨u, hu⟩ := (h.child hrules).exists_field
    exact ⟨u, by simpa [get?_cons] using hu⟩
  | entry _ hw _ ih =>
    obtain ⟨u, hu⟩ := ih (h.child hw)
    exact ⟨u, by simpa [get?_cons, Option.bind_assoc] using hu⟩

/-! ### Making a part -/

/-- **A value that is set where it stands** makes a part of a part, or of what has no entries
yet. -/
theorem PartOf.set {v : Value} {p : Path} (h : f.PartOf field ∨ ∀ k, child? f (.key k) = none)
    (hp : ∀ s ∈ p, ∃ k, s = .key k) (hv : field.bind (get? · p) = some v) :
    (f.set p v).PartOf field := by
  induction p generalizing f field with
  | nil =>
    rw [← bind_get?_nil field, hv]
    exact .whole v
  | cons s p ih =>
    obtain ⟨⟨k, rfl⟩, hrest⟩ := List.forall_mem_cons.mp hp
    refine .entries (child?_putChild_self ..) fun l x hx => ?_
    by_cases hl : l = k
    · subst hl
      rw [Value.set, child?_putChild_self] at hx
      cases hx
      refine ih ?_ hrest ?_
      · cases hc : child? f (.key l) with
        | none => exact Or.inr fun _ => rfl
        | some c =>
          rcases h with h | h
          · exact Or.inl (h.child hc)
          · rw [h l] at hc
            cases hc
      · simpa [get?_cons, Option.bind_assoc] using hv
    · -- Beside the path the fragment is what it was: keys need no padding.
      have hx' : child? f (.key l) = some x := by
        rw [Value.set, child?_putChild_of_ne (fun e => hl (by cases e; rfl))] at hx
        split at hx <;> simp_all [padding]
      rcases h with h | h
      · exact h.child hx'
      · rw [h l] at hx'
        cases hx'

end Value

end DocumentRules
