/-
What the comparison of a fragment tells.

The comparison goes down the keys of an expected fragment, through maps that have entries and are
not read as matchers, and stops at every other value.  Each of these places is a checked field: it
holds of the document or it does not, whatever the document holds elsewhere.

* `Value.StopsAt`, `Value.Checks` — the checked fields of a fragment;
* `Value.HoldsOf`, `Fault` — when a checked field holds, and what is told if it does not;
* **`contain_of_stop`** — the comparison at one field;
* **`Value.mem_compare_iff`**, **`Value.compare_precedes`** — the comparison tells of exactly the
  fields that do not hold, in the order of their paths;
* **`Value.compare_congr`** — it depends only on what stands at the checked fields;
* **`Value.compare_eq_nil_iff_holds`** — nothing is told if all of them hold.
-/
import DocumentRules.Catalog.Containment
import DocumentRules.Proofs.Document.Leaf
import DocumentRules.Proofs.Document.PathOrder

namespace DocumentRules

namespace Value

/-- The fragment is a map that is descended: it has entries and is not read as a matcher. -/
def isDescended : Value → Bool
  | .map (e :: es) => (Matcher.of? (.map (e :: es))).isNone
  | _ => false

/-- Going down the keys of the fragment stops at the path. -/
inductive StopsAt : Value → Path → Prop where
  | here {f : Value} (hf : f.isDescended = false) : StopsAt f []
  | entry {f w : Value} {k : String} {p : Path} (hf : f.isDescended = true)
      (hw : child? f (.key k) = some w) (h : StopsAt w p) : StopsAt f (.key k :: p)

/-- The path is a checked field of the fragment; an empty map has none. -/
def Checks (f : Value) (p : Path) : Prop := f ≠ .map [] ∧ f.StopsAt p

/-- A value at which the comparison stops holds of what stands in its place. -/
inductive HoldsOf : Value → Option Value → Prop where
  | accepted {f : Value} {field : Option Value} {m : Matcher} (hm : Matcher.of? f = some m)
      (h : m.check field = .ok ()) : HoldsOf f field
  | map (entries : List (String × Value)) : HoldsOf (.map []) (some (.map entries))
  | same {f v : Value} (hf : ∀ entries, f ≠ .map entries) (h : v.looselyEqual f = true) :
      HoldsOf f (some v)

end Value

/-- What is wrong with what stands in the place of a value at which the comparison stops: a matcher
rejects it, for a reason that is told; or it is no map where an empty map is expected; or it is not
loosely equal to any other value that is expected. -/
inductive Fault : Value → Option Value → Option String → Prop where
  | rejected {f : Value} {field : Option Value} {m : Matcher} {e : Matcher.Failure}
      (hm : Matcher.of? f = some m) (h : m.check field = .error e) :
      Fault f field (some e.message)
  | noMap {field : Option Value} (h : ∀ entries, field ≠ some (.map entries)) :
      Fault (.map []) field none
  | differs {f : Value} {field : Option Value} (hf : ∀ entries, f ≠ .map entries)
      (h : ∀ v, field = some v → v.looselyEqual f = false) : Fault f field none

open Value (StopsAt HoldsOf child? get? bind_get?_nil bind_child?_bind_get?)

variable {f w : Value} {field : Option Value} {p : Path}

/-! ### Where the comparison stops -/

theorem Matcher.of?_of_not_map (hf : ∀ entries, f ≠ .map entries) : Matcher.of? f = none := by
  cases f <;> first | rfl | exact absurd rfl (hf _)

theorem Value.stopsAt_of_not_isDescended (hf : f.isDescended = false) : f.StopsAt p ↔ p = [] := by
  constructor
  · intro h
    cases h with
    | here => rfl
    | entry hf' =>
      rw [hf] at hf'
      cases hf'
  · rintro rfl
    exact .here hf

theorem Value.stopsAt_of_isDescended (hf : f.isDescended = true) :
    f.StopsAt p ↔ ∃ k w q, child? f (.key k) = some w ∧ w.StopsAt q ∧ p = .key k :: q := by
  constructor
  · intro h
    cases h with
    | here hf' =>
      rw [hf] at hf'
      cases hf'
    | entry _ hw h => exact ⟨_, _, _, hw, h, rfl⟩
  · rintro ⟨k, w, q, hw, h, rfl⟩
    exact .entry hf hw h

/-- At a checked field stands a value at which the comparison stops. -/
theorem Value.StopsAt.exists_get? (h : f.StopsAt p) :
    ∃ x, f.get? p = some x ∧ x.isDescended = false := by
  induction h with
  | @here f hf => exact ⟨f, rfl, hf⟩
  | entry _ hw _ ih =>
    obtain ⟨x, hx, hstop⟩ := ih
    exact ⟨x, by rw [Value.get?_cons, hw, Option.bind_some, hx], hstop⟩

theorem contain_of_isDescended (hf : f.isDescended = true) :
    ∃ entries, f = .map entries ∧
      ∀ field, contain field f = containEntries field entries := by
  match f with
  | .map (e :: es) =>
    refine ⟨e :: es, rfl, fun field => ?_⟩
    have hm : Matcher.of? (.map (e :: es)) = none := by
      simpa [Value.isDescended] using hf
    simp only [contain, hm]
  | .map [] | .null | .bool _ | .int _ | .float _ | .string _ | .list _ => cases hf

/-! ### The comparison at one field -/

theorem Value.HoldsOf.not_fault (h : f.HoldsOf field) (reason : Option String) :
    ¬ Fault f field reason := by
  intro hfault
  cases h with
  | accepted hm h =>
    cases hfault with
    | rejected hm' h' => simp_all
    | noMap => cases hm
    | differs hf => simp [Matcher.of?_of_not_map hf] at hm
  | map entries =>
    cases hfault with
    | rejected hm => cases hm
    | noMap h => exact h entries rfl
    | differs hf => exact hf [] rfl
  | same hf h =>
    cases hfault with
    | rejected hm => simp [Matcher.of?_of_not_map hf] at hm
    | noMap => exact hf [] rfl
    | differs _ h' => simp [h' _ rfl] at h

/-- What is told about a field is determined. -/
theorem Fault.unique {a b : Option String} (h : Fault f field a) (h' : Fault f field b) :
    a = b := by
  cases h with
  | rejected hm h =>
    cases h' with
    | rejected hm' h' => simp_all
    | noMap => cases hm
    | differs hf => simp [Matcher.of?_of_not_map hf] at hm
  | noMap =>
    cases h' with
    | rejected hm => cases hm
    | noMap => rfl
    | differs => rfl
  | differs hf =>
    cases h' with
    | rejected hm => simp [Matcher.of?_of_not_map hf] at hm
    | noMap => rfl
    | differs => rfl

theorem contain_of_matcher {m : Matcher} (hm : Matcher.of? f = some m) (field : Option Value) :
    (f.HoldsOf field ∧ contain field f = []) ∨
      ∃ reason, Fault f field reason ∧ contain field f = [⟨[], f, field, reason⟩] := by
  unfold contain
  simp only [hm]
  cases hcheck : m.check field with
  | ok u => exact Or.inl ⟨.accepted hm hcheck, rfl⟩
  | error e => exact Or.inr ⟨_, .rejected hm hcheck, rfl⟩

theorem contain_emptyMap (field : Option Value) :
    (HoldsOf (.map []) field ∧ contain field (.map []) = []) ∨
      ∃ reason, Fault (.map []) field reason ∧
        contain field (.map []) = [⟨[], .map [], field, reason⟩] := by
  match field with
  | some (.map entries) => exact Or.inl ⟨.map entries, rfl⟩
  | none | some .null | some (.bool _) | some (.int _) | some (.float _) | some (.string _)
  | some (.list _) => exact Or.inr ⟨none, .noMap (by simp), rfl⟩

/-- A value that is no map is compared as a whole. -/
theorem contain_of_not_map (hf : ∀ entries, f ≠ .map entries) (field : Option Value) :
    (f.HoldsOf field ∧ contain field f = []) ∨
      ∃ reason, Fault f field reason ∧ contain field f = [⟨[], f, field, reason⟩] := by
  have hcontain : contain field f =
      if field.any (·.looselyEqual f) then [] else [⟨[], f, field, none⟩] := by
    unfold contain
    simp only [Matcher.of?_of_not_map hf]
    split
    · exact absurd rfl (hf _)
    · exact absurd rfl (hf _)
    · rfl
  rw [hcontain]
  cases field with
  | none => exact Or.inr ⟨none, .differs hf (by simp), rfl⟩
  | some v =>
    cases hv : v.looselyEqual f with
    | true => exact Or.inl ⟨.same hf hv, if_pos hv⟩
    | false => exact Or.inr ⟨none, .differs hf (by simpa using hv), if_neg (by simp [hv])⟩

/-- **The comparison at one field**: nothing is told if it holds, and otherwise what is wrong. -/
theorem contain_of_stop (hf : f.isDescended = false) (field : Option Value) :
    (f.HoldsOf field ∧ contain field f = []) ∨
      ∃ reason, Fault f field reason ∧ contain field f = [⟨[], f, field, reason⟩] := by
  cases hm : Matcher.of? f with
  | some m => exact contain_of_matcher hm field
  | none =>
    match f with
    | .map [] => exact contain_emptyMap field
    | .map (e :: es) => simp [Value.isDescended, hm] at hf
    | .null | .bool _ | .int _ | .float _ | .string _ | .list _ =>
      exact contain_of_not_map (by simp) field

theorem mem_contain_of_stop (hf : f.isDescended = false) {m : Mismatch} :
    m ∈ contain field f ↔
      m.path = [] ∧ m.expected = f ∧ m.actual = field ∧ Fault f field m.reason := by
  obtain ⟨path, expected, actual, reason⟩ := m
  rcases contain_of_stop hf field with ⟨hholds, hcontain⟩ | ⟨reason', hfault, hcontain⟩
  · rw [hcontain]
    refine iff_of_false List.not_mem_nil ?_
    rintro ⟨-, -, -, hfault⟩
    exact hholds.not_fault _ hfault
  · simp only [hcontain, List.mem_singleton, Mismatch.mk.injEq]
    constructor
    · rintro ⟨rfl, rfl, rfl, rfl⟩
      exact ⟨rfl, rfl, rfl, hfault⟩
    · rintro ⟨rfl, rfl, rfl, hfault'⟩
      exact ⟨rfl, rfl, rfl, hfault'.unique hfault⟩

/-- A value at which the comparison stops holds exactly if nothing is wrong. -/
theorem Value.holdsOf_iff (hf : f.isDescended = false) :
    f.HoldsOf field ↔ ∀ reason, ¬ Fault f field reason := by
  refine ⟨HoldsOf.not_fault, fun h => ?_⟩
  rcases contain_of_stop hf field with ⟨hholds, -⟩ | ⟨reason, hfault, -⟩
  · exact hholds
  · exact absurd hfault (h reason)

/-! ### The comparison at all fields -/

theorem containEntries_eq_flatMap (field : Option Value) (entries : List (String × Value)) :
    containEntries field entries = entries.flatMap fun e =>
      (contain (field.bind (·.child? (.key e.1))) e.2).map (Mismatch.under (.key e.1)) := by
  induction entries with
  | nil => rfl
  | cons e entries ih =>
    obtain ⟨k, v⟩ := e
    rw [containEntries, ih, List.flatMap_cons]

theorem mem_containEntries {entries : List (String × Value)} (hw : (Value.map entries).WellFormed)
    {m : Mismatch} :
    m ∈ containEntries field entries ↔ ∃ k v b, child? (.map entries) (.key k) = some v ∧
      b ∈ contain (field.bind (child? · (.key k))) v ∧ m = b.under (.key k) := by
  simp only [containEntries_eq_flatMap, List.mem_flatMap, List.mem_map, Prod.exists, child?,
    Entries.find?_eq_some_iff (Value.wellFormed_map.mp hw).1]
  constructor
  · rintro ⟨k, v, hkv, b, hb, rfl⟩
    exact ⟨k, v, b, hkv, hb, rfl⟩
  · rintro ⟨k, v, b, hkv, hb, rfl⟩
    exact ⟨k, v, hkv, b, hb, rfl⟩

/-- **The comparison tells of a field exactly if it is checked and does not hold.** -/
theorem mem_contain_iff (hw : f.WellFormed) {m : Mismatch} :
    m ∈ contain field f ↔ f.StopsAt m.path ∧ f.get? m.path = some m.expected ∧
      m.actual = field.bind (get? · m.path) ∧ Fault m.expected m.actual m.reason := by
  induction f using Value.childInduction generalizing field m with
  | _ f ih =>
  obtain ⟨path, expected, actual, reason⟩ := m
  cases hf : f.isDescended with
  | false =>
    rw [mem_contain_of_stop hf, Value.stopsAt_of_not_isDescended hf]
    constructor
    · rintro ⟨rfl, rfl, rfl, hfault⟩
      exact ⟨rfl, rfl, (bind_get?_nil _).symm, hfault⟩
    · rintro ⟨rfl, hexpected, hactual, hfault⟩
      cases hexpected
      rw [bind_get?_nil] at hactual
      exact ⟨rfl, rfl, hactual, hactual ▸ hfault⟩
  | true =>
    obtain ⟨entries, rfl, hcontain⟩ := contain_of_isDescended hf
    have hchild {k : String} {v : Value} (hv : child? (.map entries) (.key k) = some v)
        (p : Path) : get? (.map entries) (.key k :: p) = v.get? p := by
      rw [Value.get?_cons, hv, Option.bind_some]
    rw [hcontain, mem_containEntries hw, Value.stopsAt_of_isDescended hf]
    constructor
    · rintro ⟨k, v, b, hv, hb, hm⟩
      cases hm
      obtain ⟨hstop, hexpected, hactual, hfault⟩ :=
        (ih (.key k) v hv (Value.wellFormed_of_child? hw hv)).mp hb
      exact ⟨⟨k, v, b.path, hv, hstop, rfl⟩, (hchild hv b.path).trans hexpected,
        hactual.trans (bind_child?_bind_get? ..), hfault⟩
    · rintro ⟨⟨k, v, q, hv, hstop, rfl⟩, hexpected, hactual, hfault⟩
      refine ⟨k, v, ⟨q, expected, actual, reason⟩, hv, ?_, rfl⟩
      exact (ih (.key k) v hv (Value.wellFormed_of_child? hw hv)).mpr
        ⟨hstop, (hchild hv q).symm.trans hexpected, hactual.trans (bind_child?_bind_get? ..).symm, hfault⟩

/-- **The fields are told of in the order of their paths**, and no one stands below another. -/
theorem contain_precedes (hw : f.WellFormed) (field : Option Value) :
    (contain field f).Pairwise fun m n => m.path.Precedes n.path := by
  induction f using Value.childInduction generalizing field with
  | _ f ih =>
  cases hf : f.isDescended with
  | false =>
    rcases contain_of_stop hf field with ⟨-, hcontain⟩ | ⟨reason, -, hcontain⟩
    · rw [hcontain]
      exact List.Pairwise.nil
    · rw [hcontain]
      exact List.pairwise_singleton ..
  | true =>
    obtain ⟨entries, rfl, hcontain⟩ := contain_of_isDescended hf
    have hasc := (Value.wellFormed_map.mp hw).1
    rw [hcontain, containEntries_eq_flatMap]
    refine Path.Precedes.pairwise_flatMap (fun e : String × Value => .key e.1) Mismatch.path
      hasc ?_ ?_
    · intro e _ m hm
      obtain ⟨b, -, rfl⟩ := List.mem_map.mp hm
      exact ⟨b.path, rfl⟩
    · intro e he
      have hchild : child? (.map entries) (.key e.1) = some e.2 :=
        (Entries.find?_eq_some_iff hasc).mpr he
      exact List.pairwise_map.mpr
        ((ih _ e.2 hchild (Value.wellFormed_of_child? hw hchild) _).imp fun h => .tail _ h)

/-- **The comparison depends only on what stands at the checked fields.** -/
theorem contain_congr (hw : f.WellFormed) {a b : Option Value}
    (h : ∀ p, f.StopsAt p → a.bind (get? · p) = b.bind (get? · p)) :
    contain a f = contain b f := by
  induction f using Value.childInduction generalizing a b with
  | _ f ih =>
  cases hf : f.isDescended with
  | false =>
    have hab := h [] (.here hf)
    rw [bind_get?_nil, bind_get?_nil] at hab
    rw [hab]
  | true =>
    obtain ⟨entries, rfl, hcontain⟩ := contain_of_isDescended hf
    rw [hcontain, hcontain, containEntries_eq_flatMap, containEntries_eq_flatMap]
    refine List.flatMap_congr fun e he => ?_
    have hchild : child? (.map entries) (.key e.1) = some e.2 :=
      (Entries.find?_eq_some_iff (Value.wellFormed_map.mp hw).1).mpr he
    refine congrArg _ (ih _ e.2 hchild (Value.wellFormed_of_child? hw hchild) fun p hp => ?_)
    rw [bind_child?_bind_get?, bind_child?_bind_get?]
    exact h _ (.entry hf hchild hp)

/-! ### Comparing documents -/

/-- A fragment that is not an empty map is compared with the whole document. -/
theorem compare_eq_contain {expected : Value} (h : expected ≠ .map []) (actual : Value) :
    compare expected actual = contain (some actual) expected := by
  unfold compare
  split
  · exact absurd rfl h
  · rfl

namespace Value

variable {expected actual : Value}

theorem mem_compare_iff (hw : expected.WellFormed) {m : Mismatch} :
    m ∈ compare expected actual ↔ expected.Checks m.path ∧
      expected.get? m.path = some m.expected ∧ m.actual = actual.get? m.path ∧
        Fault m.expected m.actual m.reason := by
  by_cases hempty : expected = .map []
  · exact iff_of_false (by simp [compare, hempty]) fun h => h.1.1 hempty
  · rw [compare_eq_contain hempty, mem_contain_iff hw, Option.bind_some, Checks]
    simp only [ne_eq, hempty, not_false_eq_true, true_and]

theorem compare_precedes (hw : expected.WellFormed) (actual : Value) :
    (compare expected actual).Pairwise fun m n => m.path.Precedes n.path := by
  by_cases hempty : expected = .map []
  · simp [compare, hempty]
  · rw [compare_eq_contain hempty]
    exact contain_precedes hw _

theorem compare_congr (hw : expected.WellFormed) {other : Value}
    (h : ∀ p, expected.Checks p → actual.get? p = other.get? p) :
    compare expected actual = compare expected other := by
  by_cases hempty : expected = .map []
  · simp [compare, hempty]
  · rw [compare_eq_contain hempty, compare_eq_contain hempty]
    exact contain_congr hw fun p hp => h p ⟨hempty, hp⟩

/-- Nothing is told if every checked field holds. -/
theorem compare_eq_nil_iff_holds (hw : expected.WellFormed) :
    compare expected actual = [] ↔
      ∀ p x, expected.Checks p → expected.get? p = some x → x.HoldsOf (actual.get? p) := by
  rw [List.eq_nil_iff_forall_not_mem]
  constructor
  · intro hnone p x hchecks hx
    obtain ⟨x', hx', hstop⟩ := hchecks.2.exists_get?
    obtain rfl : x' = x := Option.some.inj (hx'.symm.trans hx)
    refine (holdsOf_iff hstop).mpr fun reason hfault => ?_
    exact hnone ⟨p, x', actual.get? p, reason⟩
      ((mem_compare_iff hw).mpr ⟨hchecks, hx, rfl, hfault⟩)
  · intro hholds m hm
    obtain ⟨hchecks, hx, hactual, hfault⟩ := (mem_compare_iff hw).mp hm
    exact (hactual ▸ hholds m.path m.expected hchecks hx).not_fault _ hfault

end Value

end DocumentRules
