/-
Catalogs are maps from ids.

A catalog keeps its cases in a list, where a case that is upserted takes the place of the one with
its id.  Whatever is done to a catalog in which every case has an id of its own:

* **`Catalog.take_eq`** — what is taken out of a catalog is what stands under the id;
* **`Catalog.Keyed.perform`**, **`Catalog.get?_perform`** — an operation keeps the ids apart, and
  changes what stands under its own id and under no other;
* **`Catalog.get?_performAll`** — so after a row of operations the last one that is about an id
  decides what stands under it;
* **`Catalog.Keyed.select_pairwise`** — a selection is in the strict order of priorities, names and
  ids, and so it is determined by the cases alone (`Catalog.Keyed.select_congr`);
* **`catalog_maps_ids`** — all of this for the catalogs that any operations lead to.
-/
import DocumentRules.Catalog.Basic
import DocumentRules.Order.Entries
import Mathlib.Data.List.Nodup

namespace DocumentRules

/-! ### The order in which cases run -/

namespace TestCase

variable {a b c d : TestCase}

theorem idLess_iff {x y : Option String} : IdLess x y ↔ x.toList < y.toList := by
  cases x <;> cases y <;> simp [IdLess, List.cons_lt_cons_iff]

/-- Cases with one priority run in the order of their names and ids, one after the other. -/
theorem before_iff :
    c.Before d ↔ d.priority < c.priority ∨
      (c.priority = d.priority ∧ c.name :: c.id.toList < d.name :: d.id.toList) := by
  rw [Before, List.cons_lt_cons_iff, idLess_iff]

theorem Before.asymm (h : c.Before d) : ¬ d.Before c := by
  rw [before_iff] at h ⊢
  rintro (hd | ⟨heq, hd⟩)
  · rcases h with h | ⟨h, -⟩ <;> omega
  · rcases h with h | ⟨-, h⟩
    · omega
    · exact StrictOrder.asymm h hd

theorem not_before_trans (hba : ¬ b.Before a) (hcb : ¬ c.Before b) : ¬ c.Before a := by
  rw [before_iff, not_or, not_and] at hba hcb ⊢
  refine ⟨by omega, fun h => ?_⟩
  -- The priority of the case between the two can only be theirs.
  have hb : b.priority = a.priority := by omega
  exact StrictOrder.not_lt_trans (hba.2 hb) (hcb.2 (by omega))

theorem before_of_not_before (hid : c.id ≠ d.id) (h : ¬ d.Before c) : c.Before d := by
  rw [before_iff, not_or, not_and] at h
  rw [before_iff]
  rcases Int.lt_trichotomy d.priority c.priority with hlt | heq | hgt
  · exact Or.inl hlt
  · refine Or.inr ⟨heq.symm, ?_⟩
    have hne : c.name :: c.id.toList ≠ d.name :: d.id.toList := by
      intro heq
      exact hid (by simpa using congrArg List.head? (List.cons.inj heq).2)
    exact (StrictOrder.lt_or_lt_of_ne hne).resolve_right (h.2 heq)
  · exact absurd hgt h.1

/-- The first case has the higher priority; or the priorities are the same, and it has the smaller
name; or the names are the same, too, and it has the smaller id. -/
inductive RunsBefore (c d : TestCase) : Prop where
  | priority (higher : d.priority < c.priority)
  | name (priority : c.priority = d.priority) (smaller : c.name < d.name)
  | id (priority : c.priority = d.priority) (name : c.name = d.name) {a b : String}
      (ha : c.id = some a) (hb : d.id = some b) (smaller : a < b)

theorem Before.runsBefore (h : c.Before d) (hc : c.id.isSome = true) : c.RunsBefore d := by
  rcases h with h | ⟨hpriority, h | ⟨hname, h⟩⟩
  · exact .priority h
  · exact .name hpriority h
  · obtain ⟨a, ha⟩ := Option.isSome_iff_exists.mp hc
    cases hb : d.id with
    | none =>
      rw [ha, hb] at h
      exact h.elim
    | some b =>
      rw [ha, hb] at h
      exact .id hpriority hname ha hb h

end TestCase

namespace Catalog

variable {g h : Catalog} {c d : TestCase} {cs : List TestCase} {id : String}

/-! ### One case -/

/-- **What is taken out is what stands under the id**, and the other cases are left. -/
theorem takeFrom_eq (id : String) (cs : List TestCase) :
    takeFrom id cs = (cs.find? (·.hasId id), cs.eraseP (·.hasId id)) := by
  induction cs with
  | nil => rfl
  | cons c cs ih =>
    rw [takeFrom, ih, List.find?_cons, List.eraseP_cons]
    cases c.hasId id <;> rfl

theorem take_eq (g : Catalog) (id : String) : g.take id = (g.get? id, g.remove id) := by
  rw [remove, take, takeFrom_eq]
  rfl

theorem cases_remove (g : Catalog) (id : String) :
    (g.remove id).cases = g.cases.eraseP (·.hasId id) := by
  rw [remove, take, takeFrom_eq]

/-- A case that is upserted takes the place of the one with its id, or comes last. -/
theorem upsertInto_cases (hid : c.id = some id) (cs : List TestCase) :
    (upsertInto c cs = cs ++ [c] ∧ ∀ d ∈ cs, d.id ≠ some id) ∨
      ∃ front d back, cs = front ++ d :: back ∧ d.id = some id ∧
        upsertInto c cs = front ++ c :: back := by
  induction cs with
  | nil => exact Or.inl ⟨rfl, by simp⟩
  | cons e es ih =>
    by_cases he : e.id = some id
    · exact Or.inr ⟨[], e, es, rfl, he, by simp [upsertInto, hid, he]⟩
    · have hstep : upsertInto c (e :: es) = e :: upsertInto c es := by
        simp [upsertInto, hid, he]
      rcases ih with ⟨hlast, hfresh⟩ | ⟨front, d, back, rfl, hd, hplace⟩
      · exact Or.inl ⟨by rw [hstep, hlast]; rfl, List.forall_mem_cons.mpr ⟨he, hfresh⟩⟩
      · exact Or.inr ⟨e :: front, d, back, rfl, hd, by rw [hstep, hplace]; rfl⟩

/-! ### Catalogs in which every case has an id of its own -/

/-- Every case has an id, and no two have the same one. -/
structure Keyed (g : Catalog) : Prop where
  named : ∀ c ∈ g.cases, c.id.isSome = true
  distinct : (g.cases.map TestCase.id).Nodup

theorem Keyed.get?_eq_some_iff (hg : g.Keyed) :
    g.get? id = some c ↔ c ∈ g.cases ∧ c.id = some id :=
  find?_key_eq_some_iff (List.pairwise_map.mp hg.distinct)

/-- The cases beside the one with an id are those with another id. -/
theorem Keyed.mem_beside {front back : List TestCase} (hg : g.Keyed)
    (hcases : g.cases = front ++ d :: back) (hd : d.id = some id) :
    c ∈ front ++ back ↔ c ∈ g.cases ∧ c.id ≠ some id := by
  have hdistinct := hg.distinct
  rw [hcases, (List.perm_middle.map TestCase.id).nodup_iff, List.map_cons, List.nodup_cons,
    hd] at hdistinct
  rw [hcases, List.perm_middle.mem_iff, List.mem_cons]
  constructor
  · intro hc
    refine ⟨Or.inr hc, fun hid => hdistinct.1 ?_⟩
    rw [← hid]
    exact List.mem_map_of_mem hc
  · rintro ⟨rfl | hc, hid⟩
    · exact absurd hd hid
    · exact hc

/-! ### One operation -/

/-- What is done to a catalog. -/
inductive Operation where
  /-- Upsert a case, which has been given this id. -/
  | upsert (c : TestCase) (id : String) (named : c.id = some id)
  | remove (id : String)

namespace Operation

/-- The id that the operation is about. -/
def target : Operation → String
  | .upsert _ id _ => id
  | .remove id => id

/-- What stands under that id afterwards. -/
def result : Operation → Option TestCase
  | .upsert c _ _ => some c
  | .remove _ => none

theorem id_of_result {op : Operation} (h : op.result = some c) : c.id = some op.target := by
  cases op with
  | upsert d id named =>
    obtain rfl : d = c := Option.some.inj h
    exact named
  | remove id => cases h

end Operation

def perform (g : Catalog) : Operation → Catalog
  | .upsert c _ _ => g.upsert c
  | .remove id => g.remove id

/-- **What an operation leaves in a catalog**: its result, and the cases with other ids. -/
theorem Keyed.mem_perform (hg : g.Keyed) (op : Operation) :
    c ∈ (g.perform op).cases ↔ op.result = some c ∨ (c ∈ g.cases ∧ c.id ≠ some op.target) := by
  cases op with
  | upsert d id hid =>
    show c ∈ upsertInto d g.cases ↔ some d = some c ∨ (c ∈ g.cases ∧ c.id ≠ some id)
    rw [Option.some.injEq, eq_comm]
    -- The case comes last, or it takes the place of the one that had its id.
    rcases upsertInto_cases hid g.cases with ⟨hlast, hfresh⟩ | ⟨front, e, back, hcases, he, hplace⟩
    · rw [hlast, List.mem_append, List.mem_singleton, or_comm]
      exact or_congr_right ⟨fun hc => ⟨hc, hfresh c hc⟩, And.left⟩
    · rw [hplace, List.perm_middle.mem_iff, List.mem_cons, hg.mem_beside hcases he]
  | remove id =>
    show c ∈ (g.remove id).cases ↔ none = some c ∨ (c ∈ g.cases ∧ c.id ≠ some id)
    rw [cases_remove, or_iff_right (by simp)]
    -- The first case with the id is left out, and it is the only one.
    rcases List.exists_or_eq_self_of_eraseP (·.hasId id) g.cases with
      hself | ⟨e, front, back, -, he, hcases, hleft⟩
    · have hfresh : ∀ e ∈ g.cases, e.id ≠ some id := by
        simpa [TestCase.hasId] using List.eraseP_eq_self_iff.mp hself
      rw [hself]
      exact ⟨fun hc => ⟨hc, hfresh c hc⟩, And.left⟩
    · rw [hleft, hg.mem_beside hcases (by simpa [TestCase.hasId] using he)]

theorem Keyed.perform (hg : g.Keyed) (op : Operation) : (g.perform op).Keyed := by
  refine ⟨fun c hc => ?_, ?_⟩
  · rcases (hg.mem_perform op).mp hc with hresult | ⟨hc, -⟩
    · rw [Operation.id_of_result hresult]
      rfl
    · exact hg.named c hc
  · cases op with
    | upsert d id hid =>
      show ((upsertInto d g.cases).map TestCase.id).Nodup
      rcases upsertInto_cases hid g.cases with
        ⟨hlast, hfresh⟩ | ⟨front, e, back, hcases, he, hplace⟩
      · have hnew : some id ∉ g.cases.map TestCase.id := by simpa using hfresh
        rw [hlast, List.map_append, List.map_singleton, hid]
        exact List.nodup_append.mpr ⟨hg.distinct, List.nodup_singleton _, by simpa using hnew⟩
      · have hids := hg.distinct
        rw [hcases] at hids
        rw [hplace]
        simpa [hid, he] using hids
    | remove id =>
      show ((g.remove id).cases.map TestCase.id).Nodup
      rw [cases_remove]
      exact hg.distinct.sublist (List.eraseP_sublist.map TestCase.id)

/-- **An operation changes what stands under its own id**, and under no other. -/
theorem Keyed.get?_perform (hg : g.Keyed) (op : Operation) (id : String) :
    (g.perform op).get? id = if op.target = id then op.result else g.get? id := by
  refine Option.ext fun c => ?_
  rw [(hg.perform op).get?_eq_some_iff, hg.mem_perform]
  split
  · rename_i htarget
    subst htarget
    constructor
    · rintro ⟨hresult | ⟨-, hother⟩, hid⟩
      · exact hresult
      · exact absurd hid hother
    · exact fun hresult => ⟨Or.inl hresult, Operation.id_of_result hresult⟩
  · rename_i hother
    rw [hg.get?_eq_some_iff]
    constructor
    · rintro ⟨hresult | ⟨hc, -⟩, hid⟩
      · rw [Operation.id_of_result hresult, Option.some.injEq] at hid
        exact absurd hid hother
      · exact ⟨hc, hid⟩
    · rintro ⟨hc, hid⟩
      refine ⟨Or.inr ⟨hc, fun htarget => hother ?_⟩, hid⟩
      rw [hid, Option.some.injEq] at htarget
      exact htarget.symm

/-! ### A row of operations -/

def performAll (g : Catalog) (ops : List Operation) : Catalog := ops.foldl perform g

theorem Keyed.performAll (hg : g.Keyed) (ops : List Operation) : (g.performAll ops).Keyed := by
  induction ops generalizing g with
  | nil => exact hg
  | cons op ops ih => exact ih (hg.perform op)

/-- The case has been upserted under the id, and nothing has been done under the id since. -/
def LastUpserted (ops : List Operation) (id : String) (c : TestCase) : Prop :=
  ∃ front named back, ops = front ++ .upsert c id named :: back ∧ ∀ op ∈ back, op.target ≠ id

/-- Nothing has been done under the id. -/
def Untouched (ops : List Operation) (id : String) : Prop := ∀ op ∈ ops, op.target ≠ id

theorem untouched_cons {op : Operation} {ops : List Operation} :
    Untouched (op :: ops) id ↔ op.target ≠ id ∧ Untouched ops id := List.forall_mem_cons

theorem lastUpserted_cons {op : Operation} {ops : List Operation} :
    LastUpserted (op :: ops) id c ↔
      LastUpserted ops id c ∨ (Untouched ops id ∧ op.target = id ∧ op.result = some c) := by
  constructor
  · rintro ⟨front, named, back, hops, hback⟩
    cases front with
    | nil =>
      obtain ⟨rfl, rfl⟩ := List.cons.inj hops
      exact Or.inr ⟨hback, rfl, rfl⟩
    | cons _ front =>
      obtain ⟨-, hops⟩ := List.cons.inj hops
      exact Or.inl ⟨front, named, back, hops, hback⟩
  · rintro (⟨front, named, back, rfl, hback⟩ | ⟨hback, rfl, hresult⟩)
    · exact ⟨op :: front, named, back, rfl, hback⟩
    · cases op with
      | upsert d id named =>
        obtain rfl : d = c := Option.some.inj hresult
        exact ⟨[], named, ops, rfl, hback⟩
      | remove id => cases hresult

/-- **The last operation that is about an id decides what stands under it.** -/
theorem Keyed.get?_performAll (hg : g.Keyed) (ops : List Operation) :
    (g.performAll ops).get? id = some c ↔
      LastUpserted ops id c ∨ (Untouched ops id ∧ g.get? id = some c) := by
  induction ops generalizing g with
  | nil => simp [Catalog.performAll, LastUpserted, Untouched]
  | cons op ops ih =>
    rw [lastUpserted_cons, untouched_cons, Catalog.performAll, List.foldl_cons,
      ← Catalog.performAll, ih (hg.perform op), hg.get?_perform]
    by_cases htarget : op.target = id
    · simp [htarget]
    · simp [htarget]

/-! ### Selections -/

theorem mem_select {f : TestFilter} :
    c ∈ g.select f ↔ c ∈ g.cases ∧ c.enabled = true ∧ f.admits c = true := by
  simp [select]

theorem mayStand_total (a b : TestCase) (h : (!decide (b.Before a)) = false) :
    (!decide (a.Before b)) = true := by
  have hba : b.Before a := by simpa using h
  simpa using hba.asymm

theorem mayStand_trans (a b c : TestCase) (hab : (!decide (b.Before a)) = true)
    (hbc : (!decide (c.Before b)) = true) : (!decide (c.Before a)) = true := by
  have hba : ¬ b.Before a := by simpa using hab
  have hcb : ¬ c.Before b := by simpa using hbc
  simpa using TestCase.not_before_trans hba hcb

theorem select_perm (g : Catalog) (f : TestFilter) :
    (g.select f).Perm (g.cases.filter fun c => c.enabled && f.admits c) := sortBy_perm _ _

/-- **A selection is in the strict order in which cases run.** -/
theorem Keyed.select_pairwise (hg : g.Keyed) (f : TestFilter) :
    (g.select f).Pairwise TestCase.Before := by
  have hsorted := sortBy_pairwise mayStand_total mayStand_trans
    (g.cases.filter fun c => c.enabled && f.admits c)
  have hids : ((g.select f).map TestCase.id).Nodup := by
    rw [((select_perm g f).map TestCase.id).nodup_iff]
    exact hg.distinct.sublist (List.filter_sublist.map TestCase.id)
  refine (hsorted.and (List.pairwise_map.mp hids)).imp fun {c d} ⟨hcd, hid⟩ => ?_
  exact TestCase.before_of_not_before hid (by simpa using hcd)

/-- **A selection is determined by the cases**, in whatever order they came. -/
theorem Keyed.select_congr (hg : g.Keyed) (hh : h.Keyed) (hcases : ∀ c, c ∈ g.cases ↔ c ∈ h.cases)
    (f : TestFilter) : g.select f = h.select f := by
  have hperm : g.cases.Perm h.cases :=
    (List.perm_ext_iff_of_nodup hg.distinct.of_map hh.distinct.of_map).mpr hcases
  refine sortBy_eq_of_perm mayStand_total mayStand_trans
    ((hperm.filter _).trans (select_perm h f).symm) ?_
  exact (hh.select_pairwise f).imp fun hbefore => by simpa using hbefore

theorem Keyed.mem_cases_iff (hg : g.Keyed) : c ∈ g.cases ↔ ∃ id, g.get? id = some c := by
  constructor
  · intro hc
    obtain ⟨id, hid⟩ := Option.isSome_iff_exists.mp (hg.named c hc)
    exact ⟨id, hg.get?_eq_some_iff.mpr ⟨hc, hid⟩⟩
  · rintro ⟨id, hid⟩
    exact (hg.get?_eq_some_iff.mp hid).1

end Catalog

theorem TestFilter.admits_iff {f : TestFilter} {c : TestCase} :
    f.admits c = true ↔
      (∀ s, f.suite = some s → c.suite = some s) ∧ ∀ t, f.tag = some t → t ∈ c.tags := by
  cases hs : f.suite <;> cases ht : f.tag <;> simp [admits, hs, ht, TestCase.hasTag]

/-- **A catalog is a map from ids, and a selection is its sorted view.**  Whatever is upserted and
removed, the ids stay apart; under an id stands the case that was upserted last, if nothing has been
done under the id since, or else the one that stood there from the beginning.  What is taken out is
what stood under the id, and nothing changes under the other ids.  A selection holds the enabled
cases that the filter admits, each one once, in the order of priorities, names and ids; so it is the
same for all catalogs with the same cases, however they came about. -/
theorem catalog_maps_ids {g : Catalog} (hg : g.Keyed) (ops : List Catalog.Operation) :
    let h := g.performAll ops
    h.Keyed ∧
      (∀ c, c ∈ h.cases ↔ ∃ id, h.get? id = some c) ∧
      (∀ id c, h.get? id = some c ↔
        Catalog.LastUpserted ops id c ∨
          (Catalog.Untouched ops id ∧ c ∈ g.cases ∧ c.id = some id)) ∧
      (∀ id, (h.take id).1 = h.get? id ∧
        ∀ id', (h.take id).2.get? id' = if id = id' then none else h.get? id') ∧
      (∀ f : TestFilter, (h.select f).Pairwise TestCase.RunsBefore ∧ (h.select f).Nodup ∧
        ∀ c, c ∈ h.select f ↔ c ∈ h.cases ∧ c.enabled = true ∧
          (∀ s, f.suite = some s → c.suite = some s) ∧ ∀ t, f.tag = some t → t ∈ c.tags) ∧
      ∀ (g' : Catalog) (ops' : List Catalog.Operation), g'.Keyed →
        (∀ c, c ∈ h.cases ↔ c ∈ (g'.performAll ops').cases) →
        ∀ f, h.select f = (g'.performAll ops').select f := by
  intro h
  have hh : h.Keyed := hg.performAll ops
  refine ⟨hh, fun c => hh.mem_cases_iff, fun id c => ?_, fun id => ⟨?_, fun id' => ?_⟩,
    fun f => ⟨?_, ?_, fun c => ?_⟩, fun g' ops' hg' hcases => ?_⟩
  · rw [hg.get?_performAll, hg.get?_eq_some_iff]
  · rw [Catalog.take_eq]
  · exact hh.get?_perform (.remove id) id'
  · refine (hh.select_pairwise f).imp_of_mem fun {c d} hc _ hcd => ?_
    exact hcd.runsBefore (hh.named c (Catalog.mem_select.mp hc).1)
  · exact (Catalog.select_perm h f).nodup_iff.mpr (hh.distinct.of_map.filter _)
  · rw [Catalog.mem_select, TestFilter.admits_iff]
  · exact hh.select_congr (hg'.performAll ops') hcases

/-! ### Two ways to the same cases -/

namespace Shelved

def test (id name : String) (priority : Int) : TestCase where
  id := some id
  name := name
  enabled := true
  suite := none
  tags := ∅
  priority := priority
  input := .null
  expected := .null

def catalog : Catalog := ⟨[test "a" "late" 0, test "b" "early" 0]⟩

/-- One case is removed and comes back behind another one, and one is given another priority. -/
def revision : List Catalog.Operation :=
  [.remove "a", .upsert (test "c" "late" 0) "c" rfl, .upsert (test "b" "early" (-1)) "b" rfl,
    .upsert (test "a" "late" 0) "a" rfl]

/-- The same cases one after another. -/
def listing : List Catalog.Operation :=
  [.upsert (test "a" "late" 0) "a" rfl, .upsert (test "b" "early" (-1)) "b" rfl,
    .upsert (test "c" "late" 0) "c" rfl]

end Shelved

open Shelved in
/-- What stands under the ids, and the one selection of both catalogs. -/
theorem catalog_maps_ids_shelved :
    catalog.Keyed ∧ Catalog.empty.Keyed ∧
      (catalog.performAll revision).get? "b" = some (test "b" "early" (-1)) ∧
      ((catalog.performAll revision).take "b").2.get? "a" = some (test "a" "late" 0) ∧
      (catalog.performAll revision).cases ≠ (Catalog.empty.performAll listing).cases ∧
      (catalog.performAll revision).select {} = (Catalog.empty.performAll listing).select {} ∧
      ((Catalog.empty.performAll listing).select {}).map TestCase.id =
        [some "a", some "c", some "b"] := by
  have hcatalog : catalog.Keyed := ⟨by simp [catalog, test], by simp [catalog, test]⟩
  have hempty : Catalog.empty.Keyed := ⟨by simp [Catalog.empty], by simp [Catalog.empty]⟩
  have hrevised : (catalog.performAll revision).cases =
      [test "b" "early" (-1), test "c" "late" 0, test "a" "late" 0] := rfl
  have hlisted : (Catalog.empty.performAll listing).cases =
      [test "a" "late" 0, test "b" "early" (-1), test "c" "late" 0] := rfl
  obtain ⟨-, -, hget, htake, -, hselect⟩ := catalog_maps_ids hcatalog revision
  refine ⟨hcatalog, hempty, ?_, ?_, ?_, ?_, rfl⟩
  · refine (hget _ _).mpr (Or.inl ⟨[.remove "a", .upsert (test "c" "late" 0) "c" rfl], rfl,
      [.upsert (test "a" "late" 0) "a" rfl], rfl, ?_⟩)
    simp [Catalog.Operation.target]
  · rw [(htake "b").2 "a"]
    rfl
  · rw [hrevised, hlisted]
    intro heq
    exact absurd (congrArg TestCase.id (List.cons.inj heq).1) (by decide)
  · refine hselect _ _ hempty (fun c => ?_) {}
    rw [hrevised, hlisted]
    simp only [List.mem_cons, List.not_mem_nil, or_false]
    tauto

end DocumentRules
