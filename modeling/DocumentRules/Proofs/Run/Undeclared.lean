/-
Which leaf an aborted run names.

A rule is checked against its declared writes change by change, and leaf by leaf within a
change.  The touched leaves of a difference are one ascending list, so the check meets the least
undeclared leaf first.

* **`Rule.undeclared?_eq_some_iff`** — the check of a turn finds the least changed leaf that the
  rule does not declare;
* **`trace_aborts`** — whatever the bodies do, an aborted run stands behind turns of the rules in
  front of one that has changed such a leaf;
* **`aborts_iff_undeclared`** — where the bodies are functions of the document, a run aborts
  exactly at the first rule that changes an undeclared leaf, names the least one, and gives a
  result in every other case.
-/
import DocumentRules.Proofs.Change.Listing
import DocumentRules.Proofs.Run.Abort

namespace DocumentRules

open RunResult (lastOf lastOf_cons)

/-- In an ascending list the search finds the least member with the property. -/
theorem find?_eq_some_iff_least {α : Type} [LT α] [StrictOrder α] {as : List α}
    (has : as.Pairwise (· < ·)) {p : α → Bool} {a : α} :
    as.find? p = some a ↔ a ∈ as ∧ p a = true ∧ ∀ b ∈ as, p b = true → b = a ∨ a < b := by
  induction as with
  | nil => simp
  | cons c as ih =>
    obtain ⟨hc, has⟩ := List.pairwise_cons.mp has
    by_cases hpc : p c = true
    · rw [List.find?_cons_of_pos hpc, Option.some.injEq]
      constructor
      · rintro rfl
        refine ⟨List.mem_cons_self .., hpc, fun b hb _ => ?_⟩
        exact (List.mem_cons.mp hb).imp id (hc b)
      · rintro ⟨ha, -, hleast⟩
        rcases hleast c (List.mem_cons_self ..) hpc with hca | hac
        · exact hca
        · rcases List.mem_cons.mp ha with rfl | ha
          · rfl
          · exact absurd hac (StrictOrder.asymm (hc a ha))
    · rw [List.find?_cons_of_neg hpc, ih has]
      constructor
      · rintro ⟨ha, hpa, hleast⟩
        refine ⟨List.mem_cons_of_mem c ha, hpa, fun b hb hpb => ?_⟩
        rcases List.mem_cons.mp hb with rfl | hb
        · exact absurd hpb hpc
        · exact hleast b hb hpb
      · rintro ⟨ha, hpa, hleast⟩
        rcases List.mem_cons.mp ha with rfl | ha
        · exact absurd hpa hpc
        · exact ⟨ha, hpa, fun b hb => hleast b (List.mem_cons_of_mem c hb)⟩

variable {m : Type → Type}

/-! ### The check of one turn -/

/-- The leaf is the least one that the rule has changed, between two documents, without declaring
it. -/
structure Rule.LeastUndeclared (r : Rule m) (d e : Document) (p : Path) : Prop where
  changed : Value.ChangedLeaf d.value e.value p
  undeclared : ¬ r.declaresWrite p = true
  least : ∀ q, Value.ChangedLeaf d.value e.value q → ¬ r.declaresWrite q = true → q = p ∨ p < q

/-- The check goes through one list of leaves. -/
theorem Rule.undeclared?_diffBy (r : Rule m) (id : String) (u v : Value) :
    r.undeclared? (diffBy id u v) =
      ((diff u v).flatMap fun c => c.touchedLeaves.toList).find? fun p => !r.declaresWrite p := by
  rw [undeclared?, diffBy, List.findSome?_map, List.find?_flatMap]
  rfl

/-- **The check finds the least undeclared leaf.** -/
theorem Rule.undeclared?_eq_some_iff {r : Rule m} {id : String} {d e : Document} {p : Path} :
    r.undeclared? (diffBy id d.value e.value) = some p ↔ r.LeastUndeclared d e p := by
  rw [undeclared?_diffBy,
    find?_eq_some_iff_least (Value.touchedLeaves_ascending d.wellFormed e.wellFormed)]
  simp only [mem_touchedLeaves_diff, Bool.not_eq_true', ← Bool.not_eq_true]
  exact ⟨fun ⟨hp, hu, hleast⟩ => ⟨hp, hu, hleast⟩, fun h => ⟨h.changed, h.undeclared, h.least⟩⟩

/-! ### Aborted runs -/

/-- A row of turns, behind which a rule changes an undeclared leaf. -/
def Aborts (rs : List (Rule m)) (d : Document) (err : RunError) : Prop :=
  ∃ front r rest turns e p, rs = front ++ r :: rest ∧ TakeTurns front d turns ∧
    r.LeastUndeclared (lastOf d turns) e p ∧ err = .undeclaredWrite r.id p

namespace Aborts

variable {r : Rule m} {rs : List (Rule m)} {d e : Document} {err : RunError}

theorem behind_failed (failure : Failure) (h : Aborts rs d err) : Aborts (r :: rs) d err := by
  obtain ⟨front, s, rest, turns, f, p, rfl, hturns, hleast, rfl⟩ := h
  refine ⟨r :: front, s, rest, _, f, p, rfl, .failed r failure hturns, ?_, rfl⟩
  rw [lastOf_cons]
  exact hleast

theorem behind_completed (h : Aborts rs e err)
    (declared : ∀ q, Value.ChangedLeaf d.value e.value q → r.declaresWrite q = true) :
    Aborts (r :: rs) d err := by
  obtain ⟨front, s, rest, turns, f, p, rfl, hturns, hleast, rfl⟩ := h
  refine ⟨r :: front, s, rest, _, f, p, rfl, .completed r declared hturns, ?_, rfl⟩
  rw [lastOf_cons]
  exact hleast

end Aborts

/-- **Whatever the bodies do**, a run is aborted only by a rule that changes an undeclared leaf,
behind turns of the rules in front of it. -/
theorem trace_aborts [Monad m] [LawfulMonad m] (rs : List (Rule m)) (d : Document) :
    Always (fun outcome => ∀ err, outcome = .error err → Aborts rs d err) (trace rs d) := by
  induction rs generalizing d with
  | nil =>
    refine always_pure ?_
    intro err herr
    cases herr
  | cons r rs ih =>
    unfold trace
    refine (always_true _).bind ?_
    intro answer _
    cases answer with
    | error failure =>
      refine (ih d).bind fun outcome houtcome => always_pure ?_
      intro err herr
      exact (houtcome err (map_eq_error.mp herr)).behind_failed failure
    | ok e =>
      simp only
      split
      · rename_i p hp
        refine always_pure ?_
        intro err herr
        cases herr
        exact ⟨[], r, rs, [], e, p, rfl, .nil d, Rule.undeclared?_eq_some_iff.mp hp, rfl⟩
      · rename_i hnone
        refine (ih e).bind fun outcome houtcome => always_pure ?_
        intro err herr
        exact (houtcome err (map_eq_error.mp herr)).behind_completed
          (Rule.undeclared?_eq_none.mp hnone)

theorem run_aborts [Monad m] [LawfulMonad m] (options : RunOptions) (s : Snapshot m)
    (d : Document) :
    Always (fun outcome => ∀ err, outcome = .error err → Aborts s.orderedRules d err)
      (run options s d) := by
  rw [run_eq_trace, map_eq_pure_bind]
  exact (trace_aborts s.orderedRules d).bind fun _ houtcome => always_pure fun err herr =>
    houtcome err (map_eq_error.mp herr)

theorem run_eq_error_iff {options : RunOptions} {s : Snapshot Id} {d : Document}
    {err : RunError} :
    (run options s d).run = .error err ↔
      ∃ r before after p, Invoked s.orderedRules d r before after ∧
        r.LeastUndeclared before after p ∧ err = .undeclaredWrite r.id p := by
  rw [run_eq_error_iff_trace, trace_eq_error_iff]
  simp only [Rule.undeclared?_eq_some_iff]

/-- **A run gives a result exactly if every rule that is invoked changes only what it
declares.** -/
theorem exists_run_eq_ok_iff {options : RunOptions} {s : Snapshot Id} {d : Document} :
    (∃ result, (run options s d).run = .ok result) ↔
      ∀ r before after, Invoked s.orderedRules d r before after →
        ∀ q, Value.ChangedLeaf before.value after.value q → r.declaresWrite q = true := by
  constructor
  · rintro ⟨result, hresult⟩ r before after hinvoked
    have hnone : r.undeclared? (diffBy r.id before.value after.value) = none := by
      rw [Option.eq_none_iff_forall_ne_some]
      intro p hp
      have herror : (run options s d).run = .error (.undeclaredWrite r.id p) :=
        run_eq_error_iff.mpr
          ⟨r, before, after, p, hinvoked, Rule.undeclared?_eq_some_iff.mp hp, rfl⟩
      rw [hresult] at herror
      cases herror
    exact Rule.undeclared?_eq_none.mp hnone
  · intro hdeclared
    cases hrun : (run options s d).run with
    | ok result => exact ⟨result, rfl⟩
    | error err =>
      obtain ⟨r, before, after, p, hinvoked, hleast, -⟩ := run_eq_error_iff.mp hrun
      exact absurd (hdeclared r before after hinvoked p hleast.changed) hleast.undeclared

/-- **A run aborts exactly on an undeclared change, and names the right one.**  Where the bodies
are functions of the document, the error is that of the rule that is invoked and changes an
undeclared leaf, and names the least one; without such a rule there is a result, whichever bodies
fail.  Whatever the bodies do, an aborted run stands behind turns of the rules in front. -/
theorem aborts_iff_undeclared (options : RunOptions) (d : Document) :
    (∀ s : Snapshot Id,
      (∀ err, (run options s d).run = .error err ↔
        ∃ r before after p, Invoked s.orderedRules d r before after ∧
          r.LeastUndeclared before after p ∧ err = .undeclaredWrite r.id p) ∧
      ((∃ result, (run options s d).run = .ok result) ↔
        ∀ r before after, Invoked s.orderedRules d r before after →
          ∀ q, Value.ChangedLeaf before.value after.value q → r.declaresWrite q = true)) ∧
    ∀ (m : Type → Type) [Monad m] [LawfulMonad m] (s : Snapshot m),
      Always (fun outcome => ∀ err, outcome = .error err → Aborts s.orderedRules d err)
        (run options s d) :=
  ⟨fun _ => ⟨fun _ => run_eq_error_iff, exists_run_eq_ok_iff⟩, fun _ _ _ s =>
    run_aborts options s d⟩

end DocumentRules
