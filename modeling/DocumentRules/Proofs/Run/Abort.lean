/-
How a run is cut short.

Rule bodies are functions of the document here.  `Invoked` says on which documents the rules
of a run are invoked: those in front of a rule have failed or have changed only what they
declare.

* **`trace_eq_error_iff`** — a run ends without a result exactly at the first rule that
  changes an undeclared leaf, and the error names the rule and a leaf.
-/
import DocumentRules.Proofs.Run.Turns

namespace DocumentRules

/-- In a run of these rules from a document on, a rule is invoked on `before` and gives
`after`. -/
inductive Invoked : List (Rule Id) → Document → Rule Id → Document → Document → Prop where
  | here {d e : Document} (r : Rule Id) (rs : List (Rule Id))
      (answer : (r.body.invoke d).run = .ok e) : Invoked (r :: rs) d r d e
  /-- The first body fails. -/
  | failed {rs : List (Rule Id)} {d before after : Document} {r later : Rule Id}
      {failure : Failure} (answer : (r.body.invoke d).run = .error failure)
      (rest : Invoked rs d later before after) : Invoked (r :: rs) d later before after
  /-- The first rule changes only what it declares. -/
  | passed {rs : List (Rule Id)} {d e before after : Document} {r later : Rule Id}
      (answer : (r.body.invoke d).run = .ok e)
      (declared : ∀ q, Value.ChangedLeaf d.value e.value q → r.declaresWrite q = true)
      (rest : Invoked rs e later before after) : Invoked (r :: rs) d later before after

theorem Invoked.mem {rs : List (Rule Id)} {d before after : Document} {r : Rule Id}
    (h : Invoked rs d r before after) : r ∈ rs ∧ (r.body.invoke before).run = .ok after := by
  induction h with
  | here r rs answer => exact ⟨List.mem_cons_self .., answer⟩
  | failed _ _ ih => exact ⟨List.mem_cons_of_mem _ ih.1, ih.2⟩
  | passed _ _ _ ih => exact ⟨List.mem_cons_of_mem _ ih.1, ih.2⟩

/-- Behind a body that fails, the other rules go on with the same document. -/
theorem invoked_cons_of_error {rs : List (Rule Id)} {d before after : Document}
    {r later : Rule Id} {failure : Failure} (hr : (r.body.invoke d).run = .error failure) :
    Invoked (r :: rs) d later before after ↔ Invoked rs d later before after := by
  constructor
  · intro h
    cases h with
    | here _ _ answer => simp [hr] at answer
    | failed _ rest => exact rest
    | passed answer _ _ => simp [hr] at answer
  · intro h
    exact .failed hr h

/-- A body that gives a document is invoked itself, and lets the other rules go on if all it
has changed is declared. -/
theorem invoked_cons_of_ok {rs : List (Rule Id)} {d e before after : Document}
    {r later : Rule Id} (hr : (r.body.invoke d).run = .ok e) :
    Invoked (r :: rs) d later before after ↔
      (later = r ∧ before = d ∧ after = e) ∨
        (r.undeclared? (diffBy r.id d.value e.value) = none ∧
          Invoked rs e later before after) := by
  rw [Rule.undeclared?_eq_none]
  constructor
  · intro h
    cases h with
    | here _ _ answer =>
      rw [hr, Except.ok.injEq] at answer
      exact Or.inl ⟨rfl, rfl, answer.symm⟩
    | failed answer _ => simp [hr] at answer
    | passed answer declared rest =>
      rw [hr, Except.ok.injEq] at answer
      subst answer
      exact Or.inr ⟨declared, rest⟩
  · rintro (⟨rfl, rfl, rfl⟩ | ⟨declared, rest⟩)
    · exact .here _ rs hr
    · exact .passed hr declared rest

/-! ### The turns of a run, rule by rule -/

/-- The first turn, and the turns of the others. -/
theorem trace_cons (r : Rule Id) (rs : List (Rule Id)) (d : Document) :
    (trace (r :: rs) d).run =
      match (r.body.invoke d).run with
      | .error failure => (trace rs d).run.map (⟨r, d, .failed failure⟩ :: ·)
      | .ok e =>
        match r.undeclared? (diffBy r.id d.value e.value) with
        | some p => .error (.undeclaredWrite r.id p)
        | none => (trace rs e).run.map
            (⟨r, d, .completed e (diffBy r.id d.value e.value)⟩ :: ·) := by
  rfl

/-- A body that fails is noted, and the other rules see the same document. -/
theorem trace_cons_of_error {m : Type → Type} [Monad m] [LawfulMonad m] {r : Rule m}
    {d : Document} {failure : Failure} (hr : r.body.invoke d = pure (.error failure))
    (rs : List (Rule m)) :
    trace (r :: rs) d = (·.map (⟨r, d, .failed failure⟩ :: ·)) <$> trace rs d := by
  rw [trace, hr, pure_bind, map_eq_pure_bind]

theorem map_eq_error {ε α β : Type} {f : α → β} {x : Except ε α} {err : ε} :
    x.map f = .error err ↔ x = .error err := by
  cases x <;> simp [Except.map]

/-- **A run ends without a result exactly at the first rule that changes an undeclared leaf.** -/
theorem trace_eq_error_iff {rs : List (Rule Id)} {d : Document} {err : RunError} :
    (trace rs d).run = .error err ↔
      ∃ r before after p, Invoked rs d r before after ∧
        r.undeclared? (diffBy r.id before.value after.value) = some p ∧
        err = .undeclaredWrite r.id p := by
  induction rs generalizing d with
  | nil =>
    constructor
    · intro h
      cases h
    · rintro ⟨_, _, _, _, hinvoked, _⟩
      cases hinvoked
  | cons r rs ih =>
    rw [trace_cons]
    cases hr : (r.body.invoke d).run with
    | error failure => simp only [map_eq_error, ih, invoked_cons_of_error hr]
    | ok e =>
      simp only [invoked_cons_of_ok hr]
      cases hu : r.undeclared? (diffBy r.id d.value e.value) with
      | some p =>
        -- The check stops the run here, so no rule behind this one is invoked.
        simp only [reduceCtorEq, false_and, or_false, Except.error.injEq]
        constructor
        · rintro rfl
          exact ⟨r, d, e, p, ⟨rfl, rfl, rfl⟩, hu, rfl⟩
        · rintro ⟨_, _, _, p', ⟨rfl, rfl, rfl⟩, hp', rfl⟩
          rw [hu, Option.some.injEq] at hp'
          rw [hp']
      | none =>
        simp only [true_and, map_eq_error, ih]
        constructor
        · rintro ⟨r', before, after, p, hinvoked, hp⟩
          exact ⟨r', before, after, p, Or.inr hinvoked, hp⟩
        · rintro ⟨r', before, after, p, ⟨rfl, rfl, rfl⟩ | hinvoked, hp, herr⟩
          · rw [hu] at hp
            cases hp
          · exact ⟨r', before, after, p, hinvoked, hp, herr⟩

end DocumentRules
