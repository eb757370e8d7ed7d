/-
Overflows.

No list of a program has more than `Path.lastPosition` members.  The functions that respect this do
what the others do, or refuse: they refuse exactly if a field is assigned whose path takes a
position that no list can have.

* **`BlockRule.runWithin_eq_error_iff`**, **`BlockRule.run_of_runWithin`** — when a rule made of
  blocks overflows, and that it else does what it does without a limit;
* **`Body.ofBlocksWithin_eq_ofBlocks`** — blocks whose inferred writes are positions of lists never
  overflow, whatever else bodies can do;
* **`run_eq_ok`** — a run does not overflow if no body does;
* **`documentWithin_eq_ok_iff`**, **`SuggestionEngine.fill_eq_ok_iff`** — when inputs can be built,
  and **`Strategy.exists_documentWithin`** — that a rule which can be filled can be given every
  input the strategies propose;
* **`SuggestionEngine.suggestWithin_eq_suggest`**, **`checkPropertiesWithin_eq_checkProperties`** —
  suggestions and property checks of rules with such reads.
-/
import DocumentRules.Proofs.Block.Footprint
import DocumentRules.Proofs.Property.Inputs
import DocumentRules.Proofs.Suggestion.Candidates
import DocumentRules.Suggestion.Engine

namespace DocumentRules

open Block (Assignment)

theorem Document.setWithin_eq_ok_iff {d e v : Document} {p : Path} :
    d.setWithin p v = .ok e ↔ Path.isAddressable p = true ∧ d.set p v = e := by
  unfold setWithin
  split <;> simp_all

/-! ### Rules made of blocks -/

namespace BlockRule

variable {b : Block} {regex : Option Regex} {steps : List (Block × Option Regex)}
  {d : Document}

/-- A block assigns a position that no list can have, to what the blocks before it have left. -/
def Overflows (steps : List (Block × Option Regex)) (d : Document) : Prop :=
  ∃ front b regex back e a, steps = front ++ (b, regex) :: back ∧ runSteps front d = .ok e ∧
    b.effect regex e = .ok (some a) ∧ Path.isAddressable a.field = false

theorem not_overflows_nil : ¬ Overflows [] d := by
  rintro ⟨front, b, regex, back, e, a, hsteps, -⟩
  simp at hsteps

theorem runSteps_cons (step : Block × Option Regex) :
    runSteps (step :: steps) d = (runSteps [step] d).bind (runSteps steps) := by
  obtain ⟨b, regex⟩ := step
  simp only [runSteps]
  cases b.effect regex d with
  | error failure => rfl
  | ok o => cases o <;> rfl

/-- Blocks overflow at the first of them, or those behind it do. -/
theorem overflows_cons :
    Overflows ((b, regex) :: steps) d ↔
      (∃ a, b.effect regex d = .ok (some a) ∧ Path.isAddressable a.field = false) ∨
        ∃ e, runSteps [(b, regex)] d = .ok e ∧ Overflows steps e := by
  constructor
  · rintro ⟨front, b', regex', back, e, a, hsteps, hfront, heffect, ha⟩
    cases front with
    | nil =>
      obtain ⟨⟨⟨⟩, ⟨⟩⟩, ⟨⟩⟩ := hsteps
      cases hfront
      exact .inl ⟨a, heffect, ha⟩
    | cons step front =>
      obtain ⟨rfl, rfl⟩ := hsteps
      rw [runSteps_cons] at hfront
      cases hfirst : runSteps [(b, regex)] d with
      | error failure =>
        rw [hfirst] at hfront
        cases hfront
      | ok e' =>
        rw [hfirst] at hfront
        exact .inr ⟨e', rfl, front, b', regex', back, e, a, rfl, hfront, heffect, ha⟩
  · rintro (⟨a, heffect, ha⟩ | ⟨e', hfirst, front, b', regex', back, e, a, rfl, hfront, heffect, ha⟩)
    · exact ⟨[], b, regex, steps, d, a, rfl, rfl, heffect, ha⟩
    · refine ⟨(b, regex) :: front, b', regex', back, e, a, rfl, ?_, heffect, ha⟩
      rw [runSteps_cons, hfirst]
      exact hfront

theorem runSteps_of_runStepsWithin {x : Except Failure Document}
    (h : runStepsWithin steps d = .ok x) : runSteps steps d = x := by
  induction steps generalizing d with
  | nil => exact Except.ok.inj h
  | cons step steps ih =>
    obtain ⟨b, regex⟩ := step
    rw [runStepsWithin] at h
    rw [runSteps]
    split at h
    · exact Except.ok.inj h
    · exact ih h
    · rename_i a heffect
      cases hset : d.setWithin a.field a.value with
      | error o =>
        rw [hset] at h
        cases h
      | ok e =>
        rw [hset] at h
        obtain ⟨-, rfl⟩ := Document.setWithin_eq_ok_iff.mp hset
        exact ih h

theorem runStepsWithin_eq_error_iff :
    runStepsWithin steps d = .error .listTooLong ↔ Overflows steps d := by
  induction steps generalizing d with
  | nil => simp [runStepsWithin, not_overflows_nil]
  | cons step steps ih =>
    obtain ⟨b, regex⟩ := step
    rw [overflows_cons, runStepsWithin, runSteps]
    cases heffect : b.effect regex d with
    | error failure => simp
    | ok o =>
      cases o with
      | none => simp [runSteps, ih]
      | some a =>
        cases ha : Path.isAddressable a.field with
        | false => simp [Document.setWithin, ha, bind, Except.bind]
        | true => simp [Document.setWithin, ha, bind, Except.bind, runSteps, Document.assign, ih]

/-- **A rule overflows exactly if a block assigns a position that no list can have.** -/
theorem runWithin_eq_error_iff {r : BlockRule} :
    r.runWithin d = .error .listTooLong ↔ Overflows r.steps d :=
  runStepsWithin_eq_error_iff

/-- **A rule that does not overflow does what it does without a limit.** -/
theorem run_of_runWithin {r : BlockRule} {x : Except Failure Document}
    (h : r.runWithin d = .ok x) : r.run d = x :=
  runSteps_of_runStepsWithin h

theorem Overflows.exists_write {r : BlockRule} (h : Overflows r.steps d) :
    ∃ p ∈ r.writes, Path.isAddressable p = false := by
  obtain ⟨front, b, regex, back, e, a, hsteps, -, heffect, ha⟩ := h
  refine ⟨a.field, ?_, ha⟩
  rw [writes, OrderedSet.mem_ofList, blocks, hsteps, List.mem_flatMap]
  exact ⟨b, by simp, Block.field_mem_writes heffect⟩

theorem runWithin_of_writes {r : BlockRule} (h : ∀ p ∈ r.writes, Path.isAddressable p = true)
    (d : Document) : r.runWithin d = .ok (r.run d) := by
  cases hrun : r.runWithin d with
  | error o =>
    obtain ⟨p, hp, hfalse⟩ := (runWithin_eq_error_iff.mp hrun).exists_write
    rw [h p hp] at hfalse
    cases hfalse
  | ok x => rw [run_of_runWithin hrun]

end BlockRule

/-- **Blocks never overflow whose inferred writes are positions of lists.** -/
theorem Body.ofBlocksWithin_eq_ofBlocks {m : Type → Type} [Monad m] [MonadExceptOf Overflow m]
    {r : BlockRule} (h : ∀ p ∈ r.writes, Path.isAddressable p = true) :
    (Body.ofBlocksWithin r : Body m) = .ofBlocks r := by
  simp only [ofBlocksWithin, ofBlocks, BlockRule.runWithin_of_writes h, Overflow.lift]

/-! ### Runs -/

section Runs

variable {r : Rule (Except Overflow)} {rs : List (Rule (Except Overflow))}

/-- The body gives an answer to every document, be it a failure. -/
def Body.Answers (b : Body (Except Overflow)) : Prop := ∀ d, ∃ x, b.invoke d = .ok x

theorem Body.answers_ofBlocksWithin {b : BlockRule}
    (h : ∀ p ∈ b.writes, Path.isAddressable p = true) :
    (Body.ofBlocksWithin b : Body (Except Overflow)).Answers := by
  intro d
  rw [ofBlocksWithin_eq_ofBlocks h]
  exact ⟨b.run d, rfl⟩

theorem RunState.invoke_eq_ok (h : r.body.Answers) (options : RunOptions) (st : RunState) :
    ∃ x, st.invoke options r = .ok x := by
  obtain ⟨answer, hanswer⟩ := h st.document
  unfold invoke
  rw [hanswer]
  cases answer with
  | error failure => exact ⟨_, rfl⟩
  | ok next =>
    dsimp only [bind, Except.bind]
    split <;> exact ⟨_, rfl⟩

theorem RunState.invokeAll_eq_ok (h : ∀ r ∈ rs, r.body.Answers) (options : RunOptions)
    (st : RunState) : ∃ x, st.invokeAll options rs = .ok x := by
  induction rs generalizing st with
  | nil => exact ⟨_, rfl⟩
  | cons r rs ih =>
    rw [List.forall_mem_cons] at h
    obtain ⟨x, hx⟩ := invoke_eq_ok h.1 options st
    unfold invokeAll
    rw [hx]
    cases x with
    | error e => exact ⟨_, rfl⟩
    | ok st => exact ih h.2 st

/-- **A run does not overflow** if no body does, in particular if the rules are made of blocks that
assign positions of lists. -/
theorem run_eq_ok {s : Snapshot (Except Overflow)} (h : ∀ r ∈ s.orderedRules, r.body.Answers)
    (options : RunOptions) (d : Document) : ∃ x, run options s d = .ok x := by
  obtain ⟨x, hx⟩ := RunState.invokeAll_eq_ok h options (.start d)
  unfold run
  rw [hx]
  exact ⟨_, rfl⟩

end Runs

/-! ### Inputs made of fields -/

theorem documentWithin_eq_ok_iff {fields : List (Path × Document)} {d : Document} :
    documentWithin fields = .ok d ↔
      (∀ f ∈ fields, Path.isAddressable f.1 = true) ∧ documentOf fields = d := by
  unfold documentWithin documentOf
  generalize Document.emptyMap = start
  induction fields generalizing start with
  | nil => simp [pure, Except.pure]
  | cons f fields ih =>
    rw [List.foldlM_cons, List.foldl_cons, List.forall_mem_cons]
    cases hf : Path.isAddressable f.1 with
    | false => simp [Document.setWithin, hf, bind, Except.bind]
    | true =>
      rw [show start.setWithin f.1 f.2 = .ok (start.set f.1 f.2) from if_pos hf]
      simpa [bind, Except.bind, hf] using ih (start.set f.1 f.2)

section Rules

variable {m : Type → Type} {r : Rule m} {hints : FieldHints}

theorem Rule.fill_eq_ok_iff {d : Document} :
    r.fill hints = .ok d ↔
      (∀ p ∈ r.readFields, Path.isAddressable p = true) ∧
        documentOf (r.representatives hints) = d := by
  rw [fill, documentWithin_eq_ok_iff, ← r.map_fst_representatives hints, List.forall_mem_map]

/-- **A rule that can be filled can be given every input that the strategies propose.** -/
theorem Strategy.exists_documentWithin {c : SuggestConfig} {target : Path} {x : Candidate}
    (h : ∀ p ∈ r.readFields, Path.isAddressable p = true)
    (hx : x ∈ staticCandidates c r target ++ boundaryCandidates c r target) :
    ∃ fields : List (Path × Document),
      (∀ f ∈ fields, f.1 ∈ r.readFields) ∧ documentWithin fields = .ok x.input := by
  have hfields (f : Path × Document) (hf : f ∈ r.representatives c.hints) : f.1 ∈ r.readFields :=
    r.map_fst_representatives c.hints ▸ List.mem_map_of_mem hf
  -- It is enough to name the fields: positions of declared reads are positions of lists.
  suffices ∃ fields : List (Path × Document),
      (∀ f ∈ fields, f.1 ∈ r.readFields) ∧ documentOf fields = x.input by
    obtain ⟨fields, hreads, hinput⟩ := this
    exact ⟨fields, hreads, documentWithin_eq_ok_iff.mpr ⟨fun f hf => h _ (hreads f hf), hinput⟩⟩
  have hwithout (field : Path) : ∃ fields : List (Path × Document),
      (∀ f ∈ fields, f.1 ∈ r.readFields) ∧
        documentOf fields = without (r.representatives c.hints) field :=
    ⟨_, fun f hf => hfields f (List.mem_of_mem_filter hf), rfl⟩
  rcases List.mem_append.mp hx with hx | hx
  · rcases List.mem_cons.mp hx with rfl | hx
    · exact ⟨_, hfields, rfl⟩
    · obtain ⟨field, -, rfl⟩ := List.mem_map.mp hx
      exact hwithout field
  · obtain ⟨field, hfield, hx⟩ := List.mem_flatMap.mp hx
    rcases List.mem_append.mp hx with hx | hx
    · obtain ⟨value, -, rfl⟩ := List.mem_map.mp hx
      refine ⟨r.representatives c.hints ++ [(field, .int value)], ?_,
        documentOf_append_singleton ..⟩
      rw [List.forall_mem_append, List.forall_mem_singleton]
      exact ⟨hfields, List.mem_of_mem_filter hfield⟩
    · rw [List.mem_singleton.mp hx]
      exact hwithout field

end Rules

/-! ### Suggestions and property checks -/

/-- What is drawn are values of the fields. -/
theorem always_fst_randomFields (hints : FieldHints) (ps : List Path) :
    Always (fun fields => ∀ f ∈ fields, f.1 ∈ ps) (randomFields hints ps) := by
  induction ps with
  | nil => exact always_pure (by simp)
  | cons p ps ih =>
    have hrest {fields : List (Path × Document)} (h : ∀ f ∈ fields, f.1 ∈ ps) :
        ∀ f ∈ fields, f.1 ∈ p :: ps := fun f hf => List.mem_cons_of_mem p (h f hf)
    refine (always_true _).bind fun left _ => ?_
    split
    · exact ih.imp fun fields => hrest
    · refine (always_true _).bind fun v _ => ih.bind fun fields h => always_pure ?_
      exact List.forall_mem_cons.mpr ⟨List.mem_cons_self .., hrest h⟩

/-- **The inputs of the trials can be built** if the fields are positions of lists. -/
theorem trialInputsWithin_eq_ok {hints : FieldHints} {fields : List Path}
    (h : ∀ p ∈ fields, Path.isAddressable p = true) (n : ℕ) (g : Generator) :
    trialInputsWithin hints fields n g =
      (.ok (trialInputs hints fields n g).1, (trialInputs hints fields n g).2) := by
  induction n generalizing g with
  | zero => rfl
  | succ n ih =>
    have hdrawn : documentWithin (randomFields hints fields g).1 =
        .ok (documentOf (randomFields hints fields g).1) :=
      documentWithin_eq_ok_iff.mpr
        ⟨fun f hf => h _ ((always_fst_randomFields hints fields).draw g f hf), rfl⟩
    -- The first input and the rest are drawn from the same generators.
    have hrest := ih (randomFields hints fields g).2
    show (do let d ← documentWithin (randomFields hints fields g).1
             let ds ← (trialInputsWithin hints fields n (randomFields hints fields g).2).1
             return d :: ds,
          (trialInputsWithin hints fields n (randomFields hints fields g).2).2) = _
    rw [hdrawn, hrest]
    rfl

section Checks

variable {m : Type → Type}

/-- A row of steps that give nothing passes exactly if each of them does. -/
theorem forM_eq_ok_iff {α ε : Type} {f : α → Except ε Unit} {as : List α} :
    forM as f = .ok () ↔ ∀ a ∈ as, f a = .ok () := by
  induction as with
  | nil => simp [pure, Except.pure]
  | cons a as ih =>
    rw [List.forM_cons, List.forall_mem_cons, ← ih]
    cases f a <;> simp [bind, Except.bind]

/-- **Inputs can be proposed exactly if the rules that something is proposed for can be filled.** -/
theorem SuggestionEngine.fill_eq_ok_iff {e : SuggestionEngine m} {rules : List (Rule m)}
    {coverage : Coverage} :
    e.fill rules coverage = .ok () ↔
      ∀ r ∈ rules, coverage.uncoveredWrites r ≠ [] →
        ∀ p ∈ r.readFields, Path.isAddressable p = true := by
  rw [fill, forM_eq_ok_iff]
  refine forall₂_congr fun r _ => ?_
  cases huncovered : coverage.uncoveredWrites r with
  | nil => simp [pure, Except.pure]
  | cons target targets =>
    have hfill : discard (r.fill e.config.hints) = .ok () ↔
        ∃ d, r.fill e.config.hints = .ok d := by
      cases r.fill e.config.hints <;> simp [discard, Functor.mapConst, Except.map]
    simp [hfill, Rule.fill_eq_ok_iff]

variable [Monad m] [LawfulMonad m] [MonadExceptOf Overflow m]

theorem SuggestionEngine.suggestWithin_eq_suggest {e : SuggestionEngine m} {s : Snapshot m}
    {coverage : Coverage} (h : e.fill s.orderedRules coverage = .ok ())
    (known : OrderedSet String) (limit : ℕ) :
    e.suggestWithin s coverage known limit = e.suggest s coverage known limit := by
  rw [suggestWithin, h]
  exact pure_bind ..

/-- **Property checks of a rule whose reads are positions of lists.** -/
theorem checkPropertiesWithin_eq_checkProperties {s : Snapshot m} {id : String}
    (h : ∀ r, s.registry.get? id = some r → ∀ p ∈ r.readFields, Path.isAddressable p = true)
    (options : RunOptions) (hints : FieldHints) (trials seed : ℕ) :
    checkPropertiesWithin options hints s id trials seed =
      checkProperties options hints s id trials seed := by
  unfold checkPropertiesWithin
  cases hr : s.registry.get? id with
  | none => simp
  | some r =>
    simp only [trialInputsWithin_eq_ok (h r hr), Overflow.lift]
    cases isolate r <;> simp

end Checks

end DocumentRules
