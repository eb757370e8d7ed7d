/-
Evaluating cases side by side.

The cases are cut into parts of one size, and every part has a worker, which evaluates its cases
one after another.  Which worker makes the next step is not determined.

* **`flatten_chunks`**, **`length_chunks_div_le`** — the parts in a row are the cases, and there is
  a worker for each of them;
* **`evaluateWith_eq`** — the outcomes do not depend on the number of workers;
* **`Worker.outcomes_eq`** — nor on the order in which they work, if the rule bodies are functions
  of the document;
* **`Worker.exists_step`**, **`Worker.wellFounded_step`** — some worker can go on until all cases
  are evaluated, and the work comes to an end.
-/
import DocumentRules.Proofs.Catalog.Evaluation
import Mathlib.Logic.Relation

namespace DocumentRules

/-! ### Parts -/

section Parts

variable {α : Type} {size : Nat} {as : List α}

theorem flatten_chunks (size : Nat) (as : List α) : (chunks size as).flatten = as := by
  fun_induction chunks size as with
  | case1 => rfl
  | case2 a as ih => rw [List.flatten_cons, ih, List.cons_append, List.take_append_drop]

/-- Parts of a size that is large enough are no more than asked for. -/
theorem length_chunks_le {workers : Nat} (h : as.length ≤ workers * size) :
    (chunks size as).length ≤ workers := by
  fun_induction chunks size as generalizing workers with
  | case1 => exact Nat.zero_le _
  | case2 a as ih =>
    cases workers with
    | zero => simp at h
    | succ workers =>
      rw [List.length_cons, Nat.succ_mul] at h
      rw [List.length_cons, Nat.add_le_add_iff_right]
      refine ih ?_
      rw [List.length_drop]
      omega

/-- **There is a worker for each part**, if the cases are divided among the workers and the size
of the parts is rounded up. -/
theorem length_chunks_div_le {workers : Nat} (hworkers : 0 < workers) (as : List α) :
    (chunks ((as.length + workers - 1) / workers) as).length ≤ workers := by
  refine length_chunks_le ?_
  have hdiv := Nat.div_add_mod (as.length + workers - 1) workers
  have hmod := Nat.mod_lt (as.length + workers - 1) hworkers
  omega

end Parts

/-! ### The outcomes of the parts -/

section Outcomes

variable {m : Type → Type} [Monad m] [LawfulMonad m] (options : RunOptions) (s : Snapshot m)

theorem evaluateAll_eq_mapM (cs : List TestCase) :
    evaluateAll options s cs = cs.mapM (evaluate options s) := by
  induction cs with
  | nil => rw [evaluateAll, List.mapM_nil]
  | cons c cs ih => rw [evaluateAll, ih, List.mapM_cons]

/-- Parts that are evaluated one after another have the outcomes of all their cases. -/
theorem flatten_mapM_evaluateAll (parts : List (List TestCase)) :
    List.flatten <$> parts.mapM (evaluateAll options s) =
      evaluateAll options s parts.flatten := by
  induction parts with
  | nil => simp [evaluateAll]
  | cons part parts ih =>
    rw [List.flatten_cons, evaluateAll_eq_mapM, List.mapM_append, ← evaluateAll_eq_mapM,
      ← evaluateAll_eq_mapM, ← ih, List.mapM_cons]
    simp

/-- **The outcomes do not depend on the number of workers.** -/
theorem evaluateWith_eq (workers : Nat) (cs : List TestCase) :
    evaluateWith workers options s cs = evaluateAll options s cs := by
  simp only [evaluateWith, bind_pure_comp]
  split
  · rfl
  · rw [flatten_mapM_evaluateAll, flatten_chunks]

/-- What the enabled cases cover does not depend on the number of workers. -/
theorem coverage_eq_evaluateWith (workers : Nat) (g : Catalog) :
    g.coverage options s = Coverage.ofOutcomes <$> evaluateWith workers options s g.enabled := by
  rw [evaluateWith_eq, Catalog.coverage, bind_pure_comp]

end Outcomes

/-! ### Workers side by side -/

/-- The cases that a worker has not evaluated yet, and the outcomes of the others. -/
structure Worker where
  pending : List TestCase
  outcomes : List TestOutcome

namespace Worker

/-- One of the workers evaluates its next case. -/
inductive Step (answer : TestCase → TestOutcome) : List Worker → List Worker → Prop where
  | next (front behind : List Worker) (c : TestCase) (pending : List TestCase)
      (outcomes : List TestOutcome) :
      Step answer (front ++ ⟨c :: pending, outcomes⟩ :: behind)
        (front ++ ⟨pending, outcomes ++ [answer c]⟩ :: behind)

/-- One worker for each part, before the first step. -/
def start (parts : List (List TestCase)) : List Worker := parts.map (⟨·, []⟩)

/-- What a worker will have in the end. -/
def promised (answer : TestCase → TestOutcome) (w : Worker) : List TestOutcome :=
  w.outcomes ++ w.pending.map answer

variable {answer : TestCase → TestOutcome} {ws vs : List Worker} {parts : List (List TestCase)}

/-- **A step keeps what every worker will have in the end.** -/
theorem Step.promised_eq (h : Step answer ws vs) :
    ws.map (promised answer) = vs.map (promised answer) := by
  obtain ⟨front, behind, c, pending, outcomes⟩ := h
  simp [promised]

/-- **After any steps** the workers will have the outcomes of their parts. -/
theorem promised_of_steps (h : Relation.ReflTransGen (Step answer) (start parts) ws) :
    ws.map (promised answer) = parts.map (List.map answer) := by
  induction h with
  | refl => simp [start, promised, Function.comp_def]
  | tail _ hstep ih => rw [← hstep.promised_eq, ih]

/-- **When no worker has a case left**, their outcomes in a row are those of all cases. -/
theorem outcomes_of_steps (h : Relation.ReflTransGen (Step answer) (start parts) ws)
    (hdone : ∀ w ∈ ws, w.pending = []) :
    ws.flatMap outcomes = parts.flatten.map answer := by
  have hpromised : ws.map (promised answer) = ws.map outcomes := by
    refine List.map_congr_left fun w hw => ?_
    rw [promised, hdone w hw, List.map_nil, List.append_nil]
  rw [List.map_flatten, ← promised_of_steps h, hpromised, List.flatMap]

/-- **The order in which the workers work does not matter**: once they are done, their outcomes are
those of a single worker. -/
theorem outcomes_eq {options : RunOptions} {s : Snapshot Id} {size : Nat} {cs : List TestCase}
    (h : Relation.ReflTransGen (Step fun c => (evaluate options s c).run)
      (start (chunks size cs)) ws)
    (hdone : ∀ w ∈ ws, w.pending = []) :
    ws.flatMap outcomes = (evaluateAll options s cs).run := by
  rw [outcomes_of_steps h hdone, flatten_chunks, evaluateAll_run]
  rfl

/-- **As long as a case is left some worker can go on.** -/
theorem exists_step (answer : TestCase → TestOutcome) (h : ∃ w ∈ ws, w.pending ≠ []) :
    ∃ vs, Step answer ws vs := by
  obtain ⟨⟨pending, outcomes⟩, hw, hne⟩ := h
  obtain ⟨front, behind, rfl⟩ := List.append_of_mem hw
  obtain ⟨c, pending, rfl⟩ := List.exists_cons_of_ne_nil hne
  exact ⟨_, .next front behind c pending outcomes⟩

/-- **The work comes to an end**, whatever the order. -/
theorem wellFounded_step (answer : TestCase → TestOutcome) :
    WellFounded fun vs ws => Step answer ws vs := by
  -- Every step leaves one case less.
  refine Subrelation.wf ?_ (measure fun ws : List Worker => (ws.flatMap pending).length).wf
  rintro vs ws ⟨front, behind, c, pending, outcomes⟩
  simp only [WellFoundedRelation.rel, InvImage, List.flatMap_append, List.flatMap_cons,
    List.length_append, List.length_cons]
  omega

end Worker

end DocumentRules
