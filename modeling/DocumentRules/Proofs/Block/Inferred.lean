/-
When rules with inferred writes cut a run short.

A block rule that declares nothing takes its writes from its blocks.  They name the paths that
the blocks assign and not what the assignments do on the way to them, so a run can still end
at such a rule:

* **`aborts_iff_breach`** — it ends without a result exactly if some rule is invoked on a
  document and makes a breach: a leaf gives way to a container, or a list is padded, outside
  of the inferred writes;
* **`aborts_at_null`** — a null in the place of a missing container is enough.
-/
import DocumentRules.Proofs.Block.Footprint
import DocumentRules.Proofs.Dependency.Schedule
import DocumentRules.Proofs.Run.Abort

namespace DocumentRules

namespace Rule

/-- The rule is made of blocks, and its declarations are taken from them. -/
def Inferred (r : Rule Id) : Prop :=
  ∃ b : BlockRule, r.body = .ofBlocks b ∧ r.reads = b.reads ∧ r.writes = b.writes

/-- A block rule for which its author declares nothing has inferred declarations. -/
theorem inferred_of_ofSpec {s : Spec Id} {b : BlockRule} {r : Rule Id}
    (hbody : s.body = .ofBlocks b) (hreads : s.reads = []) (hwrites : s.writes = [])
    (h : ofSpec s = .ok r) : r.Inferred := by
  simp only [ofSpec, declared, hreads, hwrites, List.isEmpty_nil, if_true, Except.ok.injEq] at h
  refine ⟨b, ?_, ?_, ?_⟩
  · rw [← h, hbody]
  · rw [← h, hbody]
    rfl
  · rw [← h, hbody]
    rfl

/-- What the body of such a rule changes outside of the writes are breaches. -/
theorem Inferred.changedLeaf_iff {r : Rule Id} (hr : r.Inferred) {d e : Document}
    (h : (r.body.invoke d).run = .ok e) {q : Path} (hq : ¬ r.declaresWrite q = true) :
    Value.ChangedLeaf d.value e.value q ↔ Breach r.writes d.value e.value q := by
  obtain ⟨b, hbody, -, hwrites⟩ := hr
  rw [hbody] at h
  obtain ⟨as, has, rfl⟩ := BlockRule.run_assigns h
  refine changedLeaf_iff_breach (hwrites ▸ has) fun w hw hwq => hq ?_
  exact declaresWrite_iff.mpr ⟨w, hw, hwq⟩

end Rule

/-- **A run of rules with inferred declarations ends without a result exactly if one of them
makes a breach.** -/
theorem aborts_iff_breach {g : Registry Id} {s : Snapshot Id} (hg : g.Reachable)
    (hs : Snapshot.ofRegistry g = .ok s) (hinferred : ∀ r ∈ g.enabledRules, r.Inferred)
    (options : RunOptions) (d : Document) :
    (∃ id p, (run options s d).run = .error (.undeclaredWrite id p)) ↔
      ∃ r before after q, Invoked s.orderedRules d r before after ∧
        ¬ r.declaresWrite q = true ∧ Breach r.writes before.value after.value q := by
  have hbreach {r : Rule Id} {before after : Document}
      (h : Invoked s.orderedRules d r before after) {q : Path}
      (hq : ¬ r.declaresWrite q = true) :
      Value.ChangedLeaf before.value after.value q ↔
        Breach r.writes before.value after.value q := by
    obtain ⟨hr, hanswer⟩ := h.mem
    rw [Registry.mem_orderedRules_iff hg.compatible hs] at hr
    exact (hinferred r hr).changedLeaf_iff hanswer hq
  constructor
  · rintro ⟨id, p, hrun⟩
    obtain ⟨r, before, after, p', hinvoked, hp', -⟩ :=
      trace_eq_error_iff.mp (run_eq_error_iff_trace.mp hrun)
    -- The check has found some leaf, so not all changed leaves are declared.
    have hsome : ¬ r.undeclared? (diffBy r.id before.value after.value) = none := by
      rw [hp']
      exact Option.some_ne_none p'
    rw [Rule.undeclared?_eq_none] at hsome
    push Not at hsome
    obtain ⟨q, hchanged, hq⟩ := hsome
    exact ⟨r, before, after, q, hinvoked, hq, (hbreach hinvoked hq).mp hchanged⟩
  · rintro ⟨r, before, after, q, hinvoked, hq, hb⟩
    cases hfound : r.undeclared? (diffBy r.id before.value after.value) with
    | none =>
      rw [Rule.undeclared?_eq_none] at hfound
      exact absurd (hfound q ((hbreach hinvoked hq).mpr hb)) hq
    | some p =>
      exact ⟨r.id, p, run_eq_error_iff_trace.mpr
        (trace_eq_error_iff.mpr ⟨r, before, after, p, hinvoked, hfound, rfl⟩)⟩

/-! ### A null in the place of a missing container -/

namespace NullInTheWay

/-- Sets one field below another one. -/
def blocks : BlockRule := ⟨[(.set [.key "a", .key "b"] (.int 1), none)]⟩

def spec : Rule.Spec Id := { id := "r", name := "r", body := .ofBlocks blocks }

def registry : Registry Id := (Registry.empty.edit.performAll [.addSpec spec]).build

def graph : DependencyGraph := ⟨["r"], ⟨[[]]⟩, [0]⟩

def document : Document := Document.emptyMap.setScalar [.key "a"] .null

theorem reachable : registry.Reachable := .revise .empty _

/-- The rule, whatever the digest of its source is. -/
def rule (hash : String) : Rule Id where
  id := "r"
  name := "r"
  version := defaultVersion
  builtIn := false
  enabled := true
  body := .ofBlocks blocks
  reads := blocks.reads
  writes := blocks.writes
  description := none
  updatedAt := none
  codeHash := hash

theorem registry_eq : registry = ⟨[rule (codeHash blocks.source)]⟩ := rfl

theorem ofRegistry_eq : Snapshot.ofRegistry registry = .ok ⟨registry, graph⟩ := by
  have hedges (hash : String) :
      Digraph.ofRelation Rule.feeds (⟨[rule hash]⟩ : Registry Id).enabledRules = ⟨[[]]⟩ := rfl
  exact Snapshot.ofRegistry_of_findCycle _ (hedges _) (by cbv) (by decide +kernel)

theorem inferred : ∀ r ∈ registry.enabledRules, r.Inferred := by
  intro r hr
  rw [Registry.mem_enabledRules, registry_eq, List.mem_singleton] at hr
  rw [hr.1]
  exact ⟨blocks, rfl, rfl, rfl⟩

end NullInTheWay

open NullInTheWay in
/-- The null is a leaf that gives way to a map, and it is not among the inferred writes. -/
theorem aborts_at_null :
    BlockRule.compile [.set [.key "a", .key "b"] (.int 1)] = .ok blocks ∧
      registry.Reachable ∧ (∀ r ∈ registry.enabledRules, r.Inferred) ∧
      Snapshot.ofRegistry registry = .ok ⟨registry, graph⟩ ∧
      (run {} ⟨registry, graph⟩ document).run = .error (.undeclaredWrite "r" [.key "a"]) :=
  ⟨rfl, reachable, inferred, ofRegistry_eq, rfl⟩

open NullInTheWay in
theorem breach_at_null :
    ∃ r before after q,
      Invoked (⟨registry, graph⟩ : Snapshot Id).orderedRules document r before after ∧
        ¬ r.declaresWrite q = true ∧ Breach r.writes before.value after.value q :=
  (aborts_iff_breach reachable ofRegistry_eq inferred {} document).mp ⟨"r", [.key "a"], rfl⟩

end DocumentRules
