/-
What a run leaves alone.

The check of a turn is about leaves; these theorems say what it means for whole documents
and whole runs:

* **`no_stale_reads`** — a rule that runs later does not change what an earlier one has read;
* **`single_authority`** — what a rule may write is not written by any other rule;
* **`undeclared_unchanged`** — a run changes nothing outside the declared writes.

A turn keeps what its rule does not declare (`Turn.Authorised.agreeAt`, and `keepsScalar` for
scalars above a declared write), and a row of turns keeps what each of them keeps
(`TakeTurns.relates`).  What remains is which rules can come in front of or behind a turn,
and that is what the order of the graph and the checks of the registry say.
-/
import DocumentRules.Proofs.Change.Agreement
import DocumentRules.Proofs.Dependency.Schedule
import DocumentRules.Proofs.Run.Turns

namespace DocumentRules

variable {m : Type → Type}

theorem Path.overlaps_of_covers {a b p q : Path} (hap : a <+: p) (hbq : b <+: q)
    (h : overlaps p q = true) : overlaps a b = true := by
  rw [overlaps_iff] at h ⊢
  rcases h with hpq | hqp
  · exact List.prefix_or_prefix_of_prefix (hap.trans hpq) hbq
  · exact List.prefix_or_prefix_of_prefix hap (hbq.trans hqp)

/-! ### One turn -/

namespace Turn.Authorised

variable {t : Turn m} {p : Path}

/-- A turn changes nothing at paths that do not overlap the writes of its rule. -/
theorem agreeAt (h : t.Authorised) (hb : t.before.NanFree)
    (hp : ∀ w ∈ t.rule.writes, ¬ Path.overlaps w p = true) : t.before.AgreeAt t.after p := by
  refine Document.agreeAt_of_changedLeaf ?_
  intro q hpq hq
  obtain ⟨w, hw, hwq⟩ := Rule.declaresWrite_iff.mp (h.leaves hb q hq)
  exact hp w hw (Path.overlaps_iff.mpr (List.prefix_or_prefix_of_prefix hwq hpq))

/-- A turn keeps the scalars that its rule does not declare, and makes none of them. -/
theorem keepsScalar (h : t.Authorised) (hb : t.before.NanFree)
    (hp : ¬ t.rule.declaresWrite p = true) :
    t.before.KeepsScalar t.after p ∧ t.after.KeepsScalar t.before p := by
  have hunchanged : ¬ Value.ChangedLeaf t.before.value t.after.value p :=
    fun hc => hp (h.leaves hb p hc)
  have hunchanged' : ¬ Value.ChangedLeaf t.after.value t.before.value p :=
    fun hc => hunchanged (Document.changedLeaf_symm hc)
  exact ⟨Document.keepsScalar_of_changedLeaf hunchanged,
    Document.keepsScalar_of_changedLeaf hunchanged'⟩

end Turn.Authorised

/-! ### A row of turns -/

/-- No document of the row holds a `nan`. -/
structure NanFreeTurns (d : Document) (ts : List (Turn m)) : Prop where
  first : d.NanFree
  after : ∀ t ∈ ts, t.after.NanFree

open RunResult (lastOf lastOf_cons lastOf_append)

namespace NanFreeTurns

variable {d : Document} {t : Turn m} {ts us : List (Turn m)}

theorem tail (h : NanFreeTurns d (t :: ts)) : NanFreeTurns t.after ts :=
  ⟨h.after t (List.mem_cons_self ..), fun u hu => h.after u (List.mem_cons_of_mem _ hu)⟩

theorem left (h : NanFreeTurns d (ts ++ us)) : NanFreeTurns d ts :=
  ⟨h.first, fun t ht => h.after t (List.mem_append_left _ ht)⟩

theorem right (h : NanFreeTurns d (ts ++ us)) : NanFreeTurns (lastOf d ts) us := by
  induction ts generalizing d with
  | nil => exact h
  | cons t ts ih =>
    rw [lastOf_cons]
    exact ih h.tail

theorem last (h : NanFreeTurns d ts) : (lastOf d ts).NanFree := by
  have hnil : NanFreeTurns d (ts ++ []) := by rwa [List.append_nil]
  exact hnil.right.first

end NanFreeTurns

namespace TakeTurns

variable {rs : List (Rule m)} {d : Document} {ts : List (Turn m)}

/-- **A row of turns keeps what each of its turns keeps.** -/
theorem relates {R : Document → Document → Prop} (refl : ∀ e : Document, e.NanFree → R e e)
    (trans : ∀ a b c : Document, R a b → R b c → R a c) (h : TakeTurns rs d ts)
    (hnan : NanFreeTurns d ts)
    (step : ∀ t ∈ ts, t.rule ∈ rs → t.Authorised → t.before.NanFree → R t.before t.after) :
    R d (lastOf d ts) := by
  induction h with
  | nil d => exact refl d hnan.first
  | failed r failure rest ih =>
    -- The document is left, so the rest starts where this turn did.
    rw [lastOf_cons]
    refine ih hnan.tail ?_
    intro t ht hr
    exact step t (List.mem_cons_of_mem _ ht) (List.mem_cons_of_mem _ hr)
  | @completed rs d e ts r declared rest ih =>
    rw [lastOf_cons]
    have hfirst : R d e := step _ (List.mem_cons_self ..) (List.mem_cons_self ..)
      (Turn.authorised_completed declared) hnan.first
    refine trans _ _ _ hfirst (ih hnan.tail ?_)
    intro t ht hr
    exact step t (List.mem_cons_of_mem _ ht) (List.mem_cons_of_mem _ hr)

/-- A row of turns changes nothing at paths that do not overlap the writes of its rules. -/
theorem agreeAt (h : TakeTurns rs d ts) (hnan : NanFreeTurns d ts) {p : Path}
    (hp : ∀ r ∈ rs, ∀ w ∈ r.writes, ¬ Path.overlaps w p = true) : d.AgreeAt (lastOf d ts) p :=
  h.relates (R := fun a b => a.AgreeAt b p) (fun _ he => .refl he p)
    (fun _ _ _ hab hbc => hab.trans hbc) hnan fun t _ hr hauth hb => hauth.agreeAt hb (hp t.rule hr)

/-- A row of turns keeps the scalars that its rules do not declare, and makes none of them. -/
theorem keepsScalar (h : TakeTurns rs d ts) (hnan : NanFreeTurns d ts) {p : Path}
    (hp : ∀ r ∈ rs, ¬ r.declaresWrite p = true) :
    d.KeepsScalar (lastOf d ts) p ∧ (lastOf d ts).KeepsScalar d p :=
  h.relates (R := fun a b => a.KeepsScalar b p ∧ b.KeepsScalar a p)
    (fun _ he => ⟨.refl he p, .refl he p⟩)
    (fun _ _ _ hab hbc => ⟨hab.1.trans hbc.1, hbc.2.trans hab.2⟩) hnan
    fun t _ hr hauth hb => hauth.keepsScalar hb (hp t.rule hr)

end TakeTurns

/-! ### Every run of a snapshot -/

/-- Every run of the snapshot over the document that gives a result has turns and a result of
this kind, whatever its rule bodies do. -/
def Snapshot.EveryRun [Monad m] (s : Snapshot m) (options : RunOptions) (d : Document)
    (kind : List (Turn m) → RunResult → Prop) : Prop :=
  Always (fun outcome => ∀ turns, outcome = .ok turns →
    kind turns (RunResult.ofTurns options d turns)) (trace s.orderedRules d)

namespace Snapshot

variable {options : RunOptions} {d : Document}

/-- If every run is of the kind, every result is that of a run of the kind. -/
theorem EveryRun.run [Monad m] [LawfulMonad m] {s : Snapshot m}
    {kind : List (Turn m) → RunResult → Prop} (h : s.EveryRun options d kind) :
    Always (fun outcome => ∀ result, outcome = .ok result → ∃ turns, kind turns result)
      (run options s d) := by
  rw [run_eq_trace, map_eq_pure_bind]
  refine Always.bind h fun outcome houtcome => always_pure ?_
  intro result hresult
  obtain ⟨turns, hturns, rfl⟩ := map_eq_ok hresult
  exact ⟨turns, houtcome turns hturns⟩

theorem everyRun_of_takeTurns [Monad m] [LawfulMonad m] {s : Snapshot m}
    {kind : List (Turn m) → RunResult → Prop}
    (h : ∀ turns, TakeTurns s.orderedRules d turns →
      kind turns (RunResult.ofTurns options d turns)) : s.EveryRun options d kind :=
  (trace_takeTurns s.orderedRules d).imp fun _ hout turns hturns => h turns (hout turns hturns)

/-- A run whose bodies are functions of the document has one outcome. -/
theorem everyRun_id {s : Snapshot Id} {kind : List (Turn Id) → RunResult → Prop} :
    s.EveryRun options d kind ↔ ∀ turns, (trace s.orderedRules d).run = .ok turns →
      kind turns (RunResult.ofTurns options d turns) :=
  always_id

end Snapshot

/-- The options decide what a run logs, and nothing else. -/
theorem run_with_options {s : Snapshot Id} {options : RunOptions} {d : Document} {r : RunResult}
    (h : (run options s d).run = .ok r) (others : RunOptions) :
    ∃ logs, (run others s d).run = .ok { r with logs := logs } := by
  obtain ⟨turns, hturns, rfl⟩ := run_eq_ok_iff_trace.mp h
  exact ⟨turns.flatMap (Turn.logs others), run_eq_ok_iff_trace.mpr ⟨turns, hturns, rfl⟩⟩

/-! ### A registry in which one rule reads what another one writes -/

namespace Chained

/-- A rule that copies what stands at one key to another. -/
def copying (name source target : String) : Rule Id where
  id := name
  name := name
  version := defaultVersion
  builtIn := false
  enabled := true
  body := .native name fun d => .ok (d.set [.key target] ((d.get? [.key source]).getD .null))
  reads := .ofList [[.key source]]
  writes := .ofList [[.key target]]
  description := none
  updatedAt := none
  codeHash := ""

def registry : Registry Id :=
  (Registry.empty.edit.performAll
    [.add (copying "second" "b" "c"), .add (copying "first" "a" "b")]).build

def snapshot : Snapshot Id := ⟨registry, ⟨["first", "second"], ⟨[[1], []]⟩, [0, 1]⟩⟩

def document : Document := Document.emptyMap.setScalar [.key "a"] (.int 1)

theorem reachable : registry.Reachable := .revise .empty _

/-- In the registry the rules stand in the order of their names. -/
theorem registry_eq : registry = ⟨[copying "first" "a" "b", copying "second" "b" "c"]⟩ := rfl

theorem ofRegistry_eq : Snapshot.ofRegistry registry = .ok snapshot :=
  Snapshot.ofRegistry_of_findCycle ⟨[[1], []]⟩ rfl (by cbv) (by decide +kernel)

end Chained

/-! ### The three frame properties -/

variable {g : Registry m} {s : Snapshot m}

/-- What comes in front of a turn and behind it, in a run of all enabled rules: rules that
write elsewhere, and behind it none that feeds its rule. -/
theorem TakeTurns.around (hg : g.Reachable) (hs : Snapshot.ofRegistry g = .ok s) {d : Document}
    {ts : List (Turn m)} {t : Turn m} (h : TakeTurns s.orderedRules d ts) (ht : t ∈ ts) :
    ∃ rs₁ rs₂ ts₁ ts₂, ts = ts₁ ++ t :: ts₂ ∧
      TakeTurns rs₁ d ts₁ ∧ t.before = lastOf d ts₁ ∧
      TakeTurns rs₂ t.after ts₂ ∧ lastOf d ts = lastOf t.after ts₂ ∧
      (∀ r ∈ rs₁, r.WritesApart t.rule) ∧
      ∀ r ∈ rs₂, r.WritesApart t.rule ∧ ¬ r.feeds t.rule = true := by
  obtain ⟨rs₁, rs₂, ts₁, ts₂, hrs, hts, hfront, hbefore, hbehind⟩ := h.split ht
  have henabled (r : Rule m) (hr : r ∈ rs₁ ++ t.rule :: rs₂) : r.enabled = true := by
    rw [← hrs, Registry.mem_orderedRules_iff hg.compatible hs] at hr
    exact (Registry.mem_enabledRules.mp hr).2
  have hpair := Registry.orderedRules_pairwise hg.compatible hs
  rw [hrs, List.pairwise_append, List.pairwise_cons] at hpair
  obtain ⟨-, ⟨hlater, -⟩, hearlier⟩ := hpair
  have ht' : t.rule.enabled = true := henabled _ (by simp)
  refine ⟨rs₁, rs₂, ts₁, ts₂, hts, hfront, hbefore, hbehind, ?_, ?_, ?_⟩
  · rw [hts, lastOf_append, lastOf_cons]
  · intro r hr
    have hcompatible := (hearlier r hr _ (List.mem_cons_self ..)).2
    exact hcompatible.writes (henabled r (by simp [hr])) ht'
  · intro r hr
    obtain ⟨hfeeds, hcompatible⟩ := hlater r hr
    exact ⟨hcompatible.symm.writes (henabled r (by simp [hr])) ht', hfeeds⟩

/-- **No rule changes what an earlier one has read**: what a rule declares to read stands in
the final document as it stood right after the rule. -/
theorem no_stale_reads [Monad m] [LawfulMonad m] (hg : g.Reachable)
    (hs : Snapshot.ofRegistry g = .ok s) (options : RunOptions) (d : Document) :
    s.EveryRun options d fun turns result => NanFreeTurns d turns →
      ∀ t ∈ turns, ∀ p ∈ t.rule.reads, t.after.AgreeAt result.after p := by
  refine Snapshot.everyRun_of_takeTurns ?_
  intro turns hturns hnan t ht p hp
  obtain ⟨_, _, ts₁, ts₂, rfl, -, -, hbehind, hlast, -, hrules⟩ := TakeTurns.around hg hs hturns ht
  -- No write of a rule behind the turn overlaps a read of its rule: it would feed it.
  rw [RunResult.ofTurns, hlast]
  refine hbehind.agreeAt hnan.right.tail ?_
  intro r hr w hw
  exact Rule.not_feeds_iff.mp (hrules r hr).2 w hw p hp

open Chained in
/-- The second rule reads what the first one has written, and what it reads stays. -/
theorem no_stale_reads_chained :
    ∃ turns, (trace snapshot.orderedRules document).run = .ok turns ∧
      (∃ t ∈ turns, [.key "b"] ∈ t.rule.reads) ∧
      ∀ t ∈ turns, ∀ p ∈ t.rule.reads, t.after.AgreeAt (lastOf document turns) p := by
  refine ⟨_, rfl, by decide, ?_⟩
  exact Snapshot.everyRun_id.mp (no_stale_reads reachable ofRegistry_eq {} document) _ rfl
    ⟨by decide, by decide⟩

/-- **Every write has a single authority.** Every enabled rule takes a turn.  At the paths
that it declares to write, the document it is invoked on is as it was at the start, and the
final document is as the rule left it.  Changes of different rules touch leaves that do not
overlap. -/
theorem single_authority [Monad m] [LawfulMonad m] (hg : g.Reachable)
    (hs : Snapshot.ofRegistry g = .ok s) (options : RunOptions) (d : Document) :
    s.EveryRun options d fun turns result => NanFreeTurns d turns →
      (∀ r ∈ g.enabledRules, ∃ t ∈ turns, t.rule = r) ∧
      (∀ t ∈ turns, ∀ w ∈ t.rule.writes,
        result.before.AgreeAt t.before w ∧ t.after.AgreeAt result.after w) ∧
      ∀ b ∈ result.mutations, ∀ c ∈ result.mutations, b.rule ≠ c.rule →
        ∀ p ∈ b.touchedLeaves, ∀ q ∈ c.touchedLeaves, ¬ Path.overlaps p q = true := by
  refine Snapshot.everyRun_of_takeTurns fun turns hturns hnan => ⟨?_, ?_, ?_⟩
  · intro r hr
    rw [← Registry.mem_orderedRules_iff hg.compatible hs, ← hturns.map_rule] at hr
    exact List.mem_map.mp hr
  · intro t ht w hw
    obtain ⟨_, _, ts₁, ts₂, rfl, hfront, hbefore, hbehind, hlast, hearlier, hlater⟩ :=
      TakeTurns.around hg hs hturns ht
    rw [RunResult.ofTurns, hlast, hbefore]
    constructor
    · refine hfront.agreeAt hnan.left ?_
      intro r hr w' hw'
      exact hearlier r hr w' hw' w hw
    · refine hbehind.agreeAt hnan.right.tail ?_
      intro r hr w' hw'
      exact (hlater r hr).1 w' hw' w hw
  · -- Each leaf lies below a declared write of its rule, and these do not overlap.
    intro b hb c hc hne p hp q hq hover
    obtain ⟨t, ht, hbt⟩ := List.mem_flatMap.mp hb
    obtain ⟨u, hu, hcu⟩ := List.mem_flatMap.mp hc
    obtain ⟨hbrule, hbleaves⟩ := (hturns.authorised ht).changes b hbt
    obtain ⟨hcrule, hcleaves⟩ := (hturns.authorised hu).changes c hcu
    have henabled (v : Turn m) (hv : v ∈ turns) : v.rule ∈ g.rules ∧ v.rule.enabled = true := by
      have hmem : v.rule ∈ s.orderedRules := hturns.map_rule ▸ List.mem_map_of_mem hv
      exact Registry.mem_enabledRules.mp ((Registry.mem_orderedRules_iff hg.compatible hs).mp hmem)
    have hrules : t.rule ≠ u.rule := fun e => hne (by rw [hbrule, hcrule, e])
    have hcompatible : t.rule.Compatible u.rule :=
      List.Pairwise.forall hg.compatible (henabled t ht).1 (henabled u hu).1 hrules
    have hapart := hcompatible.writes (henabled t ht).2 (henabled u hu).2
    obtain ⟨w, hw, hwp⟩ := Rule.declaresWrite_iff.mp (hbleaves p hp)
    obtain ⟨w', hw', hwq⟩ := Rule.declaresWrite_iff.mp (hcleaves q hq)
    exact hapart w hw w' hw' (Path.overlaps_of_covers hwp hwq hover)

open Chained in
theorem single_authority_chained :
    ∃ turns, (trace snapshot.orderedRules document).run = .ok turns ∧
      (∃ t ∈ turns, [.key "b"] ∈ t.rule.writes) ∧
      ∀ t ∈ turns, ∀ w ∈ t.rule.writes,
        document.AgreeAt t.before w ∧ t.after.AgreeAt (lastOf document turns) w := by
  refine ⟨_, rfl, by decide, ?_⟩
  exact (Snapshot.everyRun_id.mp (single_authority reachable ofRegistry_eq {} document) _ rfl
    ⟨by decide, by decide⟩).2.1

/-- **A run changes nothing outside the declared writes.**  At a path that overlaps none of
them the document is as before; at a path that none of them covers, a scalar is kept and none
is made. -/
theorem undeclared_unchanged [Monad m] [LawfulMonad m] (hg : g.Reachable)
    (hs : Snapshot.ofRegistry g = .ok s) (options : RunOptions) (d : Document) :
    s.EveryRun options d fun turns result => NanFreeTurns d turns →
      ∀ q, (∀ r ∈ g.enabledRules, ¬ r.declaresWrite q = true) →
        ((∀ r ∈ g.enabledRules, ∀ w ∈ r.writes, ¬ Path.overlaps w q = true) →
          result.before.AgreeAt result.after q) ∧
        result.before.KeepsScalar result.after q ∧
        result.after.KeepsScalar result.before q := by
  refine Snapshot.everyRun_of_takeTurns ?_
  intro turns hturns hnan q hq
  have henabled (r : Rule m) (hr : r ∈ s.orderedRules) : r ∈ g.enabledRules :=
    (Registry.mem_orderedRules_iff hg.compatible hs).mp hr
  constructor
  · intro hapart
    exact hturns.agreeAt hnan fun r hr => hapart r (henabled r hr)
  · exact hturns.keepsScalar hnan fun r hr => hq r (henabled r hr)

open Chained in
/-- The key `a`, which is only read, is left as it is. -/
theorem undeclared_unchanged_chained :
    ∃ turns, (trace snapshot.orderedRules document).run = .ok turns ∧
      document.AgreeAt (lastOf document turns) [.key "a"] := by
  refine ⟨_, rfl, ?_⟩
  exact (Snapshot.everyRun_id.mp (undeclared_unchanged reachable ofRegistry_eq {} document) _ rfl
    ⟨by decide, by decide⟩ [.key "a"] (by decide)).1 (by decide)

end DocumentRules
