/-
Independent block rules may run in either order.

Where no dependency decides, rules run in the order of their names.  For block rules with
inferred declarations nothing hangs on that: if neither of two rules feeds the other and their
writes do not overlap, exchanging them anywhere in a run changes neither the final document nor
the failures nor the coverage.

* **`trace_cons_eq_ok`**, **`trace_append_eq_ok`** — the turns of a run one by one, and in two
  parts;
* **`BlockTurn`** — what a rule made of blocks does in its turn;
* **`BlockTurn.twins`**, **`TwinTurns.sameEffect`** — on two documents that hold the same in
  its reads and its writes, its turns have the same effect;
* **`BlockTurn.exchange`** — the turns of two rules in either order;
* **`independent_rules_commute`** — the same for whole runs.
-/
import DocumentRules.Proofs.Block.Exchange
import DocumentRules.Proofs.Block.Inferred
import DocumentRules.Proofs.Run.Frame

namespace DocumentRules

open Block (Assignment)
open RunResult (lastOf lastOf_cons lastOf_append)
open Value (ChangedLeaf)

/-! ### The turns of a run that gives a result -/

/-- The turn that a rule takes on a document. -/
inductive Rule.Takes (r : Rule Id) (d : Document) : Turn Id → Prop where
  | failed {failure : Failure} (answer : (r.body.invoke d).run = .error failure) :
      r.Takes d ⟨r, d, .failed failure⟩
  /-- The body changes only what the rule declares. -/
  | completed {e : Document} (answer : (r.body.invoke d).run = .ok e)
      (declared : ∀ q, ChangedLeaf d.value e.value q → r.declaresWrite q = true) :
      r.Takes d ⟨r, d, .completed e (diffBy r.id d.value e.value)⟩

/-- A run that gives a result is the turn of the first rule and a run of the others. -/
theorem trace_cons_eq_ok {r : Rule Id} {rs : List (Rule Id)} {d : Document}
    {ts : List (Turn Id)} :
    (trace (r :: rs) d).run = .ok ts ↔
      ∃ t us, ts = t :: us ∧ r.Takes d t ∧ (trace rs t.after).run = .ok us := by
  rw [trace_cons]
  constructor
  · intro h
    cases hanswer : (r.body.invoke d).run with
    | error failure =>
      rw [hanswer] at h
      obtain ⟨us, hus, rfl⟩ := map_eq_ok h
      exact ⟨_, us, rfl, .failed hanswer, hus⟩
    | ok e =>
      rw [hanswer] at h
      simp only at h
      split at h
      · cases h
      · rename_i hnone
        obtain ⟨us, hus, rfl⟩ := map_eq_ok h
        exact ⟨_, us, rfl, .completed hanswer (Rule.undeclared?_eq_none.mp hnone), hus⟩
  · rintro ⟨t, us, rfl, ht, hus⟩
    cases ht with
    | failed answer =>
      rw [answer]
      show (trace rs d).run.map _ = _
      rw [show (trace rs d).run = .ok us from hus]
      rfl
    | @completed e answer declared =>
      have hnone : r.undeclared? (diffBy r.id d.value e.value) = none :=
        Rule.undeclared?_eq_none.mpr declared
      rw [answer]
      simp only [hnone]
      rw [show (trace rs e).run = .ok us from hus]
      rfl

theorem trace_append_eq_ok {rs rs' : List (Rule Id)} {d : Document} {ts : List (Turn Id)}
    (h : (trace (rs ++ rs') d).run = .ok ts) :
    ∃ us vs, ts = us ++ vs ∧ (trace rs d).run = .ok us ∧
      (trace rs' (lastOf d us)).run = .ok vs := by
  induction rs generalizing d ts with
  | nil => exact ⟨[], ts, rfl, rfl, h⟩
  | cons r rs ih =>
    obtain ⟨t, us, rfl, ht, hus⟩ := trace_cons_eq_ok.mp h
    obtain ⟨vs, ws, rfl, hvs, hws⟩ := ih hus
    refine ⟨t :: vs, ws, rfl, trace_cons_eq_ok.mpr ⟨t, vs, rfl, ht, hvs⟩, ?_⟩
    rwa [lastOf_cons]

/-! ### The turn of a block rule -/

/-- What a rule made of these blocks does in its turn on a document. -/
inductive BlockTurn (b : BlockRule) (d : Document) : Turn Id → Prop where
  | failed {r : Rule Id} {failure : Failure} (answer : b.assignments d = .error failure) :
      BlockTurn b d ⟨r, d, .failed failure⟩
  /-- The assignments change leaves only below the inferred writes. -/
  | completed {r : Rule Id} {as : List Assignment} (answer : b.assignments d = .ok as)
      (confined : d.Confined b.writes as) :
      BlockTurn b d
        ⟨r, d, .completed (d.assignAll as) (diffBy r.id d.value (d.assignAll as).value)⟩

/-- **The turn of a rule with inferred writes is a turn of its blocks.** -/
theorem Rule.Takes.blockTurn {r : Rule Id} {b : BlockRule} {d : Document} {t : Turn Id}
    (h : r.Takes d t) (hbody : r.body = .ofBlocks b) (hwrites : r.writes = b.writes) :
    t.rule = r ∧ BlockTurn b d t := by
  have hinvoke : (r.body.invoke d).run = (b.assignments d).map d.assignAll := by
    rw [hbody, ← BlockRule.run_eq]
    rfl
  cases h with
  | failed answer =>
    rw [hinvoke, map_eq_error] at answer
    exact ⟨rfl, .failed answer⟩
  | completed answer declared =>
    rw [hinvoke] at answer
    obtain ⟨as, has, rfl⟩ := map_eq_ok answer
    refine ⟨rfl, .completed has ⟨BlockRule.field_mem_writes has, ?_⟩⟩
    intro q hq
    obtain ⟨w, hw, hwq⟩ := Rule.declaresWrite_iff.mp (declared q hq)
    exact ⟨w, hwrites ▸ hw, hwq⟩

/-- The facts of a turn: its rule touched the leaf. -/
def Turn.Records (t : Turn Id) (f : Coverage.Fact) : Prop :=
  f ∈ t.changes.flatMap Mutation.facts

/-- The two turns, of rules with one id, fail alike and give rise to the same facts. -/
structure Turn.SameEffect (t u : Turn Id) : Prop where
  id : t.rule.id = u.rule.id
  failure : ∀ failure, t.result = .failed failure ↔ u.result = .failed failure
  facts : ∀ f, t.Records f ↔ u.Records f

/-- Two turns of the same blocks, on two documents, that fail alike or make the same
assignments. -/
inductive TwinTurns (b : BlockRule) (d e : Document) : Turn Id → Turn Id → Prop where
  | failed {r s : Rule Id} {failure : Failure} :
      TwinTurns b d e ⟨r, d, .failed failure⟩ ⟨s, e, .failed failure⟩
  | completed {r s : Rule Id} {as : List Assignment} (left : d.Confined b.writes as)
      (right : e.Confined b.writes as) :
      TwinTurns b d e
        ⟨r, d, .completed (d.assignAll as) (diffBy r.id d.value (d.assignAll as).value)⟩
        ⟨s, e, .completed (e.assignAll as) (diffBy s.id e.value (e.assignAll as).value)⟩

namespace BlockTurn

variable {a b : BlockRule} {d e : Document} {t u : Turn Id}

/-- Where the writes do not reach, the turn leaves the same value. -/
theorem get?_after (h : BlockTurn b d t) {p : Path}
    (hp : ∀ w ∈ b.writes, ¬ Path.overlaps w p = true) :
    t.after.value.get? p = d.value.get? p := by
  cases h with
  | failed _ => rfl
  | completed _ confined => exact confined.get?_eq hp

/-- **Turns on documents that hold the same in the inferred reads are twins.** -/
theorem twins (ht : BlockTurn b d t) (hu : BlockTurn b e u)
    (hreads : ∀ p ∈ b.reads, d.value.get? p = e.value.get? p) : TwinTurns b d e t u := by
  have hsame : b.assignments d = b.assignments e := BlockRule.assignments_congr hreads
  cases ht with
  | failed ht =>
    cases hu with
    | failed hu =>
      cases ht.symm.trans (hsame.trans hu)
      exact .failed
    | completed hu _ => cases ht.symm.trans (hsame.trans hu)
  | completed ht left =>
    cases hu with
    | failed hu => cases ht.symm.trans (hsame.trans hu)
    | completed hu right =>
      cases ht.symm.trans (hsame.trans hu)
      exact .completed left right

end BlockTurn

/-- **Twins on documents that hold the same in the writes have the same effect.** -/
theorem TwinTurns.sameEffect {b : BlockRule} {d e : Document} {t u : Turn Id}
    (h : TwinTurns b d e t u) (hid : t.rule.id = u.rule.id)
    (hwrites : ∀ w ∈ b.writes, d.value.get? w = e.value.get? w) : t.SameEffect u := by
  refine ⟨hid, ?_, ?_⟩
  · intro failure
    cases h with
    | failed => exact Iff.rfl
    | completed _ _ => simp
  · intro f
    cases h with
    | failed => exact Iff.rfl
    | @completed r s as left right =>
      have hid' : r.id = s.id := hid
      show f ∈ (diffBy _ _ _).flatMap _ ↔ f ∈ (diffBy _ _ _).flatMap _
      rw [mem_facts_diffBy, mem_facts_diffBy, hid', left.changedLeaf_congr right hwrites]

/-- **The turns of two block rules in either order**: if neither reads or writes where the other
one writes, they leave one document, and each has the same effect in both orders. -/
theorem BlockTurn.exchange {a b : BlockRule} {d : Document} {t₁ t₂ u₁ u₂ : Turn Id}
    (ht₁ : BlockTurn a d t₁) (ht₂ : BlockTurn b t₁.after t₂) (hu₂ : BlockTurn b d u₂)
    (hu₁ : BlockTurn a u₂.after u₁) (hid₁ : t₁.rule.id = u₁.rule.id)
    (hid₂ : t₂.rule.id = u₂.rule.id)
    (hwrites : ∀ w ∈ a.writes, ∀ x ∈ b.writes, ¬ Path.overlaps w x = true)
    (hab : ∀ w ∈ a.writes, ∀ p ∈ b.reads, ¬ Path.overlaps w p = true)
    (hba : ∀ w ∈ b.writes, ∀ p ∈ a.reads, ¬ Path.overlaps w p = true) :
    t₂.after = u₁.after ∧ t₁.SameEffect u₁ ∧ t₂.SameEffect u₂ := by
  have hleft : ∀ w ∈ a.writes, d.value.get? w = u₂.after.value.get? w := by
    intro w hw
    exact (hu₂.get?_after fun x hx => Path.overlaps_comm w x ▸ hwrites w hw x hx).symm
  have hright : ∀ x ∈ b.writes, t₁.after.value.get? x = d.value.get? x := by
    intro x hx
    exact ht₁.get?_after fun w hw => hwrites w hw x hx
  have hleftTwins : TwinTurns a d u₂.after t₁ u₁ :=
    ht₁.twins hu₁ fun p hp => (hu₂.get?_after fun w hw => hba w hw p hp).symm
  have hrightTwins : TwinTurns b t₁.after d t₂ u₂ :=
    ht₂.twins hu₂ fun p hp => ht₁.get?_after fun w hw => hab w hw p hp
  refine ⟨?_, hleftTwins.sameEffect hid₁ hleft, hrightTwins.sameEffect hid₂ hright⟩
  cases hleftTwins with
  | failed =>
    -- The first rule leaves the document in both orders, so the second one starts from it.
    cases hrightTwins with
    | failed => rfl
    | completed _ _ => rfl
  | completed left leftBehind =>
    cases hrightTwins with
    | failed => rfl
    | completed rightBehind right =>
      have hexchange : d.Exchangeable a.writes _ b.writes _ :=
        ⟨hwrites, left, right, leftBehind, rightBehind⟩
      exact hexchange.comm

/-! ### Whole runs -/

/-- The rule under another name. -/
def Rule.renamed (r : Rule Id) (name : String) : Rule Id := { r with name := name }

/-- Exchanging two turns for turns with the same property leaves unchanged whether some turn has
it. -/
theorem exists_mem_exchange {P : Turn Id → Prop} {front rest : List (Turn Id)}
    {t₁ t₂ u₁ u₂ : Turn Id} (h₁ : P t₁ ↔ P u₁) (h₂ : P t₂ ↔ P u₂) :
    (∃ t ∈ front ++ t₁ :: t₂ :: rest, P t) ↔ ∃ u ∈ front ++ u₂ :: u₁ :: rest, P u := by
  simp only [List.mem_append, List.mem_cons, or_and_right, exists_or, exists_eq_left, h₁, h₂]
  rw [or_left_comm (a := P u₁)]

/-- **Independent block rules may run in either order.**  Two rules with inferred declarations,
of which neither feeds the other and whose writes do not overlap, stand next to each other in
the order of a run, and in another run stand there the other way round, under whatever names.
If both runs give a result, they end with the same document, the same rules fail with the same
failures, and the coverage is the same. -/
theorem independent_rules_commute {a b : Rule Id} (ha : a.Inferred) (hb : b.Inferred)
    (hwrites : a.WritesApart b) (hab : ¬ a.feeds b = true) (hba : ¬ b.feeds a = true)
    (nameA nameB : String) (front rest : List (Rule Id)) (options : RunOptions) (d : Document)
    {ts us : List (Turn Id)} (hts : (trace (front ++ a :: b :: rest) d).run = .ok ts)
    (hus : (trace (front ++ b.renamed nameB :: a.renamed nameA :: rest) d).run = .ok us) :
    (RunResult.ofTurns options d ts).after = (RunResult.ofTurns options d us).after ∧
      (∀ id failure, (∃ t ∈ ts, t.rule.id = id ∧ t.result = .failed failure) ↔
        ∃ u ∈ us, u.rule.id = id ∧ u.result = .failed failure) ∧
      Coverage.ofMutations (RunResult.ofTurns options d ts).mutations =
        Coverage.ofMutations (RunResult.ofTurns options d us).mutations := by
  obtain ⟨A, hbodyA, hreadsA, hwritesA⟩ := ha
  obtain ⟨B, hbodyB, hreadsB, hwritesB⟩ := hb
  -- The runs agree up to the two rules, and take the turns of these next.
  obtain ⟨fs, _, rfl, hfs, hts⟩ := trace_append_eq_ok hts
  obtain ⟨t₁, _, rfl, ht₁, hts⟩ := trace_cons_eq_ok.mp hts
  obtain ⟨t₂, gs, rfl, ht₂, hgs⟩ := trace_cons_eq_ok.mp hts
  obtain ⟨fs', _, rfl, hfs', hus⟩ := trace_append_eq_ok hus
  obtain rfl : fs = fs' := Except.ok.inj (hfs.symm.trans hfs')
  obtain ⟨u₂, _, rfl, hu₂, hus⟩ := trace_cons_eq_ok.mp hus
  obtain ⟨u₁, hs, rfl, hu₁, hhs⟩ := trace_cons_eq_ok.mp hus
  obtain ⟨hrule₁, ht₁⟩ := ht₁.blockTurn hbodyA hwritesA
  obtain ⟨hrule₂, ht₂⟩ := ht₂.blockTurn hbodyB hwritesB
  obtain ⟨hrule₂', hu₂⟩ := hu₂.blockTurn (b := B) hbodyB hwritesB
  obtain ⟨hrule₁', hu₁⟩ := hu₁.blockTurn (b := A) hbodyA hwritesA
  have hid₁ : t₁.rule.id = u₁.rule.id := by rw [hrule₁, hrule₁']; rfl
  have hid₂ : t₂.rule.id = u₂.rule.id := by rw [hrule₂, hrule₂']; rfl
  rw [Rule.not_feeds_iff, hwritesA, hreadsB] at hab
  rw [Rule.not_feeds_iff, hwritesB, hreadsA] at hba
  rw [Rule.WritesApart, hwritesA, hwritesB] at hwrites
  obtain ⟨hafter, heffect₁, heffect₂⟩ :=
    ht₁.exchange ht₂ hu₂ hu₁ hid₁ hid₂ hwrites hab hba
  -- From the same document the other rules do the same.
  obtain rfl : gs = hs := by
    rw [hafter] at hgs
    exact Except.ok.inj (hgs.symm.trans hhs)
  refine ⟨?_, ?_, ?_⟩
  · show lastOf d (fs ++ t₁ :: t₂ :: gs) = lastOf d (fs ++ u₂ :: u₁ :: gs)
    rw [lastOf_append, lastOf_append, lastOf_cons, lastOf_cons, lastOf_cons, lastOf_cons, hafter]
  · intro id failure
    refine exists_mem_exchange ?_ ?_
    · rw [heffect₁.id, heffect₁.failure]
    · rw [heffect₂.id, heffect₂.failure]
  · refine OrderedSet.ext fun f => ?_
    show f ∈ Coverage.ofMutations ((fs ++ t₁ :: t₂ :: gs).flatMap Turn.changes) ↔
      f ∈ Coverage.ofMutations ((fs ++ u₂ :: u₁ :: gs).flatMap Turn.changes)
    rw [Coverage.mem_ofTurns, Coverage.mem_ofTurns]
    exact exists_mem_exchange (heffect₁.facts f) (heffect₂.facts f)

/-! ### Two rules that write into a map that neither of them finds -/

namespace Siblings

/-- A rule made of one block, with inferred declarations. -/
def ruleOf (id name : String) (block : Block) : Rule Id where
  id := id
  name := name
  version := defaultVersion
  builtIn := false
  enabled := true
  body := .ofBlocks ⟨[(block, none)]⟩
  reads := BlockRule.reads ⟨[(block, none)]⟩
  writes := BlockRule.writes ⟨[(block, none)]⟩
  description := none
  updatedAt := none
  codeHash := ""

/-- Copies the key `s` to `x.p`. -/
def copying (name : String) : Rule Id :=
  ruleOf "copy" name (.copy [.key "s"] [.key "x", .key "p"])

/-- Sets `x.q`. -/
def setting (name : String) : Rule Id := ruleOf "set" name (.set [.key "x", .key "q"] (.int 1))

/-- Both rules are enabled, under these names. -/
def registry (copyName setName : String) : Registry Id :=
  (Registry.empty.edit.performAll [.add (copying copyName), .add (setting setName)]).build

/-- The rules stand in the order of their names, and nothing else orders them. -/
def snapshot (copyName setName : String) (ids : List String) : Snapshot Id :=
  ⟨registry copyName setName, ids, ⟨[[], []]⟩, [0, 1]⟩

theorem ofRegistry_eq :
    Snapshot.ofRegistry (registry "first" "second") =
        .ok (snapshot "first" "second" ["copy", "set"]) ∧
      Snapshot.ofRegistry (registry "second" "first") =
        .ok (snapshot "second" "first" ["set", "copy"]) := by
  have hnone : (⟨[[], []]⟩ : Digraph).findCycle = none := by cbv
  have horder : (⟨[[], []]⟩ : Digraph).order? = some [0, 1] := by decide +kernel
  exact ⟨Snapshot.ofRegistry_of_findCycle _ rfl hnone horder,
    Snapshot.ofRegistry_of_findCycle _ rfl hnone horder⟩

def document : Document := Document.emptyMap.setScalar [.key "s"] (.int 2)

end Siblings

open Siblings in
/-- The rule whose turn comes first adds the map, and the other one a key to it: the changes are
not the same, but the document and the coverage are. -/
theorem independent_rules_commute_siblings :
    ∃ s s' ts us, Snapshot.ofRegistry (registry "first" "second") = .ok s ∧
      Snapshot.ofRegistry (registry "second" "first") = .ok s' ∧
      (trace s.orderedRules document).run = .ok ts ∧
      (trace s'.orderedRules document).run = .ok us ∧
      (RunResult.ofTurns {} document ts).mutations.map (·.path) ≠
        (RunResult.ofTurns {} document us).mutations.map (·.path) ∧
      (RunResult.ofTurns {} document ts).after = (RunResult.ofTurns {} document us).after ∧
      Coverage.ofMutations (RunResult.ofTurns {} document ts).mutations =
        Coverage.ofMutations (RunResult.ofTurns {} document us).mutations := by
  refine ⟨_, _, _, _, ofRegistry_eq.1, ofRegistry_eq.2, rfl, rfl, by decide, ?_⟩
  obtain ⟨hafter, -, hcoverage⟩ := independent_rules_commute (a := copying "first")
    (b := setting "second") ⟨_, rfl, rfl, rfl⟩ ⟨_, rfl, rfl, rfl⟩
    (Rule.conflict?_eq_none.mp (by decide)) (by decide) (by decide) "second" "first" [] [] {}
    document rfl rfl
  exact ⟨hafter, hcoverage⟩

end DocumentRules
