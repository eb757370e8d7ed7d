/-
The turns of a run, whatever its rule bodies do.

Bodies act in a monad, so a run has no turns of its own before its effects are known:
`Always P x` says that every answer of `x` satisfies `P`, and `TakeTurns` is what a run has
done when it gives a result.

* **`trace_takeTurns`** — in every run that gives a result the rules take turns, and no turn
  changes a leaf that its rule does not declare;
* **`TakeTurns.split`** — the turns in front of a turn and those behind it are such rows of
  turns themselves;
* **`mem_facts_diffBy`** — the changes of a rule give a fact for each changed leaf, and for no
  other.
-/
import DocumentRules.Coverage.Fact
import DocumentRules.Proofs.Change.Agreement
import DocumentRules.Proofs.Registry.Compatible
import DocumentRules.Proofs.Run.Trace

namespace DocumentRules

/-! ### All answers of a computation -/

section Always

variable {m : Type → Type} {α β : Type} [Monad m]

/-- Every answer of the computation satisfies `P`: the computation can be carried out with
answers that carry a proof of it. -/
def Always (P : α → Prop) (x : m α) : Prop :=
  ∃ y : m { a // P a }, Subtype.val <$> y = x

omit [Monad m] in
/-- A computation without effects has one answer. -/
theorem always_id {P : α → Prop} {x : Id α} : Always P x ↔ P x.run := by
  constructor
  · rintro ⟨y, rfl⟩
    exact y.run.property
  · intro hx
    exact ⟨pure ⟨x.run, hx⟩, rfl⟩

variable [LawfulMonad m]

theorem always_pure {P : α → Prop} {a : α} (ha : P a) : Always P (pure a : m α) :=
  ⟨pure ⟨a, ha⟩, map_pure ..⟩

theorem always_true (x : m α) : Always (fun _ => True) x := by
  refine ⟨(fun a => ⟨a, trivial⟩) <$> x, ?_⟩
  rw [Functor.map_map]
  exact id_map x

theorem Always.bind {P : α → Prop} {Q : β → Prop} {x : m α} {f : α → m β} (hx : Always P x)
    (hf : ∀ a, P a → Always Q (f a)) : Always Q (x >>= f) := by
  obtain ⟨y, rfl⟩ := hx
  choose g hg using hf
  -- The proof that comes with the first answer is what the second computation asks for.
  refine ⟨y >>= fun a => g a.1 a.2, ?_⟩
  rw [map_bind, bind_map_left]
  exact bind_congr fun a => hg a.1 a.2

theorem Always.imp {P Q : α → Prop} {x : m α} (hx : Always P x) (h : ∀ a, P a → Q a) :
    Always Q x := by
  obtain ⟨y, rfl⟩ := hx
  refine ⟨(fun a => ⟨a.1, h a.1 a.2⟩) <$> y, ?_⟩
  rw [Functor.map_map]

end Always

/-! ### Rows of turns -/

variable {m : Type → Type}

theorem Rule.declaresWrite_iff {r : Rule m} {p : Path} :
    r.declaresWrite p = true ↔ ∃ w ∈ r.writes, w <+: p := by
  simp [declaresWrite, Path.covers_iff, OrderedSet.mem_toList]

/-- The changes touch only leaves that the rule declares exactly if every changed leaf is
declared. -/
theorem Rule.undeclared?_eq_none {r : Rule m} {id : String} {d e : Document} :
    r.undeclared? (diffBy id d.value e.value) = none ↔
      ∀ q, Value.ChangedLeaf d.value e.value q → r.declaresWrite q = true := by
  simp only [undeclared?, List.findSome?_eq_none_iff, List.find?_eq_none, diffBy, diff,
    List.mem_map, mem_sortBy, forall_exists_index, and_imp, forall_apply_eq_imp_iff₂,
    Mutation.touchedLeaves_byRule, OrderedSet.mem_toList, Bool.not_eq_true', Bool.not_eq_false]
  constructor
  · intro h q hq
    obtain ⟨c, hc, hqc⟩ := (Value.touched_iff d.wellFormed e.wellFormed).mpr hq
    exact h c hc q hqc
  · intro h c hc q hqc
    exact h q ((Value.touched_iff d.wellFormed e.wellFormed).mp ⟨c, hc, hqc⟩)

/-- What the rules did, one after another, from a document on. -/
inductive TakeTurns : List (Rule m) → Document → List (Turn m) → Prop where
  | nil (d : Document) : TakeTurns [] d []
  /-- The body fails and leaves the document. -/
  | failed {rs : List (Rule m)} {d : Document} {ts : List (Turn m)} (r : Rule m)
      (failure : Failure) (rest : TakeTurns rs d ts) :
      TakeTurns (r :: rs) d (⟨r, d, .failed failure⟩ :: ts)
  /-- The body gives a document in which only declared leaves have changed. -/
  | completed {rs : List (Rule m)} {d e : Document} {ts : List (Turn m)} (r : Rule m)
      (declared : ∀ q, Value.ChangedLeaf d.value e.value q → r.declaresWrite q = true)
      (rest : TakeTurns rs e ts) :
      TakeTurns (r :: rs) d (⟨r, d, .completed e (diffBy r.id d.value e.value)⟩ :: ts)

/-- **In every run that gives a result the rules take turns.** -/
theorem trace_takeTurns [Monad m] [LawfulMonad m] (rs : List (Rule m)) (d : Document) :
    Always (fun outcome => ∀ ts, outcome = .ok ts → TakeTurns rs d ts) (trace rs d) := by
  induction rs generalizing d with
  | nil =>
    refine always_pure ?_
    intro ts hts
    cases hts
    exact .nil d
  | cons r rs ih =>
    -- Nothing is known of the answer of the body but that it is one.
    unfold trace
    refine (always_true _).bind ?_
    intro answer _
    cases answer with
    | error failure =>
      refine (ih d).bind fun outcome houtcome => always_pure ?_
      intro ts hts
      obtain ⟨rest, hrest, rfl⟩ := map_eq_ok hts
      exact .failed r failure (houtcome rest hrest)
    | ok e =>
      simp only
      split
      · refine always_pure ?_
        intro ts hts
        cases hts
      · rename_i hnone
        refine (ih e).bind fun outcome houtcome => always_pure ?_
        intro ts hts
        obtain ⟨rest, hrest, rfl⟩ := map_eq_ok hts
        exact .completed r (Rule.undeclared?_eq_none.mp hnone) (houtcome rest hrest)

/-! ### The turns of a row -/

open RunResult (lastOf lastOf_cons)

theorem rule_of_mem_diffBy {id : String} {u v : Value} {c : Mutation} (hc : c ∈ diffBy id u v) :
    c.rule = some id := by
  obtain ⟨b, -, rfl⟩ := List.mem_map.mp hc
  rfl

/-- The turn changes only leaves that its rule declares, and its changes are those of its
rule. -/
structure Turn.Authorised (t : Turn m) : Prop where
  leaves : t.before.NanFree → ∀ q, Value.ChangedLeaf t.before.value t.after.value q →
    t.rule.declaresWrite q = true
  changes : ∀ c ∈ t.changes, c.rule = some t.rule.id ∧
    ∀ q ∈ c.touchedLeaves, t.rule.declaresWrite q = true

/-- A turn whose body fails changes nothing. -/
theorem Turn.authorised_failed (r : Rule m) (d : Document) (failure : Failure) :
    (⟨r, d, .failed failure⟩ : Turn m).Authorised where
  leaves hd q hq := by
    -- Without `nan` every leaf is the same as itself, so that none has changed.
    refine absurd (Mutation.sameValue_refl ?_) hq.2.1
    intro v hv
    exact Value.nanFree_of_get? hd hv
  changes c hc := absurd hc List.not_mem_nil

theorem Turn.authorised_completed {r : Rule m} {d e : Document}
    (h : ∀ q, Value.ChangedLeaf d.value e.value q → r.declaresWrite q = true) :
    (⟨r, d, .completed e (diffBy r.id d.value e.value)⟩ : Turn m).Authorised where
  leaves _ := h
  changes c hc := by
    obtain ⟨b, hb, rfl⟩ := List.mem_map.mp hc
    refine ⟨rfl, fun q hq => h q ?_⟩
    rw [diff, mem_sortBy] at hb
    exact (Value.touched_iff d.wellFormed e.wellFormed).mp ⟨b, hb, hq⟩

namespace TakeTurns

variable {rs : List (Rule m)} {d : Document} {ts : List (Turn m)} {t : Turn m}

theorem authorised (h : TakeTurns rs d ts) (ht : t ∈ ts) : t.Authorised := by
  induction h with
  | nil => cases ht
  | failed r failure _ ih =>
    rcases List.mem_cons.mp ht with rfl | ht
    · exact Turn.authorised_failed ..
    · exact ih ht
  | completed r declared _ ih =>
    rcases List.mem_cons.mp ht with rfl | ht
    · exact Turn.authorised_completed declared
    · exact ih ht

/-- The rules of the turns, in order, are all the rules. -/
theorem map_rule (h : TakeTurns rs d ts) : ts.map Turn.rule = rs := by
  induction h with
  | nil => rfl
  | failed r _ _ ih => rw [List.map_cons, ih]
  | completed r _ _ ih => rw [List.map_cons, ih]

/-- **The turns in front of a turn and those behind it**: the turn starts from the document
that those in front leave, and those behind start from the one that it leaves. -/
theorem split (h : TakeTurns rs d ts) (ht : t ∈ ts) :
    ∃ rs₁ rs₂ ts₁ ts₂, rs = rs₁ ++ t.rule :: rs₂ ∧ ts = ts₁ ++ t :: ts₂ ∧
      TakeTurns rs₁ d ts₁ ∧ t.before = lastOf d ts₁ ∧ TakeTurns rs₂ t.after ts₂ := by
  induction h with
  | nil => cases ht
  | @failed rs d ts r failure rest ih =>
    rcases List.mem_cons.mp ht with rfl | ht
    · exact ⟨[], rs, [], ts, rfl, rfl, .nil d, rfl, rest⟩
    · obtain ⟨rs₁, rs₂, ts₁, ts₂, rfl, rfl, h₁, hbefore, h₂⟩ := ih ht
      refine ⟨r :: rs₁, rs₂, _ :: ts₁, ts₂, rfl, rfl, .failed r failure h₁, ?_, h₂⟩
      rw [lastOf_cons]
      exact hbefore
  | @completed rs d e ts r declared rest ih =>
    rcases List.mem_cons.mp ht with rfl | ht
    · exact ⟨[], rs, [], ts, rfl, rfl, .nil d, rfl, rest⟩
    · obtain ⟨rs₁, rs₂, ts₁, ts₂, rfl, rfl, h₁, hbefore, h₂⟩ := ih ht
      refine ⟨r :: rs₁, rs₂, _ :: ts₁, ts₂, rfl, rfl, .completed r declared h₁, ?_, h₂⟩
      rw [lastOf_cons]
      exact hbefore

end TakeTurns

/-! ### The facts of turns -/

theorem Mutation.mem_facts {b : Mutation} {f : Coverage.Fact} :
    f ∈ b.facts ↔ b.rule = some f.rule ∧ f.path ∈ b.touchedLeaves := by
  obtain ⟨rule, path⟩ := f
  cases hr : b.rule <;> simp [facts, hr, OrderedSet.mem_toList, and_comm, eq_comm]

/-- **The changes of a rule give a fact for each changed leaf**, and for no other. -/
theorem mem_facts_diffBy {id : String} {d e : Document} {f : Coverage.Fact} :
    f ∈ (diffBy id d.value e.value).flatMap Mutation.facts ↔
      f.rule = id ∧ Value.ChangedLeaf d.value e.value f.path := by
  rw [← Value.touched_iff d.wellFormed e.wellFormed]
  simp only [diffBy, diff, List.mem_flatMap, List.mem_map, mem_sortBy, Mutation.mem_facts,
    Value.Touched]
  constructor
  · rintro ⟨_, ⟨b, hb, rfl⟩, hrule, hpath⟩
    exact ⟨(Option.some.inj hrule).symm, b, hb, hpath⟩
  · rintro ⟨rfl, b, hb, hpath⟩
    exact ⟨_, ⟨b, hb, rfl⟩, rfl, hpath⟩

namespace Coverage

theorem mem_ofMutations {ms : List Mutation} {f : Fact} :
    f ∈ ofMutations ms ↔ ∃ b ∈ ms, f ∈ b.facts := by
  rw [ofMutations, OrderedSet.mem_ofList, List.mem_flatMap]

theorem mem_ofTurns {ts : List (Turn m)} {f : Fact} :
    f ∈ ofMutations (ts.flatMap Turn.changes) ↔
      ∃ t ∈ ts, f ∈ t.changes.flatMap Mutation.facts := by
  rw [ofMutations, OrderedSet.mem_ofList, List.flatMap_assoc, List.mem_flatMap]

end Coverage

end DocumentRules
