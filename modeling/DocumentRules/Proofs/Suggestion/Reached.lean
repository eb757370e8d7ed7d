/-
No target that can be reached is lost.

An input is collected once, with everything that it is proposed for, and its suggestion names one
of the targets that its run reaches.  What the run covers of the other targets is in the
suggestion as well: its new facts are those of the run.  It remains that inputs with one
fingerprint are one input, and the strategies propose no floating-point numbers, so that is
what the digests of the texts have to say.

* **`floatFree_candidates`** — the strategies propose no floating-point numbers;
* **`input_of_group`** — without collisions, what is proposed under a fingerprint has one input;
* **`SuggestionEngine.exists_mem_ranking`** — an input is suggested whichever of its targets is
  reached;
* **`reached_targets_suggested`** — every input that is proposed for a target and reaches it is
  suggested, with the evidence for the target.
-/
import DocumentRules.Proofs.Document.Fingerprint
import DocumentRules.Proofs.Suggestion.Evidence

namespace DocumentRules

/-! ### What the strategies propose -/

section Strategies

open Value (FloatFree floatFree_int floatFree_of_scalar floatFree_set)

variable {m : Type → Type}

theorem floatFree_emptyMap : Document.emptyMap.value.FloatFree := by
  intro p x hx
  cases p with
  | nil => cases hx
  | cons s p => cases s <;> cases hx

theorem floatFree_documentOf {fields : List (Path × Document)}
    (h : ∀ f ∈ fields, f.2.value.FloatFree) : (documentOf fields).value.FloatFree :=
  List.foldlRecOn (motive := fun d : Document => d.value.FloatFree) fields _ floatFree_emptyMap
    fun _ hd f hf => floatFree_set hd (h f hf) f.1

theorem floatFree_representative (k : FieldKind) : k.representative.value.FloatFree := by
  cases k <;> exact floatFree_of_scalar rfl fun _ h => nomatch h

theorem floatFree_representatives {hints : FieldHints} {r : Rule m} :
    ∀ f ∈ r.representatives hints, f.2.value.FloatFree :=
  List.forall_mem_map.mpr fun _ _ => floatFree_representative _

theorem floatFree_without {values : List (Path × Document)}
    (h : ∀ f ∈ values, f.2.value.FloatFree) (field : Path) :
    (Strategy.without values field).value.FloatFree :=
  floatFree_documentOf fun f hf => h f (List.mem_of_mem_filter hf)

theorem floatFree_staticCandidates {config : SuggestConfig} {r : Rule m} {w : Path} :
    ∀ c ∈ Strategy.staticCandidates config r w, c.input.value.FloatFree := by
  refine List.forall_mem_cons.mpr ⟨floatFree_documentOf floatFree_representatives, ?_⟩
  exact List.forall_mem_map.mpr fun field _ => floatFree_without floatFree_representatives field

theorem floatFree_boundaryCandidates {config : SuggestConfig} {r : Rule m} {w : Path} :
    ∀ c ∈ Strategy.boundaryCandidates config r w, c.input.value.FloatFree := by
  intro c hc
  obtain ⟨field, -, hc⟩ := List.mem_flatMap.mp hc
  rcases List.mem_append.mp hc with hc | hc
  · obtain ⟨i, -, rfl⟩ := List.mem_map.mp hc
    exact floatFree_set (floatFree_documentOf floatFree_representatives) (floatFree_int i) field
  · obtain rfl := List.mem_singleton.mp hc
    exact floatFree_without floatFree_representatives field

/-- **The strategies propose no floating-point numbers.** -/
theorem floatFree_candidates {config : SuggestConfig} {score : Nat → Nat → Binary64}
    {options : RunOptions} {st : Strategy m} {r : Rule m} {w : Path}
    (hst : st ∈ (SuggestionEngine.ofConfig config [] score options).strategies) :
    ∀ c ∈ st.candidates config r w, c.input.value.FloatFree := by
  rcases List.mem_cons.mp hst with rfl | hst
  · exact floatFree_staticCandidates
  · rw [List.append_nil] at hst
    split at hst
    · obtain rfl := List.mem_singleton.mp hst
      exact floatFree_boundaryCandidates
    · cases hst

end Strategies

/-! ### Fingerprints without collisions -/

/-- **Without collisions, what is proposed under a fingerprint has one input.** -/
theorem input_of_group {ps : List (Document × Proposal)} {input : Document} {p : Proposal}
    {c : ProposedInput} (hfree : ∀ q ∈ ps, q.1.value.FloatFree)
    (hdigests : CollisionFree (ps.map (·.1.fingerprintText))) (hp : (input, p) ∈ ps)
    (hc : group? input.fingerprint ps = some c) : c.input = input := by
  obtain ⟨hhash, ⟨q, hq⟩, -⟩ := group?_eq_some hc
  rw [Document.fingerprint_eq, Document.fingerprint_eq] at hhash
  refine Document.eq_of_fingerprintText (hfree _ hq) (hfree _ hp) ?_
  exact hdigests _ (List.mem_map_of_mem hq) _ (List.mem_map_of_mem hp) hhash

/-! ### What is suggested -/

/-- **A collected input is suggested whichever of its targets is reached.**  The suggestion names
the first one that is reached, and it has the evidence for each of them. -/
theorem SuggestionEngine.exists_mem_ranking {e : SuggestionEngine Id} {s : Snapshot Id}
    {coverage : Coverage} {known : OrderedSet String} {hash : String} {c : ProposedInput}
    {r : RunResult} {p : Proposal} (hknown : hash ∉ known)
    (hgroup : group? hash (e.proposals s.orderedRules coverage) = some c)
    (hrun : (run e.options s c.input).run = .ok r) (hp : p ∈ c.proposals)
    (hgap : coverage.exercises p.rule p.target = false) (hreaches : r.reaches p = true) :
    ∃ x ∈ e.ranking s coverage known, x.input = c.input ∧
      ∃ f ∈ x.coverageDelta, f.rule = p.rule ∧ p.target <+: f.path := by
  obtain ⟨first, hfirst⟩ : ∃ first, c.proposals.find? r.reaches = some first := by
    rw [← Option.isSome_iff_exists, List.find?_isSome]
    exact ⟨p, hp, hreaches⟩
  obtain ⟨f, hf, hevidence⟩ := Coverage.exercises_iff.mp
    (exercises_newFacts hgap (reaches_iff_exercises.mp hreaches))
  have hsize : (coverage.newFacts r).size ≠ 0 :=
    fun h => List.ne_nil_of_mem hf (List.length_eq_zero_iff.mp h)
  refine ⟨c.suggestion e.score coverage hash r first, ?_, rfl, f, hf, hevidence⟩
  refine mem_ranking.mpr ⟨c, hknown, hgroup, ?_⟩
  exact validate_eq_some.mpr ⟨r, first, hrun, hfirst, hsize, rfl⟩

/-- **No target that can be reached is lost.**  With a limit that admits all candidates, and as
long as the texts under the fingerprints do not collide, every input that a strategy proposes for
an uncovered declared write of an enabled rule, that is not known, and whose run completes and
touches the target by a change of the rule, is the input of a suggestion whose new facts show
that the rule touches a leaf at or below the target. -/
theorem reached_targets_suggested {g : Registry Id} {s : Snapshot Id} (hg : g.Reachable)
    (hs : Snapshot.ofRegistry g = .ok s) (config : SuggestConfig)
    (score : Nat → Nat → Binary64) (options : RunOptions) (coverage : Coverage)
    (known : OrderedSet String) (limit : Nat) :
    let e : SuggestionEngine Id := .ofConfig config [] score options
    let proposals := e.proposals s.orderedRules coverage
    (collectCandidates known proposals).length ≤ limit →
    CollisionFree (proposals.map (·.1.fingerprintText)) →
    ∀ r ∈ g.enabledRules, ∀ w ∈ r.writes, coverage.exercises r.id w = false →
      ∀ st ∈ e.strategies, ∀ c ∈ st.candidates config r w, c.input.fingerprint ∉ known →
        ∀ runOptions result, (run runOptions s c.input).run = .ok result →
          (∃ b ∈ result.mutations, b.rule = some r.id ∧ b.touches w = true) →
          ∃ x ∈ (e.suggest s coverage known limit).run, x.input = c.input ∧
            ∃ f ∈ x.coverageDelta, f.rule = r.id ∧ w <+: f.path := by
  intro e proposals hlimit hdigests r hr w hw hgap st hst c hc hknown runOptions result hrun htouch
  obtain ⟨logs, hrun⟩ := run_with_options hrun e.options
  have hordered : r ∈ s.orderedRules := (Registry.mem_orderedRules_iff hg.compatible hs).mpr hr
  have hproposed : (c.input, ⟨r.id, w, c.reason, st.tag⟩) ∈ proposals :=
    SuggestionEngine.mem_proposals.mpr
      ⟨r, hordered, w, Coverage.mem_uncoveredWrites.mpr ⟨hw, hgap⟩, st, hst, c, hc, rfl, rfl⟩
  -- The input is collected, with this proposal among those of its group.
  obtain ⟨candidate, hgroup⟩ := exists_group? hproposed
  have hinput : candidate.input = c.input := by
    refine input_of_group ?_ hdigests hproposed hgroup
    rintro ⟨input, q⟩ hq
    obtain ⟨r', -, w', -, st', hst', c', hc', rfl, -⟩ := SuggestionEngine.mem_proposals.mp hq
    exact floatFree_candidates hst' c' hc'
  obtain ⟨-, -, hmembers⟩ := group?_eq_some hgroup
  have hmember := (hmembers _).mpr ⟨_, hproposed, rfl⟩
  have hreaches : RunResult.reaches { result with logs := logs } ⟨r.id, w, c.reason, st.tag⟩ =
      true := by
    obtain ⟨b, hb, hrule, hcovers⟩ := htouch
    exact List.any_eq_true.mpr ⟨b, hb, by simp [hrule, hcovers]⟩
  rw [← hinput] at hrun ⊢
  rw [SuggestionEngine.suggest_eq_take,
    List.take_of_length_le (SuggestionEngine.length_ranking_le.trans hlimit)]
  exact SuggestionEngine.exists_mem_ranking hknown hgroup hrun hmember hgap hreaches

/-! ### Two rules for which one input is proposed -/

namespace Settings

/-- A rule that reads nothing and sets the key of its name. -/
def setting (name : String) : Rule Id where
  id := name
  name := name
  version := defaultVersion
  builtIn := false
  enabled := true
  body := .native name fun d => .ok (d.setScalar [.key name] (.int 1))
  reads := ∅
  writes := .ofList [[.key name]]
  description := none
  updatedAt := none
  codeHash := ""

def registry : Registry Id :=
  (Registry.empty.edit.performAll [.add (setting "a"), .add (setting "b")]).build

def snapshot : Snapshot Id := ⟨registry, ⟨["a", "b"], ⟨[[], []]⟩, [0, 1]⟩⟩

theorem registry_eq : registry = ⟨[setting "a", setting "b"]⟩ := rfl

theorem ofRegistry_eq : Snapshot.ofRegistry registry = .ok snapshot :=
  Snapshot.ofRegistry_of_findCycle ⟨[[], []]⟩ rfl (by cbv) (by decide +kernel)

/-- All that is proposed is the empty map, first for one rule and then for the other one. -/
theorem texts_eq : (((SuggestionEngine.ofConfig {}).proposals snapshot.orderedRules ∅).map
    (·.1.fingerprintText)) = ["{}", "{}"] := by
  decide +kernel

end Settings

open Settings in
/-- The empty map is proposed for the first rule before it is proposed for the second one; what
is suggested has the evidence for the second one, too. -/
theorem reached_targets_suggested_settings :
    registry.Reachable ∧ Snapshot.ofRegistry registry = .ok snapshot ∧
      ∃ x ∈ ((SuggestionEngine.ofConfig {}).suggest snapshot ∅ ∅ 2).run, x.input = .emptyMap ∧
        ∃ f ∈ x.coverageDelta, f.rule = "b" ∧ [.key "b"] <+: f.path := by
  have hreachable : registry.Reachable := .revise .empty _
  have hlimit : (collectCandidates ∅ ((SuggestionEngine.ofConfig {}).proposals
      snapshot.orderedRules ∅)).length ≤ 2 := by decide +kernel
  have hdigests : CollisionFree (((SuggestionEngine.ofConfig {}).proposals
      snapshot.orderedRules ∅).map (·.1.fingerprintText)) := by
    rw [texts_eq]
    intro a ha b hb _
    simp only [List.mem_cons, List.not_mem_nil, or_false, or_self] at ha hb
    rw [ha, hb]
  have hrule : setting "b" ∈ registry.enabledRules :=
    Registry.mem_enabledRules.mpr ⟨by simp [registry_eq], rfl⟩
  refine ⟨hreachable, ofRegistry_eq, ?_⟩
  exact reached_targets_suggested hreachable ofRegistry_eq {} deltaScore .minimal ∅ ∅ 2 hlimit
    hdigests (setting "b") hrule [.key "b"] (by decide) rfl Strategy.static
    (List.mem_cons_self ..) _ (List.mem_cons_self ..) (OrderedSet.not_mem_empty _) {} _ rfl
    ⟨_, List.mem_cons_of_mem _ (List.mem_cons_self ..), rfl, rfl⟩

end DocumentRules
