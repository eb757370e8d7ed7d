/-
The ranking of suggestions, and paging through it.

Suggestions are ranked by score and then by fingerprint, and the first ones are given.  Whoever
stores these and asks again, with their fingerprints among the known ones, gets the next ones.

* **`validate_eq_some`** — when a collected input gives rise to a suggestion;
* **`suggest_eq_take`** — what is given is the beginning of the whole ranking;
* **`of_mem_suggest`** — what a suggestion rests on;
* **`ranking_union`** — further known fingerprints take out their suggestions; the others keep
  their rule, target, score and order;
* **`nodup_ranking_hashes`** — no fingerprint is ranked twice;
* **`paging`** — the pages make up the whole ranking.
-/
import DocumentRules.Proofs.Number.TotalOrder
import DocumentRules.Proofs.Run.Frame
import DocumentRules.Proofs.Suggestion.Grouping

namespace DocumentRules

namespace Suggestion

theorem ranksBefore_iff {s t : Suggestion} :
    s.ranksBefore t = true ↔
      t.score.place < s.score.place ∨ (s.score.place = t.score.place ∧ ¬ t.hash < s.hash) := by
  have hcompare := Binary64.totalCompare_compares s.score t.score
  unfold ranksBefore
  cases hc : s.score.totalCompare t.score <;> rw [hc] at hcompare
  · have hlt : s.score.place < t.score.place := hcompare
    simp [hlt.ne, hlt.le]
  · have heq : s.score.place = t.score.place := hcompare
    simp [heq]
  · have hgt : t.score.place < s.score.place := hcompare
    simp [hgt]

theorem ranksBefore_total (s t : Suggestion) (h : s.ranksBefore t = false) :
    t.ranksBefore s = true := by
  rw [Bool.eq_false_iff, Ne, ranksBefore_iff, not_or, not_and, not_not] at h
  rw [ranksBefore_iff]
  rcases lt_or_eq_of_le (not_lt.mp h.1) with hlt | heq
  · exact Or.inl hlt
  · exact Or.inr ⟨heq.symm, StrictOrder.asymm (h.2 heq)⟩

theorem ranksBefore_trans (s t u : Suggestion) (hst : s.ranksBefore t = true)
    (htu : t.ranksBefore u = true) : s.ranksBefore u = true := by
  rw [ranksBefore_iff] at *
  rcases hst with hst | ⟨est, hst⟩ <;> rcases htu with htu | ⟨etu, htu⟩
  · exact Or.inl (htu.trans hst)
  · exact Or.inl (etu ▸ hst)
  · exact Or.inl (est ▸ htu)
  · exact Or.inr ⟨est.trans etu, StrictOrder.not_lt_trans hst htu⟩

end Suggestion

/-- What a run covers that was not covered. -/
def Coverage.newFacts (coverage : Coverage) (r : RunResult) : Coverage :=
  (ofMutations r.mutations).filter fun f => !coverage.contains f

theorem Coverage.mem_newFacts {coverage : Coverage} {r : RunResult} {f : Fact} :
    f ∈ coverage.newFacts r ↔ f ∈ ofMutations r.mutations ∧ f ∉ coverage := by
  simp [newFacts, contains]

/-- The suggestion that a run gives rise to, for one of the proposals of its input. -/
def ProposedInput.suggestion (c : ProposedInput) (score : Nat → Nat → Binary64)
    (coverage : Coverage) (hash : String) (r : RunResult) (p : Proposal) : Suggestion where
  rule := p.rule
  target := p.target
  input := c.input
  reason := p.reason
  coverageDelta := coverage.newFacts r
  score := score (coverage.newFacts r).size (coverage.forRule p.rule).length
  hash := hash
  strategy := p.strategy
  expected := observedFragment r.after ((coverage.newFacts r).toList.map (·.path))

theorem validate_ok (score : Nat → Nat → Binary64) (coverage : Coverage) (hash : String)
    (c : ProposedInput) (r : RunResult) :
    validate score coverage hash c (.ok r) =
      (c.proposals.find? r.reaches).bind fun p =>
        if (coverage.newFacts r).size = 0 then none
        else some (c.suggestion score coverage hash r p) := by
  rw [validate]
  cases c.proposals.find? r.reaches <;> rfl

/-- An input gives rise to a suggestion if its run completes, reaches one of its targets and
covers something new. -/
theorem validate_eq_some {score : Nat → Nat → Binary64} {coverage : Coverage} {hash : String}
    {c : ProposedInput} {outcome : Except RunError RunResult} {x : Suggestion} :
    validate score coverage hash c outcome = some x ↔
      ∃ r p, outcome = .ok r ∧ c.proposals.find? r.reaches = some p ∧
        (coverage.newFacts r).size ≠ 0 ∧ c.suggestion score coverage hash r p = x := by
  cases outcome with
  | error err => simp [validate]
  | ok r => simp [validate_ok, Option.bind_eq_some_iff]

namespace SuggestionEngine

variable (e : SuggestionEngine Id) (s : Snapshot Id) (coverage : Coverage)

/-- The inputs that are proposed for the gaps of a coverage, by their fingerprints. -/
def candidates (known : OrderedSet String) : List (String × ProposedInput) :=
  collectCandidates known (e.proposals s.orderedRules coverage)

/-- The suggestion that a collected input gives rise to. -/
def suggestion? (entry : String × ProposedInput) : Option Suggestion :=
  validate e.score coverage entry.1 entry.2 (run e.options s entry.2.input).run

/-- All suggestions, in the order of their ranks. -/
def ranking (known : OrderedSet String) : List Suggestion :=
  sortBy Suggestion.ranksBefore
    ((e.candidates s coverage known).filterMap (e.suggestion? s coverage))

theorem validateAll_eq_filterMap (entries : List (String × ProposedInput)) :
    (validateAll e s coverage entries).run = entries.filterMap (e.suggestion? s coverage) := by
  induction entries with
  | nil => rfl
  | cons entry rest ih =>
    show (e.suggestion? s coverage entry).toList ++ (validateAll e s coverage rest).run = _
    rw [ih, List.filterMap_cons]
    cases e.suggestion? s coverage entry <;> rfl

/-- **What is given is the beginning of the whole ranking.** -/
theorem suggest_eq_take (known : OrderedSet String) (limit : Nat) :
    (e.suggest s coverage known limit).run = (e.ranking s coverage known).take limit := by
  rw [ranking, candidates, ← validateAll_eq_filterMap]
  rfl

variable {e s coverage} {known more : OrderedSet String}

theorem suggestion?_hash {entry : String × ProposedInput} {x : Suggestion}
    (h : e.suggestion? s coverage entry = some x) : x.hash = entry.1 := by
  obtain ⟨r, p, -, -, -, rfl⟩ := validate_eq_some.mp h
  rfl

theorem mem_ranking {x : Suggestion} :
    x ∈ e.ranking s coverage known ↔
      ∃ c, x.hash ∉ known ∧ group? x.hash (e.proposals s.orderedRules coverage) = some c ∧
        e.suggestion? s coverage (x.hash, c) = some x := by
  rw [ranking, mem_sortBy, List.mem_filterMap]
  constructor
  · rintro ⟨⟨hash, c⟩, hmem, hx⟩
    obtain rfl : x.hash = hash := suggestion?_hash hx
    obtain ⟨hknown, hgroup⟩ := mem_collectCandidates.mp hmem
    exact ⟨c, hknown, hgroup, hx⟩
  · rintro ⟨c, hknown, hgroup, hx⟩
    exact ⟨(x.hash, c), mem_collectCandidates.mpr ⟨hknown, hgroup⟩, hx⟩

/-- **What a suggestion rests on**: the run on its input, which fulfils one of the proposals
that are grouped under its fingerprint and covers something new. -/
theorem of_mem_suggest {limit : Nat} {x : Suggestion}
    (hx : x ∈ (e.suggest s coverage known limit).run) :
    ∃ c r p, group? c.input.fingerprint (e.proposals s.orderedRules coverage) = some c ∧
      (run e.options s c.input).run = .ok r ∧ c.proposals.find? r.reaches = some p ∧
      (coverage.newFacts r).size ≠ 0 ∧
      x = c.suggestion e.score coverage c.input.fingerprint r p := by
  rw [suggest_eq_take] at hx
  obtain ⟨c, -, hgroup, hsuggestion⟩ := mem_ranking.mp (List.mem_of_mem_take hx)
  obtain ⟨r, p, hrun, hfind, hsize, heq⟩ := validate_eq_some.mp hsuggestion
  obtain ⟨hhash, -, -⟩ := group?_eq_some hgroup
  rw [← hhash] at hgroup heq
  exact ⟨c, r, p, hgroup, hrun, hfind, hsize, heq.symm⟩

theorem length_ranking_le : (e.ranking s coverage known).length ≤
    (e.candidates s coverage known).length := by
  rw [ranking, (sortBy_perm _ _).length_eq]
  exact List.length_filterMap_le ..

/-- No fingerprint is ranked twice. -/
theorem nodup_ranking_hashes : ((e.ranking s coverage known).map (·.hash)).Nodup := by
  have hascending : (e.candidates s coverage known).Pairwise (·.1 < ·.1) :=
    collectCandidates_ascending known _
  refine ((sortBy_perm _ _).map _).nodup_iff.mpr (List.pairwise_map.mpr ?_)
  refine List.pairwise_filterMap.mpr (hascending.imp fun {a b} hab x hx y hy => ?_)
  rw [suggestion?_hash hx, suggestion?_hash hy]
  exact StrictOrder.ne_of_lt hab

/-- **Further known fingerprints take out their suggestions**, and leave the others and their
order as they are. -/
theorem ranking_union : e.ranking s coverage (known.union more) =
    (e.ranking s coverage known).filter fun x => !decide (x.hash ∈ more) := by
  have hfilter : (e.candidates s coverage (known.union more)).filterMap
      (e.suggestion? s coverage) = ((e.candidates s coverage known).filterMap
        (e.suggestion? s coverage)).filter fun x => !decide (x.hash ∈ more) := by
    rw [candidates, collectCandidates_union, List.filterMap_filter, List.filter_filterMap]
    refine List.filterMap_congr fun entry _ => ?_
    cases hx : e.suggestion? s coverage entry with
    | none => simp
    | some x =>
      have hhash : entry.1 = x.hash := (suggestion?_hash hx).symm
      by_cases hm : x.hash ∈ more <;> simp [hhash, hm, Option.filter]
  rw [ranking, ranking, hfilter,
    filter_sortBy Suggestion.ranksBefore_total Suggestion.ranksBefore_trans]

end SuggestionEngine

/-- Without the members whose keys are among the first ones, the others are left. -/
theorem filter_key_not_mem_take {α β : Type} [DecidableEq β] {key : α → β} {as : List α}
    (h : (as.map key).Nodup) (n : Nat) :
    (as.filter fun a => !decide (key a ∈ (as.take n).map key)) = as.drop n := by
  have hnodup : ((as.take n).map key ++ (as.drop n).map key).Nodup := by
    rwa [← List.map_append, List.take_append_drop]
  obtain ⟨-, -, hapart⟩ := List.nodup_append.mp hnodup
  have hfront : ((as.take n).filter fun a => !decide (key a ∈ (as.take n).map key)) = [] := by
    refine List.filter_eq_nil_iff.mpr fun a ha => ?_
    rw [Bool.not_eq_true', decide_eq_false_iff_not, not_not]
    exact List.mem_map_of_mem ha
  have hback : ((as.drop n).filter fun a => !decide (key a ∈ (as.take n).map key)) =
      as.drop n := by
    refine List.filter_eq_self.mpr fun a ha => ?_
    rw [Bool.not_eq_true', decide_eq_false_iff_not]
    intro hmem
    exact hapart _ hmem _ (List.mem_map_of_mem ha) rfl
  calc as.filter (fun a => !decide (key a ∈ (as.take n).map key))
      = (as.take n ++ as.drop n).filter fun a => !decide (key a ∈ (as.take n).map key) := by
        rw [List.take_append_drop]
    _ = as.drop n := by rw [List.filter_append, hfront, hback, List.nil_append]

/-- The fingerprints that are known once suggestions have been stored. -/
def Suggestion.knownWith (known : OrderedSet String) (stored : List Suggestion) :
    OrderedSet String :=
  known.union (.ofList (stored.map (·.hash)))

open Suggestion (knownWith)

/-- **Paging loses and repeats nothing.**  With a limit that admits all candidates, all
suggestions are a page of any size, which is the beginning of them, and then the suggestions
that are left once those of the page are known.  No suggestion of a page has a known
fingerprint or that of another one, and once all are known nothing is suggested. -/
theorem paging (e : SuggestionEngine Id) (s : Snapshot Id) (coverage : Coverage)
    (known : OrderedSet String) (n limit : Nat)
    (hlimit : (collectCandidates known (e.proposals s.orderedRules coverage)).length ≤ limit) :
    let all := (e.suggest s coverage known limit).run
    let page := (e.suggest s coverage known n).run
    all = page ++ (e.suggest s coverage (knownWith known page) limit).run ∧
      page = all.take n ∧
      (∀ x ∈ page, x.hash ∉ known) ∧ (page.map (·.hash)).Nodup ∧
      ∀ k, (e.suggest s coverage (knownWith known all) k).run = [] := by
  simp only [SuggestionEngine.suggest_eq_take]
  have hall : (e.ranking s coverage known).take limit = e.ranking s coverage known :=
    List.take_of_length_le (SuggestionEngine.length_ranking_le.trans hlimit)
  have hrest (k : Nat) :
      e.ranking s coverage (knownWith known ((e.ranking s coverage known).take k)) =
        (e.ranking s coverage known).drop k := by
    rw [knownWith, SuggestionEngine.ranking_union]
    simp only [OrderedSet.mem_ofList]
    exact filter_key_not_mem_take SuggestionEngine.nodup_ranking_hashes k
  refine ⟨?_, ?_, ?_, ?_, fun k => ?_⟩
  · have hlength : ((e.ranking s coverage known).drop n).length ≤ limit :=
      ((List.drop_sublist ..).length_le.trans SuggestionEngine.length_ranking_le).trans hlimit
    rw [hall, hrest, List.take_of_length_le hlength, List.take_append_drop]
  · rw [hall]
  · intro x hx
    obtain ⟨_, hknown, -⟩ := SuggestionEngine.mem_ranking.mp (List.mem_of_mem_take hx)
    exact hknown
  · exact SuggestionEngine.nodup_ranking_hashes.sublist ((List.take_sublist ..).map _)
  · rw [hrest, List.drop_of_length_le (SuggestionEngine.length_ranking_le.trans hlimit),
      List.take_nil]

/-! ### One rule, for which two inputs are proposed -/

namespace Chained

/-- The first rule alone. -/
def single : Snapshot Id := ⟨⟨[copying "first" "a" "b"]⟩, ⟨["first"], ⟨[[]]⟩, [0]⟩⟩

end Chained

open Chained in
/-- The two suggestions for the rule, one by one. -/
theorem paging_single :
    let e : SuggestionEngine Id := .ofConfig {}
    let all := (e.suggest single ∅ ∅ 2).run
    let page := (e.suggest single ∅ ∅ 1).run
    (collectCandidates ∅ (e.proposals single.orderedRules ∅)).length = 2 ∧
      all = page ++ (e.suggest single ∅ (knownWith ∅ page) 2).run ∧
      ∀ k, (e.suggest single ∅ (knownWith ∅ all) k).run = [] := by
  have hlength : (collectCandidates ∅ ((SuggestionEngine.ofConfig {}).proposals
      single.orderedRules ∅)).length = 2 := by decide +kernel
  obtain ⟨hpages, -, -, -, hnone⟩ := paging (.ofConfig {}) single ∅ ∅ 1 2 hlength.le
  exact ⟨hlength, hpages, hnone⟩

end DocumentRules
