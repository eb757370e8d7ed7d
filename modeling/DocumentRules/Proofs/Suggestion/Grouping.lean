/-
Proposals by the fingerprints of their inputs.

The proposals are gone through once, and each is added to the input with its fingerprint.  What
comes of it can be said of every fingerprint for itself:

* `group?` — what is proposed under a fingerprint: the first input that has it, with the
  proposals of all inputs that have it;
* **`mem_collectCandidates`** — what is collected are the groups of the fingerprints that are
  not known;
* **`collectCandidates_union`** — further known fingerprints take out their groups and leave the
  others as they are.
-/
import DocumentRules.Proofs.Document.Sameness
import DocumentRules.Suggestion.Engine
import Mathlib.Data.List.Induction

namespace DocumentRules

/-- A further proposal for the input that is there, or for a new one. -/
def ProposedInput.extend (o : Option ProposedInput) (input : Document) (p : Proposal) :
    ProposedInput :=
  match o with
  | some known => { known with proposals := known.proposals ++ [p] }
  | none => ⟨input, [p]⟩

/-- The first input with a fingerprint, with the proposals of all inputs that have it. -/
def group? (hash : String) (proposals : List (Document × Proposal)) : Option ProposedInput :=
  match proposals.filter (·.1.fingerprint = hash) with
  | [] => none
  | (input, p) :: rest => some ⟨input, p :: rest.map (·.2)⟩

open ProposedInput (extend)

theorem addProposal_eq_put (pending : List (String × ProposedInput)) (hash : String)
    (input : Document) (p : Proposal) :
    addProposal pending hash input p =
      Entries.put hash (extend (Entries.find? hash pending) input p) pending := by
  unfold addProposal
  cases Entries.find? hash pending <;> rfl

theorem group?_append (hash : String) (ps : List (Document × Proposal)) (input : Document)
    (p : Proposal) :
    group? hash (ps ++ [(input, p)]) =
      if input.fingerprint = hash then some (extend (group? hash ps) input p)
      else group? hash ps := by
  unfold group?
  rw [List.filter_append]
  by_cases h : input.fingerprint = hash
  · rw [if_pos h, List.filter_cons_of_pos (by simpa using h), List.filter_nil]
    cases ps.filter (·.1.fingerprint = hash) with
    | nil => rfl
    | cons q rest => simp [extend]
  · rw [if_neg h, List.filter_cons_of_neg (by simpa using h), List.filter_nil, List.append_nil]

/-- What is proposed under a fingerprint is what its proposals say. -/
theorem group?_eq_some {hash : String} {ps : List (Document × Proposal)} {c : ProposedInput}
    (h : group? hash ps = some c) :
    c.input.fingerprint = hash ∧ (∃ p, (c.input, p) ∈ ps) ∧
      ∀ p, p ∈ c.proposals ↔ ∃ input, (input, p) ∈ ps ∧ input.fingerprint = hash := by
  have hmem (input : Document) (p : Proposal) :
      (input, p) ∈ ps.filter (·.1.fingerprint = hash) ↔
        (input, p) ∈ ps ∧ input.fingerprint = hash := by
    rw [List.mem_filter, decide_eq_true_iff]
  unfold group? at h
  split at h
  · cases h
  · rename_i input p rest hfilter
    cases h
    rw [hfilter] at hmem
    obtain ⟨hfirst, hhash⟩ := (hmem input p).mp (List.mem_cons_self ..)
    refine ⟨hhash, ⟨p, hfirst⟩, fun q => ?_⟩
    simp only [← hmem, List.mem_cons, List.mem_map, Prod.mk.injEq, Prod.exists,
      exists_eq_right]
    constructor
    · rintro (rfl | ⟨d, hd⟩)
      · exact ⟨input, Or.inl ⟨rfl, rfl⟩⟩
      · exact ⟨d, Or.inr hd⟩
    · rintro ⟨d, ⟨-, rfl⟩ | hd⟩
      · exact Or.inl rfl
      · exact Or.inr ⟨d, hd⟩

/-- Every proposal is in the group of its fingerprint. -/
theorem exists_group? {input : Document} {p : Proposal} {ps : List (Document × Proposal)}
    (h : (input, p) ∈ ps) : ∃ c, group? input.fingerprint ps = some c := by
  have hmem : (input, p) ∈ ps.filter (·.1.fingerprint = input.fingerprint) := by
    simpa using h
  unfold group?
  cases hfilter : ps.filter (·.1.fingerprint = input.fingerprint) with
  | nil =>
    rw [hfilter] at hmem
    cases hmem
  | cons q rest => exact ⟨_, rfl⟩

/-! ### What is collected -/

variable {known : OrderedSet String} {ps : List (Document × Proposal)}

theorem collectCandidates_append (known : OrderedSet String) (ps : List (Document × Proposal))
    (input : Document) (p : Proposal) :
    collectCandidates known (ps ++ [(input, p)]) =
      if input.fingerprint ∈ known then collectCandidates known ps
      else addProposal (collectCandidates known ps) input.fingerprint input p := by
  unfold collectCandidates
  rw [List.foldl_append]
  rfl

theorem collectCandidates_ascending (known : OrderedSet String)
    (ps : List (Document × Proposal)) : Entries.Ascending (collectCandidates known ps) := by
  induction ps using List.reverseRecOn with
  | nil => exact List.Pairwise.nil
  | append_singleton ps a ih =>
    rw [collectCandidates_append]
    split
    · exact ih
    · rw [addProposal_eq_put]
      exact Entries.ascending_put _ _ ih

/-- **Under a fingerprint that is not known stands its group.** -/
theorem find?_collectCandidates (known : OrderedSet String) (ps : List (Document × Proposal))
    (hash : String) :
    Entries.find? hash (collectCandidates known ps) =
      if hash ∈ known then none else group? hash ps := by
  induction ps using List.reverseRecOn with
  | nil => exact (ite_self none).symm
  | append_singleton ps a ih =>
    obtain ⟨input, p⟩ := a
    rw [collectCandidates_append, group?_append]
    by_cases hhash : input.fingerprint = hash
    · subst hhash
      by_cases hk : input.fingerprint ∈ known
      · rw [if_pos hk, ih, if_pos hk, if_pos hk]
      · rw [if_neg hk, addProposal_eq_put, Entries.find?_put_self, ih, if_neg hk, if_pos rfl,
          if_neg hk]
    · -- The proposal goes elsewhere, or nowhere.
      rw [if_neg hhash, ← ih]
      split
      · rfl
      · rw [addProposal_eq_put, Entries.find?_put_of_ne (Ne.symm hhash)]

theorem mem_collectCandidates {hash : String} {c : ProposedInput} :
    (hash, c) ∈ collectCandidates known ps ↔ hash ∉ known ∧ group? hash ps = some c := by
  rw [← Entries.find?_eq_some_iff (collectCandidates_ascending known ps),
    find?_collectCandidates]
  by_cases hk : hash ∈ known <;> simp [hk]

/-- **Further known fingerprints take out their groups**, and leave the others as they are. -/
theorem collectCandidates_union (known more : OrderedSet String)
    (ps : List (Document × Proposal)) :
    collectCandidates (known.union more) ps =
      (collectCandidates known ps).filter fun e => !decide (e.1 ∈ more) := by
  refine Entries.eq_of_find? (collectCandidates_ascending ..)
    ((collectCandidates_ascending known ps).filter _) fun hash => ?_
  rw [Entries.find?_filter (fun k => !decide (k ∈ more)), find?_collectCandidates,
    find?_collectCandidates]
  by_cases hk : hash ∈ known <;> by_cases hm : hash ∈ more <;> simp [hk, hm]

end DocumentRules
