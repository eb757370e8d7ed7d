/-
What the scores rank by.

A score is one floating-point number, and the suggestions are sorted by these numbers in their
total order, then by fingerprint.  Below `2 ^ 52` new facts the half point for a rule without
earlier facts is added without rounding.  It never makes up for a fact, so that the order by
score is lexicographic: by the number of new facts, and only among equals by the half point.

* **`Binary64.place_add`** — an exact sum stands where its value does;
* **`deltaScore_place`** — a score stands where its points do;
* **`points_lt_points`** — the order of the points;
* **`suggestions_ranked`** — what is suggested is in the lexicographic order, strictly.
-/
import DocumentRules.Proofs.Number.Exact
import DocumentRules.Proofs.Suggestion.Ranking

namespace DocumentRules

/-! ### Exact sums -/

namespace Binary64

variable {x y : Binary64} {r t : ℚ} {k n d : ℕ} {e : ℤ}

/-- The place of a number with this value and no minus sign. -/
def placeAt (r : ℚ) : ℕ ×ₗ ℚ ×ₗ Bool := toLex (1, toLex (r, true))

theorem placeAt_lt : placeAt r < placeAt t ↔ r < t := by
  simp [placeAt, Prod.Lex.toLex_lt_toLex]

theorem placeAt_inj : placeAt r = placeAt t ↔ r = t := by
  simp [placeAt]

theorem place_zero : (zero false).place = placeAt 0 := by
  rw [zero, place, toRat_finite, Nat.cast_zero, zero_mul]
  rfl

/-- A quotient with a significand of at most 53 bits stands where its value does. -/
theorem place_ofQuotient (hd : 0 < d) (hk : k < 2 ^ 53) (hlow : -1022 ≤ e) (hhigh : e ≤ 971)
    (hv : (n : ℚ) / d = k * 2 ^ e) : (ofQuotient false n d).place = placeAt ((n : ℚ) / d) := by
  obtain ⟨m, q, hcanonical, hm⟩ := exists_canonical hk hlow hhigh
  have hnumber := ofQuotient_exact (s := false) hd hcanonical (hv.trans hm)
  obtain ⟨-, hvalue⟩ := toRat_ofQuotient (s := false) hd hcanonical (hv.trans hm)
  rw [hnumber] at hvalue ⊢
  rw [place, hvalue]
  rfl

/-- **An exact sum stands where its value does.** -/
theorem place_add (hx : x.place = placeAt r) (hy : y.place = placeAt t) (hk : k < 2 ^ 53)
    (hlow : -1022 ≤ e) (hhigh : e ≤ 971) (hv : r + t = k * 2 ^ e) :
    (x.add y).place = placeAt (r + t) := by
  match x, y with
  | .finite s m q h, .finite s' m' q' h' =>
    have finite_place {s : Bool} {m : ℕ} {q : ℤ} {h : Canonical m q} {r : ℚ}
        (hx : (finite s m q h).place = placeAt r) : toRat (.finite s m q h) = r ∧ s = false := by
      simpa [place, placeAt] using hx
    obtain ⟨hr, rfl⟩ := finite_place hx
    obtain ⟨ht, rfl⟩ := finite_place hy
    have hnonneg : 0 ≤ r + t := hv ▸ by positivity
    rw [add, hr, ht]
    by_cases hzero : r + t = 0
    · rw [hzero]
      exact place_zero
    · -- The value as the quotient that is rounded.
      have hquotient : ((r + t).num.natAbs : ℚ) / (r + t).den = r + t := by
        rw [abs_num_div_den, abs_of_nonneg hnonneg]
      have hsign : decide ((r + t).num < 0) = false :=
        decide_eq_false (not_lt.mpr (Rat.num_nonneg.mpr hnonneg))
      simp only [if_neg hzero, ofRat, hsign]
      rw [place_ofQuotient (r + t).den_pos hk hlow hhigh (hquotient.trans hv), hquotient]
  | .infinity true, _ | .infinity false, _ | .nan, _ => simp [place, placeAt] at hx
  | .finite .., .infinity true | .finite .., .infinity false | .finite .., .nan =>
    simp [place, placeAt] at hy

end Binary64

/-! ### Scores -/

/-- One point for each new fact, and half a point more if the rule had no fact before. -/
def points (delta prior : ℕ) : ℚ := delta + if prior = 0 then 1 / 2 else 0

/-- **A score stands where its points do.** -/
theorem deltaScore_place {delta prior : ℕ} (h : delta < 2 ^ 52) :
    (deltaScore delta prior).place = Binary64.placeAt (points delta prior) := by
  have hdelta : (Binary64.ofNat delta).place = Binary64.placeAt delta := by
    have hplace := Binary64.place_ofQuotient (n := delta) (d := 1) (k := delta) (e := 0) one_pos
      (by omega) (by decide) (by decide) (by simp)
    rwa [Nat.cast_one, div_one] at hplace
  have hbonus : (if prior = 0 then Binary64.ofQuotient false 1 2 else .zero false).place =
      Binary64.placeAt (if prior = 0 then 1 / 2 else 0) := by
    split
    · have hplace := Binary64.place_ofQuotient (n := 1) (d := 2) (k := 1) (e := -1) two_pos
        (by decide) (by decide) (by decide) (by norm_num)
      rwa [Nat.cast_one, Nat.cast_ofNat] at hplace
    · exact Binary64.place_zero
  -- The sum in halves.
  refine Binary64.place_add (k := 2 * delta + if prior = 0 then 1 else 0) (e := -1) hdelta hbonus
    (by split <;> omega) (by decide) (by decide) ?_
  split <;> push_cast <;> ring

/-- **The order of the points**: half a point never makes up for a fact. -/
theorem points_lt_points {delta delta' prior prior' : ℕ} :
    points delta prior < points delta' prior' ↔
      delta < delta' ∨ (delta = delta' ∧ prior ≠ 0 ∧ prior' = 0) := by
  rcases lt_trichotomy delta delta' with hlt | rfl | hgt
  · have hstep : (delta : ℚ) + 1 ≤ delta' := by exact_mod_cast hlt
    refine iff_of_true ?_ (Or.inl hlt)
    unfold points
    split_ifs <;> linarith
  · unfold points
    split_ifs <;> simp [*]
  · have hstep : (delta' : ℚ) + 1 ≤ delta := by exact_mod_cast hgt
    refine iff_of_false ?_ (by omega)
    unfold points
    split_ifs <;> linarith

theorem points_eq_points {delta delta' prior prior' : ℕ} :
    points delta prior = points delta' prior' ↔
      delta = delta' ∧ (prior = 0 ↔ prior' = 0) := by
  rw [eq_iff_le_not_lt, ← not_lt, points_lt_points, points_lt_points]
  omega

/-! ### The order of the suggestions -/

/-- The rule has no fact in the coverage. -/
def Coverage.Untouched (coverage : Coverage) (rule : String) : Prop :=
  ∀ f ∈ coverage, f.rule ≠ rule

theorem Coverage.length_forRule_eq_zero {coverage : Coverage} {rule : String} :
    (coverage.forRule rule).length = 0 ↔ coverage.Untouched rule := by
  rw [List.length_eq_zero_iff, forRule, List.filter_eq_nil_iff]
  simp [Untouched, OrderedSet.mem_toList]

/-- One suggestion ranks in front of another one, over a coverage. -/
inductive Suggestion.Outranks (coverage : Coverage) (x y : Suggestion) : Prop
  /-- It covers more that was not covered, whatever was covered before. -/
  | larger (h : y.coverageDelta.size < x.coverageDelta.size)
  /-- It covers as much, and its rule alone had no fact. -/
  | untouched (hsize : x.coverageDelta.size = y.coverageDelta.size)
      (hx : coverage.Untouched x.rule) (hy : ¬ coverage.Untouched y.rule)
  /-- It covers as much and its rule had a fact if that of the other one had, and it has the
  smaller fingerprint. -/
  | hash (hsize : x.coverageDelta.size = y.coverageDelta.size)
      (hrule : coverage.Untouched x.rule ↔ coverage.Untouched y.rule) (h : x.hash < y.hash)

namespace Suggestion

variable {coverage : Coverage} {x y z : Suggestion}

theorem Outranks.size_le (h : Outranks coverage x y) :
    y.coverageDelta.size ≤ x.coverageDelta.size := by
  cases h with
  | larger h => exact h.le
  | untouched hsize | hash hsize => exact hsize.ge

/-- No suggestion ranks in front of itself. -/
theorem Outranks.irrefl (x : Suggestion) : ¬ Outranks coverage x x := by
  intro h
  cases h with
  | larger h => exact lt_irrefl _ h
  | untouched _ hx hy => exact hy hx
  | hash _ _ h => exact StrictOrder.irrefl _ h

theorem Outranks.trans (hxy : Outranks coverage x y) (hyz : Outranks coverage y z) :
    Outranks coverage x z := by
  cases hxy with
  | larger hxy => exact .larger (hyz.size_le.trans_lt hxy)
  | untouched hsize hx hy =>
    cases hyz with
    | larger hyz => exact .larger (hyz.trans_eq hsize.symm)
    | untouched _ hy' _ => exact absurd hy' hy
    | hash hsize' hrule _ => exact .untouched (hsize.trans hsize') hx (hrule.not.mp hy)
  | hash hsize hrule hhash =>
    cases hyz with
    | larger hyz => exact .larger (hyz.trans_eq hsize.symm)
    | untouched hsize' hy hz => exact .untouched (hsize.trans hsize') (hrule.mpr hy) hz
    | hash hsize' hrule' hhash' =>
      exact .hash (hsize.trans hsize') (hrule.trans hrule') (StrictOrder.trans hhash hhash')

/-- The points of a suggestion. -/
def points (coverage : Coverage) (x : Suggestion) : ℚ :=
  DocumentRules.points x.coverageDelta.size (coverage.forRule x.rule).length

instance : IsStrictOrder Suggestion (Outranks coverage) where
  irrefl := Outranks.irrefl
  trans _ _ _ := Outranks.trans

/-- Suggestions that stand where their points do, and have different fingerprints, are ranked
in the lexicographic order. -/
theorem outranks_of_ranksBefore (hx : x.score.place = Binary64.placeAt (x.points coverage))
    (hy : y.score.place = Binary64.placeAt (y.points coverage)) (hne : x.hash ≠ y.hash)
    (h : x.ranksBefore y = true) : Outranks coverage x y := by
  rw [ranksBefore_iff, hx, hy, Binary64.placeAt_lt, Binary64.placeAt_inj, points, points,
    points_lt_points, points_eq_points, ne_eq, Coverage.length_forRule_eq_zero,
    Coverage.length_forRule_eq_zero] at h
  rcases h with (hlarger | ⟨hsize, hyRule, hxRule⟩) | ⟨⟨hsize, hrule⟩, hhash⟩
  · exact .larger hlarger
  · exact .untouched hsize.symm hxRule hyRule
  · exact .hash hsize hrule ((StrictOrder.lt_or_lt_of_ne hne).resolve_right hhash)

end Suggestion

namespace SuggestionEngine

variable {e : SuggestionEngine Id} {s : Snapshot Id} {coverage : Coverage}
  {known : OrderedSet String} {x : Suggestion}

/-- The score of what is ranked counts its new facts and the facts that its rule had. -/
theorem score_of_mem_ranking (hx : x ∈ e.ranking s coverage known) :
    x.score = e.score x.coverageDelta.size (coverage.forRule x.rule).length := by
  obtain ⟨c, -, -, hsuggestion⟩ := mem_ranking.mp hx
  obtain ⟨r, p, -, -, -, hsuggestion⟩ := validate_eq_some.mp hsuggestion
  rw [← hsuggestion]
  rfl

/-- What is suggested is a part of the ranking, in the order of the ranks and without a
fingerprint in common. -/
theorem suggest_pairwise (limit : ℕ) :
    (e.suggest s coverage known limit).run.Pairwise fun x y =>
      x.ranksBefore y = true ∧ x.hash ≠ y.hash := by
  have hordered : (e.ranking s coverage known).Pairwise (Suggestion.ranksBefore · · = true) :=
    sortBy_pairwise Suggestion.ranksBefore_total Suggestion.ranksBefore_trans _
  rw [suggest_eq_take]
  exact (hordered.and (List.pairwise_map.mp nodup_ranking_hashes)).take

end SuggestionEngine

/-- **What is suggested is in the lexicographic order, strictly**: by the number of new facts,
then the rules without any fact in the given coverage in front, then by fingerprint.  No half
point makes up for a fact, and for a smaller limit the beginning of the same list is suggested. -/
theorem suggestions_ranked (s : Snapshot Id) (coverage : Coverage) (known : OrderedSet String)
    (config : SuggestConfig) (custom : List (Strategy Id)) (options : RunOptions) (limit : ℕ) :
    let e : SuggestionEngine Id := .ofConfig config custom deltaScore options
    let suggested := (e.suggest s coverage known limit).run
    ((∀ x ∈ suggested, x.coverageDelta.size < 2 ^ 52) →
      suggested.Pairwise (Suggestion.Outranks coverage) ∧
      suggested.Pairwise fun x y => y.coverageDelta.size ≤ x.coverageDelta.size) ∧
    ∀ n ≤ limit, (e.suggest s coverage known n).run <+: suggested := by
  intro e suggested
  have hsuggested : suggested = (e.ranking s coverage known).take limit := e.suggest_eq_take ..
  refine ⟨fun hsizes => ?_, fun n hn => ?_⟩
  · have hplace : ∀ x ∈ suggested, x.score.place = Binary64.placeAt (x.points coverage) := by
      intro x hx
      rw [hsuggested] at hx
      rw [SuggestionEngine.score_of_mem_ranking (List.mem_of_mem_take hx)]
      exact deltaScore_place (hsizes x (hsuggested ▸ hx))
    have hordered : suggested.Pairwise (Suggestion.Outranks coverage) := by
      refine (SuggestionEngine.suggest_pairwise limit).imp_of_mem ?_
      intro x y hx hy ⟨hbefore, hne⟩
      exact Suggestion.outranks_of_ranksBefore (hplace x hx) (hplace y hy) hne hbefore
    exact ⟨hordered, hordered.imp Suggestion.Outranks.size_le⟩
  · rw [e.suggest_eq_take, hsuggested]
    exact List.take_prefix_take_left hn

/-! ### Three suggestions, one by each step of the order -/

open Chained in
/-- The second rule has a fact in the coverage, and so its suggestion comes last, although it
has the smallest fingerprint. -/
theorem suggestions_ranked_chained :
    let coverage : Coverage := .ofList [⟨"second", [.key "z"]⟩]
    let e : SuggestionEngine Id := .ofConfig {}
    let suggested := (e.suggest snapshot coverage ∅ 10).run
    suggested.map (·.rule) = ["first", "first", "second"] ∧
      suggested.Pairwise (Suggestion.Outranks coverage) ∧
      (e.suggest snapshot coverage ∅ 2).run <+: suggested := by
  have hrun :
      let suggested := ((SuggestionEngine.ofConfig {}).suggest snapshot
        (.ofList [⟨"second", [.key "z"]⟩]) ∅ 10).run
      suggested.map (·.rule) = ["first", "first", "second"] ∧
        ∀ x ∈ suggested, x.coverageDelta.size < 2 ^ 52 := by
    decide +kernel
  obtain ⟨hranked, hbeginning⟩ := suggestions_ranked snapshot (.ofList [⟨"second", [.key "z"]⟩]) ∅
    {} [] .minimal 10
  exact ⟨hrun.1, (hranked hrun.2).1, hbeginning 2 (by decide)⟩

end DocumentRules
