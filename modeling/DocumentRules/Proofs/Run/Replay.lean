/-
Replaying the recorded changes of a run.

The record of a run is one list of changes, those of one rule after those of another.  Taken
apart again into the groups of one rule, and each group carried out in turn, the changes lead
from the document that the run started with to the one that it ended with.

* **`replay?`** — all the changes of a record, group after group;
* **`TakeTurns.exists_replay`** — the changes of a row of turns replay to where the row ends,
  from every value equal to the one it starts from;
* **`replay_mutations`** — so the record of a run replays to its result.

A rule that failed or had no effect leaves no group, so the groups are those of the other rules;
two of these have different ids, which is how the record can be taken apart.
-/
import DocumentRules.Proofs.Change.Replay
import DocumentRules.Proofs.Run.Frame
import Mathlib.Data.List.SplitBy

namespace DocumentRules

/-- The document after recorded changes, one group of neighbours of one rule after another; none
if some change cannot be carried out. -/
def replay? (cs : List Mutation) (d : Value) : Option Value :=
  (cs.splitBy fun b c => b.rule == c.rule).foldlM replayGroup? d

/-! ### Groups -/

theorem settings_map_byRule (id : String) (cs : List Mutation) :
    settings (cs.map (Mutation.byRule id)) = (settings cs).map (Mutation.byRule id) :=
  List.filter_map

theorem removals_map_byRule (id : String) (cs : List Mutation) :
    removals (cs.map (Mutation.byRule id)) = (removals cs).map (Mutation.byRule id) := by
  rw [removals, removals, List.filter_map, ← List.map_reverse]
  rfl

/-- Who made the changes plays no part in carrying them out. -/
theorem replayGroup?_map_byRule (id : String) (d : Value) (cs : List Mutation) :
    replayGroup? d (cs.map (Mutation.byRule id)) = replayGroup? d cs := by
  have hfold (d : Value) (cs : List Mutation) :
      (cs.map (Mutation.byRule id)).foldlM Mutation.carryOut? d =
        cs.foldlM Mutation.carryOut? d := List.foldlM_map ..
  simp only [replayGroup?, settings_map_byRule, removals_map_byRule, hfold]

/-- **The first group**: changes of one rule, in front of changes of others. -/
theorem replay?_append {id : String} {cs rest : List Mutation} (d : Value)
    (hcs : ∀ c ∈ cs, c.rule = some id) (hrest : ∀ c ∈ rest, c.rule ≠ some id) :
    replay? (cs ++ rest) d = (replayGroup? d cs).bind (replay? rest) := by
  cases cs with
  | nil => rfl
  | cons c cs =>
    have hchain : (c :: cs).IsChain fun b c => (b.rule == c.rule) = true := by
      refine (List.pairwise_of_forall_mem_list fun a ha b hb => ?_).isChain
      rw [hcs a ha, hcs b hb, beq_self_eq_true]
    have hbreak : ∀ a ∈ (c :: cs).getLast?, ∀ b ∈ rest.head?, (a.rule == b.rule) = false := by
      intro a ha b hb
      rw [hcs a (List.mem_of_getLast? ha), beq_eq_false_iff_ne]
      exact (hrest b (List.mem_of_head? hb)).symm
    rw [replay?, List.splitBy_append hbreak, List.splitBy_of_isChain (List.cons_ne_nil c cs) hchain,
      List.foldlM_append, List.foldlM_cons]
    cases replayGroup? d (c :: cs) <;> rfl

/-! ### Rows of turns -/

open RunResult (lastOf lastOf_cons)

variable {m : Type → Type}

/-- **The changes of a row of turns replay**, if no two of its rules have one id. -/
theorem TakeTurns.exists_replay {rs : List (Rule m)} {d : Document} {ts : List (Turn m)}
    (h : TakeTurns rs d ts) (hids : (rs.map Rule.id).Nodup) (hnan : NanFreeTurns d ts) {v : Value}
    (hv : v.WellFormed) (hvd : v.equal d.value = true) :
    ∃ e, replay? (ts.flatMap Turn.changes) v = some e ∧ e.equal (lastOf d ts).value = true := by
  induction h generalizing v with
  | nil d => exact ⟨v, rfl, hvd⟩
  | failed r failure rest ih =>
    rw [lastOf_cons]
    exact ih (List.nodup_cons.mp hids).2 hnan.tail hv hvd
  | @completed rs d e ts r declared rest ih =>
    obtain ⟨hfresh, hids⟩ := List.nodup_cons.mp hids
    obtain ⟨w, hw, hwf, hwe⟩ := Value.exists_replayGroup d.wellFormed e.wellFormed hv
      (hnan.after _ (List.mem_cons_self ..)) hvd
    obtain ⟨f, hf, hlast⟩ := ih hids hnan.tail hwf hwe
    have hown : ∀ c ∈ diffBy r.id d.value e.value, c.rule = some r.id := fun _ =>
      rule_of_mem_diffBy
    have hothers : ∀ c ∈ ts.flatMap Turn.changes, c.rule ≠ some r.id := by
      intro c hc hrule
      obtain ⟨t, ht, hct⟩ := List.mem_flatMap.mp hc
      rw [((rest.authorised ht).changes c hct).1, Option.some.injEq] at hrule
      have hmem : t.rule.id ∈ rs.map Rule.id :=
        List.mem_map_of_mem (rest.map_rule ▸ List.mem_map_of_mem ht)
      exact hfresh (hrule ▸ hmem)
    refine ⟨f, ?_, by rw [lastOf_cons]; exact hlast⟩
    rw [List.flatMap_cons]
    exact (replay?_append v hown hothers).trans
      (by rw [diffBy, replayGroup?_map_byRule, hw, Option.bind_some, hf])

variable {g : Registry m} {s : Snapshot m}

theorem Registry.nodup_orderedRules_ids (hg : g.Reachable) (hs : Snapshot.ofRegistry g = .ok s) :
    (s.orderedRules.map Rule.id).Nodup :=
  List.pairwise_map.mpr
    ((Registry.orderedRules_pairwise hg.compatible hs).imp fun h => h.2.ids)

/-- **The record of a run replays to its result.**  Carried out on the document that the run
started with, group after group, every change finds what it says was there, and the last group
leaves the document that the run ended with.

In particular the changes between two documents lead from the first one to the second; two
documents with the same changes from a third one are equal; and there is no change only between
equal documents. -/
theorem replay_mutations [Monad m] [LawfulMonad m] (hg : g.Reachable)
    (hs : Snapshot.ofRegistry g = .ok s) (options : RunOptions) (d : Document) :
    (s.EveryRun options d fun turns result => NanFreeTurns d turns →
      ∃ e, replay? result.mutations result.before.value = some e ∧
        e.equal result.after.value = true) ∧
    ∀ (id : String) (before after : Document), before.NanFree → after.NanFree →
      (∃ e, replayGroup? before.value (diffBy id before.value after.value) = some e ∧
        e.equal after.value = true) ∧
      (∀ other : Document, other.NanFree →
        diffBy id before.value other.value = diffBy id before.value after.value →
          other.value.equal after.value = true) ∧
      (diffBy id before.value after.value = [] ↔ before.value.equal after.value = true) := by
  refine ⟨Snapshot.everyRun_of_takeTurns ?_, ?_⟩
  · intro turns hturns hnan
    exact hturns.exists_replay (Registry.nodup_orderedRules_ids hg hs) hnan d.wellFormed
      (Value.equal_refl hnan.first)
  · intro id before after hbefore hafter
    have hdiff (other : Document) (hother : other.NanFree) :
        ∃ e, replayGroup? before.value (diffBy id before.value other.value) = some e ∧
          e.equal other.value = true := by
      obtain ⟨e, he, -, hequal⟩ := Value.exists_replayGroup before.wellFormed other.wellFormed
        before.wellFormed hother (Value.equal_refl hbefore)
      exact ⟨e, (replayGroup?_map_byRule ..).trans he, hequal⟩
    refine ⟨hdiff after hafter, ?_, ?_⟩
    · intro other hother hsame
      obtain ⟨e, he, hother⟩ := hdiff other hother
      obtain ⟨f, hf, hafter⟩ := hdiff after hafter
      rw [hsame, hf] at he
      cases he
      exact Value.equal_trans (Value.equal_symm hother) hafter
    · rw [diffBy, List.map_eq_nil_iff]
      exact Value.diff_eq_nil_iff before.wellFormed after.wellFormed hbefore hafter

open Chained in
/-- Two rules that each add a key: the record has two groups of one change. -/
theorem replay_mutations_chained :
    (∃ turns, (trace snapshot.orderedRules document).run = .ok turns ∧
      (turns.flatMap Turn.changes).length = 2 ∧
      ∃ e, replay? (turns.flatMap Turn.changes) document.value = some e ∧
        e.equal (lastOf document turns).value = true) ∧
    ∃ e, replayGroup? document.value (diffBy "r" document.value Document.emptyMap.value) = some e ∧
      e.equal Document.emptyMap.value = true := by
  have hreplay := replay_mutations reachable ofRegistry_eq {} document
  refine ⟨⟨_, rfl, by decide, ?_⟩, ?_⟩
  · exact Snapshot.everyRun_id.mp hreplay.1 _ rfl ⟨by decide, by decide⟩
  · exact (hreplay.2 "r" document .emptyMap (by decide) (by decide)).1

end DocumentRules
