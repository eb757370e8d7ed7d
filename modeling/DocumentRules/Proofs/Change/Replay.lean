/-
Carrying out the changes of a difference.

A recorded change can be carried out on a document that holds, at the path of the change,
what the change says was there.  The changes between two documents, carried out on the first
one, give the second: additions and replacements in their order, then the removals in the
opposite order, so that no removal moves a list member that another change is about.

* **`Mutation.carryOut?`**, **`replayGroup?`** — one change, and a group of changes;
* **`Value.exists_leads_under`** — what changes make of a child is what they make of the value,
  one step up, and **`Value.exists_leads_steps`** — the same at several steps in turn;
* **`Value.exists_replay`** — the changes of a difference lead from every value equal to the old
  one to a value equal to the new one;
* **`Value.diff_eq_nil_iff`** — only equal documents have no change between them.

Values that differ only in the sign of a zero are equal, so the start of a replay need only be
equal to the old document, and its end need not be the new document itself.
-/
import DocumentRules.Proofs.Change.Listing
import DocumentRules.Proofs.Document.Removal

namespace DocumentRules

open Mutation (sameValue)

/-! ### Carrying out changes -/

namespace Mutation

/-- The document after the change; none if it does not hold what the change says was there: for
an addition nothing, else a value equal to the old one. -/
def carryOut? (d : Value) (c : Mutation) : Option Value :=
  match c.op, c.old, c.new with
  | .add, _, some v => if d.has c.path then none else some (d.set c.path v)
  | .replace, some u, some v =>
    if sameValue (d.get? c.path) (some u) then some (d.set c.path v) else none
  | .remove, some u, _ =>
    if sameValue (d.get? c.path) (some u) then some (d.remove c.path).2 else none
  | _, _, _ => none

def isRemoval (c : Mutation) : Bool := c.op == .remove

end Mutation

/-- The additions and replacements of a group, in their order. -/
def settings (cs : List Mutation) : List Mutation := cs.filter (!·.isRemoval)

/-- The removals of a group, the last one first. -/
def removals (cs : List Mutation) : List Mutation := (cs.filter (·.isRemoval)).reverse

/-- The document after a group of changes. -/
def replayGroup? (d : Value) (cs : List Mutation) : Option Value :=
  ((settings cs).foldlM Mutation.carryOut? d).bind fun e =>
    (removals cs).foldlM Mutation.carryOut? e

/-- The changes can be carried out one after another, and lead from one value to the other. -/
def Leads (cs : List Mutation) (d e : Value) : Prop := cs.foldlM Mutation.carryOut? d = some e

namespace Leads

theorem nil (d : Value) : Leads [] d d := rfl

theorem single {c : Mutation} {d e : Value} (h : Mutation.carryOut? d c = some e) :
    Leads [c] d e := by
  rw [Leads, List.foldlM_cons, h]
  rfl

theorem append {cs cs' : List Mutation} {d e f : Value} (h : Leads cs d e) (h' : Leads cs' e f) :
    Leads (cs ++ cs') d f := by
  rw [Leads] at h h' ⊢
  rw [List.foldlM_append, h]
  exact h'

end Leads

namespace Value

/-! ### Equal values -/

theorem sameValue_getElem? {as bs : List Value}
    (h : List.Forall₂ (fun a b => equal a b = true) as bs) (i : Nat) :
    sameValue as[i]? bs[i]? = true := by
  induction h generalizing i with
  | nil => rfl
  | cons hab _ ih =>
    cases i with
    | zero => exact hab
    | succ i => exact ih i

theorem sameValue_find? {as bs : List (String × Value)}
    (h : List.Forall₂ (fun e f => e.1 = f.1 ∧ equal e.2 f.2 = true) as bs) (k : String) :
    sameValue (Entries.find? k as) (Entries.find? k bs) = true := by
  induction h with
  | nil => rfl
  | @cons e f _ _ hef _ ih =>
    obtain ⟨l, a⟩ := e
    obtain ⟨l', b⟩ := f
    obtain ⟨rfl, hab⟩ := hef
    rw [Entries.find?, Entries.find?]
    split
    · exact hab
    · exact ih

/-- Equal values have equal children. -/
theorem sameValue_child? {u v : Value} (h : equal u v = true) (s : Step) :
    sameValue (child? u s) (child? v s) = true := by
  cases u with
  | list as =>
    obtain ⟨bs, rfl, hab⟩ := equal_list_iff.mp h
    cases s with
    | index i => exact sameValue_getElem? hab i
    | key k => rfl
  | map as =>
    obtain ⟨bs, rfl, hab⟩ := equal_map_iff.mp h
    cases s with
    | key k => exact sameValue_find? hab k
    | index i => rfl
  | _ =>
    have hv : v.isContainer = false := by
      rcases (equal_scalar_iff rfl).mp h with ⟨rfl, -⟩ | ⟨_, _, -, rfl, -⟩ <;> rfl
    rw [child?_of_scalar rfl, child?_of_scalar hv]
    rfl

/-! ### One step up -/

/-- What a change makes of a child it makes of the value, one step up. -/
theorem carryOut?_under {d c : Value} {s : Step} {m : Mutation} (hc : child? d s = some c)
    (hm : m.isRemoval = true → m.path ≠ []) :
    Mutation.carryOut? d (m.under s) = (Mutation.carryOut? c m).map (putChild d s) := by
  obtain ⟨p, op, old, new, rule⟩ := m
  have hget : get? d (s :: p) = get? c p := by rw [get?_cons, hc, Option.bind_some]
  have hset (v : Value) : set d (s :: p) v = putChild d s (set c p v) := by
    rw [set, hc, Option.getD_some]
  have hhas : has d (s :: p) = has c p := by rw [has, has, hget]
  cases op with
  | add =>
    cases new with
    | none => rfl
    | some v =>
      simp only [Mutation.carryOut?, Mutation.under, hhas, hset]
      split <;> rfl
  | replace =>
    cases old with
    | none => rfl
    | some u =>
      cases new with
      | none => rfl
      | some v =>
        simp only [Mutation.carryOut?, Mutation.under, hget, hset]
        split <;> rfl
  | remove =>
    cases old with
    | none => rfl
    | some u =>
      simp only [Mutation.carryOut?, Mutation.under, hget, remove_cons hc (hm rfl)]
      split <;> rfl

/-- What changes make of a child they make of the value, one step up. -/
theorem leads_under (d : Value) {c e : Value} (s : Step) {cs : List Mutation}
    (hcs : ∀ m ∈ cs, m.isRemoval = true → m.path ≠ []) (h : Leads cs c e) :
    Leads (cs.map (Mutation.under s)) (putChild d s c) (putChild d s e) := by
  induction cs generalizing c with
  | nil =>
    cases h
    exact Leads.nil _
  | cons m cs ih =>
    rw [Leads, List.foldlM_cons] at h
    obtain ⟨c', hm, hrest⟩ := Option.bind_eq_some_iff.mp h
    have hfirst : Mutation.carryOut? (putChild d s c) (m.under s) = some (putChild d s c') := by
      rw [carryOut?_under (child?_putChild_self d s c) (hcs m (List.mem_cons_self ..)), hm,
        Option.map_some, putChild_putChild]
    exact (Leads.single hfirst).append
      (ih (fun m' hm' => hcs m' (List.mem_cons_of_mem _ hm')) hrest)

end Value

/-! ### Children that come and go -/

/-- What the changes make of what stands at one place: it is changed below, or it is new, or it
goes. -/
inductive PlaceLeads : List Mutation → Option Value → Option Value → Prop where
  | within {cs : List Mutation} {c e : Value} (below : ∀ m ∈ cs, m.isRemoval = true → m.path ≠ [])
      (he : e.WellFormed) (h : Leads cs c e) : PlaceLeads cs (some c) (some e)
  | added {c : Value} (hc : c.WellFormed) : PlaceLeads [.added [] c] none (some c)
  | removed {u c : Value} (h : c.equal u = true) : PlaceLeads [.removed [] u] (some c) none

namespace Value

/-- **Changes at one step.** What the changes make of the child they make of the value, and
leave the other children. A child can be added where no position in front of it is free, and
removed if it is the last of its list. -/
theorem exists_leads_under {d : Value} {s : Step} {cs : List Mutation} {x y : Option Value}
    (h : PlaceLeads cs x y) (hd : d.WellFormed) (hfits : d.fits s = true) (hx : child? d s = x)
    (hfilled : x = none → ∀ t, t.InFront s → child? d t ≠ none)
    (hlast : y = none → ∀ t, s.InFront t → child? d t = none) :
    ∃ e, Leads (cs.map (Mutation.under s)) d e ∧ e.WellFormed ∧ d.Persists e ∧
      ∀ t, child? e t = if t = s then y else child? d t := by
  have hput {c : Value} (hfilled : ∀ t, t.InFront s → child? d t ≠ none) (t : Step) :
      child? (putChild d s c) t = if t = s then some c else child? d t := by
    split
    · rename_i hts
      rw [hts, child?_putChild_self]
    · rename_i hts
      exact child?_putChild_of_filled (Ne.symm hts) hfits (hfilled t)
  cases h with
  | @within cs c e below he h =>
    have hlift := leads_under d s below h
    rw [putChild_child? hd hx] at hlift
    exact ⟨putChild d s e, hlift, wellFormed_putChild hd he, Or.inr (alike_putChild hfits),
      hput fun t => child?_of_inFront hx⟩
  | @added c hc =>
    refine ⟨putChild d s c, Leads.single ?_, wellFormed_putChild hd hc,
      Or.inr (alike_putChild hfits), hput (hfilled rfl)⟩
    have hmissing : has d [s] = false := by
      rw [has, get?_cons, hx]
      rfl
    simp [Mutation.carryOut?, Mutation.under, Mutation.added, hmissing, set]
  | @removed u c h =>
    refine ⟨(removeChild d s).2, Leads.single ?_, wellFormed_removeChild hd,
      Or.inr (alike_removeChild hfits), child?_removeChild_of_last (hlast rfl)⟩
    have hfound : get? d [s] = some c := by
      rw [get?_cons, hx]
      rfl
    simp [Mutation.carryOut?, Mutation.under, Mutation.removed, hfound, sameValue, h, remove]

/-! ### Step after step -/

/-- What stands at a step when some steps are done, where the others are as they were. -/
def standing (d : Value) (y : Step → Option Value) (done : List Step) (t : Step) : Option Value :=
  if t ∈ done then y t else child? d t

section Standing

variable {d : Value} {y : Step → Option Value} {done done' : List Step} {t : Step}

theorem standing_of_mem (h : t ∈ done) : standing d y done t = y t := if_pos h

theorem standing_of_not_mem (h : t ∉ done) : standing d y done t = child? d t := if_neg h

theorem standing_congr (h : t ∈ done ↔ t ∈ done') : standing d y done t = standing d y done' t := by
  simp only [standing, h]

end Standing

section Steps

variable {d : Value} {ss : List Step} {place : Step → List Mutation} {x y : Step → Option Value}

/-- **Changes at several steps**, one step after another. -/
theorem exists_leads_steps (hd : d.WellFormed) (hnodup : ss.Nodup)
    (hplace : ∀ s ∈ ss, PlaceLeads (place s) (x s) (y s)) (hfits : ∀ s ∈ ss, d.fits s = true)
    (hx : ∀ s ∈ ss, child? d s = x s)
    (hfilled : ∀ done s todo, ss = done ++ s :: todo → x s = none →
      ∀ t, t.InFront s → standing d y done t ≠ none)
    (hlast : ∀ done s todo, ss = done ++ s :: todo → y s = none →
      ∀ t, s.InFront t → standing d y done t = none) :
    ∃ e, Leads (ss.flatMap fun s => (place s).map (Mutation.under s)) d e ∧ e.WellFormed ∧
      d.Persists e ∧ ∀ t, child? e t = standing d y ss t := by
  -- The steps still to come are the recursion, those that are done say how far it has got.
  have hrest (todo done : List Step) (e : Value) (hss : ss = done ++ todo) (he : e.WellFormed)
      (hde : d.Persists e) (hchild : ∀ t, child? e t = standing d y done t) :
      ∃ f, Leads (todo.flatMap fun s => (place s).map (Mutation.under s)) e f ∧ f.WellFormed ∧
        d.Persists f ∧ ∀ t, child? f t = standing d y ss t := by
    induction todo generalizing done e with
    | nil =>
      rw [List.append_nil] at hss
      exact ⟨e, Leads.nil e, he, hde, hss ▸ hchild⟩
    | cons s todo ih =>
      have hs : s ∈ ss := hss ▸ List.mem_append_right _ (List.mem_cons_self ..)
      have hfresh : s ∉ done := by
        rw [hss, List.nodup_append] at hnodup
        exact fun hdone => hnodup.2.2 s hdone s (List.mem_cons_self ..) rfl
      have hse : child? e s = x s := by rw [hchild, standing, if_neg hfresh, hx s hs]
      obtain ⟨e', hlead, he', hee', hchild'⟩ := exists_leads_under (hplace s hs) he
        ((hde.fits s).trans (hfits s hs)) hse
        (fun hnone t ht => hchild t ▸ hfilled done s todo hss hnone t ht)
        (fun hnone t ht => hchild t ▸ hlast done s todo hss hnone t ht)
      obtain ⟨f, hleads, hf, hdf, hchildren⟩ := ih (done ++ [s]) e' (by simp [hss]) he'
        (hde.trans hee') fun t => by
          rw [hchild', hchild, standing, standing]
          by_cases hts : t = s <;> simp [hts]
      exact ⟨f, hlead.append hleads, hf, hdf, hchildren⟩
  exact hrest ss [] d rfl hd (Or.inl rfl) fun t => by simp [standing]

/-- In an ordered list the members before a member are those that have come when it does. -/
theorem mem_done_iff {r : Step → Step → Prop} (hr : ∀ s t, r s t → ¬ r t s)
    (hordered : ss.Pairwise r) {done todo : List Step} {s t : Step} (hss : ss = done ++ s :: todo)
    (hts : r t s) : t ∈ done ↔ t ∈ ss := by
  refine ⟨fun ht => hss ▸ List.mem_append_left _ ht, fun ht => ?_⟩
  rw [hss] at ht hordered
  rcases List.mem_append.mp ht with h | h
  · exact h
  · have hbehind := (List.pairwise_cons.mp (List.pairwise_append.mp hordered).2.1).1
    rcases List.mem_cons.mp h with rfl | h
    · exact absurd hts (hr t t hts)
    · exact absurd hts (hr s t (hbehind t h))

/-- **Filling up**: in ascending order something comes to every step where nothing stood, and to
every position in front of it. -/
theorem exists_leads_ascending (hd : d.WellFormed) (hasc : ss.Pairwise (· < ·))
    (hplace : ∀ s ∈ ss, PlaceLeads (place s) (child? d s) (y s))
    (hfits : ∀ s ∈ ss, d.fits s = true) (hy : ∀ s ∈ ss, y s ≠ none)
    (hfilled : ∀ s ∈ ss, child? d s = none → ∀ t, t.InFront s → standing d y ss t ≠ none) :
    ∃ e, Leads (ss.flatMap fun s => (place s).map (Mutation.under s)) d e ∧ e.WellFormed ∧
      d.Persists e ∧ ∀ t, child? e t = standing d y ss t := by
  refine exists_leads_steps hd (hasc.imp StrictOrder.ne_of_lt) hplace hfits (fun _ _ => rfl) ?_ ?_
  · intro done s todo hss hnone t hts
    have hs : s ∈ ss := hss ▸ List.mem_append_right _ (List.mem_cons_self ..)
    rw [standing_congr (mem_done_iff (fun _ _ => StrictOrder.asymm) hasc hss hts.lt)]
    exact hfilled s hs hnone t hts
  · intro done s todo hss hnone
    exact absurd hnone (hy s (hss ▸ List.mem_append_right _ (List.mem_cons_self ..)))

/-- **Taking away**: in descending order nothing is left behind a step where something goes. -/
theorem exists_leads_descending (hd : d.WellFormed) (hasc : ss.Pairwise (· < ·))
    (hplace : ∀ s ∈ ss, PlaceLeads (place s) (child? d s) (y s))
    (hfits : ∀ s ∈ ss, d.fits s = true) (hx : ∀ s ∈ ss, child? d s ≠ none)
    (hlast : ∀ s ∈ ss, y s = none → ∀ t, s.InFront t → standing d y ss t = none) :
    ∃ e, Leads (ss.reverse.flatMap fun s => (place s).map (Mutation.under s)) d e ∧
      e.WellFormed ∧ d.Persists e ∧ ∀ t, child? e t = standing d y ss t := by
  have hdesc : ss.reverse.Pairwise fun s t => t < s := List.pairwise_reverse.mpr hasc
  have hmem {s : Step} (hs : s ∈ ss.reverse) : s ∈ ss := List.mem_reverse.mp hs
  have hstanding (t : Step) : standing d y ss.reverse t = standing d y ss t :=
    standing_congr List.mem_reverse
  have hnodup : ss.reverse.Nodup := List.nodup_reverse.mpr (hasc.imp StrictOrder.ne_of_lt)
  have hleads := exists_leads_steps hd hnodup
    (fun s hs => hplace s (hmem hs)) (fun s hs => hfits s (hmem hs)) (fun _ _ => rfl)
    (fun done s todo hss hnone => absurd hnone
      (hx s (hmem (hss ▸ List.mem_append_right _ (List.mem_cons_self ..)))))
    (by
      intro done s todo hss hnone t hst
      have hs : s ∈ ss.reverse := hss ▸ List.mem_append_right _ (List.mem_cons_self ..)
      rw [standing_congr (mem_done_iff (fun _ _ => StrictOrder.asymm) hdesc hss hst.lt), hstanding]
      exact hlast s (hmem hs) hnone t hst)
  simpa only [hstanding] using hleads

end Steps

/-! ### The changes of a difference -/

theorem settings_blocks (u v : Value) (ss : List Step) :
    settings (blocks diffBetween u v ss) =
      ss.flatMap fun s => (settings (diffBetween (child? u s) (child? v s))).map
        (Mutation.under s) := by
  rw [settings, blocks, List.filter_flatMap]
  simp only [List.filter_map]
  rfl

theorem removals_blocks (u v : Value) (ss : List Step) :
    removals (blocks diffBetween u v ss) =
      ss.reverse.flatMap fun s => (removals (diffBetween (child? u s) (child? v s))).map
        (Mutation.under s) := by
  rw [removals, blocks, List.filter_flatMap, List.reverse_flatMap]
  simp only [List.filter_map, Function.comp_def, ← List.map_reverse]
  rfl

/-- Only what stands below a value can be removed from it. -/
theorem path_ne_nil_of_isRemoval {u v : Value} (hu : u.WellFormed) (hv : v.WellFormed)
    {m : Mutation} (hm : m ∈ diff u v) (hremoval : m.isRemoval = true) : m.path ≠ [] := by
  by_cases hk : alike u v = true
  · rw [diff_eq_blocks hu hv hk, blocks, List.mem_flatMap] at hm
    obtain ⟨s, -, hm⟩ := hm
    obtain ⟨m', -, rfl⟩ := List.mem_map.mp hm
    exact List.cons_ne_nil s m'.path
  · rw [diff_of_not_alike (by simpa using hk)] at hm
    split at hm
    · cases hm
    · rw [List.mem_singleton.mp hm] at hremoval
      cases hremoval

/-- What the two parts of a group of changes make of what stands at one place: after the first
one something stands there, after the second one what stands in the new document. -/
def PlaceReplays (a b x : Option Value) : Prop :=
  ∃ mid fin, PlaceLeads (settings (diffBetween a b)) x mid ∧ mid ≠ none ∧
    PlaceLeads (removals (diffBetween a b)) mid fin ∧ sameValue fin b = true

theorem placeReplays_of_both {u v u' : Value} (hu : u.WellFormed) (hv : v.WellFormed)
    (h : ∃ w e, Leads (settings (diff u v)) u' w ∧ Leads (removals (diff u v)) w e ∧
      w.WellFormed ∧ e.WellFormed ∧ equal e v = true) :
    PlaceReplays (some u) (some v) (some u') := by
  obtain ⟨w, e, hset, hremove, hw, he, hequal⟩ := h
  refine ⟨some w, some e, .within ?_ hw hset, Option.some_ne_none w, .within ?_ he hremove, hequal⟩
  · intro m hm hremoval
    simp only [settings, List.mem_filter, hremoval, Bool.not_true, reduceCtorEq, and_false] at hm
  · intro m hm hremoval
    rw [removals, List.mem_reverse, List.mem_filter] at hm
    exact path_ne_nil_of_isRemoval hu hv hm.1 hremoval

theorem placeReplays_of_removed {u u' : Value} (hu' : u'.WellFormed) (h : equal u' u = true) :
    PlaceReplays (some u) none (some u') :=
  ⟨some u', none, .within (fun _ hm => absurd hm List.not_mem_nil) hu' (Leads.nil u'),
    Option.some_ne_none u', .removed h, rfl⟩

theorem placeReplays_of_added {v : Value} (hv : v.WellFormed) (hn : v.NanFree) :
    PlaceReplays none (some v) none :=
  ⟨some v, some v, .added hv, Option.some_ne_none v,
    .within (fun _ hm => absurd hm List.not_mem_nil) hv (Leads.nil v), equal_refl hn⟩

/-- Two maps or two lists, child after child: the additions and replacements in ascending order,
the removals in descending order. -/
theorem exists_replay_of_alike {u v u' : Value} (hu : u.WellFormed) (hv : v.WellFormed)
    (hu' : u'.WellFormed) (h : equal u' u = true) (hk : alike u v = true)
    (hplace : ∀ s ∈ steps u v, PlaceReplays (child? u s) (child? v s) (child? u' s)) :
    ∃ w e, Leads (settings (diff u v)) u' w ∧ Leads (removals (diff u v)) w e ∧
      w.WellFormed ∧ e.WellFormed ∧ equal e v = true := by
  choose! mid fin hset hmid hremove hfin using hplace
  have hasc := (steps u v).ascending
  have huu' : alike u u' = true := alike_of_equal (isContainer_of_alike hk) (equal_symm h)
  have hfits (s : Step) (hs : s ∈ steps u v) : u'.fits s = true := by
    rw [Persists.fits (Or.inr huu')]
    rcases (mem_steps hu hv).mp hs with ⟨c, hc⟩ | ⟨c, hc⟩
    · exact fits_of_child? hc
    · rw [← Persists.fits (Or.inr hk)]
      exact fits_of_child? hc
  -- Where no step leads to a child of the old or the new value, nothing stands at any time.
  have houtside {t : Step} (ht : t ∉ steps u v) : child? u' t = none ∧ child? v t = none := by
    rw [mem_steps hu hv, not_or, not_exists, not_exists] at ht
    refine ⟨?_, Option.eq_none_iff_forall_ne_some.mpr ht.2⟩
    have hsame := sameValue_child? h t
    rwa [Option.eq_none_iff_forall_ne_some.mpr ht.1, Mutation.sameValue_none_right] at hsame
  obtain ⟨w, hlead, hw, hu'w, hwchild⟩ := exists_leads_ascending hu' hasc hset hfits hmid
    (by
      intro s hs hnone t hts
      have hnew : ∃ c, child? v s = some c := by
        refine ((mem_steps hu hv).mp hs).resolve_left fun ⟨c, hc⟩ => ?_
        have hsame := sameValue_child? h s
        rw [hnone, hc] at hsame
        cases hsame
      obtain ⟨c, hc⟩ := hnew
      have ht : t ∈ steps u v :=
        (mem_steps hu hv).mpr (Or.inr (Option.ne_none_iff_exists'.mp (child?_of_inFront hc hts)))
      rw [standing_of_mem ht]
      exact hmid t ht)
  have hwmid {s : Step} (hs : s ∈ steps u v) : child? w s = mid s := by
    rw [hwchild, standing_of_mem hs]
  have hend (t : Step) : sameValue (standing w fin (steps u v).toList t) (child? v t) = true := by
    by_cases ht : t ∈ steps u v
    · rw [standing_of_mem ht]
      exact hfin t ht
    · rw [standing_of_not_mem ht, hwchild, standing_of_not_mem ht, (houtside ht).1,
        (houtside ht).2]
      rfl
  obtain ⟨e, hlead', he, hwe, hechild⟩ := exists_leads_descending hw hasc
    (fun s hs => hwmid hs ▸ hremove s hs) (fun s hs => (hu'w.fits s).trans (hfits s hs))
    (fun s hs => hwmid hs ▸ hmid s hs)
    (by
      intro s hs hnone t hst
      have hgone : child? v s = none := by
        have hsame := hfin s hs
        rwa [hnone, Mutation.sameValue_none_left] at hsame
      have hbehind : child? v t = none := by
        by_contra hne
        obtain ⟨c, hc⟩ := Option.ne_none_iff_exists'.mp hne
        exact child?_of_inFront hc hst hgone
      have hsame := hend t
      rwa [hbehind, Mutation.sameValue_none_right] at hsame)
  refine ⟨w, e, ?_, ?_, hw, he, equal_of_children he hv ?_ fun t => hechild t ▸ hend t⟩
  · rw [diff_eq_blocks hu hv hk, settings_blocks]
    exact hlead
  · rw [diff_eq_blocks hu hv hk, removals_blocks]
    exact hlead'
  · exact alike_of_persists (hu'w.trans hwe) (alike_trans (alike_comm u' u ▸ huu') hk)

/-- **Replaying a difference.** From every value equal to the old one the additions and
replacements of a difference, and then its removals, lead to a value equal to the new one. -/
theorem exists_replay {u v u' : Value} (hu : u.WellFormed) (hv : v.WellFormed)
    (hu' : u'.WellFormed) (hn : v.NanFree) (h : equal u' u = true) :
    ∃ w e, Leads (settings (diff u v)) u' w ∧ Leads (removals (diff u v)) w e ∧
      w.WellFormed ∧ e.WellFormed ∧ equal e v = true := by
  induction u using childInduction generalizing v u' with
  | _ u ih =>
  by_cases hk : alike u v = true
  · refine exists_replay_of_alike hu hv hu' h hk fun s hs => ?_
    have hsame := sameValue_child? h s
    cases ha : child? u s with
    | none =>
      rw [ha, Mutation.sameValue_none_right] at hsame
      obtain ⟨b, hb⟩ := ((mem_steps hu hv).mp hs).resolve_left (by simp [ha])
      rw [hsame, hb]
      exact placeReplays_of_added (wellFormed_of_child? hv hb) (nanFree_of_child? hn hb)
    | some a =>
      rw [ha] at hsame
      obtain ⟨a', ha', haa'⟩ :=
        Mutation.sameValue_some_left.mp (Mutation.sameValue_symm hsame)
      have ha'w := wellFormed_of_child? hu' ha'
      rw [ha']
      cases hb : child? v s with
      | none => exact placeReplays_of_removed ha'w (equal_symm haa')
      | some b =>
        have haw := wellFormed_of_child? hu ha
        have hbw := wellFormed_of_child? hv hb
        exact placeReplays_of_both haw hbw
          (ih s a ha haw hbw ha'w (nanFree_of_child? hn hb) (equal_symm haa'))
  · rw [diff_of_not_alike (by simpa using hk)]
    split
    · rename_i huv
      exact ⟨u', u', Leads.nil u', Leads.nil u', hu', hu', equal_trans h huv⟩
    · have hreplace : Mutation.carryOut? u' (.replaced [] u v) = some v := by
        simp [Mutation.carryOut?, Mutation.replaced, sameValue, h, set]
      exact ⟨v, v, Leads.single hreplace, Leads.nil v, hv, hv, equal_refl hn⟩

/-- **A difference leads to the new document**, carried out as one group. -/
theorem exists_replayGroup {u v u' : Value} (hu : u.WellFormed) (hv : v.WellFormed)
    (hu' : u'.WellFormed) (hn : v.NanFree) (h : equal u' u = true) :
    ∃ e, replayGroup? u' (diff u v) = some e ∧ e.WellFormed ∧ equal e v = true := by
  obtain ⟨w, e, hset, hremove, -, he, hequal⟩ := exists_replay hu hv hu' hn h
  refine ⟨e, ?_, he, hequal⟩
  rw [replayGroup?, hset]
  exact hremove

theorem diff_of_equal {u v : Value} (hu : u.WellFormed) (hv : v.WellFormed)
    (h : equal u v = true) : diff u v = [] := by
  induction u using childInduction generalizing v with
  | _ u ih =>
  by_cases hk : alike u v = true
  · rw [diff_eq_blocks hu hv hk, blocks, List.flatMap_eq_nil_iff]
    intro s _
    rw [List.map_eq_nil_iff]
    have hsame := sameValue_child? h s
    cases ha : child? u s with
    | none =>
      rw [ha, Mutation.sameValue_none_left] at hsame
      rw [hsame]
      rfl
    | some a =>
      rw [ha] at hsame
      obtain ⟨b, hb, hab⟩ := Mutation.sameValue_some_left.mp hsame
      rw [hb]
      exact ih s a ha (wellFormed_of_child? hu ha) (wellFormed_of_child? hv hb) hab
  · rw [diff_of_not_alike (by simpa using hk), if_pos h]

/-- **Only equal documents** have no change between them. -/
theorem diff_eq_nil_iff {u v : Value} (hu : u.WellFormed) (hv : v.WellFormed) (hun : u.NanFree)
    (hvn : v.NanFree) : diff u v = [] ↔ equal u v = true := by
  refine ⟨fun h => ?_, diff_of_equal hu hv⟩
  obtain ⟨e, he, -, hev⟩ := exists_replayGroup hu hv hu hvn (equal_refl hun)
  rw [h] at he
  cases he
  exact hev

end Value

end DocumentRules
