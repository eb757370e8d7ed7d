/-
What a document holds after a value has been removed.

A value is taken out of the container that it stands in, and what remains of the container is
put back in its place.  The members of a list that stand behind the value move up by one; the
other children of the container stay, and beside the container nothing changes.

* **`Value.child?_removeChild_key`**, **`Value.child?_removeChild_index`** — what remains of the
  children of a container;
* **`Value.snd_remove_append`** — a removal is an assignment of what remains of the container;
* **`Value.fst_remove`**, **`Value.snd_remove_of_none`** — what was found is returned, and where
  nothing was found nothing changes;
* **`removal_effect`** — the complete effect, at every path.
-/
import DocumentRules.Proofs.Document.Assignment

namespace DocumentRules

/-- The second path leads on from where the first one leads to. -/
def Path.StrictlyAbove (r q : Path) : Prop := r <+: q ∧ q ≠ r

theorem Path.strictlyAbove_iff {r q : Path} :
    StrictlyAbove r q ↔ ∃ t q', q = r ++ t :: q' := by
  constructor
  · rintro ⟨⟨rest, rfl⟩, hne⟩
    cases rest with
    | nil => exact absurd (List.append_nil r) hne
    | cons t q' => exact ⟨t, q', rfl⟩
  · rintro ⟨t, q', rfl⟩
    exact ⟨List.prefix_append .., by simp⟩

namespace Value

/-! ### Taking out a child -/

theorem fst_removeChild (d : Value) (s : Step) : (removeChild d s).1 = child? d s := by
  cases d <;> cases s <;> rfl

theorem removeChild_of_none {d : Value} {s : Step} (h : child? d s = none) :
    (removeChild d s).2 = d := by
  cases d with
  | map entries =>
    cases s with
    | key k => rw [removeChild, Entries.erase_of_find?_eq_none h]
    | index i => rfl
  | list items =>
    cases s with
    | key k => rfl
    | index i => rw [removeChild, List.eraseIdx_of_length_le (List.getElem?_eq_none_iff.mp h)]
  | _ => cases s <;> rfl

theorem child?_removeChild_key (d : Value) (k : String) (t : Step) :
    child? (removeChild d (.key k)).2 t = if t = .key k then none else child? d t := by
  cases d with
  | map entries =>
    cases t with
    | index j => rfl
    | key l =>
      by_cases hlk : l = k
      · simp [removeChild, child?, hlk, Entries.find?_erase_self]
      · simp [removeChild, child?, hlk, Entries.find?_erase_of_ne]
  | _ =>
    split
    · rename_i ht
      subst ht
      rfl
    · rfl

/-- The list members behind the one that is taken out move up. -/
theorem child?_removeChild_index (d : Value) (i j : Nat) :
    child? (removeChild d (.index i)).2 (.index j) =
      child? d (.index (if j < i then j else j + 1)) := by
  cases d with
  | list items =>
    rw [removeChild, child?, child?, List.getElem?_eraseIdx]
    split <;> rfl
  | _ => rfl

theorem child?_removeChild_index_key (d : Value) (i : Nat) (k : String) :
    child? (removeChild d (.index i)).2 (.key k) = child? d (.key k) := by
  cases d <;> rfl

/-- Taking out a child moves no other one up if it is the last of its list. -/
theorem child?_removeChild_of_last {d : Value} {s : Step}
    (hlast : ∀ t, s.InFront t → child? d t = none) (t : Step) :
    child? (removeChild d s).2 t = if t = s then none else child? d t := by
  cases s with
  | key k => exact child?_removeChild_key d k t
  | index i =>
    cases t with
    | key l => exact child?_removeChild_index_key d i l
    | index j =>
      have hbehind (j : Nat) (hj : i < j) : child? d (.index j) = none := hlast (.index j) hj
      rw [child?_removeChild_index]
      rcases Nat.lt_trichotomy j i with hlt | rfl | hgt
      · simp [hlt, Nat.ne_of_lt hlt]
      · simp [hbehind]
      · simp [Nat.not_lt_of_gt hgt, Nat.ne_of_gt hgt, hbehind j hgt, hbehind (j + 1) (by omega)]

theorem alike_removeChild {d : Value} {s : Step} (h : d.fits s = true) :
    alike d (removeChild d s).2 = true := by
  cases d <;> cases s <;> simp_all [fits, removeChild, alike]

/-! ### Removing at a path -/

theorem remove_cons {d c : Value} {s : Step} {p : Path} (hc : child? d s = some c) (hp : p ≠ []) :
    (remove d (s :: p)).2 = putChild d s (remove c p).2 := by
  cases p with
  | nil => exact absurd rfl hp
  | cons t p => rw [remove, hc]

/-- What stood at the path is returned. -/
theorem fst_remove (d : Value) (p : Path) : (remove d p).1 = get? d p := by
  induction p generalizing d with
  | nil => rfl
  | cons s p ih =>
    cases p with
    | nil =>
      rw [remove, fst_removeChild, get?_cons]
      cases child? d s <;> rfl
    | cons t p =>
      rw [remove, get?_cons]
      cases child? d s with
      | none => rfl
      | some c => exact ih c

/-- Where nothing stands nothing is removed. -/
theorem snd_remove_of_none {d : Value} {p : Path} (hd : d.WellFormed) (hp : get? d p = none) :
    (remove d p).2 = d := by
  induction p generalizing d with
  | nil => cases hp
  | cons s p ih =>
    rw [get?_cons] at hp
    cases hc : child? d s with
    | none =>
      cases p with
      | nil => exact removeChild_of_none hc
      | cons t p => rw [remove, hc]
    | some c =>
      rw [hc, Option.bind_some] at hp
      have hne : p ≠ [] := by
        rintro rfl
        cases hp
      rw [remove_cons hc hne, ih (wellFormed_of_child? hd hc) hp, putChild_child? hd hc]

/-- **A removal** sets what remains of the container in its place. -/
theorem snd_remove_append {d c : Value} {r : Path} (hc : get? d r = some c) (s : Step) :
    (remove d (r ++ [s])).2 = set d r (removeChild c s).2 := by
  induction r generalizing d with
  | nil =>
    cases hc
    rfl
  | cons u r ih =>
    rw [get?_cons, Option.bind_eq_some_iff] at hc
    obtain ⟨a, ha, hc⟩ := hc
    rw [List.cons_append, remove_cons ha (by simp), ih hc, set, ha, Option.getD_some]

/-- Below the container stands what remains of its children. -/
theorem get?_remove_below {d c : Value} {r : Path} (hc : get? d r = some c) (s t : Step)
    (q : Path) :
    get? (remove d (r ++ [s])).2 (r ++ t :: q) =
      (child? (removeChild c s).2 t).bind fun a => get? a q := by
  rw [snd_remove_append hc, get?_append, get?_set_self, Option.bind_some, get?_cons]

/-- Elsewhere nothing comes or goes, and only what holds the container changes. -/
theorem get?_remove_of_not_strictlyAbove {d c : Value} {r q : Path} (hc : get? d r = some c)
    (s : Step) (hq : ¬ Path.StrictlyAbove r q) :
    has (remove d (r ++ [s])).2 q = has d q ∧
      (¬ q <+: r → get? (remove d (r ++ [s])).2 q = get? d q) := by
  rw [snd_remove_append hc]
  by_cases hqr : q <+: r
  · obtain ⟨r', rfl⟩ := hqr
    refine ⟨?_, fun h => absurd (List.prefix_append ..) h⟩
    rw [get?_append, Option.bind_eq_some_iff] at hc
    obtain ⟨b, hb, -⟩ := hc
    rw [has, has, get?_set_append, hb]
    rfl
  · have hrq : ¬ r <+: q := fun h => hq ⟨h, fun e => hqr (e ▸ List.prefix_refl _)⟩
    have hsame := get?_set_of_not_prefix hc hrq hqr (removeChild c s).2
    exact ⟨by rw [has, has, hsame], fun _ => hsame⟩

end Value

/-! ### The complete effect -/

/-- **The complete effect of a removal.**  What stood at the path is returned, and if nothing
stood there, nothing changes.  Null remains of the root.  Otherwise something stood in a container
`r`, at a step that leads to one of its children.  What is not below `r` stays, and what covers
the path still is there.  Below `r`, a key goes with everything under it and leaves the rest as it
was; and the members of a list behind an index take the places of those in front of them. -/
theorem removal_effect (d : Document) :
    (∀ p, (d.value.remove p).1 = d.value.get? p ∧ (d.value.get? p = none → d.remove p = d)) ∧
    d.remove Path.root = Document.null ∧
    ∀ r s, d.value.has (r ++ [s]) = true →
      (∀ q, ¬ Path.StrictlyAbove r q →
        (d.remove (r ++ [s])).value.has q = d.value.has q ∧
        (¬ Path.covers q (r ++ [s]) = true →
          (d.remove (r ++ [s])).value.get? q = d.value.get? q)) ∧
      (∀ k, s = .key k → ∀ q, Path.StrictlyAbove r q →
        (d.remove (r ++ [s])).value.get? q =
          if Path.covers (r ++ [s]) q then none else d.value.get? q) ∧
      ∀ i, s = .index i →
        (∀ j q, (d.remove (r ++ [s])).value.get? (r ++ .index j :: q) =
          d.value.get? (r ++ .index (if j < i then j else j + 1) :: q)) ∧
        ∀ k q, (d.remove (r ++ [s])).value.get? (r ++ .key k :: q) =
          d.value.get? (r ++ .key k :: q) := by
  refine ⟨fun p => ⟨Value.fst_remove d.value p, fun hp => ?_⟩, rfl, ?_⟩
  · exact Document.ext (Value.snd_remove_of_none d.wellFormed hp)
  intro r s hs
  obtain ⟨c, hc⟩ : ∃ c, d.value.get? r = some c := by
    obtain ⟨v, hv⟩ := Option.isSome_iff_exists.mp hs
    obtain ⟨c, -, hc, -⟩ := Value.exists_child?_of_get? hv
    exact ⟨c, hc⟩
  have hbelow (t : Step) (q : Path) := Value.get?_remove_below hc s t q
  have hold (t : Step) (q : Path) :
      d.value.get? (r ++ t :: q) = (c.child? t).bind fun a => a.get? q := by
    rw [Value.get?_append, hc, Option.bind_some, Value.get?_cons]
  refine ⟨fun q hq => ?_, ?_, ?_⟩
  · obtain ⟨hhas, hget⟩ := Value.get?_remove_of_not_strictlyAbove hc s hq
    refine ⟨hhas, fun hcovers => hget fun hqr => hcovers ?_⟩
    exact Path.covers_iff.mpr (hqr.trans (List.prefix_append ..))
  · rintro k rfl q hq
    obtain ⟨t, q', rfl⟩ := Path.strictlyAbove_iff.mp hq
    have hcovers : Path.covers (r ++ [.key k]) (r ++ t :: q') = true ↔ t = .key k := by
      rw [Path.covers_iff, List.prefix_append_right_inj, List.cons_prefix_cons]
      simp [eq_comm]
    refine (hbelow t q').trans ?_
    rw [hold, Value.child?_removeChild_key]
    by_cases ht : t = .key k
    · rw [if_pos ht, if_pos (hcovers.mpr ht), Option.bind_none]
    · rw [if_neg ht, if_neg (mt hcovers.mp ht)]
  · rintro i rfl
    refine ⟨fun j q => (hbelow (.index j) q).trans ?_, fun k q => (hbelow (.key k) q).trans ?_⟩
    · rw [hold, Value.child?_removeChild_index]
    · rw [hold, Value.child?_removeChild_index_key]

/-! ### A map in the middle of a list -/

namespace Shifted

/-- The document `{"a": [1, {"b": 2, "c": 3}, 4]}`. -/
def document : Document :=
  (((Document.emptyMap.setScalar [.key "a", .index 0] (.int 1)).setScalar
    [.key "a", .index 1, .key "b"] (.int 2)).setScalar
    [.key "a", .index 1, .key "c"] (.int 3)).setScalar [.key "a", .index 2] (.int 4)

end Shifted

open Shifted in
theorem removal_effect_shifted :
    let listed := (document.remove [.key "a", .index 1]).value
    let keyed := (document.remove [.key "a", .index 1, .key "b"]).value
    document.remove [.key "x"] = document ∧
    (listed.has [.key "a"] = true ∧ listed.get? [.key "a", .index 0] = some (.int 1) ∧
      listed.get? [.key "a", .index 1] = some (.int 4) ∧
      listed.get? [.key "a", .index 2] = none) ∧
    keyed.get? [.key "a", .index 0] = some (.int 1) ∧
      keyed.get? [.key "a", .index 1, .key "b"] = none ∧
      keyed.get? [.key "a", .index 1, .key "c"] = some (.int 3) := by
  obtain ⟨hreturned, -, hremoved⟩ := removal_effect document
  refine ⟨(hreturned [.key "x"]).2 rfl, ?_, ?_⟩
  · obtain ⟨hbeside, -, hindex⟩ := hremoved [.key "a"] (.index 1) rfl
    have hmoved := (hindex 1 rfl).1
    exact ⟨(hbeside [.key "a"] (fun h => h.2 rfl)).1, hmoved 0 [], hmoved 1 [], hmoved 2 []⟩
  · obtain ⟨hbeside, hkey, -⟩ := hremoved [.key "a", .index 1] (.key "b") rfl
    have habove (k : String) :
        Path.StrictlyAbove [.key "a", .index 1] [.key "a", .index 1, .key k] :=
      Path.strictlyAbove_iff.mpr ⟨.key k, [], rfl⟩
    exact ⟨(hbeside [.key "a", .index 0] (fun h => by simpa using h.1)).2 (by decide),
      hkey "b" rfl _ (habove "b"), hkey "b" rfl _ (habove "c")⟩

end DocumentRules
