/-
Rules through an index.

An index is built once from the keys of all rules and leads to positions.  Where no two rules
have the same key it finds what going through the rules would find.

* **`Entries.find?_positions_eq_some_iff`** — an index has the last position of a key;
* **`Registry.lookUp?_eq_find?`** — where the keys are apart, looking up agrees with searching;
* **`Registry.get?_eq_some_iff`**, **`Registry.getByName?_eq_some_iff`** — an id, or a name, leads
  to the rule that has it.
-/
import DocumentRules.Proofs.Registry.Compatible
import DocumentRules.Registry.Basic
import Mathlib.Data.List.Induction

namespace DocumentRules

namespace Entries

variable {κ : Type} [LT κ] [DecidableLT κ] [DecidableEq κ]

/-- With one more key its position is found under it, and for the others nothing changes. -/
theorem find?_positions_concat (keys : List κ) (k l : κ) :
    find? k (positions (keys ++ [l])) =
      if k = l then some keys.length else find? k (positions keys) := by
  have hput : positions (keys ++ [l]) = put l keys.length (positions keys) := by
    simp [positions, List.zipIdx_append]
  rw [hput]
  split
  · rename_i hk
    rw [hk, find?_put_self]
  · rename_i hk
    exact find?_put_of_ne hk ..

/-- **An index has the last position of a key.** -/
theorem find?_positions_eq_some_iff {keys : List κ} {k : κ} {i : Nat} :
    find? k (positions keys) = some i ↔
      keys[i]? = some k ∧ ∀ j : Nat, keys[j]? = some k → j ≤ i := by
  induction keys using List.reverseRecOn with
  | nil => simp [positions, find?]
  | append_singleton keys l ih =>
    rw [find?_positions_concat]
    split
    · rename_i hk
      subst hk
      have hlast : (keys ++ [k])[keys.length]? = some k := List.getElem?_concat_length
      have hbound {j : Nat} (hj : (keys ++ [k])[j]? = some k) : j ≤ keys.length := by
        have := (List.getElem?_eq_some_iff.mp hj).choose
        simp only [List.length_append, List.length_singleton] at this
        omega
      rw [Option.some.injEq]
      constructor
      · rintro rfl
        exact ⟨hlast, fun j => hbound⟩
      · rintro ⟨hi, hmax⟩
        exact Nat.le_antisymm (hmax _ hlast) (hbound hi)
    · rename_i hk
      have hfront (j : Nat) : (keys ++ [l])[j]? = some k ↔ keys[j]? = some k := by
        rcases Nat.lt_trichotomy j keys.length with hj | rfl | hj
        · rw [List.getElem?_append_left hj]
        · simp [Ne.symm hk]
        · have hlength : (keys ++ [l]).length ≤ j := by
            rw [List.length_append, List.length_singleton]
            exact hj
          rw [List.getElem?_eq_none hlength, List.getElem?_eq_none (Nat.le_of_lt hj)]
      rw [ih]
      simp only [hfront]

/-- Of keys that are apart an index has the positions. -/
theorem find?_positions_of_nodup {keys : List κ} (h : keys.Nodup) {k : κ} {i : Nat} :
    find? k (positions keys) = some i ↔ keys[i]? = some k := by
  rw [find?_positions_eq_some_iff]
  refine and_iff_left_of_imp fun hi j hj => ?_
  have hlt : i < keys.length := (List.getElem?_eq_some_iff.mp hi).choose
  exact Nat.le_of_eq ((List.getElem?_inj hlt h).mp (hi.trans hj.symm)).symm

end Entries

namespace Registry

variable {m : Type → Type} {g : Registry m} {r : Rule m}

section LookUp

variable {key : Rule m → String} (hkey : g.rules.Pairwise fun r s => key r ≠ key s)
include hkey

theorem lookUp?_eq_some_iff {k : String} :
    g.lookUp? (Entries.positions (g.rules.map key)) k = some r ↔ r ∈ g.rules ∧ key r = k := by
  have hnodup : (g.rules.map key).Nodup := List.pairwise_map.mpr hkey
  simp only [lookUp?, Option.bind_eq_some_iff, Entries.find?_positions_of_nodup hnodup,
    List.getElem?_map, Option.map_eq_some_iff]
  constructor
  · rintro ⟨i, ⟨s, hs, rfl⟩, hr⟩
    cases hs.symm.trans hr
    exact ⟨List.mem_of_getElem? hr, rfl⟩
  · rintro ⟨hr, rfl⟩
    obtain ⟨i, hi⟩ := List.getElem?_of_mem hr
    exact ⟨i, ⟨r, hi, rfl⟩, hi⟩

/-- **Looking up agrees with searching** all rules, where the keys are apart. -/
theorem lookUp?_eq_find? (k : String) :
    g.lookUp? (Entries.positions (g.rules.map key)) k = g.rules.find? (key · == k) := by
  refine Option.ext fun r => ?_
  rw [lookUp?_eq_some_iff hkey, find?_key_eq_some_iff hkey]

end LookUp

variable (hg : g.rules.Pairwise Rule.Compatible)
include hg

theorem get?_eq_some_iff {id : String} : g.get? id = some r ↔ r ∈ g.rules ∧ r.id = id :=
  lookUp?_eq_some_iff (hg.imp fun hrs => hrs.ids)

theorem getByName?_eq_some_iff {name : String} :
    g.getByName? name = some r ↔ r ∈ g.rules ∧ r.name = name :=
  lookUp?_eq_some_iff (hg.imp fun hrs => hrs.names)

/-- An id leads to the rule that has it. -/
theorem get?_of_mem (hr : r ∈ g.rules) : g.get? r.id = some r :=
  (get?_eq_some_iff hg).mpr ⟨hr, rfl⟩

theorem get?_eq_find? (id : String) : g.get? id = g.rules.find? (·.id == id) :=
  lookUp?_eq_find? (hg.imp fun hrs => hrs.ids) id

theorem getByName?_eq_find? (name : String) : g.getByName? name = g.rules.find? (·.name == name) :=
  lookUp?_eq_find? (hg.imp fun hrs => hrs.names) name

end Registry

end DocumentRules
