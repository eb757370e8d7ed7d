/-
Entries in ascending order of their keys.

A finite map is a list of entries `(key, value)` whose keys strictly ascend.  The
operations work on any list; `Ascending` is the invariant that they keep.

* **`find?_put_self`**, **`find?_put_of_ne`**, **`find?_erase_self`**, **`find?_erase_of_ne`** —
  what is found after a change;
* **`ascending_put`**, **`ascending_erase`** — the order is kept.

Records that carry their keys themselves may stand in any order: **`find?_key_eq_some_iff`**.
-/
import DocumentRules.Order.Strict

namespace DocumentRules.Entries

variable {κ α : Type}

def Ascending [LT κ] (entries : List (κ × α)) : Prop := entries.Pairwise (·.1 < ·.1)

/-- The value of the first entry with this key. -/
def find? [DecidableEq κ] (k : κ) : List (κ × α) → Option α
  | [] => none
  | (k', v) :: rest => if k = k' then some v else find? k rest

/-- Set the value of a key. -/
def put [LT κ] [DecidableLT κ] [DecidableEq κ] (k : κ) (v : α) : List (κ × α) → List (κ × α)
  | [] => [(k, v)]
  | (k', v') :: rest =>
    if k < k' then (k, v) :: (k', v') :: rest
    else if k = k' then (k, v) :: rest
    else (k', v') :: put k v rest

/-- The positions of keys in a list of them. Of several positions of a key the last one counts. -/
def positions [LT κ] [DecidableLT κ] [DecidableEq κ] (keys : List κ) : List (κ × Nat) :=
  keys.zipIdx.foldl (fun index e => put e.1 e.2 index) []

/-- The entries without those with this key. -/
def erase [DecidableEq κ] (k : κ) (entries : List (κ × α)) : List (κ × α) :=
  entries.filter fun e => e.1 ≠ k

theorem ascending_erase [LT κ] [DecidableEq κ] (k : κ) {entries : List (κ × α)}
    (h : Ascending entries) : Ascending (erase k entries) := h.filter _

theorem mem_of_mem_erase [DecidableEq κ] {k : κ} {entries : List (κ × α)} {e : κ × α}
    (h : e ∈ erase k entries) : e ∈ entries := (List.mem_filter.mp h).1

theorem mem_of_find? [DecidableEq κ] {k : κ} {v : α} {entries : List (κ × α)}
    (h : find? k entries = some v) : (k, v) ∈ entries := by
  induction entries with
  | nil => simp [find?] at h
  | cons e rest ih =>
    obtain ⟨k', v'⟩ := e
    unfold find? at h
    split at h
    · rename_i hk
      simp_all
    · exact List.mem_cons_of_mem _ (ih h)

/-- Of the entries whose keys are kept the same are found. -/
theorem find?_filter [DecidableEq κ] (keep : κ → Bool) (k : κ) (entries : List (κ × α)) :
    find? k (entries.filter fun e => keep e.1) = if keep k then find? k entries else none := by
  induction entries with
  | nil => simp [find?]
  | cons e rest ih =>
    obtain ⟨k', v⟩ := e
    rw [List.filter_cons]
    by_cases hk : k = k'
    · subst hk
      cases hkeep : keep k <;> simp [find?, ih, hkeep]
    · cases keep k' <;> simp [find?, ih, hk]

/-- Among values that are made of their keys, one is found under each of the keys. -/
theorem find?_map [DecidableEq κ] (f : κ → α) (k : κ) (keys : List κ) :
    find? k (keys.map fun k => (k, f k)) = if k ∈ keys then some (f k) else none := by
  induction keys with
  | nil => rfl
  | cons l keys ih =>
    rw [List.map_cons, find?, ih]
    by_cases hk : k = l
    · simp [hk]
    · simp [hk]

variable [LT κ] [DecidableLT κ] [DecidableEq κ]

theorem mem_of_mem_put {k : κ} {v : α} {entries : List (κ × α)} {e : κ × α}
    (h : e ∈ put k v entries) : e = (k, v) ∨ e ∈ entries := by
  induction entries with
  | nil => simpa [put] using h
  | cons head rest ih =>
    obtain ⟨k', v'⟩ := head
    unfold put at h
    split at h
    · simpa using h
    · split at h
      · rcases List.mem_cons.mp h with h | h
        · exact Or.inl h
        · exact Or.inr (List.mem_cons_of_mem _ h)
      · rcases List.mem_cons.mp h with h | h
        · exact Or.inr (h ▸ List.mem_cons_self ..)
        · exact (ih h).imp id (List.mem_cons_of_mem _)

variable [StrictOrder κ]

theorem ascending_put (k : κ) (v : α) {entries : List (κ × α)} (h : Ascending entries) :
    Ascending (put k v entries) := by
  induction entries with
  | nil => simp [put, Ascending]
  | cons head rest ih =>
    obtain ⟨k', v'⟩ := head
    have hc := List.pairwise_cons.mp h
    unfold put
    split
    · rename_i hk
      refine List.pairwise_cons.mpr ⟨fun e he => ?_, h⟩
      rcases List.mem_cons.mp he with rfl | he
      · exact hk
      · exact StrictOrder.trans hk (hc.1 e he)
    · rename_i hk
      split
      · rename_i he
        subst he
        exact List.pairwise_cons.mpr hc
      · rename_i hne
        refine List.pairwise_cons.mpr ⟨fun e he => ?_, ih hc.2⟩
        rcases mem_of_mem_put he with rfl | he
        · exact (StrictOrder.lt_or_lt_of_ne hne).resolve_left hk
        · exact hc.1 e he

/-- Of two values put under one key the later one counts. -/
theorem put_put (k : κ) (v w : α) (entries : List (κ × α)) :
    put k w (put k v entries) = put k w entries := by
  induction entries with
  | nil => simp [put, StrictOrder.irrefl k]
  | cons head rest ih =>
    obtain ⟨k', v'⟩ := head
    by_cases hlt : k < k'
    · simp [put, hlt, StrictOrder.irrefl k]
    · by_cases heq : k = k'
      · subst heq
        simp [put, hlt]
      · simp [put, hlt, heq, ih]

/-- An entry behind all others is put at the end. -/
theorem put_of_forall_lt {k : κ} (v : α) {entries : List (κ × α)} (h : ∀ e ∈ entries, e.1 < k) :
    put k v entries = entries ++ [(k, v)] := by
  induction entries with
  | nil => rfl
  | cons head rest ih =>
    obtain ⟨k', v'⟩ := head
    have hk : k' < k := h (k', v') (List.mem_cons_self ..)
    rw [put, if_neg (StrictOrder.asymm hk), if_neg (StrictOrder.ne_of_lt hk).symm,
      ih fun e he => h e (List.mem_cons_of_mem _ he), List.cons_append]

omit [StrictOrder κ] in
theorem find?_put_self (k : κ) (v : α) (entries : List (κ × α)) :
    find? k (put k v entries) = some v := by
  induction entries with
  | nil => simp [put, find?]
  | cons head rest ih =>
    obtain ⟨k', v'⟩ := head
    unfold put
    split
    · simp [find?]
    · split
      · simp [find?]
      · rename_i hne
        simp [find?, hne, ih]

omit [StrictOrder κ] in
theorem find?_put_of_ne {k k' : κ} (h : k' ≠ k) (v : α) (entries : List (κ × α)) :
    find? k' (put k v entries) = find? k' entries := by
  induction entries with
  | nil => simp [put, find?, h]
  | cons head rest ih =>
    obtain ⟨k₁, v₁⟩ := head
    unfold put
    split
    · simp [find?, h]
    · split
      · rename_i he
        subst he
        simp [find?, h]
      · simp only [find?, ih]

omit [LT κ] [DecidableLT κ] [StrictOrder κ] in
theorem find?_erase_self (k : κ) (entries : List (κ × α)) : find? k (erase k entries) = none := by
  induction entries with
  | nil => rfl
  | cons head rest ih =>
    obtain ⟨k', v'⟩ := head
    by_cases hk : k' = k
    · simpa [erase, hk] using ih
    · have hk' : ¬ k = k' := fun e => hk e.symm
      simpa [erase, hk, find?, hk'] using ih

omit [LT κ] [DecidableLT κ] [StrictOrder κ] in
theorem find?_erase_of_ne {k k' : κ} (h : k' ≠ k) (entries : List (κ × α)) :
    find? k' (erase k entries) = find? k' entries := by
  induction entries with
  | nil => rfl
  | cons head rest ih =>
    obtain ⟨k₁, v₁⟩ := head
    by_cases hk : k₁ = k
    · subst hk
      simpa [erase, find?, h] using ih
    · by_cases hk' : k' = k₁
      · simp [erase, hk, find?, hk']
      · simpa [erase, hk, find?, hk'] using ih

omit [LT κ] [DecidableLT κ] [StrictOrder κ] in
theorem erase_of_find?_eq_none {k : κ} {entries : List (κ × α)} (h : find? k entries = none) :
    erase k entries = entries := by
  refine List.filter_eq_self.mpr ?_
  induction entries with
  | nil => simp
  | cons head rest ih =>
    obtain ⟨k', v'⟩ := head
    rw [find?] at h
    split at h
    · cases h
    · rename_i hk
      rw [List.forall_mem_cons]
      exact ⟨by simpa using Ne.symm hk, ih h⟩

end DocumentRules.Entries

namespace DocumentRules

variable {α κ : Type} [BEq κ] [LawfulBEq κ]

/-- Where a key names one member, looking it up finds that member. -/
theorem find?_key_eq_some_iff {as : List α} {key : α → κ}
    (h : as.Pairwise fun a b => key a ≠ key b) {k : κ} {a : α} :
    as.find? (key · == k) = some a ↔ a ∈ as ∧ key a = k := by
  refine ⟨fun hfind => ⟨List.mem_of_find?_eq_some hfind, by simpa using List.find?_some hfind⟩, ?_⟩
  rintro ⟨ha, rfl⟩
  induction as with
  | nil => cases ha
  | cons b as ih =>
    rw [List.pairwise_cons] at h
    rcases List.mem_cons.mp ha with rfl | ha
    · exact List.find?_cons_of_pos (beq_self_eq_true _)
    · rw [List.find?_cons_of_neg (by simpa using h.1 a ha)]
      exact ih h.2 ha

end DocumentRules
