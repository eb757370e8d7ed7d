/-
Reading and changing documents at a path.

* `Value.get?` — the value at a path;
* `Value.set` — set it; containers that are missing on the way are created, a value of
  another kind in the way is replaced, and a list that is too short is filled with nulls;
* `Value.remove` — take it out; the members of a list behind it move up;
* `Value.leaves` — the paths of scalars and empty containers.

`Document` has the same operations, with the proof that entries stay in key order:
**`Value.wellFormed_set`**, **`Value.wellFormed_remove`**, **`Value.wellFormed_of_get?`**.

Lists are not bounded here, whereas no list of a program has `Path.lastPosition + 1` members.
`Document.setWithin` and all that is named after it refuse to make one.
-/
import DocumentRules.Document.Path
import DocumentRules.Document.Value

namespace DocumentRules

namespace Value

def child? : Value → Step → Option Value
  | .map entries, .key k => Entries.find? k entries
  | .list items, .index i => items[i]?
  | _, _ => none

def get? : Value → Path → Option Value
  | d, [] => some d
  | d, s :: p => (child? d s).bind fun c => get? c p

def has (d : Value) (p : Path) : Bool := (get? d p).isSome

/-- Set a member of a list, which is filled with nulls up to it. -/
def putItem (i : Nat) (v : Value) (items : List Value) : List Value :=
  if i < items.length then items.set i v
  else items ++ (List.replicate (i - items.length) .null ++ [v])

/-- Set the value one step below. A value that the step does not fit gives way to a fresh
container. -/
def putChild : Value → Step → Value → Value
  | .map entries, .key k, v => .map (Entries.put k v entries)
  | _, .key k, v => .map [(k, v)]
  | .list items, .index i, v => .list (putItem i v items)
  | _, .index i, v => .list (putItem i v [])

/-- Set the value at a path. -/
def set : Value → Path → Value → Value
  | _, [], v => v
  | d, s :: p, v => putChild d s (set ((child? d s).getD .null) p v)

/-- Set the value at a path where there is one already. -/
def replace? (d : Value) (p : Path) (v : Value) : Option Value :=
  if has d p then some (set d p v) else none

/-- Take out the value one step below; what is taken out, and what remains. -/
def removeChild : Value → Step → Option Value × Value
  | .map entries, .key k => (Entries.find? k entries, .map (Entries.erase k entries))
  | .list items, .index i => (items[i]?, .list (items.eraseIdx i))
  | d, _ => (none, d)

/-- Take out the value at a path; what is taken out, and what remains. Null remains of the
root. -/
def remove : Value → Path → Option Value × Value
  | d, [] => (some d, .null)
  | d, [s] => removeChild d s
  | d, s :: t :: p =>
    match child? d s with
    | none => (none, d)
    | some c => ((remove c (t :: p)).1, putChild d s (remove c (t :: p)).2)

mutual

/-- The paths of the leaves: scalars and empty containers. -/
def leaves : Value → List Path
  | .list (item :: items) => itemLeaves 0 (item :: items)
  | .map (entry :: entries) => entryLeaves (entry :: entries)
  | _ => [[]]

/-- The leaves of list members, the first of which is at position `i`. -/
def itemLeaves (i : Nat) : List Value → List Path
  | [] => []
  | v :: vs => (leaves v).map (Step.index i :: ·) ++ itemLeaves (i + 1) vs

def entryLeaves : List (String × Value) → List Path
  | [] => []
  | (k, v) :: es => (leaves v).map (Step.key k :: ·) ++ entryLeaves es

end

/-- The leaves of a value that stands at `base`. -/
def leavesFrom (base : Path) (v : Value) : List Path := (leaves v).map (base ++ ·)

/-! ### Well-formed values stay well-formed -/

theorem wellFormed_of_child? {d c : Value} {s : Step} (hd : WellFormed d)
    (h : child? d s = some c) :
    WellFormed c := by
  cases d <;> cases s <;> simp only [child?, reduceCtorEq] at h
  · exact wellFormed_list.mp hd c (List.mem_of_getElem? h)
  · exact (wellFormed_map.mp hd).2 _ (Entries.mem_of_find? h)

theorem wellFormed_of_get? {d c : Value} {p : Path} (hd : WellFormed d) (h : get? d p = some c) :
    WellFormed c := by
  induction p generalizing d with
  | nil =>
    simp only [get?, Option.some.injEq] at h
    exact h ▸ hd
  | cons s p ih =>
    simp only [get?, Option.bind_eq_some_iff] at h
    obtain ⟨m, hm, hc⟩ := h
    exact ih (wellFormed_of_child? hd hm) hc

theorem wellFormed_putItem {i : Nat} {v : Value} {items : List Value} (hv : WellFormed v)
    (h : ∀ w ∈ items, WellFormed w) : ∀ w ∈ putItem i v items, WellFormed w := by
  intro w hw
  unfold putItem at hw
  split at hw
  · rcases List.mem_or_eq_of_mem_set hw with hw | rfl
    · exact h w hw
    · exact hv
  · simp only [List.mem_append, List.mem_replicate, List.mem_singleton] at hw
    rcases hw with hw | ⟨_, rfl⟩ | rfl
    · exact h w hw
    · exact wellFormed_null
    · exact hv

theorem wellFormed_single {k : String} {v : Value} (hv : WellFormed v) :
    WellFormed (.map [(k, v)]) :=
  wellFormed_map.mpr ⟨by simp [Entries.Ascending], by simpa using hv⟩

theorem wellFormed_putChild {d v : Value} {s : Step} (hd : WellFormed d) (hv : WellFormed v) :
    WellFormed (putChild d s v) := by
  have fresh (i : Nat) : WellFormed (.list (putItem i v [])) :=
    wellFormed_list.mpr (wellFormed_putItem hv (by simp))
  cases d <;> cases s <;> simp only [putChild] <;>
    first
    | exact wellFormed_single hv
    | exact fresh _
    | skip
  · exact wellFormed_list.mpr (wellFormed_putItem hv (wellFormed_list.mp hd))
  · refine wellFormed_map.mpr ⟨Entries.ascending_put _ _ (wellFormed_map.mp hd).1, fun e he => ?_⟩
    rcases Entries.mem_of_mem_put he with rfl | he
    · exact hv
    · exact (wellFormed_map.mp hd).2 e he

theorem wellFormed_childD {d : Value} {s : Step} (hd : WellFormed d) :
    WellFormed ((child? d s).getD .null) := by
  cases h : child? d s with
  | none => exact wellFormed_null
  | some c => exact wellFormed_of_child? hd h

theorem wellFormed_set {d v : Value} {p : Path} (hd : WellFormed d) (hv : WellFormed v) :
    WellFormed (set d p v) := by
  induction p generalizing d with
  | nil => exact hv
  | cons s p ih => exact wellFormed_putChild hd (ih (wellFormed_childD hd))

theorem wellFormed_removeChild {d : Value} {s : Step} (hd : WellFormed d) :
    WellFormed (removeChild d s).2 := by
  cases d <;> cases s <;> simp only [removeChild] <;> try exact hd
  · exact wellFormed_list.mpr fun w hw =>
      wellFormed_list.mp hd w (List.mem_of_mem_eraseIdx hw)
  · exact wellFormed_map.mpr ⟨Entries.ascending_erase _ (wellFormed_map.mp hd).1,
      fun e he => (wellFormed_map.mp hd).2 e (Entries.mem_of_mem_erase he)⟩

theorem wellFormed_remove {d : Value} {p : Path} (hd : WellFormed d) :
    WellFormed (remove d p).2 := by
  induction p generalizing d with
  | nil => exact wellFormed_null
  | cons s p ih =>
    cases p with
    | nil => exact wellFormed_removeChild hd
    | cons t p =>
      unfold remove
      split
      · exact hd
      · rename_i c hc
        exact wellFormed_putChild hd (ih (wellFormed_of_child? hd hc))

end Value

/-- A list would have to be longer than any list can be. This ends whatever is under way. -/
inductive Overflow where
  | listTooLong
  deriving DecidableEq

/-- Go on with a result, where an overflow can be raised. -/
def Overflow.lift {m : Type → Type} [Monad m] [MonadExceptOf Overflow m] {α : Type} :
    Except Overflow α → m α
  | .ok a => pure a
  | .error e => throwThe Overflow e

namespace Document

def get? (d : Document) (p : Path) : Option Document :=
  match h : d.value.get? p with
  | some v => some ⟨v, Value.wellFormed_of_get? d.wellFormed h⟩
  | none => none

@[simp] theorem map_value_get? (d : Document) (p : Path) :
    (d.get? p).map Document.value = d.value.get? p := by
  unfold get?
  split <;> simp_all

def has (d : Document) (p : Path) : Bool := d.value.has p

def set (d : Document) (p : Path) (v : Document) : Document :=
  ⟨d.value.set p v.value, Value.wellFormed_set d.wellFormed v.wellFormed⟩

/-- Set the value at a path that a document can have. -/
def setWithin (d : Document) (p : Path) (v : Document) : Except Overflow Document :=
  if Path.isAddressable p then .ok (d.set p v) else .error .listTooLong

/-- Set a value that holds no map at a path. -/
def setScalar (d : Document) (p : Path) (v : Value) (h : v.WellFormed := by trivial) : Document :=
  d.set p ⟨v, h⟩

def remove (d : Document) (p : Path) : Document :=
  ⟨(d.value.remove p).2, Value.wellFormed_remove d.wellFormed⟩

def replace? (d : Document) (p : Path) (v : Document) : Option Document :=
  if d.has p then some (d.set p v) else none

end Document

end DocumentRules
