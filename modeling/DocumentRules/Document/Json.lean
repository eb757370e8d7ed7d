/-
Documents as JSON.

* `Value.toJson` — maps become objects; a number that JSON cannot write becomes null;
* `Document.ofJson` — objects become maps, where the last of several entries with one name
  counts; an integer beyond 64 signed bits becomes the nearest floating-point number.
-/
import DocumentRules.Document.Value
import DocumentRules.Json.Writer

namespace DocumentRules

namespace Value

mutual

def toJson : Value → Json
  | .null => .null
  | .bool b => .bool b
  | .int i => .integer i.toInt
  | .float x => if x.isFinite then .real x else .null
  | .string s => .string s
  | .list items => .array (itemsToJson items)
  | .map entries => .object (entriesToJson entries)

def itemsToJson : List Value → List Json
  | [] => []
  | v :: vs => toJson v :: itemsToJson vs

def entriesToJson : List (String × Value) → List (String × Json)
  | [] => []
  | (k, v) :: es => (k, toJson v) :: entriesToJson es

end

def jsonText (v : Value) : String := v.toJson.render

mutual

def ofJson : Json → Value
  | .null => .null
  | .bool b => .bool b
  | .integer i =>
    if Int64.minValue.toInt ≤ i ∧ i ≤ Int64.maxValue.toInt then .int (Int64.ofInt i)
    else .float (.ofInt i)
  | .real x => .float x
  | .string s => .string s
  | .array items => .list (ofJsonItems items)
  | .object entries => .map (ofJsonEntries [] entries)

def ofJsonItems : List Json → List Value
  | [] => []
  | j :: js => ofJson j :: ofJsonItems js

/-- Put the entries, in the order of the text, into a map. -/
def ofJsonEntries (done : List (String × Value)) : List (String × Json) → List (String × Value)
  | [] => done
  | (k, j) :: es => ofJsonEntries (Entries.put k (ofJson j) done) es

end

mutual

theorem wellFormed_ofJson (j : Json) : WellFormed (ofJson j) := by
  cases j with
  | null => exact trivial
  | bool b => exact trivial
  | integer i => unfold ofJson; split <;> exact trivial
  | real x => exact trivial
  | string s => exact trivial
  | array items => exact wellFormed_list.mpr (wellFormed_ofJsonItems items)
  | object entries =>
    exact wellFormed_map.mpr
      (wellFormed_ofJsonEntries entries [] List.Pairwise.nil (by simp))

theorem wellFormed_ofJsonItems (js : List Json) : ∀ v ∈ ofJsonItems js, WellFormed v := by
  cases js with
  | nil => simp [ofJsonItems]
  | cons j js =>
    have hj := wellFormed_ofJson j
    have hjs := wellFormed_ofJsonItems js
    simp only [ofJsonItems, List.mem_cons]
    rintro v (rfl | hv)
    · exact hj
    · exact hjs v hv

theorem wellFormed_ofJsonEntries (es : List (String × Json)) (done : List (String × Value))
    (ha : Entries.Ascending done) (hd : ∀ e ∈ done, WellFormed e.2) :
    Entries.Ascending (ofJsonEntries done es) ∧ ∀ e ∈ ofJsonEntries done es, WellFormed e.2 := by
  match es with
  | [] => exact ⟨ha, hd⟩
  | (k, j) :: rest =>
    have hj := wellFormed_ofJson j
    refine wellFormed_ofJsonEntries rest _ (Entries.ascending_put k _ ha) fun e he => ?_
    rcases Entries.mem_of_mem_put he with rfl | he
    · exact hj
    · exact hd e he

end

end Value

namespace Document

def ofJson (j : Json) : Document := ⟨Value.ofJson j, Value.wellFormed_ofJson j⟩

def toJson (d : Document) : Json := d.value.toJson

def jsonText (d : Document) : String := d.value.jsonText

end Document

end DocumentRules
