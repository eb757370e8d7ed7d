/-
Coverage.

A fact says that a rule touched a leaf.  Coverage is a set of facts, ordered by the rule and
then by the path.

* `Mutation.facts` — one fact for every leaf that a change of a rule touches;
* `Coverage.exercises` — the rule touched a leaf at or below a path;
* `Coverage.uncoveredWrites` — the declared writes of a rule that it has not exercised.

As JSON a fact is a record with the fields `rule_id` and `path`.
-/
import DocumentRules.Change.Mutation
import DocumentRules.Rule.Basic

namespace DocumentRules

/-- A rule touched a leaf. -/
structure Coverage.Fact where
  rule : String
  path : Path
  deriving DecidableEq

namespace Coverage.Fact

/-- Facts are ordered by the rule and then by the path. -/
def Less (f g : Fact) : Prop := f.rule < g.rule ∨ (f.rule = g.rule ∧ f.path < g.path)

instance : LT Fact := ⟨Less⟩

instance : DecidableLT Fact := fun f g =>
  inferInstanceAs (Decidable (f.rule < g.rule ∨ (f.rule = g.rule ∧ f.path < g.path)))

theorem lt_iff {f g : Fact} : f < g ↔ f.rule < g.rule ∨ (f.rule = g.rule ∧ f.path < g.path) :=
  Iff.rfl

instance : StrictOrder Fact where
  irrefl f := by
    rw [lt_iff]
    rintro (h | ⟨_, h⟩)
    · exact StrictOrder.irrefl _ h
    · exact StrictOrder.irrefl _ h
  trans {f g h} hfg hgh := by
    rw [lt_iff] at *
    rcases hfg with hfg | ⟨efg, hfg⟩ <;> rcases hgh with hgh | ⟨egh, hgh⟩
    · exact Or.inl (StrictOrder.trans hfg hgh)
    · exact Or.inl (egh ▸ hfg)
    · exact Or.inl (efg ▸ hgh)
    · exact Or.inr ⟨efg.trans egh, StrictOrder.trans hfg hgh⟩
  connected {f g} h h' := by
    rw [lt_iff, not_or, not_and] at h h'
    obtain ⟨r, p⟩ := f
    obtain ⟨s, q⟩ := g
    obtain rfl : r = s := StrictOrder.connected h.1 h'.1
    obtain rfl : p = q := StrictOrder.connected (h.2 rfl) (h'.2 rfl)
    rfl

end Coverage.Fact

abbrev Coverage := OrderedSet Coverage.Fact

/-- The facts that a change gives rise to: one for every leaf that it touches, and none if no
rule made it. -/
def Mutation.facts (m : Mutation) : List Coverage.Fact :=
  match m.rule with
  | some rule => m.touchedLeaves.toList.map (⟨rule, ·⟩)
  | none => []

namespace Coverage

variable {m : Type → Type}

def ofMutations (ms : List Mutation) : Coverage := .ofList (ms.flatMap Mutation.facts)

def contains (c : Coverage) (f : Fact) : Bool := f ∈ c

def forRule (c : Coverage) (rule : String) : List Fact := c.toList.filter (·.rule == rule)

/-- The rule touched a leaf at or below the path. -/
def exercises (c : Coverage) (rule : String) (p : Path) : Bool :=
  (c.forRule rule).any fun f => Path.covers p f.path

/-- The declared writes that the rule has not exercised. -/
def uncoveredWrites (c : Coverage) (r : Rule m) : List Path :=
  r.writes.toList.filter fun w => !c.exercises r.id w

/-! ### JSON -/

def Fact.toJson (f : Fact) : Json :=
  .object [("rule_id", .string f.rule), ("path", Path.toJson f.path)]

def Fact.fieldNames : List String := ["rule_id", "path"]

def Fact.ofJson? (j : Json) : Option Fact := do
  let r ← Record.ofJson? fieldNames j
  return ⟨← r.required "rule_id" Json.string?, ← r.required "path" Path.ofJson?⟩

def toJson (c : Coverage) : Json := .array (c.toList.map Fact.toJson)

end Coverage

end DocumentRules
