/-
The source text of a rule made of blocks.

A block is written as a record that names its kind and has all its fields.  Null and every number
have texts of their own, and so has every path; so nothing is lost when a source text is read, and
two rules with one source text are one rule.

* `Block.Recordable` — positions and groups fit 64 bits, and the numbers of a literal are finite;
* **`Block.ofJson?_toJson`** — a block is read from its JSON;
* **`Block.ofSource?_sourceText`** — blocks are read from their source text;
* **`BlockRule.blocks_of_compile`** — a compiled rule has the blocks that it was compiled from;
* **`BlockRule.compile_eq_error_iff`** — which pattern a block list is refused for;
* **`eq_of_codeHash`** — without collisions a code hash determines the text;
* **`source_identifies_rule`** — the source text identifies the rule, and so does the code hash
  without collisions.
-/
import DocumentRules.Json.Reader
import DocumentRules.Proofs.Change.Recorded
import DocumentRules.Proofs.Document.Fingerprint
import DocumentRules.Rule.Basic

namespace DocumentRules

theorem NormalKind.ofJson?_text (kind : NormalKind) : ofJson? (.string kind.text) = some kind := by
  cases kind <;> rfl

namespace Block

open Json (Writable)

/-- A text can stand for what the block holds: its positions and its group fit 64 bits, and the
numbers of its literal are finite. -/
def Recordable : Block → Prop
  | .set field value => field.Readable ∧ value.value.Finite
  | .copy field target => field.Readable ∧ target.Readable
  | .upper field | .lower field | .trim field | .normalize field _ | .assert field _ =>
    field.Readable
  | .extract field _ target group => field.Readable ∧ target.Readable ∧ group < UInt64.size

variable {b : Block} {bs : List Block}

/-! ### The JSON of a block -/

theorem tag?_toJson (b : Block) : tag? b.toJson = some b.tag := rfl

theorem names_nodup (b : Block) : ("type" :: b.fieldsToJson.map (·.1)).Nodup := by
  cases b <;> simp [fieldsToJson]

/-- A block is a record, and every field is found in it. -/
theorem exists_ofJson?_toJson (b : Block) :
    ∃ r, Record.ofJson? ("type" :: b.fieldsToJson.map (·.1)) b.toJson = some r ∧
      ∀ f ∈ b.fieldsToJson, r.get? f.1 = some f.2 := by
  have hjson : b.toJson = .object (Record.written
      (("type", some (.string b.tag)) :: b.fieldsToJson.map fun f => (f.1, some f.2))) := by
    have hfields : (b.fieldsToJson.flatMap fun f => [f]) = b.fieldsToJson := by simp
    simp [toJson, Record.written, Json.optional, List.flatMap_map, hfields]
  obtain ⟨r, hr, -, hfields⟩ := Record.exists_ofJson?_written
    ("type" :: b.fieldsToJson.map (·.1)) hjson (by simp) b.names_nodup
  rw [List.forall_iff_forall_mem] at hfields
  refine ⟨r, hr, fun f hf => ?_⟩
  exact hfields (f.1, some f.2) (List.mem_cons_of_mem _ (List.mem_map_of_mem hf))

/-- **A block is read from its JSON.** -/
theorem ofJson?_toJson (h : b.Recordable) : ofJson? b.toJson = some b := by
  obtain ⟨r, hr, hfields⟩ := exists_ofJson?_toJson b
  unfold ofJson?
  rw [tag?_toJson]
  -- The tag decides which record is read; each field of the record is then read for itself.
  cases b
  all_goals
    simp only [fieldsToJson, List.forall_mem_cons, List.map_cons, List.map_nil] at hr hfields
  case set field value =>
    obtain ⟨hfield, hvalue, -⟩ := hfields
    simp [tag, hr, Record.required_eq hfield, Record.required_eq hvalue,
      Path.ofJson?_toJson h.1, Document.ofJson_toJson h.2]
  case copy field target =>
    obtain ⟨hfield, htarget, -⟩ := hfields
    simp [tag, hr, Record.required_eq hfield, Record.required_eq htarget,
      Path.ofJson?_toJson h.1, Path.ofJson?_toJson h.2]
  case upper field | lower field | trim field =>
    obtain ⟨hfield, -⟩ := hfields
    simp [tag, hr, Record.required_eq hfield, Path.ofJson?_toJson h]
  case normalize field kind =>
    obtain ⟨hfield, hkind, -⟩ := hfields
    simp [tag, hr, Record.required_eq hfield, Record.required_eq hkind, Path.ofJson?_toJson h,
      NormalKind.ofJson?_text]
  case extract field pattern target group =>
    obtain ⟨hfield, hpattern, htarget, hgroup, -⟩ := hfields
    simp [tag, hr, Record.required_eq hfield, Record.required_eq hpattern,
      Record.required_eq htarget, Record.defaulted_eq hgroup, Path.ofJson?_toJson h.1,
      Path.ofJson?_toJson h.2.1, Json.natural?_integer h.2.2, Json.string?]
  case assert field message =>
    obtain ⟨hfield, hmessage, -⟩ := hfields
    simp [tag, hr, Record.required_eq hfield, Record.optional_ofOption hmessage,
      Path.ofJson?_toJson h]

/-- Every field of a block can be written. -/
theorem exists_writable_field (h : b.Recordable) :
    ∀ f ∈ b.fieldsToJson, ∃ n, Writable n f.2 := by
  have hpath (p : Path) : ∃ n, Writable n p.toJson := ⟨0, .string _⟩
  cases b with
  | set field value =>
    simpa [fieldsToJson] using ⟨hpath field, h.2.exists_writable value.wellFormed⟩
  | copy field target => simpa [fieldsToJson] using ⟨hpath field, hpath target⟩
  | upper field | lower field | trim field => simpa [fieldsToJson] using hpath field
  | normalize field kind =>
    have hkind : ∃ n, Writable n (.string kind.text) := ⟨0, .string _⟩
    simpa [fieldsToJson] using ⟨hpath field, hkind⟩
  | extract field pattern target group =>
    have hpattern : ∃ n, Writable n (.string pattern) := ⟨0, .string _⟩
    have hgroup : ∃ n, Writable n (.integer group) := by
      have hlow : Int64.minValue.toInt ≤ 0 := by decide
      exact ⟨0, .integer (hlow.trans (Int.natCast_nonneg group)) (by exact_mod_cast h.2.2)⟩
    simpa [fieldsToJson] using ⟨hpath field, hpattern, hpath target, hgroup⟩
  | assert field message =>
    have hmessage : ∃ n, Writable n (Json.ofOption (message.map .string)) := by
      cases message with
      | none => exact ⟨0, .null⟩
      | some s => exact ⟨0, .string s⟩
    simpa [fieldsToJson] using ⟨hpath field, hmessage⟩

theorem exists_writable_toJson (h : b.Recordable) : ∃ n, Writable n b.toJson := by
  have hentries : ∀ j ∈ (("type", Json.string b.tag) :: b.fieldsToJson).map (·.2),
      ∃ n, Writable n j := by
    rw [List.map_cons, List.forall_mem_cons, List.forall_mem_map]
    exact ⟨⟨0, .string _⟩, exists_writable_field h⟩
  obtain ⟨n, hn⟩ := Value.exists_writable_all hentries
  exact ⟨n + 1, .object (List.forall_mem_map.mp hn)⟩

/-! ### Source texts -/

/-- Blocks as JSON. -/
def listToJson (bs : List Block) : Json := .array (bs.map toJson)

/-- Read a source text, where at most `limit` containers may be open at once. With the limit
`Json.maxDepth` this is how blocks are read everywhere. -/
def ofSource? (limit : Nat) (text : String) : Option (List Block) :=
  ((Json.Tree.parse? text).bind (·.value? .whole limit)).bind (Json.list? ofJson?)

theorem writable_listToJson (h : ∀ b ∈ bs, b.Recordable) :
    Writable (listToJson bs).nesting (listToJson bs) := by
  have hmembers : ∀ j ∈ bs.map toJson, ∃ n, Writable n j :=
    List.forall_mem_map.mpr fun b hb => exists_writable_toJson (h b hb)
  obtain ⟨n, hn⟩ := Value.exists_writable_all hmembers
  exact (Writable.array hn).at_nesting

/-- **Blocks are read from their source text**, whatever limit its nesting keeps to. -/
theorem ofSource?_sourceText (h : ∀ b ∈ bs, b.Recordable) {limit : Nat}
    (hlimit : (listToJson bs).nesting ≤ limit) : ofSource? limit (sourceText bs) = some bs := by
  obtain ⟨t, ht, hvalue⟩ := ((writable_listToJson h).mono hlimit).exists_tree
  have hlist : Json.list? ofJson? (listToJson bs) = some (bs.map id) :=
    Json.list?_map bs fun b hb => ofJson?_toJson (h b hb)
  have hparse : Json.Tree.parse? (sourceText bs) = some t := ht.parse?
  rw [ofSource?, hparse, Option.bind_some, hvalue, Option.bind_some, hlist, List.map_id]

/-- **Blocks are determined by their source text.** -/
theorem sourceText_injective {cs : List Block} (hb : ∀ b ∈ bs, b.Recordable)
    (hc : ∀ c ∈ cs, c.Recordable) (h : sourceText bs = sourceText cs) : bs = cs := by
  -- One limit is enough for both texts: the greater one of their depths.
  have hbs := ofSource?_sourceText hb (le_max_left _ (listToJson cs).nesting)
  have hcs := ofSource?_sourceText hc (le_max_right (listToJson bs).nesting _)
  rw [h, hcs] at hbs
  exact (Option.some.inj hbs).symm

end Block

/-! ### Compiled rules -/

namespace BlockRule

theorem fst_of_compileBlock {b : Block} {step : Block × Option Regex}
    (h : compileBlock b = .ok step) : step.1 = b := by
  unfold compileBlock at h
  split at h
  · split at h
    · cases h
      rfl
    · cases h
  · cases h
    rfl

theorem map_fst_of_compileSteps {bs : List Block} {steps : List (Block × Option Regex)}
    (h : compileSteps bs = .ok steps) : steps.map (·.1) = bs := by
  induction bs generalizing steps with
  | nil =>
    cases h
    rfl
  | cons b bs ih =>
    rw [compileSteps] at h
    split at h
    · cases h
    rename_i step hstep
    split at h
    · cases h
    rename_i rest hrest
    cases h
    rw [List.map_cons, fst_of_compileBlock hstep, ih hrest]

/-- **A compiled rule has the blocks that it was compiled from.** -/
theorem blocks_of_compile {bs : List Block} {r : BlockRule} (h : compile bs = .ok r) :
    r.blocks = bs := by
  unfold compile at h
  cases hsteps : compileSteps bs with
  | error e =>
    rw [hsteps] at h
    cases h
  | ok steps =>
    rw [hsteps] at h
    cases h
    exact map_fst_of_compileSteps hsteps

theorem compileBlock_eq_error_iff {b : Block} {e : InvalidPattern} :
    compileBlock b = .error e ↔ ∃ field target group,
      b = .extract field e.pattern target group ∧ Regex.compile e.pattern = .error e.reason := by
  cases b with
  | extract field pattern target group =>
    rw [compileBlock]
    constructor
    · intro h
      split at h
      · cases h
      · rename_i reason hreason
        cases h
        exact ⟨field, target, group, rfl, hreason⟩
    · rintro ⟨_, _, _, ⟨⟩, hreason⟩
      rw [hreason]
  | _ => simp [compileBlock]

/-- A row that does not compile has a first block that does not. -/
theorem exists_of_compileSteps_eq_error {bs : List Block} {e : InvalidPattern}
    (h : compileSteps bs = .error e) :
    ∃ front b back steps, bs = front ++ b :: back ∧ compileSteps front = .ok steps ∧
      compileBlock b = .error e := by
  induction bs with
  | nil => cases h
  | cons b bs ih =>
    rw [compileSteps] at h
    split at h
    · rename_i hb
      cases h
      exact ⟨[], b, bs, [], rfl, rfl, hb⟩
    · rename_i step hb
      split at h
      · rename_i hrest
        cases h
        obtain ⟨front, c, back, steps, rfl, hfront, hc⟩ := ih hrest
        exact ⟨b :: front, c, back, step :: steps, rfl, by rw [compileSteps, hb, hfront], hc⟩
      · cases h

theorem compileSteps_eq_error {front back : List Block} {b : Block} {e : InvalidPattern}
    {steps : List (Block × Option Regex)} (hfront : compileSteps front = .ok steps)
    (hb : compileBlock b = .error e) : compileSteps (front ++ b :: back) = .error e := by
  induction front generalizing steps with
  | nil => rw [List.nil_append, compileSteps, hb]
  | cons c front ih =>
    rw [compileSteps] at hfront
    split at hfront
    · cases hfront
    rename_i step hc
    split at hfront
    · cases hfront
    rename_i rest hrest
    rw [List.cons_append, compileSteps, hc, ih hrest]

/-- **A block list is refused for its first pattern that is no regular expression**, and with the
reason why that one is none. -/
theorem compile_eq_error_iff {bs : List Block} {e : InvalidPattern} :
    compile bs = .error e ↔ ∃ front field target group back r,
      bs = front ++ .extract field e.pattern target group :: back ∧
        compile front = .ok r ∧ Regex.compile e.pattern = .error e.reason := by
  have herror : compile bs = .error e ↔ compileSteps bs = .error e := by
    unfold compile
    cases compileSteps bs <;> simp [Except.map]
  have hok (front : List Block) :
      (∃ r, compile front = .ok r) ↔ ∃ steps, compileSteps front = .ok steps := by
    unfold compile
    cases compileSteps front <;> simp [Except.map]
  rw [herror]
  constructor
  · intro h
    obtain ⟨front, b, back, steps, rfl, hfront, hb⟩ := exists_of_compileSteps_eq_error h
    obtain ⟨field, target, group, rfl, hreason⟩ := compileBlock_eq_error_iff.mp hb
    obtain ⟨r, hr⟩ := (hok front).mpr ⟨steps, hfront⟩
    exact ⟨front, field, target, group, back, r, rfl, hr, hreason⟩
  · rintro ⟨front, field, target, group, back, r, rfl, hr, hreason⟩
    obtain ⟨steps, hfront⟩ := (hok front).mp ⟨r, hr⟩
    exact compileSteps_eq_error hfront
      (compileBlock_eq_error_iff.mpr ⟨field, target, group, rfl, hreason⟩)

end BlockRule

/-! ### Code hashes -/

/-- A digest is written with hexadecimal digits in lower case. -/
theorem Sha256.mem_hex {text : String} {c : Char} (hc : c ∈ (Sha256.hex text).toList) :
    ∃ n < 16, Nat.digitChar n = c := by
  rw [Sha256.hex, String.toList_ofList, List.mem_flatMap] at hc
  obtain ⟨byte, -, hc⟩ := hc
  have hbyte : byte.toNat < 256 := byte.toNat_lt_size
  rcases List.mem_cons.mp hc with rfl | hc
  · exact ⟨_, by omega, rfl⟩
  · rw [List.mem_singleton] at hc
    exact ⟨_, by omega, hc.symm⟩

/-- Nothing of a digest is lost in capital letters. -/
theorem codeHash_toLower (text : String) :
    (codeHash text).map Char.toLower = Sha256.hex text := by
  have hdigit : ∀ n < 16, (Nat.digitChar n).toUpper.toLower = Nat.digitChar n := by decide
  have hback : ∀ c ∈ (Sha256.hex text).toList, c.toUpper.toLower = c := by
    intro c hc
    obtain ⟨n, hn, rfl⟩ := Sha256.mem_hex hc
    exact hdigit n hn
  rw [codeHash, ← String.toList_inj, String.toList_map, String.toList_map, List.map_map]
  exact (List.map_congr_left hback).trans (List.map_id _)

/-- **Without collisions the code hashes of different texts differ.** -/
theorem eq_of_codeHash {a b : String} (hfree : CollisionFree [a, b])
    (h : codeHash a = codeHash b) : a = b := by
  have hhex : Sha256.hex a = Sha256.hex b := by rw [← codeHash_toLower, h, codeHash_toLower]
  exact hfree a (by simp) b (by simp) hhex

/-! ### What the source text identifies -/

/-- The code hash of a rule is that of the source text of its body. -/
theorem Rule.codeHash_of_ofSpec {m : Type → Type} {spec : Spec m} {r : Rule m}
    (h : ofSpec spec = .ok r) : r.codeHash = DocumentRules.codeHash spec.body.source := by
  unfold ofSpec at h
  split at h
  · cases h
  split at h
  · cases h
  cases h
  rfl

/-- **The source text identifies the rule.**  Blocks are read from their source text as they were,
with every limit on open containers that the text keeps to.  Compiled rules with one source text
have the same blocks and do the same to every document, and unless the digests of their source
texts collide, rules with other blocks have other code hashes. -/
theorem source_identifies_rule {m : Type → Type} [Pure m] {bs cs : List Block}
    (hb : ∀ b ∈ bs, b.Recordable) (hc : ∀ c ∈ cs, c.Recordable) :
    (∀ limit, (Block.listToJson bs).nesting ≤ limit →
        Block.ofSource? limit (Block.sourceText bs) = some bs) ∧
      (Block.sourceText bs = Block.sourceText cs → bs = cs) ∧
      ∀ r s, BlockRule.compile bs = .ok r → BlockRule.compile cs = .ok s →
        r.source = Block.sourceText bs ∧
        (r.source = s.source → r.blocks = s.blocks ∧ r.reads = s.reads ∧ r.writes = s.writes ∧
          ∀ d, r.run d = s.run d) ∧
        (bs ≠ cs → CollisionFree [r.source, s.source] →
          ∀ (spec spec' : Rule.Spec m) (x y : Rule m), spec.body = .ofBlocks r →
            spec'.body = .ofBlocks s → Rule.ofSpec spec = .ok x → Rule.ofSpec spec' = .ok y →
              x.codeHash ≠ y.codeHash) := by
  refine ⟨fun limit => Block.ofSource?_sourceText hb, Block.sourceText_injective hb hc, ?_⟩
  intro r s hr hs
  have hrsource : r.source = Block.sourceText bs := by
    rw [BlockRule.source, BlockRule.blocks_of_compile hr]
  have hssource : s.source = Block.sourceText cs := by
    rw [BlockRule.source, BlockRule.blocks_of_compile hs]
  have hsame (h : r.source = s.source) : bs = cs :=
    Block.sourceText_injective hb hc (by rw [← hrsource, h, hssource])
  refine ⟨hrsource, fun h => ?_, fun hne hfree spec spec' x y hspec hspec' hx hy hhash => ?_⟩
  · obtain rfl := hsame h
    rw [hr] at hs
    cases hs
    exact ⟨rfl, rfl, rfl, fun _ => rfl⟩
  · rw [Rule.codeHash_of_ofSpec hx, Rule.codeHash_of_ofSpec hy, hspec, hspec'] at hhash
    exact hne (hsame (eq_of_codeHash hfree hhash))

/-! ### The number one, spelled in two ways -/

namespace TwoOnes

/-- A null and a number. -/
def literal (one : Document) : Document where
  value := .list [.null, one.value]
  wellFormed := Value.wellFormed_list.mpr (by simp [one.wellFormed])

/-- Replaces the whole document by the literal. -/
def blocks (one : Document) : List Block := [.set Path.root (literal one)]

def rule (one : Document) : BlockRule := ⟨[(.set Path.root (literal one), none)]⟩

def spec (one : Document) : Rule.Spec Id :=
  { id := "r", name := "r", body := .ofBlocks (rule one) }

theorem recordable {one : Document} (h : one.value.Finite) : ∀ b ∈ blocks one, b.Recordable := by
  have hnull : Value.Finite .null := Value.finite_of_scalar rfl fun _ h => nomatch h
  have hliteral : (literal one).value.Finite :=
    Value.finite_list (List.forall_mem_cons.mpr ⟨hnull, List.forall_mem_singleton.mpr h⟩)
  simp [blocks, Block.Recordable, Path.Readable, Path.root, hliteral]

theorem recordable_int : ∀ b ∈ blocks (.int 1), b.Recordable :=
  recordable (Value.finite_of_scalar rfl fun _ h => nomatch h)

theorem recordable_float : ∀ b ∈ blocks (.float (.ofNat 1)), b.Recordable := by
  refine recordable (Value.finite_of_scalar rfl fun x hx => ?_)
  cases hx
  rfl

end TwoOnes

open TwoOnes in
/-- The integer and the floating-point number come back as what they were, and the code hashes
tell the two rules apart. -/
theorem source_identifies_rule_ones :
    Block.sourceText (blocks (.float (.ofNat 1))) =
        "[\x7b\"type\":\"set\",\"field\":\"$\",\"value\":[null,1.0]\x7d]" ∧
      (Json.parse (Block.sourceText (blocks (.float (.ofNat 1))))).bind
        (Json.list? Block.ofJson?) = some (blocks (.float (.ofNat 1))) ∧
      ∃ x y, Rule.ofSpec (spec (.float (.ofNat 1))) = .ok x ∧
        Rule.ofSpec (spec (.int 1)) = .ok y ∧ x.codeHash ≠ y.codeHash := by
  obtain ⟨hread, -, hcompiled⟩ :=
    source_identifies_rule (m := Id) recordable_float recordable_int
  obtain ⟨-, -, hhash⟩ := hcompiled (rule (.float (.ofNat 1))) (rule (.int 1)) rfl rfl
  have hne : blocks (.float (.ofNat 1)) ≠ blocks (.int 1) := by
    simp [blocks, literal, Document.float, Document.int]
  have hdigests : Sha256.hex (rule (.float (.ofNat 1))).source ≠
      Sha256.hex (rule (.int 1)).source := by
    decide +kernel
  have hfree : CollisionFree [(rule (.float (.ofNat 1))).source, (rule (.int 1)).source] := by
    intro a ha b hb h
    simp only [List.mem_cons, List.not_mem_nil, or_false] at ha hb
    rcases ha with rfl | rfl <;> rcases hb with rfl | rfl
    · rfl
    · exact absurd h hdigests
    · exact absurd h.symm hdigests
    · rfl
  refine ⟨by decide +kernel, hread Json.maxDepth (by decide), _, _, rfl, rfl, ?_⟩
  exact hhash hne hfree (spec (.float (.ofNat 1))) (spec (.int 1)) _ _ rfl rfl rfl rfl

end DocumentRules
