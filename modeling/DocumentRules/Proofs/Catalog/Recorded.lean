/-
What the outcome of a test case keeps when it is recorded as JSON.

An outcome holds documents, mismatches and changes, and each of these is written with the values
that it speaks of.  In three places a value may be missing: what a change says was there and is
there, what a mismatch found, and what a run put out.  A missing value is left out, or written as
null, and null counts as nothing when it is read.  So a value that is there and null is lost
(`TestOutcome.readBack`), and it is all that is lost.

* **`Mismatch.ofJson?_toJson`**, **`Verdict.ofJson?_toJson`**, **`LogLine.ofJson?_toJson`**,
  **`TestOutcome.ofJson?_toJson`** — the records are read back, up to those nulls;
* **`TestOutcome.readBack_eq_self_iff`** — an outcome comes back as it was exactly if it holds
  none;
* **`TakeTurns.recordable`** — what a run over recordable documents leaves behind is recordable;
* **`records_read_back`** — the changes between documents, the mismatches of a fragment and the
  outcomes of evaluated cases;
* **`added_null_lost`** — an addition of null, after which nothing has been added.
-/
import DocumentRules.Catalog.OutcomeJson
import DocumentRules.Proofs.Catalog.Containment
import DocumentRules.Proofs.Change.Recorded
import DocumentRules.Proofs.Run.Frame

namespace DocumentRules

/-! ### Mismatches -/

namespace Mismatch

/-- What is read back of a recorded mismatch. -/
def readBack (m : Mismatch) : Mismatch := { m with actual := Value.readBack m.actual }

theorem readBack_eq_self_iff {m : Mismatch} : m.readBack = m ↔ m.actual ≠ some .null := by
  rw [← Value.readBack_eq_self_iff]
  obtain ⟨path, expected, actual, reason⟩ := m
  simp [readBack]

/-- What a recorded mismatch holds can be read. -/
structure Recordable (m : Mismatch) : Prop where
  path : m.path.Readable
  expected : m.expected.WellFormed ∧ m.expected.Recordable
  actual : ∀ v ∈ m.actual, v.WellFormed ∧ v.Recordable

theorem recordable_of_mem_compare {expected actual : Value} (he : expected.WellFormed)
    (ha : actual.WellFormed) (her : expected.Recordable) (har : actual.Recordable) {m : Mismatch}
    (hm : m ∈ compare expected actual) : m.Recordable := by
  obtain ⟨-, hexpected, hactual, -⟩ := (Value.mem_compare_iff he).mp hm
  refine ⟨her.readable hexpected, ?_, fun v hv => ?_⟩
  · exact ⟨Value.wellFormed_of_get? he hexpected, her.of_get? hexpected⟩
  · rw [hactual] at hv
    exact ⟨Value.wellFormed_of_get? ha hv, har.of_get? hv⟩

/-- **A recorded mismatch is read back**, up to a null in place of what is there. -/
theorem ofJson?_toJson {m : Mismatch} (h : m.Recordable) : ofJson? m.toJson = some m.readBack := by
  have hjson : m.toJson = .object (Record.written [("path", some m.path.toJson),
      ("expected", some m.expected.toJson),
      ("actual", some (Json.ofOption (m.actual.map Value.toJson))),
      ("reason", m.reason.map .string)]) := by
    simp [toJson, Record.written, Json.optional]
  obtain ⟨r, hr, hpositional, hpath, hexpected, hactual, hreason⟩ :=
    Record.exists_ofJson?_written ["path", "expected", "actual", "reason"] hjson rfl (by decide)
  rw [ofJson?, hr]
  simp only [Option.bind_eq_bind, Option.bind_some, Record.required_eq hpath,
    Path.ofJson?_toJson h.path, Record.required_eq hexpected, Function.comp_apply,
    Value.ofJson_toJson h.expected.1 h.expected.2,
    Record.nullable_value hpositional hactual h.actual, Record.optional_string hreason]
  rfl

end Mismatch

/-! ### Verdicts, log lines and documents -/

theorem map_eq_self_iff {α : Type} {f : α → α} {as : List α} :
    as.map f = as ↔ ∀ a ∈ as, f a = a := by
  have h : as.map f = as.map id ↔ ∀ a ∈ as, f a = id a := List.map_inj_left
  rwa [List.map_id] at h

namespace Verdict

/-- What is read back of a recorded verdict. -/
def readBack : Verdict → Verdict
  | .pass => .pass
  | .fail mismatches => .fail (mismatches.map Mismatch.readBack)
  | .error message => .error message

def mismatches : Verdict → List Mismatch
  | .fail mismatches => mismatches
  | _ => []

theorem readBack_eq_self_iff {v : Verdict} :
    v.readBack = v ↔ ∀ m ∈ v.mismatches, m.actual ≠ some .null := by
  cases v with
  | fail ms =>
    rw [readBack, fail.injEq, mismatches]
    simp only [← Mismatch.readBack_eq_self_iff]
    exact map_eq_self_iff
  | _ => simp [readBack, mismatches]

/-- **A recorded verdict is read back**, up to the nulls of its mismatches. -/
theorem ofJson?_toJson {v : Verdict} (h : ∀ m ∈ v.mismatches, m.Recordable) :
    ofJson? v.toJson = some v.readBack := by
  cases v with
  | pass => rfl
  | fail ms =>
    have hjson : toJson (.fail ms) = .object (Record.written [("status", some (.string "fail")),
        ("mismatches", some (.array (ms.map Mismatch.toJson)))]) := rfl
    obtain ⟨r, hr, -, -, hmismatches⟩ := Record.exists_ofJson?_written
      ["status", "mismatches"] hjson rfl (by decide)
    have hlist := Json.list?_map ms fun m hm => Mismatch.ofJson?_toJson (h m hm)
    have hstatus : status? (toJson (.fail ms)) = some "fail" := rfl
    rw [ofJson?, hstatus]
    simp only [Option.bind_eq_bind, Option.bind_some]
    rw [if_neg (by decide), if_pos trivial, hr]
    simp only [Option.bind_some, Record.required_eq hmismatches, hlist]
    rfl
  | error message =>
    have hjson : toJson (.error message) = .object (Record.written
        [("status", some (.string "error")), ("message", some (.string message))]) := rfl
    obtain ⟨r, hr, -, -, hmessage⟩ := Record.exists_ofJson?_written
      ["status", "message"] hjson rfl (by decide)
    have hstatus : status? (toJson (.error message)) = some "error" := rfl
    rw [ofJson?, hstatus]
    simp only [Option.bind_eq_bind, Option.bind_some]
    rw [if_neg (by decide), if_neg (by decide), if_pos trivial, hr]
    simp only [Option.bind_some, Record.required_eq hmessage]
    rfl

end Verdict

theorem LogLevel.ofText?_word (l : LogLevel) :
    (Json.string l.text).word?.bind ofText? = some l := by
  cases l <;> rfl

theorem LogLine.ofJson?_toJson (l : LogLine) : ofJson? l.toJson = some l := by
  have hjson : l.toJson = .object (Record.written [("level", some (.string l.level.text)),
      ("rule_id", l.rule.map .string), ("message", some (.string l.message))]) := by
    simp [toJson, Record.written, Json.optional]
  obtain ⟨r, hr, -, hlevel, hrule, hmessage⟩ := Record.exists_ofJson?_written
    ["level", "rule_id", "message"] hjson rfl (by decide)
  rw [ofJson?, hr]
  simp only [Option.bind_eq_bind, Option.bind_some, Record.required_eq hlevel,
    LogLevel.ofText?_word, Record.optional_string hrule, Record.required_eq hmessage, Json.string?]
  rfl

/-- What is read back of a document that may be missing: null counts as nothing. -/
def Document.readBack (o : Option Document) : Option Document := o.filter (!·.value.isNull)

theorem Document.readBack_eq_self_iff {o : Option Document} :
    Document.readBack o = o ↔ ∀ d ∈ o, d.value ≠ .null := by
  cases o with
  | none => simp [readBack]
  | some d => cases hd : d.value <;> simp [readBack, hd, Value.isNull]

theorem Record.optional_document {r : Record} {n : String} {o : Option Document}
    (h : r.get? n = o.map Document.toJson) (ho : ∀ d ∈ o, d.value.Recordable) :
    r.optional n (some ∘ Document.ofJson) = some (Document.readBack o) := by
  by_cases hnull : ∃ d ∈ o, d.value = .null
  · obtain ⟨d, rfl, hd⟩ := hnull
    have hjson : r.get? n = some .null := by rw [h, Option.map_some, Document.toJson, hd]; rfl
    rw [optional_null hjson, Document.readBack, Option.filter_some_neg (by simp [hd, Value.isNull])]
  · simp only [not_exists, not_and] at hnull
    rw [Document.readBack_eq_self_iff.mpr hnull]
    refine optional_map h fun d hd => ⟨?_, congrArg some (Document.ofJson_toJson (ho d hd).finite)⟩
    exact fun e => hnull d hd ((Value.toJson_eq_null_iff (ho d hd)).mp e)

/-! ### Outcomes -/

namespace TestOutcome

/-- What is read back of a recorded outcome. -/
def readBack (o : TestOutcome) : TestOutcome :=
  { o with
    verdict := o.verdict.readBack
    actual := Document.readBack o.actual
    mutations := o.mutations.map Mutation.readBack }

/-- No null stands where a value may be missing. -/
structure NullFree (o : TestOutcome) : Prop where
  verdict : ∀ m ∈ o.verdict.mismatches, m.actual ≠ some .null
  actual : ∀ d ∈ o.actual, d.value ≠ .null
  mutations : ∀ m ∈ o.mutations, m.old ≠ some .null ∧ m.new ≠ some .null

theorem readBack_eq_self_iff {o : TestOutcome} : o.readBack = o ↔ o.NullFree := by
  have hmutations : o.mutations.map Mutation.readBack = o.mutations ↔
      ∀ m ∈ o.mutations, m.old ≠ some .null ∧ m.new ≠ some .null := by
    simp only [map_eq_self_iff, Mutation.readBack_eq_self_iff]
  have hparts : o.readBack = o ↔ o.verdict.readBack = o.verdict ∧
      Document.readBack o.actual = o.actual ∧
      o.mutations.map Mutation.readBack = o.mutations := by
    obtain ⟨id, name, verdict, durationMs, actual, mutations, logs⟩ := o
    simp [readBack]
  rw [hparts, Verdict.readBack_eq_self_iff, Document.readBack_eq_self_iff, hmutations]
  exact ⟨fun ⟨hv, ha, hm⟩ => ⟨hv, ha, hm⟩, fun h => ⟨h.verdict, h.actual, h.mutations⟩⟩

/-- What a recorded outcome holds can be read. -/
structure Recordable (o : TestOutcome) : Prop where
  verdict : ∀ m ∈ o.verdict.mismatches, m.Recordable
  actual : ∀ d ∈ o.actual, d.value.Recordable
  mutations : ∀ m ∈ o.mutations, m.Recordable

/-- The outcome as it is recorded: under an id, with the time that the run took. -/
def stamped (o : TestOutcome) (id : String) (durationMs : UInt64) : TestOutcome :=
  { o with id := some id, durationMs := durationMs.toNat }

theorem Recordable.stamped {o : TestOutcome} (h : o.Recordable) (id : String)
    (durationMs : UInt64) : (o.stamped id durationMs).Recordable :=
  ⟨h.verdict, h.actual, h.mutations⟩

/-- **A recorded outcome is read back**, up to the nulls in it. -/
theorem ofJson?_toJson {o : TestOutcome} (h : o.Recordable) (name : String) (ms : UInt64) :
    ofJson? (o.stamped name ms).toJson = some (o.stamped name ms).readBack := by
  have hjson : (o.stamped name ms).toJson = .object (Record.written [("id", some (.string name)),
      ("name", some (.string o.name)), ("verdict", some o.verdict.toJson),
      ("duration_ms", some (.integer ms.toNat)), ("actual", o.actual.map Document.toJson),
      ("mutations", some (.array (o.mutations.map Mutation.toJson))),
      ("logs", some (.array (o.logs.map LogLine.toJson)))]) := by
    simp [stamped, toJson, Record.written, Json.optional, Json.ofOption]
  obtain ⟨r, hr, -, hid, hname, hverdict, hduration, hactual, hmutations, hlogs⟩ :=
    Record.exists_ofJson?_written
      ["id", "name", "verdict", "duration_ms", "actual", "mutations", "logs"] hjson rfl (by decide)
  have hms := Json.list?_map o.mutations fun m hm =>
    Mutation.ofJson?_toJson (h.mutations m hm)
  have hls := Json.list?_map o.logs fun l _ => LogLine.ofJson?_toJson l
  rw [ofJson?, hr]
  simp only [Option.bind_eq_bind, Option.bind_some, Record.required_eq hid,
    Record.required_eq hname, Json.string?, Record.required_eq hverdict,
    Verdict.ofJson?_toJson h.verdict, Record.required_eq hduration,
    Json.natural?_integer ms.toNat_lt_size,
    Record.optional_document hactual h.actual, Record.defaulted_eq hmutations, hms,
    Record.defaulted_eq hlogs, hls, List.map_id_fun']
  rfl

end TestOutcome

/-! ### Evaluated cases -/

open RunResult (lastOf lastOf_cons)

variable {m : Type → Type}

/-- Every document of the row is recordable. -/
structure RecordableTurns (d : Document) (ts : List (Turn m)) : Prop where
  first : d.value.Recordable
  after : ∀ t ∈ ts, t.after.value.Recordable

theorem RecordableTurns.tail {d : Document} {t : Turn m} {ts : List (Turn m)}
    (h : RecordableTurns d (t :: ts)) : RecordableTurns t.after ts :=
  ⟨h.after t (List.mem_cons_self ..), fun u hu => h.after u (List.mem_cons_of_mem t hu)⟩

/-- **A row of turns over recordable documents** has recordable changes and a recordable
result. -/
theorem TakeTurns.recordable {rs : List (Rule m)} {d : Document} {ts : List (Turn m)}
    (h : TakeTurns rs d ts) (hr : RecordableTurns d ts) :
    (∀ c ∈ ts.flatMap Turn.changes, c.Recordable) ∧ (lastOf d ts).value.Recordable := by
  induction h with
  | nil d => exact ⟨List.forall_mem_nil _, hr.first⟩
  | failed r failure rest ih =>
    rw [lastOf_cons]
    exact ih hr.tail
  | @completed rs d e ts r declared rest ih =>
    obtain ⟨hrest, hlast⟩ := ih hr.tail
    rw [lastOf_cons]
    refine ⟨fun c hc => ?_, hlast⟩
    rcases List.mem_append.mp hc with hc | hc
    · exact Value.recordable_of_mem_diffBy d.wellFormed e.wellFormed hr.first
        (hr.after _ (List.mem_cons_self ..)) hc
    · exact hrest c hc

namespace TestOutcome

/-- **The outcome of a case is recordable** if its fragment is and the documents of its run
are. -/
theorem recordable_ofRun {c : TestCase} {rs : List (Rule m)} {ts : List (Turn m)}
    (hc : c.expected.value.Recordable) (h : TakeTurns rs c.input ts)
    (hr : RecordableTurns c.input ts) (options : RunOptions) :
    (ofRun c (.ok (.ofTurns options c.input ts))).Recordable := by
  obtain ⟨hchanges, hlast⟩ := h.recordable hr
  refine ⟨fun b hb => ?_, fun d hd => ?_, hchanges⟩
  · rw [ofRun] at hb
    dsimp only at hb
    split at hb
    · cases hb
    · exact Mismatch.recordable_of_mem_compare c.expected.wellFormed (Document.wellFormed _) hc
        hlast hb
  · cases hd
    exact hlast

theorem recordable_ofRun_error (c : TestCase) (err : RunError) :
    (ofRun c (.error err)).Recordable :=
  ⟨List.forall_mem_nil _, fun _ h => (nomatch h), List.forall_mem_nil _⟩

/-- The facts of a recordable outcome come back as they were. -/
theorem Recordable.ofJson?_fact {o : TestOutcome} (h : o.Recordable) :
    ∀ f ∈ Coverage.ofOutcomes [o], Coverage.Fact.ofJson? f.toJson = some f := by
  intro f hf
  simp only [Coverage.ofOutcomes, Coverage.ofMutations, OrderedSet.mem_ofList, List.mem_flatMap,
    List.mem_filter, List.mem_singleton] at hf
  obtain ⟨b, ⟨_, ⟨rfl, -⟩, hb⟩, hf⟩ := hf
  exact (h.mutations b hb).ofJson?_fact hf

end TestOutcome

/-- **Records are read back up to their nulls.**  A change between two recordable documents, a
mismatch of a recordable fragment and the outcome of a case come back as they were exactly if no
null stands where a value may be missing; such a null comes back as nothing.  A change that loses
a null loses the leaf at its path, and no other one.  The facts come back as they were. -/
theorem records_read_back [Monad m] [LawfulMonad m] (s : Snapshot m) (options : RunOptions) :
    (∀ (id : String) (before after : Document), before.value.Recordable → after.value.Recordable →
      ∀ b ∈ diffBy id before.value after.value,
        Mutation.ofJson? b.toJson = some b.readBack ∧
        (b.readBack = b ↔ b.old ≠ some .null ∧ b.new ≠ some .null) ∧
        (∀ q, q ∈ b.touchedLeaves ↔ q ∈ b.readBack.touchedLeaves ∨
          (q = b.path ∧ (b.old = some .null ∨ b.new = some .null))) ∧
        ∀ f ∈ b.facts, Coverage.Fact.ofJson? f.toJson = some f) ∧
    (∀ expected actual : Document, expected.value.Recordable → actual.value.Recordable →
      ∀ b ∈ compare expected.value actual.value,
        Mismatch.ofJson? b.toJson = some b.readBack ∧ (b.readBack = b ↔ b.actual ≠ some .null)) ∧
    ∀ (c : TestCase) (id : String) (ms : UInt64),
      (c.expected.value.Recordable → s.EveryRun options c.input fun turns result =>
        RecordableTurns c.input turns →
          let o := (TestOutcome.ofRun c (.ok result)).stamped id ms
          TestOutcome.ofJson? o.toJson = some o.readBack ∧ (o.readBack = o ↔ o.NullFree) ∧
            ∀ f ∈ Coverage.ofOutcomes [o], Coverage.Fact.ofJson? f.toJson = some f) ∧
      ∀ err,
        let o := (TestOutcome.ofRun c (.error err)).stamped id ms
        TestOutcome.ofJson? o.toJson = some o := by
  refine ⟨?_, ?_, fun c id ms => ⟨fun hc => Snapshot.everyRun_of_takeTurns ?_, ?_⟩⟩
  · intro id before after hbefore hafter b hb
    have hrecordable := Value.recordable_of_mem_diffBy before.wellFormed after.wellFormed
      hbefore hafter hb
    exact ⟨Mutation.ofJson?_toJson hrecordable, Mutation.readBack_eq_self_iff,
      fun _ => Mutation.mem_touchedLeaves_iff_readBack, fun _ => hrecordable.ofJson?_fact⟩
  · intro expected actual he ha b hb
    have hrecordable := Mismatch.recordable_of_mem_compare expected.wellFormed actual.wellFormed
      he ha hb
    exact ⟨Mismatch.ofJson?_toJson hrecordable, Mismatch.readBack_eq_self_iff⟩
  · intro turns hturns hrecordable
    have houtcome := TestOutcome.recordable_ofRun hc hturns hrecordable options
    exact ⟨TestOutcome.ofJson?_toJson houtcome id ms, TestOutcome.readBack_eq_self_iff,
      (houtcome.stamped id ms).ofJson?_fact⟩
  · intro err
    exact TestOutcome.ofJson?_toJson (TestOutcome.recordable_ofRun_error c err) id ms

namespace Chained

/-- A document with null at the key that the first rule copies from. -/
def nullDocument : Document := Document.emptyMap.setScalar [.key "a"] .null

/-- A case that expects null there. -/
def expectingNull : TestCase where
  id := none
  name := "copied"
  enabled := true
  suite := none
  tags := .ofList []
  priority := 0
  input := document
  expected := nullDocument

/-- A document of whole numbers. -/
theorem recordable_ints (entries : List (String × Int64)) :
    Value.Recordable (.map (entries.map fun e => (e.1, .int e.2))) := by
  refine Value.recordable_map (List.forall_mem_map.mpr fun e _ => ?_)
  exact Value.recordable_int e.2

theorem recordable_document : document.value.Recordable := recordable_ints [("a", 1)]

theorem recordable_nullDocument : nullDocument.value.Recordable :=
  Value.recordable_map (List.forall_mem_singleton.mpr Value.recordable_null)

end Chained

open Chained in
/-- The null in the old document is lost, the one that is expected comes back, and so does the
outcome of a run without nulls. -/
theorem records_read_back_chained :
    (∃ b, diffBy "r" nullDocument.value document.value = [b] ∧
      Mutation.ofJson? b.toJson = some { b with old := none }) ∧
    (∃ b, compare nullDocument.value document.value = [b] ∧
      Mismatch.ofJson? b.toJson = some b) ∧
    ∃ turns, (trace snapshot.orderedRules document).run = .ok turns ∧
      let o := (TestOutcome.ofRun expectingNull (.ok (.ofTurns {} document turns))).stamped "t" 3
      o.mutations.length = 2 ∧ TestOutcome.ofJson? o.toJson = some o := by
  obtain ⟨hdiff, hcompare, houtcome⟩ := records_read_back snapshot {}
  refine ⟨⟨_, rfl, ?_⟩, ⟨_, rfl, ?_⟩, ⟨_, rfl, ?_⟩⟩
  · exact (hdiff "r" _ _ recordable_nullDocument recordable_document _
      (List.mem_singleton.mpr rfl)).1
  · exact (hcompare _ _ recordable_nullDocument recordable_document _
      (List.mem_singleton.mpr rfl)).1
  · have hrun := Snapshot.everyRun_id.mp
      ((houtcome expectingNull "t" 3).1 recordable_nullDocument) _ rfl ?_
    · exact ⟨rfl, hrun.1⟩
    · refine ⟨recordable_document, List.forall_mem_cons.mpr ⟨?_, List.forall_mem_singleton.mpr ?_⟩⟩
      · exact recordable_ints [("a", 1), ("b", 1)]
      · exact recordable_ints [("a", 1), ("b", 1), ("c", 1)]

/-- **An added null is lost**: what is read back of the change has no value, and touches no
leaf. -/
theorem added_null_lost :
    ∃ b ∈ diffBy "r" Document.emptyMap.value Chained.nullDocument.value,
      b.new = some .null ∧ [.key "a"] ∈ b.touchedLeaves ∧
      ∃ c, Mutation.ofJson? b.toJson = some c ∧ c ≠ b ∧ c.new = none ∧
        c.touchedLeaves.toList = [] := by
  refine ⟨_, List.mem_singleton.mpr rfl, rfl, by decide, _, rfl, ?_, rfl, rfl⟩
  intro h
  cases congrArg Mutation.new h

end DocumentRules
