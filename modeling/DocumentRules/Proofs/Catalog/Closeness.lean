/-
How close a number has to be.

A matcher whose only rule is `approx` has three reasons to refuse a field: that it is missing, that
it denotes no number, and that the distance of its number exceeds the tolerance.  The last one is a
comparison, and no comparison with `nan` holds.  So a field that denotes `nan` is not refused,
although it is at no distance from any number.

* `Matcher.OnlyApprox` — the matchers in question;
* `Matcher.Near` — the number is finite, and its distance, rounded, is within the tolerance;
* `Matcher.Answer` — what the check answers, for each kind of field;
* **`Matcher.lt_abs_sub_iff`** — when the comparison refuses a number;
* **`Numeral.read?_eq_nan_iff`** — the texts that are read as `nan`;
* **`Matcher.approx_answer`** — the check gives these answers.
-/
import DocumentRules.Proofs.Catalog.Matching
import DocumentRules.Proofs.Number.Arithmetic
import DocumentRules.Proofs.Number.Shortest

namespace DocumentRules

open Binary64 (Nearest)

/-! ### Texts that are read as `nan` -/

namespace Numeral

/-- The word `nan` in any letter case, perhaps behind a sign. -/
def IsNanText (text : List Char) : Prop :=
  ∃ sign word, text = sign ++ word ∧ (sign = [] ∨ sign = ['-'] ∨ sign = ['+']) ∧
    word.map Char.toLower = ['n', 'a', 'n']

theorem nearest_ne_nan (negative : Bool) (d : Decimal) : nearest negative d ≠ .nan := by
  rw [nearest_eq]
  exact Binary64.ofQuotient_ne_nan _ _ _

theorem readUnsigned?_eq_nan_iff {negative : Bool} {text : List Char} :
    readUnsigned? negative text = some .nan ↔ text.map Char.toLower = ['n', 'a', 'n'] := by
  unfold readUnsigned?
  dsimp only
  split
  · rename_i hinfinite
    refine iff_of_false nofun fun hnan => ?_
    rw [hnan] at hinfinite
    exact absurd hinfinite (by decide)
  · split
    · rename_i hnan
      exact iff_of_true rfl hnan
    · rename_i hnan
      refine iff_of_false ?_ hnan
      rw [Option.map_eq_some_iff]
      rintro ⟨d, -, hd⟩
      exact nearest_ne_nan _ d hd

/-- **The texts that are read as `nan`.** -/
theorem read?_eq_nan_iff {text : List Char} : read? text = some .nan ↔ IsNanText text := by
  constructor
  · intro h
    unfold read? at h
    split at h
    · exact ⟨['-'], _, rfl, .inr (.inl rfl), readUnsigned?_eq_nan_iff.mp h⟩
    · exact ⟨['+'], _, rfl, .inr (.inr rfl), readUnsigned?_eq_nan_iff.mp h⟩
    · exact ⟨[], _, rfl, .inl rfl, readUnsigned?_eq_nan_iff.mp h⟩
  · rintro ⟨sign, word, rfl, rfl | rfl | rfl, hword⟩
    · -- The word itself begins with no sign.
      rw [List.nil_append]
      unfold read?
      split
      · exact absurd (List.cons.inj hword).1 (by decide)
      · exact absurd (List.cons.inj hword).1 (by decide)
      · exact readUnsigned?_eq_nan_iff.mpr hword
    · exact readUnsigned?_eq_nan_iff.mpr hword
    · exact readUnsigned?_eq_nan_iff.mpr hword

end Numeral

namespace Matcher

variable {m : Matcher} {rule v : Value} {field : Option Value} {e t x : Binary64}
  {r : Except Failure Unit} {rules : List (String × Value)}

/-- The only rule of the matcher is `approx`.  It expects a finite number, within a finite
tolerance that is not negative. -/
structure OnlyApprox (m : Matcher) (e t : Binary64) : Prop where
  only : ∀ name rule, Entries.find? name m.rules = some rule → name = "approx" ∨ name = "tol"
  rule : ∃ rule, Entries.find? "approx" m.rules = some rule ∧ Expects rule e ∧ m.Tolerates rule t
  finite_expected : e.isFinite = true
  finite_tolerance : t.isFinite = true
  nonneg : 0 ≤ t.toRat

/-- The number is finite, and its distance from the expected one, rounded to the nearest number, is
at most the tolerance. -/
structure Near (e t x : Binary64) : Prop where
  finite : x.isFinite = true
  distance : ∃ z, Nearest |x.toRat - e.toRat| z ∧ z.isFinite = true ∧ z.toRat ≤ t.toRat

/-- What the check answers, for each kind of field. -/
inductive Answer (e t : Binary64) (field : Option Value) : Except Failure Unit → Prop where
  | missing (h : ¬ Present field) : Answer e t field (.error .missing)
  | notNumeric {v : Value} (hv : field = some v) (hnull : v ≠ .null) (h : ∀ x, ¬ Denotes v x) :
      Answer e t field (.error .notNumeric)
  | far {v : Value} {x : Binary64} (hv : field = some v) (hx : Denotes v x) (hnan : x ≠ .nan)
      (h : ¬ Near e t x) : Answer e t field (.error (.outOfTolerance x e t))
  | near {v : Value} {x : Binary64} (hv : field = some v) (hx : Denotes v x) (h : Near e t x) :
      Answer e t field (.ok ())
  | notANumber {v : Value} (hv : field = some v) (h : Denotes v .nan) : Answer e t field (.ok ())

/-! ### The comparison -/

theorem lt_infinity (ht : t.isFinite = true) : t.lt (.infinity false) = true := by
  cases t with
  | finite => rfl
  | nan => cases ht
  | infinity _ => cases ht

/-- A finite distance is compared by its value. -/
theorem lt_iff_of_nearest {d : ℚ} {z : Binary64} (ht : t.isFinite = true) (hd : 0 ≤ d)
    (hz : Nearest d z) :
    t.lt z = true ↔ ¬ ∃ z, Nearest d z ∧ z.isFinite = true ∧ z.toRat ≤ t.toRat := by
  cases hfinite : z.isFinite with
  | true =>
    rw [Binary64.lt_iff ht hfinite, ← not_le, not_iff_not]
    constructor
    · exact fun hle => ⟨z, hz, hfinite, hle⟩
    · rintro ⟨y, hy, -, hle⟩
      rwa [(hz.unique hy).2]
  | false =>
    cases hz with
    | finite => cases hfinite
    | @infinite s hlarge hsign =>
      obtain rfl : s = false := Bool.eq_false_iff.mpr fun hs => (hsign.mp hs).not_ge hd
      refine iff_of_true (lt_infinity ht) ?_
      rintro ⟨y, hy, hyfinite, -⟩
      rw [← ((Nearest.infinite hlarge hsign).unique hy).1] at hyfinite
      cases hyfinite

/-- **When the comparison refuses a number**: it is not near, and it is not `nan`. -/
theorem lt_abs_sub_iff (he : e.isFinite = true) (ht : t.isFinite = true) :
    t.lt (x.sub e).abs = true ↔ x ≠ .nan ∧ ¬ Near e t x := by
  cases hx : x.isFinite with
  | true =>
    rw [lt_iff_of_nearest ht (abs_nonneg _) (Binary64.nearest_abs_sub hx he)]
    constructor
    · intro hfar
      refine ⟨?_, fun hnear => hfar hnear.distance⟩
      rintro rfl
      cases hx
    · rintro ⟨-, hfar⟩ hnear
      exact hfar ⟨hx, hnear⟩
  | false =>
    cases x with
    | finite => cases hx
    | nan =>
      refine iff_of_false ?_ fun h => h.1 rfl
      cases e <;> cases t <;> exact Bool.false_ne_true
    | infinity s =>
      refine iff_of_true ?_ ⟨nofun, fun hnear => Bool.false_ne_true hnear.finite⟩
      cases e with
      | finite => exact lt_infinity ht
      | nan => cases he
      | infinity _ => cases he

/-- A number at an exact distance within the tolerance is near. -/
theorem near_of_le (hx : x.isFinite = true) (he : e.isFinite = true) (ht : t.isFinite = true)
    (h : |x.toRat - e.toRat| ≤ t.toRat) : Near e t x := by
  have hnearest := Binary64.nearest_abs_sub hx he
  have hfinite := hnearest.isFinite (by
    rw [abs_abs]
    exact h.trans_lt ((le_abs_self _).trans_lt (Binary64.abs_toRat_lt_overflow ht)))
  exact ⟨hx, _, hnearest, hfinite, hnearest.le hfinite ht h⟩

/-! ### The check -/

/-- Where all rules succeed but for one answer, that is the answer of the check. -/
theorem checkRules_eq (hr : ∃ a ∈ rules, m.checkRule field a.1 a.2 = r)
    (hall : ∀ a ∈ rules, m.checkRule field a.1 a.2 = .ok () ∨ m.checkRule field a.1 a.2 = r) :
    m.checkRules field rules = r := by
  induction rules with
  | nil =>
    obtain ⟨a, ha, -⟩ := hr
    cases ha
  | cons a rules ih =>
    obtain ⟨ha, hrules⟩ := List.forall_mem_cons.mp hall
    obtain ⟨name, rule⟩ := a
    rw [checkRules]
    cases hrule : m.checkRule field name rule with
    | error failure =>
      rw [hrule] at ha
      rcases ha with hok | hanswer
      · cases hok
      · exact hanswer
    | ok u =>
      rcases (List.exists_mem_cons_iff ..).mp hr with hhead | htail
      · -- Then the one answer is success, too.
        obtain rfl : .ok () = r := hrule.symm.trans hhead
        exact checkRules_eq_ok_iff.mpr fun a ha => (hrules a ha).elim id id
      · exact ih htail hrules

theorem check_eq_checkApprox {expected : Document} (hm : Matcher.of? expected.value = some m)
    (h : m.OnlyApprox e t) (hrule : Entries.find? "approx" m.rules = some rule)
    (field : Option Value) : m.check field = m.checkApprox rule field := by
  have hasc := ascending_of_of? expected.wellFormed hm
  have hmem := (Entries.find?_eq_some_iff hasc).mp hrule
  have happrox : m.checkRule field "approx" rule = m.checkApprox rule field := by
    rw [checkRule, if_neg (by decide), if_neg (by decide), if_pos rfl]
  have hne : m.rules.isEmpty ≠ true := by
    rw [ne_eq, List.isEmpty_iff]
    exact List.ne_nil_of_mem hmem
  rw [check, if_neg hne]
  refine checkRules_eq ⟨_, hmem, happrox⟩ fun a ha => ?_
  obtain ⟨name, rule'⟩ := a
  have hfind := (Entries.find?_eq_some_iff hasc).mpr ha
  rcases h.only name rule' hfind with rfl | rfl
  · obtain rfl := Option.some.inj (hrule.symm.trans hfind)
    exact Or.inr happrox
  · exact Or.inl (checkRule_tol m field rule')

/-- The rule gives these answers. -/
theorem checkApprox_of_answer (hexpects : Expects rule e) (htolerates : m.Tolerates rule t)
    (he : e.isFinite = true) (ht : t.isFinite = true) (h : Answer e t field r) :
    m.checkApprox rule field = r := by
  have hfst := approxTarget_fst_iff.mpr hexpects
  have htol := tolerates_iff.mp htolerates
  rw [checkApprox]
  generalize approxTarget rule = target at hfst htol ⊢
  obtain ⟨target, inner⟩ := target
  obtain rfl : target = some e := hfst
  simp only [htol]
  have hpresent {v : Value} {x : Binary64} (hv : field = some v) (hx : Denotes v x) :
      present? field = some v ∧ numeric? v = some x := by
    have hx := numeric?_eq_some_iff.mpr hx
    refine ⟨present?_eq_some_iff.mpr ⟨hv, ?_⟩, hx⟩
    rintro rfl
    cases hx
  cases h with
  | missing h =>
    rw [← isSome_present?_iff, Option.not_isSome_iff_eq_none] at h
    rw [h]
  | notNumeric hv hnull h =>
    have hnone : numeric? _ = none :=
      Option.eq_none_iff_forall_ne_some.mpr fun x hx => h x (numeric?_eq_some_iff.mp hx)
    rw [present?_eq_some_iff.mpr ⟨hv, hnull⟩]
    simp only [hnone]
  | far hv hx hnan h =>
    obtain ⟨hpresent, hnumber⟩ := hpresent hv hx
    simp only [hpresent, hnumber, if_pos ((lt_abs_sub_iff he ht).mpr ⟨hnan, h⟩)]
  | near hv hx h =>
    obtain ⟨hpresent, hnumber⟩ := hpresent hv hx
    simp only [hpresent, hnumber, if_neg fun hlt => ((lt_abs_sub_iff he ht).mp hlt).2 h]
  | notANumber hv h =>
    obtain ⟨hpresent, hnumber⟩ := hpresent hv h
    simp only [hpresent, hnumber, if_neg fun hlt => ((lt_abs_sub_iff he ht).mp hlt).1 rfl]

/-- There is an answer for every field. -/
theorem exists_answer (e t : Binary64) (field : Option Value) : ∃ r, Answer e t field r := by
  by_cases hpresent : Present field
  · obtain ⟨v, hv, hnull⟩ := hpresent
    by_cases hnumber : ∃ x, Denotes v x
    · obtain ⟨x, hx⟩ := hnumber
      by_cases hnear : Near e t x
      · exact ⟨_, .near hv hx hnear⟩
      · by_cases hnan : x = .nan
        · exact ⟨_, .notANumber hv (hnan ▸ hx)⟩
        · exact ⟨_, .far hv hx hnan hnear⟩
    · exact ⟨_, .notNumeric hv hnull (not_exists.mp hnumber)⟩
  · exact ⟨_, .missing hpresent⟩

/-- The values that denote `nan`. -/
theorem denotes_nan_iff : Denotes v .nan ↔
    v = .float .nan ∨ ∃ s, v = .string s ∧ Numeral.IsNanText (Text.trimChars s.toList) := by
  constructor
  · intro h
    cases h with
    | text h => exact Or.inr ⟨_, rfl, Numeral.read?_eq_nan_iff.mp h⟩
    | number h =>
      cases v with
      | int i => exact absurd (Option.some.inj h) (Binary64.ofQuotient_ne_nan _ _ _)
      | float x => exact Or.inl (congrArg Value.float (Option.some.inj h))
      | _ => cases h
  · rintro (rfl | ⟨s, rfl, h⟩)
    · exact .number rfl
    · exact .text (Numeral.read?_eq_nan_iff.mpr h)

/-- **The answers of a matcher for a close number.**  It refuses a field that is missing or null,
that denotes no number, or whose number is not near, and accepts a field whose number is near; but
it also accepts a field that denotes `nan`, which is near to nothing.  A number at an exact distance
within the tolerance is near, an integer being read as the nearest number.  Besides the number
itself, its name in any letter case denotes `nan`, perhaps with a sign and white space around. -/
theorem approx_answer (expected : Document) (m : Matcher) (e t : Binary64)
    (hm : Matcher.of? expected.value = some m) (h : m.OnlyApprox e t) :
    (∀ field r, m.check field = r ↔ Answer e t field r) ∧
    (∀ x, x.isFinite = true → |x.toRat - e.toRat| ≤ t.toRat → Near e t x) ∧
    (∀ i x, Denotes (.int i) x → Nearest i.toInt x) ∧
    ∀ v, Denotes v .nan ↔
      v = .float .nan ∨ ∃ s, v = .string s ∧ Numeral.IsNanText (Text.trimChars s.toList) := by
  obtain ⟨rule, hrule, hexpects, htolerates⟩ := h.rule
  have hanswer {field : Option Value} {r : Except Failure Unit} (hr : Answer e t field r) :
      m.check field = r := by
    rw [check_eq_checkApprox hm h hrule]
    exact checkApprox_of_answer hexpects htolerates h.finite_expected h.finite_tolerance hr
  refine ⟨fun field r => ⟨?_, hanswer⟩, fun x hx hle => ?_, fun i x hx => ?_,
    fun v => denotes_nan_iff⟩
  · rintro rfl
    obtain ⟨r, hr⟩ := exists_answer e t field
    rwa [hanswer hr]
  · exact near_of_le hx h.finite_expected h.finite_tolerance hle
  · cases hx with
    | number hx =>
      cases hx
      exact Binary64.nearest_ofInt _

/-- `{"$match": {"approx": 5, "tol": 1}}`. -/
def withinOneOfFive : Document := asking [([.key "approx"], .int 5), ([.key "tol"], .int 1)]

theorem approx_answer_within :
    ∃ m, Matcher.of? withinOneOfFive.value = some m ∧ m.OnlyApprox (.ofInt 5) (.ofInt 1) ∧
      m.check (some (.string " 5.5 ")) = .ok () ∧ m.check (some .null) = .error .missing ∧
      m.check (some (.string "inf")) =
        .error (.outOfTolerance (.infinity false) (.ofInt 5) (.ofInt 1)) := by
  have hm : Matcher.of? withinOneOfFive.value = some ⟨[("approx", .int 5), ("tol", .int 1)]⟩ := rfl
  have hnames : ∀ a ∈ [("approx", Value.int 5), ("tol", .int 1)], a.1 = "approx" ∨ a.1 = "tol" := by
    decide
  have hfive := Binary64.toRat_ofInt (n := 5) (by norm_num)
  have hone := Binary64.toRat_ofInt (n := 1) (by norm_num)
  have honly : OnlyApprox ⟨[("approx", .int 5), ("tol", .int 1)]⟩ (.ofInt 5) (.ofInt 1) := by
    refine ⟨fun _ _ hfind => hnames _ (Entries.mem_of_find? hfind),
      ⟨.int 5, rfl, .alone rfl, .beside ⟨_, rfl, rfl⟩⟩, hfive.1, hone.1, ?_⟩
    rw [hone.2]
    norm_num
  obtain ⟨hanswer, hnear, -, -⟩ := approx_answer withinOneOfFive _ _ _ hm honly
  refine ⟨_, hm, honly, ?_, ?_, ?_⟩
  · have hread : Denotes (.string " 5.5 ") (.finite false 6192449487634432 (-50) (by decide)) :=
      .text (by decide +kernel)
    refine (hanswer _ _).mpr (.near rfl hread (hnear _ rfl ?_))
    rw [hfive.2, hone.2, Binary64.toRat_finite]
    norm_num
  · refine (hanswer _ _).mpr (.missing ?_)
    rintro ⟨v, hv, hnull⟩
    exact hnull (Option.some.inj hv).symm
  · refine (hanswer _ _).mpr (.far rfl (.text (by decide)) nofun fun h => ?_)
    exact Bool.false_ne_true h.finite

/-- **The text `nan` is accepted** where five is expected, with no tolerance. -/
theorem nan_accepted :
    ∃ m, Matcher.of? (asking [([.key "approx"], .int 5)]).value = some m ∧
      m.OnlyApprox (.ofInt 5) (.zero false) ∧ m.check (some (.string "nan")) = .ok () ∧
      ∀ x, Denotes (.string "nan") x → x.isFinite = false := by
  have hnames : ∀ a ∈ [("approx", Value.int 5)], a.1 = "approx" ∨ a.1 = "tol" := by decide
  have hzero : (Binary64.zero false).toRat = 0 := Binary64.toRat_zero false
  refine ⟨⟨[("approx", .int 5)]⟩, rfl, ?_, rfl, fun x hx => ?_⟩
  · refine ⟨fun _ _ hfind => hnames _ (Entries.mem_of_find? hfind),
      ⟨.int 5, rfl, .alone rfl, .zero ?_ ?_⟩, (Binary64.toRat_ofInt (by norm_num)).1, rfl, hzero.ge⟩
    · rintro x ⟨v, hv, -⟩
      cases hv
    · rintro entries x hentries
      cases hentries
  · cases hx with
    | number hx => cases hx
    | text hx =>
      have hnan : Numeral.read? (Text.trimChars "nan".toList) = some .nan := by decide
      obtain rfl := Option.some.inj (hnan.symm.trans hx)
      rfl

end Matcher

end DocumentRules
