/-
Documents up to the spelling of numbers.

The text under a fingerprint spells every whole number of a magnitude below `2 ^ 63` as an
integer.  `Value.Respelled` says, without the function that does it, what a value becomes, and
fingerprints tell apart exactly the documents that become different values.

* `Binary64.SmallWhole` — a floating-point number that is a whole number in range;
* **`Value.respelled_iff`** — a value becomes one value, its canonical form;
* **`Value.get?_canonical`** — at every path stands the canonical form of what stood there;
* **`Value.eq_of_equal`** — where no floating-point number is zero, equal values are the same;
* **`fingerprint_eq_iff`** — two documents have one fingerprint exactly if they become equal.
-/
import DocumentRules.Proofs.Document.Fingerprint
import DocumentRules.Proofs.Number.Exact

namespace DocumentRules

/-! ### Whole numbers in range -/

namespace Binary64

/-- The number is this whole number, and its magnitude is below `2 ^ 63`. -/
structure SmallWhole (x : Binary64) (n : ℤ) : Prop where
  finite : x.isFinite = true
  value : x.toRat = n
  magnitude : |n| < 2 ^ 63

variable {x : Binary64} {n : ℤ}

/-- Comparing the magnitude of a number with `2 ^ 63`. -/
theorem abs_lt_pow_iff (hx : x.isFinite = true) :
    x.abs.lt (.ofNat (Nat.pow 2 63)) = true ↔ |x.toRat| < 2 ^ 63 := by
  have hbound : Canonical (Nat.pow 2 52) 11 := by decide
  have hpow : (ofNat (Nat.pow 2 63)).isFinite = true ∧ (ofNat (Nat.pow 2 63)).toRat = _ :=
    toRat_ofQuotient Nat.one_pos hbound (by norm_num)
  rw [lt_iff (by rwa [isFinite_abs]) hpow.1, toRat_abs, hpow.2, if_neg Bool.false_ne_true]
  norm_num

theorem smallWhole_iff :
    (x.isWhole && x.abs.lt (.ofNat (Nat.pow 2 63))) = true ↔ ∃ n, x.SmallWhole n := by
  have hcast (n : ℤ) : |(n : ℚ)| < 2 ^ 63 ↔ |n| < 2 ^ 63 := by exact_mod_cast Iff.rfl
  rw [Bool.and_eq_true, isWhole_iff]
  constructor
  · rintro ⟨⟨hx, n, hn⟩, hlt⟩
    rw [abs_lt_pow_iff hx, hn, hcast] at hlt
    exact ⟨n, hx, hn, hlt⟩
  · rintro ⟨n, hx, hn, hlt⟩
    exact ⟨⟨hx, n, hn⟩, by rwa [abs_lt_pow_iff hx, hn, hcast]⟩

theorem SmallWhole.toInt64 (h : x.SmallWhole n) : x.toInt64.toInt = n := by
  have hmin : Int64.minValue.toInt = -2 ^ 63 := by decide
  have hmax : Int64.maxValue.toInt = 2 ^ 63 - 1 := by decide
  obtain ⟨hlow, hhigh⟩ := abs_lt.mp h.magnitude
  exact toInt_toInt64 h.finite h.value (by omega) (by omega)

/-- Zero is a whole number in range, with either sign. -/
theorem ne_zero_of_not_smallWhole (hx : x.isFinite = true) (h : ∀ n, ¬ x.SmallWhole n) :
    x.toRat ≠ 0 := fun hzero => h 0 ⟨hx, by rw [hzero, Int.cast_zero], by norm_num⟩

end Binary64

namespace Value

theorem ofNumber_eq_int {x : Binary64} {i : Int64} (h : x.SmallWhole i.toInt) :
    ofNumber x = .int i := by
  rw [ofNumber, if_pos (Binary64.smallWhole_iff.mpr ⟨_, h⟩), Int64.toInt_inj.mp h.toInt64]

theorem ofNumber_eq_float {x : Binary64} (h : ∀ n, ¬ x.SmallWhole n) : ofNumber x = .float x := by
  rw [ofNumber, if_neg fun hx => not_exists.mpr h (Binary64.smallWhole_iff.mp hx)]

theorem ofNumber_cases (x : Binary64) :
    (∃ i : Int64, x.SmallWhole i.toInt ∧ ofNumber x = .int i) ∨
      ((∀ n, ¬ x.SmallWhole n) ∧ ofNumber x = .float x) := by
  by_cases h : ∃ n, x.SmallWhole n
  · obtain ⟨n, hn⟩ := h
    have hint : x.SmallWhole x.toInt64.toInt := by rwa [hn.toInt64]
    exact Or.inl ⟨x.toInt64, hint, ofNumber_eq_int hint⟩
  · exact Or.inr ⟨not_exists.mp h, ofNumber_eq_float (not_exists.mp h)⟩

/-! ### Respelling -/

/-- What a value becomes when every floating-point number that is a whole number of a magnitude
below `2 ^ 63` is spelled as the integer that it is, at every depth. -/
inductive Respelled : Value → Value → Prop where
  | null : Respelled .null .null
  | bool (b : Bool) : Respelled (.bool b) (.bool b)
  | int (i : Int64) : Respelled (.int i) (.int i)
  | string (s : String) : Respelled (.string s) (.string s)
  | whole {x : Binary64} {i : Int64} (h : x.SmallWhole i.toInt) : Respelled (.float x) (.int i)
  | other {x : Binary64} (h : ∀ n, ¬ x.SmallWhole n) : Respelled (.float x) (.float x)
  | list {as bs : List Value} (members : List.Forall₂ Respelled as bs) :
      Respelled (.list as) (.list bs)
  | map {as bs : List (String × Value)} (keys : as.map Prod.fst = bs.map Prod.fst)
      (values : List.Forall₂ Respelled (as.map Prod.snd) (bs.map Prod.snd)) :
      Respelled (.map as) (.map bs)

/-- Where each member is related to what a function makes of it and to nothing else, so are the
lists. -/
theorem forall₂_iff_eq_map {α β : Type} {R : α → β → Prop} {f : α → β} {as : List α}
    {bs : List β} (h : ∀ a ∈ as, ∀ b, R a b ↔ b = f a) :
    List.Forall₂ R as bs ↔ bs = as.map f := by
  induction as generalizing bs with
  | nil => rw [List.forall₂_nil_left_iff, List.map_nil]
  | cons a as ih =>
    obtain ⟨ha, has⟩ := List.forall_mem_cons.mp h
    simp only [List.forall₂_cons_left_iff, ha, ih has, List.map_cons]
    constructor
    · rintro ⟨_, _, rfl, rfl, rfl⟩
      rfl
    · rintro rfl
      exact ⟨_, _, rfl, rfl, rfl⟩

/-- **A value becomes one value, its canonical form.** -/
theorem respelled_iff {v w : Value} : v.Respelled w ↔ w = v.canonical := by
  induction v using memberInduction generalizing w with
  | scalar v hscalar =>
    cases v with
    | float x =>
      rw [canonical]
      rcases ofNumber_cases x with ⟨i, hi, heq⟩ | ⟨hnot, heq⟩
      · rw [heq]
        constructor
        · rintro (_ | _ | _ | _ | h | h)
          · rw [← ofNumber_eq_int h, heq]
          · exact absurd hi (h _)
        · rintro rfl
          exact .whole hi
      · rw [heq]
        constructor
        · rintro (_ | _ | _ | _ | h | h)
          · exact absurd h (hnot _)
          · rfl
        · rintro rfl
          exact .other hnot
    | list items => simp [isContainer] at hscalar
    | map entries => simp [isContainer] at hscalar
    | _ =>
      constructor
      · rintro ⟨⟩
        rfl
      · rintro rfl
        constructor
  | list items ih =>
    rw [canonical, canonicalItems_eq_map]
    constructor
    · rintro ⟨⟩
      rename_i bs members
      rw [(forall₂_iff_eq_map fun a ha b => ih a ha).mp members]
    · rintro rfl
      exact .list ((forall₂_iff_eq_map fun a ha b => ih a ha).mpr rfl)
  | map entries ih =>
    rw [canonical, canonicalEntries_eq_map]
    have hvalues {bs : List Value} : List.Forall₂ Respelled (entries.map Prod.snd) bs ↔
        bs = (entries.map Prod.snd).map canonical :=
      forall₂_iff_eq_map (List.forall_mem_map.mpr fun e he b => ih e he)
    constructor
    · rintro ⟨⟩
      rename_i bs keys values
      rw [hvalues] at values
      -- A list of entries is determined by its keys and its values.
      rw [List.zip_of_prod keys.symm values, List.map_map, List.zip_map']
      rfl
    · rintro rfl
      exact .map (by simp) (hvalues.mpr (by simp))

/-! ### What stands in a canonical form -/

/-- A key finds what a function makes of the value that it found. -/
theorem find?_map_value {α β : Type} (f : α → β) (k : String) (entries : List (String × α)) :
    Entries.find? k (entries.map fun e => (e.1, f e.2)) = (Entries.find? k entries).map f := by
  induction entries with
  | nil => rfl
  | cons e es ih =>
    rw [List.map_cons, Entries.find?, Entries.find?]
    split
    · rfl
    · exact ih

theorem child?_canonical (v : Value) (s : Step) :
    child? v.canonical s = (child? v s).map canonical := by
  cases v with
  | float x =>
    rw [canonical]
    rcases ofNumber_cases x with ⟨i, -, heq⟩ | ⟨-, heq⟩ <;> rw [heq] <;> rfl
  | list items =>
    rw [canonical, canonicalItems_eq_map]
    cases s with
    | key k => rfl
    | index i => exact List.getElem?_map ..
  | map entries =>
    rw [canonical, canonicalEntries_eq_map]
    cases s with
    | key k => exact find?_map_value ..
    | index i => rfl
  | _ => rfl

/-- **At every path stands the canonical form of what stood there.** -/
theorem get?_canonical (v : Value) (p : Path) :
    get? v.canonical p = (get? v p).map canonical := by
  induction p generalizing v with
  | nil => rfl
  | cons s p ih =>
    rw [get?_cons, get?_cons, child?_canonical]
    cases child? v s with
    | none => rfl
    | some c => exact ih c

/-- The floating-point numbers that are left are those that are no whole numbers in range. -/
theorem float_of_get?_canonical {v : Value} {p : Path} {x : Binary64}
    (h : get? v.canonical p = some (.float x)) :
    get? v p = some (.float x) ∧ ∀ n, ¬ x.SmallWhole n := by
  rw [get?_canonical, Option.map_eq_some_iff] at h
  obtain ⟨u, hu, hx⟩ := h
  cases u with
  | float y =>
    rw [canonical] at hx
    rcases ofNumber_cases y with ⟨i, -, heq⟩ | ⟨hnot, heq⟩
    · rw [heq] at hx
      cases hx
    · rw [heq] at hx
      cases hx
      exact ⟨hu, hnot⟩
  | _ => cases hx

theorem Finite.canonical {v : Value} (h : v.Finite) : v.canonical.Finite :=
  fun p x hx => h p x (float_of_get?_canonical hx).1

theorem wellFormed_canonical {v : Value} (hv : v.WellFormed) : v.canonical.WellFormed := by
  induction v using memberInduction with
  | scalar v hscalar =>
    cases v with
    | float x =>
      rw [canonical]
      rcases ofNumber_cases x with ⟨i, -, heq⟩ | ⟨-, heq⟩ <;> rw [heq] <;> exact trivial
    | list items => simp [isContainer] at hscalar
    | map entries => simp [isContainer] at hscalar
    | _ => exact trivial
  | list items ih =>
    rw [canonical, canonicalItems_eq_map, wellFormed_list]
    exact List.forall_mem_map.mpr fun a ha => ih a ha (wellFormed_list.mp hv a ha)
  | map entries ih =>
    obtain ⟨hasc, hentries⟩ := wellFormed_map.mp hv
    rw [canonical, canonicalEntries_eq_map, wellFormed_map]
    exact ⟨List.pairwise_map.mpr hasc,
      List.forall_mem_map.mpr fun e he => ih e he (hentries e he)⟩

/-! ### Equality without zeros -/

theorem eq_of_forall₂ {α : Type} {R : α → α → Prop} {as bs : List α}
    (hR : ∀ a ∈ as, ∀ b, R a b → a = b) (h : List.Forall₂ R as bs) : as = bs := by
  induction h with
  | nil => rfl
  | cons hab _ ih =>
    obtain ⟨ha, has⟩ := List.forall_mem_cons.mp hR
    rw [ha _ hab, ih has]

/-- **Where no floating-point number is zero, equal values are the same.** -/
theorem eq_of_equal {u v : Value} (hu : u.WellFormed)
    (hfloat : ∀ p x, get? u p = some (.float x) → x.isFinite = true ∧ x.toRat ≠ 0)
    (h : equal u v = true) : u = v := by
  -- What is said of the numbers of a value holds of those of its children.
  have hchild {u c : Value} {s : Step} (hc : child? u s = some c)
      (hfloat : ∀ p x, get? u p = some (.float x) → x.isFinite = true ∧ x.toRat ≠ 0) :
      ∀ p x, get? c p = some (.float x) → x.isFinite = true ∧ x.toRat ≠ 0 := fun p x hx =>
    hfloat (s :: p) x (by rw [get?_cons, hc, Option.bind_some, hx])
  induction u using memberInduction generalizing v with
  | scalar u hscalar =>
    rcases (equal_scalar_iff hscalar).mp h with ⟨rfl, -⟩ | ⟨x, y, rfl, rfl, hxy⟩
    · rfl
    · obtain ⟨hx, hne⟩ := hfloat [] x rfl
      rcases Binary64.eq_iff.mp hxy with ⟨s, rfl, -⟩ | ⟨-, hy, heq⟩
      · cases hx
      · rw [Binary64.eq_of_toRat hx hy heq hne]
  | list as ih =>
    obtain ⟨bs, rfl, hbs⟩ := equal_list_iff.mp h
    refine congrArg Value.list (eq_of_forall₂ (fun a ha b hab => ?_) hbs)
    obtain ⟨i, hi⟩ := List.mem_iff_getElem?.mp ha
    have hitem : child? (.list as) (.index i) = some a := hi
    exact ih a ha (wellFormed_list.mp hu a ha) (hchild hitem hfloat) hab
  | map as ih =>
    obtain ⟨hasc, hentries⟩ := wellFormed_map.mp hu
    obtain ⟨bs, rfl, hbs⟩ := equal_map_iff.mp h
    refine congrArg Value.map (eq_of_forall₂ (fun e he f hef => Prod.ext hef.1 ?_) hbs)
    have hentry : child? (.map as) (.key e.1) = some e.2 :=
      (Entries.find?_eq_some_iff hasc).mpr he
    exact ih e he (hentries e he) (hchild hentry hfloat) hef.2

/-- Canonical forms that are equal are the same: none of them holds a zero with a sign. -/
theorem canonical_eq_of_equal {u v : Value} (hu : u.WellFormed) (hfinite : u.Finite)
    (h : equal u.canonical v.canonical = true) : u.canonical = v.canonical := by
  refine eq_of_equal (wellFormed_canonical hu) (fun p x hx => ?_) h
  have hx' := hfinite.canonical p x hx
  exact ⟨hx', Binary64.ne_zero_of_not_smallWhole hx' (float_of_get?_canonical hx).2⟩

theorem Finite.nanFree {v : Value} (h : v.Finite) (hv : v.WellFormed) : v.NanFree :=
  (nanFree_iff_get? hv).mpr fun p hp => nomatch h p _ hp

end Value

/-! ### Fingerprints -/

/-- **Fingerprints identify documents up to the spelling of numbers.**  Unless the texts under
the fingerprints of two documents without `nan` and infinities collide, the fingerprints are the
same exactly if the documents become equal when every whole number of a magnitude below `2 ^ 63`
is spelled as an integer, at every depth. -/
theorem fingerprint_eq_iff {d e : Document} (hd : d.value.Finite) (he : e.value.Finite)
    (hfree : CollisionFree [d.fingerprintText, e.fingerprintText]) :
    d.fingerprint = e.fingerprint ↔
      ∃ u v, d.value.Respelled u ∧ e.value.Respelled v ∧ u.equal v = true := by
  have hdw := Value.wellFormed_canonical d.wellFormed
  have hew := Value.wellFormed_canonical e.wellFormed
  constructor
  · intro h
    have htext : d.fingerprintText = e.fingerprintText := hfree _ (by simp) _ (by simp) h
    have hcanonical : d.value.canonical = e.value.canonical :=
      Value.eq_of_jsonText hdw hew hd.canonical he.canonical htext
    refine ⟨_, _, Value.respelled_iff.mpr rfl, Value.respelled_iff.mpr rfl, ?_⟩
    rw [← hcanonical]
    exact Value.equal_refl (hd.canonical.nanFree hdw)
  · rintro ⟨u, v, hu, hv, huv⟩
    obtain rfl := Value.respelled_iff.mp hu
    obtain rfl := Value.respelled_iff.mp hv
    have hcanonical := Value.canonical_eq_of_equal d.wellFormed hd huv
    rw [Document.fingerprint_eq, Document.fingerprint_eq, Document.fingerprintText,
      Document.fingerprintText, hcanonical]

/-! ### Three documents -/

/-- Two texts do not collide unless their digests are the same. -/
theorem collisionFree_pair {a b : String} (h : Sha256.hex a = Sha256.hex b → a = b) :
    CollisionFree [a, b] := by
  intro c hc d hd heq
  simp only [List.mem_cons, List.not_mem_nil, or_false] at hc hd
  rcases hc with rfl | rfl <;> rcases hd with rfl | rfl
  · rfl
  · exact h heq
  · exact (h heq.symm).symm
  · rfl

namespace Amounts

/-- Two amounts, one of them a level deeper. -/
def document (x y : Document) : Document where
  value := .list [x.value, .list [y.value]]
  wellFormed := Value.wellFormed_list.mpr (by
    simp [x.wellFormed, Value.wellFormed_list, y.wellFormed])

theorem finite_document {x y : Document} (hx : x.value.Finite) (hy : y.value.Finite) :
    (document x y).value.Finite :=
  Value.finite_list (List.forall_mem_cons.mpr
    ⟨hx, List.forall_mem_singleton.mpr (Value.finite_list (List.forall_mem_singleton.mpr hy))⟩)

theorem finite_int (i : Int64) : (Document.int i).value.Finite :=
  Value.finite_of_scalar rfl fun _ h => nomatch h

theorem finite_float {x : Binary64} (hx : x.isFinite = true) : (Document.float x).value.Finite :=
  Value.finite_of_scalar rfl fun _ h => by
    cases h
    exact hx

end Amounts

open Amounts in
/-- A hundred and the negative zero are spelled as integers, and two and a half is not. -/
theorem fingerprint_eq_iff_amounts :
    (document (.float (.ofNat 100)) (.float (.zero true))).fingerprint =
        (document (.int 100) (.int 0)).fingerprint ∧
      (document (.float (.ofNat 100)) (.float (.ofQuotient false 5 2))).fingerprint ≠
        (document (.int 100) (.int 2)).fingerprint := by
  constructor
  · have htext : (document (.float (.ofNat 100)) (.float (.zero true))).fingerprintText =
        (document (.int 100) (.int 0)).fingerprintText := by decide +kernel
    refine (fingerprint_eq_iff (finite_document (finite_float rfl) (finite_float rfl))
      (finite_document (finite_int _) (finite_int _)) (collisionFree_pair fun _ => htext)).mpr ?_
    exact ⟨_, _, Value.respelled_iff.mpr rfl, Value.respelled_iff.mpr rfl, by decide +kernel⟩
  · have hdigests : Sha256.hex
          (document (.float (.ofNat 100)) (.float (.ofQuotient false 5 2))).fingerprintText ≠
        Sha256.hex (document (.int 100) (.int 2)).fingerprintText := by decide +kernel
    intro h
    obtain ⟨u, v, hu, hv, huv⟩ :=
      (fingerprint_eq_iff (finite_document (finite_float rfl) (finite_float rfl))
        (finite_document (finite_int _) (finite_int _))
        (collisionFree_pair fun heq => absurd heq hdigests)).mp h
    rw [Value.respelled_iff.mp hu, Value.respelled_iff.mp hv] at huv
    revert huv
    decide +kernel

end DocumentRules
