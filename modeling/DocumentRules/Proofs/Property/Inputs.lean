/-
The inputs of property checks.

Inputs are drawn from a random generator.  What holds of them whatever the generator gives is
said of draws as of any other computation (`Always`): there are as many inputs as trials, and no
number in them is `nan`, because a random number with decimals is a quotient with a divisor other
than zero.

* **`Always.draw`** — what holds of every answer holds of what is drawn;
* **`Document.nanFree_set`** — assignments keep a document free of `nan`;
* **`always_trialInputs`** — the inputs of the trials.
-/
import DocumentRules.Property.Check
import DocumentRules.Proofs.Change.Agreement
import DocumentRules.Proofs.Document.Fingerprint
import DocumentRules.Proofs.Number.Exact
import DocumentRules.Proofs.Run.Turns

namespace DocumentRules

/-- What holds of every answer holds of what is drawn from any generator. -/
theorem Always.draw {α : Type} {P : α → Prop} {x : Draw α} (h : Always P x) (g : Generator) :
    P (x g).1 := by
  obtain ⟨y, rfl⟩ := h
  exact (y g).1.property

/-! ### Numbers and documents without `nan` -/

namespace Binary64

/-- A quotient by a finite number other than zero is a number if the dividend is. -/
theorem div_ne_nan {x : Binary64} (hx : x ≠ .nan) {s : Bool} {m : ℕ} {q : ℤ}
    {h : Canonical m q} (hm : m ≠ 0) : x.div (.finite s m q h) ≠ .nan := by
  cases x with
  | nan => exact absurd rfl hx
  | infinity t => simp [div]
  | finite t n r k =>
    rw [div, if_neg hm]
    exact ofQuotient_ne_nan _ _ _

end Binary64

namespace Document

theorem nanFree_set {d v : Document} (hd : d.NanFree) (hv : v.NanFree) (p : Path) :
    (d.set p v).NanFree := by
  refine (Value.nanFree_iff_get? (d.set p v).wellFormed).mpr fun q hq => ?_
  rcases Value.float_of_get?_set hq with ⟨r, hr⟩ | hq
  · exact (Value.nanFree_iff_get? v.wellFormed).mp hv r hr
  · exact (Value.nanFree_iff_get? d.wellFormed).mp hd q hq

end Document

theorem nanFree_documentOf {fields : List (Path × Document)} (h : ∀ f ∈ fields, f.2.NanFree) :
    (documentOf fields).NanFree :=
  List.foldlRecOn (motive := Document.NanFree) fields _ trivial
    fun _ hd f hf => Document.nanFree_set hd (h f hf) f.1

/-! ### Draws -/

/-- A random number with decimals is a number of hundredths, divided by a hundred. -/
theorem always_randomNumber : Always Document.NanFree FieldKind.randomNumber := by
  refine (always_true _).bind fun whole _ => ?_
  split
  · exact (always_true _).bind fun i _ => always_pure trivial
  · refine (always_true _).bind fun cents _ => always_pure ?_
    exact Binary64.div_ne_nan (Binary64.ofQuotient_ne_nan _ _ _) (by decide)

theorem always_random (k : FieldKind) : Always Document.NanFree k.random := by
  cases k with
  | number => exact always_randomNumber
  | text | date | bool | iban => exact (always_true _).bind fun a _ => always_pure trivial

theorem always_randomFields (hints : FieldHints) (ps : List Path) :
    Always (fun fields => ∀ f ∈ fields, f.2.NanFree) (randomFields hints ps) := by
  induction ps with
  | nil => exact always_pure (by simp)
  | cons p ps ih =>
    refine (always_true _).bind fun left _ => ?_
    split
    · exact ih
    · refine (always_random _).bind fun v hv => ih.bind fun fields hfields => always_pure ?_
      exact List.forall_mem_cons.mpr ⟨hv, hfields⟩

/-- **The inputs of the trials**: one for each of them, and none with a `nan`. -/
theorem always_trialInputs (hints : FieldHints) (fields : List Path) (n : ℕ) :
    Always (fun inputs => inputs.length = n ∧ ∀ d ∈ inputs, d.NanFree)
      (trialInputs hints fields n) := by
  induction n with
  | zero => exact always_pure (by simp)
  | succ n ih =>
    have hinput : Always Document.NanFree (randomInput hints fields) :=
      (always_randomFields hints fields).bind fun _ hfs => always_pure (nanFree_documentOf hfs)
    refine hinput.bind fun d hd => ih.bind fun inputs hinputs => always_pure ?_
    exact ⟨congrArg (· + 1) hinputs.1, List.forall_mem_cons.mpr ⟨hd, hinputs.2⟩⟩

end DocumentRules
