/-
The total order of numbers.

`totalCompare` orders all numbers, `nan` and the infinities included, and it is what suggestions
are ranked by.  It compares places in a linear order, and so it is one itself:

* **`totalCompare_compares`** — numbers compare as their places do.
-/
import DocumentRules.Number.Binary64
import Mathlib.Algebra.Order.Ring.Rat
import Mathlib.Data.Prod.Lex
import Mathlib.Order.Compare

namespace DocumentRules.Binary64

/-- The place of a number: finite numbers between the infinities, by their value and the
negative zero first, and `nan` behind all others. -/
def place : Binary64 → ℕ ×ₗ ℚ ×ₗ Bool
  | .infinity true => toLex (0, toLex (0, false))
  | .finite s m q h => toLex (1, toLex (toRat (.finite s m q h), !s))
  | .infinity false => toLex (2, toLex (0, false))
  | .nan => toLex (3, toLex (0, false))

/-- **Numbers compare as their places do.** -/
theorem totalCompare_compares (x y : Binary64) :
    (x.totalCompare y).Compares x.place y.place := by
  have finite_lt {a b : ℚ ×ₗ Bool} (h : a < b) : toLex ((1 : ℕ), a) < toLex (1, b) :=
    Prod.Lex.toLex_lt_toLex.mpr (Or.inr ⟨rfl, h⟩)
  match x, y with
  | .finite s m q h, .finite t n r k =>
    simp only [totalCompare, place]
    split
    · rename_i hlt
      exact finite_lt (Prod.Lex.toLex_lt_toLex.mpr (Or.inl hlt))
    · rename_i hnlt
      split
      · rename_i hgt
        exact finite_lt (Prod.Lex.toLex_lt_toLex.mpr (Or.inl hgt))
      · -- Two numbers with one value: the signs decide.
        rename_i hngt
        rw [le_antisymm (not_lt.mp hngt) (not_lt.mp hnlt)]
        cases s <;> cases t
        · exact rfl
        · exact finite_lt (Prod.Lex.toLex_lt_toLex.mpr (Or.inr ⟨rfl, Bool.false_lt_true⟩))
        · exact finite_lt (Prod.Lex.toLex_lt_toLex.mpr (Or.inr ⟨rfl, Bool.false_lt_true⟩))
        · exact rfl
  | .nan, .nan | .infinity true, .infinity true | .infinity false, .infinity false => exact rfl
  | .infinity true, .infinity false | .infinity true, .nan | .infinity false, .nan
  | .infinity true, .finite .. | .finite .., .infinity false | .finite .., .nan
  | .infinity false, .infinity true | .nan, .infinity true | .nan, .infinity false
  | .finite .., .infinity true | .infinity false, .finite .. | .nan, .finite .. =>
    exact Prod.Lex.toLex_lt_toLex.mpr (Or.inl (by simp))

end DocumentRules.Binary64
