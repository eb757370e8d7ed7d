/-
Runs of decimal digits.

* **`Numeral.natValue_digits`** — the digits of a number denote it;
* **`Numeral.head?_digits_ne_zero`** — the first of them is zero for zero only;
* **`Numeral.span_digits`** — where a run ends.
-/
import DocumentRules.Number.Numeral
import Mathlib.Data.List.Basic
import Mathlib.Data.List.TakeWhile

namespace DocumentRules.Numeral

variable {n : Nat} {c : Char} {a b : List Char}

theorem isDigit_iff : c.isDigit = true ↔ 48 ≤ c.toNat ∧ c.toNat ≤ 57 := by
  simp [Char.isDigit, UInt32.le_iff_toNat_le, ← Char.toNat_val]

theorem isDigit_of_mem_digits (h : c ∈ digits n) : c.isDigit = true :=
  Nat.isDigit_of_mem_toDigits (by decide) (by decide) h

theorem digits_ne_nil (n : Nat) : digits n ≠ [] := Nat.toDigits_ne_nil

/-- The digits of a positive number have no superfluous zero in front. -/
theorem head?_digits_ne_zero (hn : n ≠ 0) : (digits n).head? ≠ some '0' := by
  induction n using Nat.strongRecOn with
  | _ n ih =>
  unfold digits at ih ⊢
  by_cases hsmall : n < 10
  · have hdigit : ∀ n < 10, n ≠ 0 → n.digitChar ≠ '0' := by decide
    rw [Nat.toDigits_of_lt_base hsmall, List.head?_cons]
    exact fun h => hdigit n hsmall hn (Option.some.inj h)
  · rw [Nat.toDigits_of_base_le (by decide) (by omega),
      List.head?_append_of_ne_nil _ Nat.toDigits_ne_nil]
    exact ih (n / 10) (by omega) (by omega)

/-- **The digits of a number denote it.** -/
theorem natValue_digits (n : Nat) : natValue (digits n) = n := Nat.ofDigitChars_ten_toDigits

/-- A run of digits ends where another character stands. -/
theorem span_digits (ha : ∀ c ∈ a, c.isDigit = true) (hb : ∀ c ∈ b.head?, c.isDigit = false) :
    (a ++ b).takeWhile Char.isDigit = a ∧ (a ++ b).dropWhile Char.isDigit = b := by
  rw [List.takeWhile_append_of_pos ha, List.dropWhile_append_of_pos ha]
  cases b with
  | nil => simp
  | cons c b =>
    have hc : c.isDigit = false := hb c rfl
    simp [hc]

end DocumentRules.Numeral
