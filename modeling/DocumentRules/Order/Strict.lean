/-
Strict linear orders.

Keys, path steps, paths and coverage facts are each kept in one strict linear
order.  `StrictOrder` states the three laws that the sorted containers rely on:

* **`StrictOrder.irrefl`**, **`StrictOrder.trans`** — `<` is a strict order;
* **`StrictOrder.connected`** — two members that neither precede each other are equal.

Natural numbers and texts have such an order, and lists inherit it from their
members (lexicographically, a shorter list before its extensions).
-/
namespace DocumentRules

/-- The order `<` is strict and linear. -/
class StrictOrder (α : Type) [LT α] : Prop where
  irrefl (a : α) : ¬ a < a
  trans {a b c : α} : a < b → b < c → a < c
  connected {a b : α} : ¬ a < b → ¬ b < a → a = b

namespace StrictOrder

variable {α : Type} [LT α] [StrictOrder α]

theorem asymm {a b : α} (h : a < b) : ¬ b < a :=
  fun h' => irrefl a (trans h h')

theorem ne_of_lt {a b : α} (h : a < b) : a ≠ b :=
  fun e => irrefl b (e ▸ h)

theorem not_lt_trans {a b c : α} (hba : ¬ b < a) (hcb : ¬ c < b) : ¬ c < a := by
  intro hca
  -- Otherwise `a` precedes `b`, so `c` would; or the two are the same.
  by_cases hab : a < b
  · exact hcb (trans hca hab)
  · exact hcb (connected hab hba ▸ hca)

/-- Of two different members one precedes the other. -/
theorem lt_or_lt_of_ne [DecidableLT α] {a b : α} (h : a ≠ b) : a < b ∨ b < a := by
  by_cases hab : a < b
  · exact Or.inl hab
  · by_cases hba : b < a
    · exact Or.inr hba
    · exact absurd (connected hab hba) h

end StrictOrder

instance : StrictOrder Nat where
  irrefl := Nat.lt_irrefl
  trans := Nat.lt_trans
  connected h h' := Nat.le_antisymm (Nat.not_lt.mp h') (Nat.not_lt.mp h)

instance : StrictOrder String where
  irrefl := String.lt_irrefl
  trans := String.lt_trans
  connected h h' := String.le_antisymm (String.not_lt.mp h') (String.not_lt.mp h)

theorem StrictOrder.list_irrefl {α : Type} [LT α] [StrictOrder α] (xs : List α) : ¬ xs < xs := by
  induction xs with
  | nil => simp
  | cons x xs ih =>
    rw [List.cons_lt_cons_iff]
    rintro (h | ⟨_, h⟩)
    · exact StrictOrder.irrefl x h
    · exact ih h

theorem StrictOrder.list_trans {α : Type} [LT α] [StrictOrder α] {xs ys zs : List α}
    (h : xs < ys) (h' : ys < zs) : xs < zs := by
  induction xs generalizing ys zs with
  | nil =>
    cases zs with
    | nil => simp at h'
    | cons z zs => simp
  | cons x xs ih =>
    cases ys with
    | nil => simp at h
    | cons y ys =>
      cases zs with
      | nil => simp at h'
      | cons z zs =>
        rw [List.cons_lt_cons_iff] at h h' ⊢
        rcases h with h | ⟨rfl, h⟩ <;> rcases h' with h' | ⟨rfl, h'⟩
        · exact Or.inl (StrictOrder.trans h h')
        · exact Or.inl h
        · exact Or.inl h'
        · exact Or.inr ⟨rfl, ih h h'⟩

theorem StrictOrder.list_connected {α : Type} [LT α] [StrictOrder α] {xs ys : List α}
    (h : ¬ xs < ys) (h' : ¬ ys < xs) : xs = ys := by
  induction xs generalizing ys with
  | nil =>
    cases ys with
    | nil => rfl
    | cons y ys => simp at h
  | cons x xs ih =>
    cases ys with
    | nil => simp at h'
    | cons y ys =>
      simp only [List.cons_lt_cons_iff, not_or, not_and] at h h'
      obtain rfl := StrictOrder.connected h.1 h'.1
      rw [ih (h.2 rfl) (h'.2 rfl)]

/-- Lists are ordered lexicographically by the order of their members. -/
instance {α : Type} [LT α] [StrictOrder α] : StrictOrder (List α) where
  irrefl := StrictOrder.list_irrefl
  trans := StrictOrder.list_trans
  connected := StrictOrder.list_connected

end DocumentRules
