/-
The shortest decimal that names a floating-point number.

`Decimal` is `digits * 10 ^ exponent`.  A decimal *reads back* as `x` if rounding it
gives `x`.  `shortest tie x` looks at one digit, two digits, … seventeen digits; with
`n` digits the candidates are the two neighbours of `x` on the grid of the decimals
with `n` significant digits, and the first grid with a candidate that reads back
wins.  Of two candidates the nearer is taken, and an exact tie is settled by `tie`.

If no grid had a candidate, the exact decimal expansion of `x` would be returned, so
what is returned always reads back.
-/
import DocumentRules.Number.Binary64

namespace DocumentRules

/-- The number `digits * 10 ^ exponent`. -/
structure Decimal where
  digits : Nat
  exponent : Int
  deriving DecidableEq

namespace Decimal

/-- The value as a quotient of naturals. -/
def quotient (d : Decimal) : Nat × Nat :=
  (d.digits * Nat.pow 10 d.exponent.toNat, Nat.pow 10 (-d.exponent).toNat)

/-- How a tie between two equally near candidates is settled. -/
inductive Tie where
  | toEven
  | upward
  deriving DecidableEq

def digitCount (n : Nat) : Nat := (Nat.toDigits 10 n).length

/-- The least `k` with `num / den < 10 ^ k`, for positive `num` and `den`. -/
def decimalOrder (num den : Nat) : Int :=
  let k : Int := (digitCount num : Int) - (digitCount den : Int)
  if num * Nat.pow 10 (-k).toNat < den * Nat.pow 10 k.toNat then k else k + 1

/-- Rounding the decimal gives the number with this magnitude. -/
def readsBack (m : Nat) (q : Int) (d : Decimal) : Bool :=
  match Binary64.ofQuotient false d.quotient.1 d.quotient.2 with
  | .finite _ m' q' _ => m' == m && q' == q
  | _ => false

/-- The candidate on the grid `10 ^ g`, if one of the two neighbours of `num / den` reads back. -/
def onGrid (tie : Tie) (m : Nat) (q : Int) (num den : Nat) (g : Int) : Option Decimal :=
  let num' := num * Nat.pow 10 (-g).toNat
  let den' := den * Nat.pow 10 g.toNat
  let below : Decimal := ⟨num' / den', g⟩
  let above : Decimal := ⟨num' / den' + 1, g⟩
  match readsBack m q below, readsBack m q above with
  | false, false => none
  | true, false => some below
  | false, true => some above
  | true, true =>
    -- Both neighbours read back, so the nearer one is selected.
    let rest := num' % den'
    if 2 * rest < den' then some below
    else if den' < 2 * rest then some above
    else match tie with
      | .upward => some above
      | .toEven => if below.digits % 2 = 0 then some below else some above

/-- Move the zeros at the end of the digits into the exponent. -/
def stripZeros : (fuel : Nat) → Decimal → Decimal
  | 0, d => d
  | fuel + 1, d =>
    if d.digits ≠ 0 ∧ d.digits % 10 = 0 then stripZeros fuel ⟨d.digits / 10, d.exponent + 1⟩ else d

def exact (m : Nat) (q : Int) : Decimal :=
  if q < 0 then ⟨m * Nat.pow 5 (-q).toNat, q⟩ else ⟨m * Nat.pow 2 q.toNat, 0⟩

/-- The shortest decimal that reads back as the positive number `m * 2 ^ q`. -/
def shortest (tie : Tie) (m : Nat) (q : Int) : Decimal :=
  let (num, den) := Binary64.scaled m q
  let k := decimalOrder num den
  let found := (List.range 17).findSome? fun i => onGrid tie m q num den (k - (i + 1 : Nat))
  let d := found.getD (exact m q)
  stripZeros (digitCount d.digits) d

end Decimal

end DocumentRules
