/-
Floating-point numbers of 64 bits.

A finite number is `± significand * 2 ^ exponent` with a canonical significand,
so that equal bit patterns are equal values and the two zeros stay apart.  Every
operation is defined as "the exact rational result, rounded once": `ofRat`
rounds to the nearest number, a tie to the even significand.

Main definitions:
* **`Binary64.toRat`** — the exact value of a finite number;
* **`Binary64.ofQuotient`**, **`Binary64.ofRat`**, **`Binary64.ofInt`** — rounding;
* **`Binary64.partialCompare`** — the numeric order, undefined for `nan` (the zeros are equal);
* **`add`, `sub`, `mul`, `div`, `abs`, `roundHalfAway`** — the arithmetic.

Design notes.  There is one `nan`.  The proof field of `finite` makes equality of
numbers as data decidable by their fields, while numeric equality is `Binary64.eq`.
Powers are written with `Nat.pow`, which means the same whatever else is imported.
-/
namespace DocumentRules

/-- A significand and an exponent in canonical form: subnormal numbers have the least
exponent, all others a significand of exactly 53 bits. -/
def Binary64.Canonical (significand : Nat) (exponent : Int) : Prop :=
  (significand < Nat.pow 2 52 ∧ exponent = -1074) ∨
    (Nat.pow 2 52 ≤ significand ∧ significand < Nat.pow 2 53 ∧ -1074 ≤ exponent ∧ exponent ≤ 971)

instance (m : Nat) (q : Int) : Decidable (Binary64.Canonical m q) :=
  inferInstanceAs (Decidable (_ ∨ _))

inductive Binary64 where
  | nan
  | infinity (negative : Bool)
  | finite (negative : Bool) (significand : Nat) (exponent : Int)
      (canonical : Binary64.Canonical significand exponent)
  deriving DecidableEq

namespace Binary64

/-- Zero, with a sign. -/
def zero (negative : Bool) : Binary64 := .finite negative 0 (-1074) (by decide)

instance : Inhabited Binary64 := ⟨zero false⟩

def isNaN : Binary64 → Bool
  | .nan => true
  | _ => false

def isFinite : Binary64 → Bool
  | .finite .. => true
  | _ => false

/-- The sign bit; `nan` has none. -/
def isNegative : Binary64 → Bool
  | .nan => false
  | .infinity s => s
  | .finite s .. => s

/-- `significand * 2 ^ exponent` as a quotient of naturals. -/
def scaled (significand : Nat) (exponent : Int) : Nat × Nat :=
  (significand * Nat.pow 2 exponent.toNat, Nat.pow 2 (-exponent).toNat)

/-- The exact value of a finite number (zero for the others). -/
def toRat : Binary64 → Rat
  | .finite s m q _ =>
    let (num, den) := scaled m q
    let r : Rat := (num : Rat) / (den : Rat)
    if s then -r else r
  | _ => 0

/-! ### Rounding -/

/-- The quotient rounded to the nearest natural, a tie to the even one. -/
def roundQuotient (num den : Nat) : Nat :=
  let q := num / den
  let r := num % den
  if 2 * r < den then q else if den < 2 * r then q + 1 else q + q % 2

/-- The `e` with `2 ^ e ≤ num / den < 2 ^ (e + 1)`, for positive `num` and `den`. -/
def binaryOrder (num den : Nat) : Int :=
  let e : Int := (num.log2 : Int) - (den.log2 : Int)
  if den * Nat.pow 2 e.toNat ≤ num * Nat.pow 2 (-e).toNat then e else e - 1

/-- The number with this significand and exponent, infinite if the exponent is too large. -/
def pack (negative : Bool) (significand : Nat) (exponent : Int) : Binary64 :=
  if h : Canonical significand exponent then .finite negative significand exponent h
  else .infinity negative

/-- The number nearest to `± num / den`, a tie to the even significand. -/
def ofQuotient (negative : Bool) (num den : Nat) : Binary64 :=
  if num = 0 then zero negative
  else
    -- The exponent that leaves a significand of 53 bits, or else the least one.
    let q := max (-1074) (binaryOrder num den - 52)
    let m := roundQuotient (num * Nat.pow 2 (-q).toNat) (den * Nat.pow 2 q.toNat)
    -- Rounding up may have carried into a further bit.
    if m = Nat.pow 2 53 then pack negative (Nat.pow 2 52) (q + 1) else pack negative m q

/-- The number nearest to a rational; zero comes out positive. -/
def ofRat (r : Rat) : Binary64 := ofQuotient (r.num < 0) r.num.natAbs r.den

def ofInt (i : Int) : Binary64 := ofQuotient (i < 0) i.natAbs 1

def ofNat (n : Nat) : Binary64 := ofQuotient false n 1

/-! ### Order -/

/-- The numeric order. `nan` compares with nothing, and the two zeros are equal. -/
def partialCompare : Binary64 → Binary64 → Option Ordering
  | .nan, _ | _, .nan => none
  | .infinity s, .infinity t => some (if s = t then .eq else if s then .lt else .gt)
  | .infinity s, .finite .. => some (if s then .lt else .gt)
  | .finite .., .infinity t => some (if t then .gt else .lt)
  | x@(.finite ..), y@(.finite ..) =>
    some (if x.toRat < y.toRat then .lt else if y.toRat < x.toRat then .gt else .eq)

def eq (x y : Binary64) : Bool := x.partialCompare y == some .eq

def lt (x y : Binary64) : Bool := x.partialCompare y == some .lt

/-- The position of a number in the total order of all of them. -/
private def rank : Binary64 → Nat
  | .infinity true => 0
  | .finite .. => 1
  | .infinity false => 2
  | .nan => 3

/-- A total order: numeric, with the negative zero below the positive one and `nan` on top. -/
def totalCompare (x y : Binary64) : Ordering :=
  match x, y with
  | .finite s .., .finite t .. =>
    if x.toRat < y.toRat then .lt else if y.toRat < x.toRat then .gt
    else compare (!s) (!t)
  | _, _ => compare x.rank y.rank

/-! ### Arithmetic -/

def neg : Binary64 → Binary64
  | .nan => .nan
  | .infinity s => .infinity (!s)
  | .finite s m q h => .finite (!s) m q h

def abs : Binary64 → Binary64
  | .nan => .nan
  | .infinity _ => .infinity false
  | .finite _ m q h => .finite false m q h

def add : Binary64 → Binary64 → Binary64
  | .nan, _ | _, .nan => .nan
  | .infinity s, .infinity t => if s = t then .infinity s else .nan
  | .infinity s, .finite .. => .infinity s
  | .finite .., .infinity t => .infinity t
  | x@(.finite s ..), y@(.finite t ..) =>
    let r := x.toRat + y.toRat
    if r = 0 then zero (s && t) else ofRat r

def sub (x y : Binary64) : Binary64 := x.add y.neg

def mul : Binary64 → Binary64 → Binary64
  | .nan, _ | _, .nan => .nan
  | .infinity s, .infinity t => .infinity (s ^^ t)
  | .infinity s, .finite t m .. => if m = 0 then .nan else .infinity (s ^^ t)
  | .finite s m .., .infinity t => if m = 0 then .nan else .infinity (s ^^ t)
  | x@(.finite s ..), y@(.finite t ..) =>
    let r := x.toRat * y.toRat
    ofQuotient (s ^^ t) r.num.natAbs r.den

def div : Binary64 → Binary64 → Binary64
  | .nan, _ | _, .nan => .nan
  | .infinity _, .infinity _ => .nan
  | .infinity s, .finite t .. => .infinity (s ^^ t)
  | .finite s .., .infinity t => zero (s ^^ t)
  | x@(.finite s m ..), y@(.finite t n ..) =>
    if n = 0 then if m = 0 then .nan else .infinity (s ^^ t)
    else
      let r := x.toRat / y.toRat
      ofQuotient (s ^^ t) r.num.natAbs r.den

def isWhole : Binary64 → Bool
  | .finite _ m q _ => let (num, den) := scaled m q; num % den == 0
  | _ => false

/-- The nearest whole number, a half going away from zero; the sign is kept. -/
def roundHalfAway : Binary64 → Binary64
  | .finite s m q h =>
    let (num, den) := scaled m q
    if num % den = 0 then .finite s m q h else ofQuotient s ((2 * num + den) / (2 * den)) 1
  | x => x

/-- The whole part, clamped to the range of 64-bit integers; zero for `nan`. -/
def toInt64 : Binary64 → Int64
  | .nan => 0
  | .infinity s => if s then Int64.minValue else Int64.maxValue
  | .finite s m q _ =>
    let (num, den) := scaled m q
    let whole : Int := num / den
    let signed := if s then -whole else whole
    if signed < Int64.minValue.toInt then Int64.minValue
    else if Int64.maxValue.toInt < signed then Int64.maxValue
    else Int64.ofInt signed

/-! ### Bits -/

/-- The interchange bits: sign, biased exponent, significand without its leading bit. -/
def toBits : Binary64 → Nat
  | .nan => 0x7ff8 * Nat.pow 2 48
  | .infinity s => (if s then Nat.pow 2 63 else 0) + 0x7ff * Nat.pow 2 52
  | .finite s m q _ =>
    (if s then Nat.pow 2 63 else 0) +
      if m < Nat.pow 2 52 then m else (q + 1075).toNat * Nat.pow 2 52 + (m - Nat.pow 2 52)

end Binary64

end DocumentRules
