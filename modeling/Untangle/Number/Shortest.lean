import Untangle.Number.Binary64

set_option autoImplicit false

/-!
# The shortest decimal of a binary number

Of all decimals that read back as a given positive number, the ones with the fewest digits, and of
those the nearest.  The decimals that read back form an interval around the number that reaches half
way to its neighbours, ends included if the mantissa is even.  For one, two, three, … digits the two
neighbours of the number on the decimal grid of that many digits are tried.
-/

namespace Untangle.Shortest

/-- A positive decimal `digits · 10 ^ scale`. -/
structure Decimal where
  digits : Nat
  scale : Int
  deriving Repr, DecidableEq

/-- A positive number in quarter steps: the number is `4 · mantissa`, and the interval of what reads
back goes from `low` to `high`, all times `2 ^ exponent`. -/
structure Interval where
  low : Nat
  value : Nat
  high : Nat
  exponent : Int
  closed : Bool

/-- The interval of the decimals that read back as a positive finite number. -/
def interval (x : Float) : Interval :=
  let p := Binary64.parts x
  let m := p.mantissa
  let atPower := m == Binary64.leadingBit && p.exponent > -1074
  ⟨if atPower then 4 * m - 1 else 4 * m - 2, 4 * m, 4 * m + 2, p.exponent - 2, m % 2 == 0⟩

/-- The power of ten with an exponent. -/
def tenTo (k : Nat) : Nat := Nat.pow 10 k

/-- Whether `n · 2 ^ e` is at least `10 ^ k`. -/
def reachesPower (n : Nat) (e k : Int) : Bool :=
  tenTo k.toNat <<< (-e).toNat ≤ n <<< e.toNat * tenTo (-k).toNat

/-- Raises a lower bound of the number of digits before the point until it fits. -/
def raisePoint (n : Nat) (e : Int) : Nat → Int → Int
  | 0, k => k
  | fuel + 1, k => if reachesPower n e k then raisePoint n e fuel (k + 1) else k

/-- The exponent `k` with `10 ^ (k - 1) ≤ n · 2 ^ e < 10 ^ k`. -/
def pointOf (n : Nat) (e : Int) : Int :=
  raisePoint n e 4 (((n.log2 : Int) + e) * 30103 / 100000 - 1)

/-- The decimal with `count` digits that reads back and is nearest, if there is one. -/
def candidate (i : Interval) (point : Int) (count : Nat) : Option Decimal :=
  let scale := point - count
  let up := tenTo (-scale).toNat <<< i.exponent.toNat
  let unit := tenTo scale.toNat <<< (-i.exponent).toNat
  let value := i.value * up
  let hits (d : Nat) : Bool :=
    if i.closed then i.low * up ≤ d * unit && d * unit ≤ i.high * up
    else i.low * up < d * unit && d * unit < i.high * up
  let below := value / unit
  let rest := value % unit
  match hits below, hits (below + 1) with
  | true, true =>
    if 2 * rest < unit || (2 * rest == unit && below % 2 == 0) then some ⟨below, scale⟩
    else some ⟨below + 1, scale⟩
  | true, false => some ⟨below, scale⟩
  | false, true => some ⟨below + 1, scale⟩
  | false, false => none

/-- The shortest decimal of a positive finite number; seventeen digits are always enough. -/
def decimal (x : Float) : Decimal :=
  let i := interval x
  let point := pointOf i.value i.exponent
  ((List.range 17).findSome? fun n => candidate i point (n + 1)).getD ⟨i.value, 0⟩

end Untangle.Shortest
