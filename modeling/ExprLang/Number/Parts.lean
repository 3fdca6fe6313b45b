/-!
# Binary64 parts

Every number of the language is a binary64 value (`Float`). Printing, truncating and
repeating all start from the same view of such a value: its bit pattern split into a sign,
and either *not a number*, an infinity, or a finite magnitude `m · 2 ^ q`.

`Parts.ofBits` is that split. It works on the bit pattern alone, in `Nat` arithmetic, so
every later computation on numbers is exact and can be reasoned about without any model of
floating-point operations.

The magnitude also records `narrowBelow`: at a power of two with a normal exponent above the
least one, the gap to the next smaller value is half the gap to the next larger value. This is
the one fact about the neighbours of a value that the shortest-digits search needs besides
`m` and `q`.
-/

namespace ExprLang.Number

/-- A finite, nonnegative binary64 magnitude `mantissa · 2 ^ exponent`, with `narrowBelow`
true exactly when the next smaller value is half as far away as the next larger one. -/
structure Magnitude where
  mantissa : Nat
  exponent : Int
  narrowBelow : Bool
deriving Repr, DecidableEq

/-- The three shapes of a binary64 value. A zero is a finite value with mantissa `0`. -/
inductive Parts where
  | nan
  | infinite (negative : Bool)
  | finite (negative : Bool) (magnitude : Magnitude)
deriving Repr, DecidableEq

namespace Parts

/-- The width of the fraction field of a binary64 value. -/
def fractionBits : Nat := 52

/-- The exponent of the least subnormal value: a subnormal is `fraction · 2 ^ (-1074)`. -/
def leastExponent : Int := -1074

/-- Splits a bit pattern into its sign bit, its 11-bit exponent field and its 52-bit fraction
field. An all-ones exponent field is an infinity (zero fraction) or not a number; a zero field
is a subnormal `fraction · 2 ^ (-1074)`; any other field `f` is the normal value
`(2 ^ 52 + fraction) · 2 ^ (f - 1075)`. -/
def ofBits (bits : UInt64) : Parts :=
  let n := bits.toNat
  let negative := decide (Nat.pow 2 63 ≤ n)
  let field : Nat := n / Nat.pow 2 fractionBits % Nat.pow 2 11
  let fraction : Nat := n % Nat.pow 2 fractionBits
  if field = Nat.pow 2 11 - 1 then
    if fraction = 0 then .infinite negative else .nan
  else if field = 0 then
    .finite negative ⟨fraction, leastExponent, false⟩
  else
    .finite negative
      ⟨Nat.pow 2 fractionBits + fraction, (field : Int) - 1075, fraction == 0 && decide (1 < field)⟩

/-- The parts of a `Float`, read from its bit pattern. -/
def ofFloat (x : Float) : Parts :=
  ofBits x.toBits

/-- Whether the value is a zero of either sign. -/
def isZero : Parts → Bool
  | .finite _ m => m.mantissa == 0
  | _ => false

end Parts

end ExprLang.Number
