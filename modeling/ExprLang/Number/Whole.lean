import ExprLang.Number.Parts

/-!
# Whole parts of numbers

Two operations of the language need a whole number from a binary64 value, and both take it
from `Parts`, exactly:

* the remainder `%` works on signed 64-bit integers: `Parts.toInt64` rounds toward zero and
  saturates at the ends of the 64-bit range, and not a number becomes `0`;
* repeating a string takes a count: `Parts.toCount` is `⌊x⌋` for `x ≥ 1`, saturating at
  `2 ^ 64 - 1`, and `0` for anything below one, negative or not a number.
-/

namespace ExprLang.Number

/-- The magnitude rounded toward zero: `m · 2 ^ q` with the fraction dropped. -/
def Magnitude.truncate (x : Magnitude) : Nat :=
  if 0 ≤ x.exponent then x.mantissa * Nat.pow 2 x.exponent.toNat
  else x.mantissa / Nat.pow 2 (-x.exponent).toNat

/-- The least signed 64-bit integer. -/
def int64Min : Int := -(Int.pow 2 63)

/-- The greatest signed 64-bit integer. -/
def int64Max : Int := Int.pow 2 63 - 1

/-- The greatest count: the greatest unsigned 64-bit integer. -/
def countMax : Nat := Nat.pow 2 64 - 1

namespace Parts

/-- The value rounded toward zero into the signed 64-bit range, saturating at its ends; not a
number gives `0`. -/
def toInt64 : Parts → Int
  | .nan => 0
  | .infinite negative => if negative then int64Min else int64Max
  | .finite negative m =>
    if negative then max (-(m.truncate : Int)) int64Min
    else min (m.truncate : Int) int64Max

/-- The count a value stands for: `⌊x⌋` when `x ≥ 1`, at most `2 ^ 64 - 1`; otherwise `0`. -/
def toCount : Parts → Nat
  | .nan => 0
  | .infinite negative => if negative then 0 else countMax
  | .finite negative m => if negative then 0 else min m.truncate countMax

end Parts

end ExprLang.Number
