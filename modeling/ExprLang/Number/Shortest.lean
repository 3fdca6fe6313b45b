import ExprLang.Number.Parts

/-!
# Shortest decimal digits

A finite binary64 magnitude `x = m · 2 ^ q` is written with the fewest decimal digits that
read back as `x`. Reading rounds to the nearest binary64 value, so a decimal reads back as `x`
exactly when it lies in the *rounding interval* of `x`: the reals closer to `x` than to either
neighbour, with both ends included when `m` is even (a tie at an end then goes to `x`).

The search is plain arithmetic on naturals. Let `k` be the least integer with `x < 10 ^ k`
(`Magnitude.scale`). For `n = 1, 2, …, 17` the grid of decimals with `n` significant digits
has step `10 ^ (k - n)`; if any point of that grid lies in the interval, so does one of the
two grid points next to `x`, so testing those two suffices (`Magnitude.pick?`). The first grid
with a hit gives the digits; when both neighbours hit, the nearer one wins and an exact tie
goes to the upper one. Seventeen significant digits always suffice for binary64, and the exact
expansion of `x` stands behind the search as a last resort.

All quantities are put on one integer scale (`Grid`): the ends of the interval are
`4m ∓ 2` (or `4m - 1` below a power of two, see `Magnitude.narrowBelow`) and `4m + 2` in units
of `2 ^ (q - 2)`, and a grid point `c · 10 ^ e` becomes `c * unit`.
-/

namespace ExprLang.Number

/-- A decimal number `digits · 10 ^ exponent`. -/
structure Decimal where
  digits : Nat
  exponent : Int
deriving Repr, DecidableEq

namespace Decimal

/-- Drops trailing zero digits and raises the exponent to match; zero is left alone. -/
def trim (d : Decimal) : Decimal :=
  if h : d.digits ≠ 0 ∧ d.digits % 10 = 0 then
    trim ⟨d.digits / 10, d.exponent + 1⟩
  else d
termination_by d.digits
decreasing_by exact Nat.div_lt_self (Nat.pos_of_ne_zero h.1) (by decide)

end Decimal

/-- One decimal grid `10 ^ e` and the rounding interval of a magnitude, on a common integer
scale: the grid point `c · 10 ^ e` is `c * unit`, and `low`, `value`, `high` are the lower end
of the interval, the magnitude itself and the upper end. -/
structure Grid where
  unit : Nat
  low : Nat
  value : Nat
  high : Nat
deriving Repr

namespace Grid

/-- Whether the scaled point `p` lies in the interval, ends included when `closed`. -/
def admits (g : Grid) (closed : Bool) (p : Nat) : Bool :=
  if closed then decide (g.low ≤ p ∧ p ≤ g.high) else decide (g.low < p ∧ p < g.high)

end Grid

namespace Magnitude

/-- Whether the ends of the rounding interval read back as the magnitude itself: they do when
the mantissa is even, because a tie when reading goes to the even mantissa. -/
def closed (x : Magnitude) : Bool :=
  x.mantissa % 2 == 0

/-- The grid `10 ^ e` and the rounding interval of `x` on one integer scale. Both sides are
multiplied by `2 ^ (2 - q)` and `10 ^ (-e)` where those exponents are positive. -/
def grid (x : Magnitude) (e : Int) : Grid :=
  let a := x.exponent - 2
  let up := Nat.pow 2 a.toNat * Nat.pow 10 (-e).toNat
  let m4 := 4 * x.mantissa
  { unit := Nat.pow 10 e.toNat * Nat.pow 2 (-a).toNat
    low := (m4 - if x.narrowBelow then 1 else 2) * up
    value := m4 * up
    high := (m4 + 2) * up }

/-- The digits of the grid point `c · 10 ^ e` that lies in the rounding interval of `x` and is
nearest to `x`, if any point of the grid lies there. Only the two points next to `x` are
candidates; an exact tie between them goes to the upper one. -/
def pick? (x : Magnitude) (e : Int) : Option Nat :=
  let g := x.grid e
  let c := g.value / g.unit
  let below := c * g.unit
  let above := (c + 1) * g.unit
  match g.admits x.closed below, g.admits x.closed above with
  | true, true => if g.value - below < above - g.value then some c else some (c + 1)
  | true, false => some c
  | false, true => some (c + 1)
  | false, false => none

/-- Whether `x < 10 ^ k`, compared exactly. -/
def belowPowTen (x : Magnitude) (k : Int) : Bool :=
  decide (x.mantissa * Nat.pow 2 x.exponent.toNat * Nat.pow 10 (-k).toNat
    < Nat.pow 10 k.toNat * Nat.pow 2 (-x.exponent).toNat)

/-- Steps `k` upward until `x < 10 ^ k`, at most `fuel` times. -/
def scaleFrom (x : Magnitude) (k : Int) : Nat → Int
  | 0 => k
  | fuel + 1 => if x.belowPowTen k then k else x.scaleFrom (k + 1) fuel

/-- The least `k` with `x < 10 ^ k`, for a nonzero magnitude. With `p` the binary order of `x`
(`2 ^ p ≤ x < 2 ^ (p + 1)`), the least `k` lies between `⌊p · log₁₀ 2⌋` and two more, and
`78913 / 2 ^ 18` is below `log₁₀ 2` by less than `10 ^ (-6)`, so the search starts one below
that estimate and needs at most four steps. -/
def scale (x : Magnitude) : Int :=
  let p : Int := (Nat.log2 x.mantissa : Int) + x.exponent
  x.scaleFrom (p * 78913 / 262144 - 1) 8

/-- The exact decimal value of `x`: `m · 2 ^ q` is `m · 5 ^ (-q) · 10 ^ q` when `q < 0`. -/
def exact (x : Magnitude) : Decimal :=
  if 0 ≤ x.exponent then ⟨x.mantissa * Nat.pow 2 x.exponent.toNat, 0⟩
  else ⟨x.mantissa * Nat.pow 5 (-x.exponent).toNat, x.exponent⟩

/-- The fewest significant digits that read back as `x`, the nearest such decimal to `x`,
without trailing zeros. Zero is `⟨0, 0⟩`. -/
def shortest (x : Magnitude) : Decimal :=
  if x.mantissa = 0 then ⟨0, 0⟩
  else
    let k := x.scale
    let hit := (List.range 17).findSome? fun i =>
      (x.pick? (k - (i + 1 : Nat))).map fun c => (⟨c, k - (i + 1 : Nat)⟩ : Decimal)
    (hit.getD x.exact).trim

end Magnitude

end ExprLang.Number
