import ExprLang.Number.Shortest

/-!
# Number text

Numbers are written from their shortest digits (`Magnitude.shortest`) in one of two styles,
both fixed here as values of `Style`:

* `Style.plain` is the text of a number wherever the language shows one: in values, in string
  concatenation and in printed trees. It is always positional (`1e21` is
  `1000000000000000000000`, `1e-7` is `0.0000001`) and has no fraction part for whole numbers.
* `Style.diagnostic` is used in log lines only. It keeps one fraction digit for whole numbers
  (`2.0`) and switches to exponent notation (`1e16`, `1.5e-5`) for nonzero values below
  `10 ^ (-4)` or from `10 ^ 16` on.

Both write a minus sign for every negative value, zero included (`-0`, `-0.0`), and spell the
special values `NaN`, `inf` and `-inf`.
-/

namespace ExprLang.Number

/-- The choices that distinguish one number style from another. -/
structure Style where
  /-- Exponent notation is used when the decimal point of the shortest digits would stand at a
  position `p` (the value lies in `[10 ^ (p - 1), 10 ^ p)`) with `p ≤ low` or `high ≤ p`;
  `none` means never. -/
  exponentWhen : Option (Int × Int)
  /-- Whether a whole number in positional notation keeps a fraction part `.0`. -/
  wholeFraction : Bool
deriving Repr

namespace Style

/-- Positional always, no `.0`. -/
def plain : Style := ⟨none, false⟩

/-- Exponent notation below `10 ^ (-4)` and from `10 ^ 16` on, `.0` on whole numbers. -/
def diagnostic : Style := ⟨some (-4, 17), true⟩

end Style

/-- `n` zero digits. -/
def zeros (n : Nat) : String :=
  String.ofList (List.replicate n '0')

namespace Decimal

/-- The decimal digits of `d.digits` (`"0"` for zero). -/
def digitText (d : Decimal) : String :=
  toString d.digits

/-- The position of the decimal point relative to the first digit: the value lies in
`[10 ^ (p - 1), 10 ^ p)`. -/
def point (d : Decimal) : Int :=
  (d.digitText.length : Int) + d.exponent

/-- Positional notation of a nonzero decimal: digits, then zeros up to the point, or a point
inside the digits, or `0.` and zeros before them. -/
def positional (d : Decimal) (wholeFraction : Bool) : String :=
  let s := d.digitText
  let n := s.length
  if 0 ≤ d.exponent then
    s ++ zeros d.exponent.toNat ++ (if wholeFraction then ".0" else "")
  else
    let shift := (-d.exponent).toNat
    if shift < n then
      String.ofList (s.toList.take (n - shift)) ++ "." ++ String.ofList (s.toList.drop (n - shift))
    else
      "0." ++ zeros (shift - n) ++ s

/-- Exponent notation of a nonzero decimal: the first digit, the others after a point if there
are any, then `e` and the power of ten of the first digit. -/
def scientific (d : Decimal) : String :=
  let s := d.digitText.toList
  let first := String.ofList (s.take 1)
  let rest := String.ofList (s.drop 1)
  (if rest.isEmpty then first else first ++ "." ++ rest) ++ "e" ++ toString (d.point - 1)

/-- The text of a nonnegative decimal in a style. -/
def render (st : Style) (d : Decimal) : String :=
  if d.digits = 0 then
    if st.wholeFraction then "0.0" else "0"
  else
    match st.exponentWhen with
    | some (low, high) =>
      if d.point ≤ low ∨ high ≤ d.point then d.scientific else d.positional st.wholeFraction
    | none => d.positional st.wholeFraction

end Decimal

/-- The text of a binary64 value in a style. -/
def Parts.render (st : Style) : Parts → String
  | .nan => "NaN"
  | .infinite negative => if negative then "-inf" else "inf"
  | .finite negative m => (if negative then "-" else "") ++ m.shortest.render st

/-- The text of a number wherever the language shows one. -/
def text (x : Float) : String :=
  (Parts.ofFloat x).render Style.plain

/-- The text of a number in log lines. -/
def diagnostic (x : Float) : String :=
  (Parts.ofFloat x).render Style.diagnostic

end ExprLang.Number
