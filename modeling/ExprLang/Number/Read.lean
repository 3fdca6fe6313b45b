/-!
# Reading number text

`Number.read?` reads the decimal text of a binary64 value, the grammar used both for number
tokens and for values given on the command line:

* an optional sign `+` or `-`;
* then either `inf`, `infinity` or `nan` in any mix of ASCII case,
* or digits with at most one point among them, at least one digit in all, followed by an
  optional exponent: `e` or `E`, an optional sign and at least one digit.

Nothing else may follow. The value is the nearest binary64 value to the decimal, with ties
to the even mantissa (`Float.ofScientific` rounds exactly so); a minus sign negates it, so
`-0` is a negative zero.

Exponent digits stop counting once the exponent has reached `65536`: any decimal with fewer
than `65536` digits and such an exponent is already beyond the range of binary64 in either
direction, so this bound changes no result for such texts.
-/

namespace ExprLang.Number

/-- The value of a run of decimal digits, most significant first. -/
def digitsValue (ds : List Char) : Nat :=
  ds.foldl (fun n c => 10 * n + (c.toNat - '0'.toNat)) 0

/-- The value of exponent digits, which stops growing once it has reached `65536`. -/
def exponentValue (ds : List Char) : Nat :=
  ds.foldl (fun n c => if n < 65536 then 10 * n + (c.toNat - '0'.toNat) else n) 0

/-- An optional leading sign: whether it is a minus, and the text after it. -/
def splitSign : List Char → Bool × List Char
  | '-' :: r => (true, r)
  | '+' :: r => (false, r)
  | r => (false, r)

/-- Reads the decimal form without sign: digits, an optional point with digits after it, at
least one digit in all, then an optional exponent. The result is the digits read as one
natural number `m` and the power of ten `e` with value `m · 10 ^ e`. -/
def decimal? (cs : List Char) : Option (Nat × Int) :=
  let whole := cs.takeWhile Char.isDigit
  let afterWhole := cs.dropWhile Char.isDigit
  let (frac, afterFrac) : List Char × List Char :=
    match afterWhole with
    | '.' :: r => (r.takeWhile Char.isDigit, r.dropWhile Char.isDigit)
    | _ => ([], afterWhole)
  if whole.isEmpty && frac.isEmpty then none
  else
    let m := digitsValue (whole ++ frac)
    let shift : Int := frac.length
    match afterFrac with
    | [] => some (m, -shift)
    | c :: r =>
      if c = 'e' ∨ c = 'E' then
        let (negative, r) := splitSign r
        let ds := r.takeWhile Char.isDigit
        if ds.isEmpty || !(r.dropWhile Char.isDigit).isEmpty then none
        else
          let e : Int := exponentValue ds
          some (m, (if negative then -e else e) - shift)
      else none

/-- The positive infinity of binary64. -/
def positiveInfinity : Float := Float.ofBits 0x7FF0000000000000

/-- The quiet not-a-number value of binary64 with a clear sign bit. -/
def notANumber : Float := Float.ofBits 0x7FF8000000000000

/-- The nearest binary64 value to `m · 10 ^ e`. -/
def ofDecimal (m : Nat) (e : Int) : Float :=
  Float.ofScientific m (decide (e < 0)) e.natAbs

/-- Reads number text by the grammar above. -/
def read? (s : String) : Option Float :=
  let (negative, body) := splitSign s.toList
  let word := String.ofList (body.map Char.toLower)
  let magnitude? : Option Float :=
    if word = "inf" ∨ word = "infinity" then some positiveInfinity
    else if word = "nan" then some notANumber
    else (decimal? body).map fun (m, e) => ofDecimal m e
  magnitude?.map fun x => if negative then -x else x

end ExprLang.Number
