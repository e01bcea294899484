/-!
# Decimal numbers

A number is kept as a whole number of units of a negative power of ten, so that nothing is lost of
how it was written.

## Main definitions

* `Decimal`: a decimal number, with `Decimal.toInt?` for whole ones.
* `Decimal.text`: its text, positional within a fixed range and with an exponent outside it.
-/

namespace LiveMarkdown

/-- The number `mantissa / 10 ^ scale`. -/
structure Decimal where
  mantissa : Int
  scale : Nat
  deriving DecidableEq, Repr

namespace Decimal

/-- A natural number. -/
def ofNat (n : Nat) : Decimal := ⟨n, 0⟩

/-- The whole number that a decimal is, if it is one. -/
def toInt? (d : Decimal) : Option Int :=
  let units : Int := Nat.pow 10 d.scale
  if d.mantissa % units = 0 then some (d.mantissa / units) else none

/-- The natural number that a decimal is, if it is one. -/
def toNat? (d : Decimal) : Option Nat :=
  d.toInt?.bind Int.toNat?

/-- The digits of a number without the zeros at its end. -/
def significant (n : Nat) : List Char :=
  ((Nat.toDigits 10 n).reverse.dropWhile (· == '0')).reverse

/-- The text of a positive number with the given digits, whose point stands behind the first `point`
of them. Positional notation ends above twenty-one digits in front of the point and below six zeros
behind it. -/
def layout (digits : List Char) (point : Int) : List Char :=
  let count : Int := digits.length
  if count ≤ point && point ≤ 21 then
    digits ++ List.replicate (point - count).toNat '0'
  else if 0 < point && point ≤ 21 then
    digits.take point.toNat ++ '.' :: digits.drop point.toNat
  else if -6 < point && point ≤ 0 then
    '0' :: '.' :: (List.replicate (-point).toNat '0' ++ digits)
  else
    let fraction := if digits.length = 1 then [] else '.' :: digits.drop 1
    let exponent := point - 1
    let sign := if exponent < 0 then '-' else '+'
    digits.take 1 ++ fraction ++ 'e' :: sign :: Nat.toDigits 10 exponent.natAbs

/-- The text of a number. -/
def text (d : Decimal) : String :=
  if d.mantissa = 0 then "0"
  else
    let n := d.mantissa.natAbs
    let point : Int := (Nat.toDigits 10 n).length - d.scale
    let body := layout (significant n) point
    String.ofList (if d.mantissa < 0 then '-' :: body else body)

end Decimal

end LiveMarkdown
