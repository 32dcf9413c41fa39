/-!
# Decimal numerals

Natural numbers and integers in base ten. `ofDigits?` reads a plain run of digits; `unsigned?` also
takes one leading plus sign and refuses a value above a bound.
-/

namespace FleetHealth.Text

/-- The digits of a number, without leading zeros. -/
def digits (n : Nat) : List Char :=
  Nat.toDigits 10 n

/-- The digits of an integer, after a minus sign if it is negative. -/
def signedDigits (n : Int) : List Char :=
  if n < 0 then '-' :: digits n.natAbs else digits n.natAbs

/-- The value of a non-empty run of digits. -/
def ofDigits? (cs : List Char) : Option Nat :=
  if cs ≠ [] ∧ cs.all Char.isDigit then some (Nat.ofDigitChars 10 cs 0) else none

/-- The value of a run of digits, perhaps after a plus sign, if it is at most `most`. -/
def unsigned? (most : Nat) (cs : List Char) : Option Nat :=
  let run := match cs with
    | '+' :: rest => rest
    | _ => cs
  (ofDigits? run).filter (· ≤ most)

/-- The digits of a number, padded with zeros to at least `width` places. -/
def padded (width n : Nat) : List Char :=
  List.replicate (width - (digits n).length) '0' ++ digits n

end FleetHealth.Text
