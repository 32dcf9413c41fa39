import FleetHealth.Json.Token
/-!
# TOML numbers, dates and times

Each reader returns what it read and the rest of the text; the caller sees to it that the rest may
follow a value.
-/

namespace FleetHealth.Toml

/-- The characters that were read, as far as `rest`. -/
def spelling (cs rest : List Char) : String :=
  String.ofList (cs.take (cs.length - rest.length))

/-! ## Integers and floats -/

/-- Reads digits, for which `isDigit` says what counts as one, with single underscores between them.
`afterDigit` tells whether one was just read. -/
def readRun (isDigit : Char → Bool) (afterDigit : Bool) (acc : List Char) :
    List Char → Option (List Char × List Char)
  | '_' :: rest => if afterDigit then readRun isDigit false acc rest else none
  | c :: rest =>
    if isDigit c then readRun isDigit true (c :: acc) rest
    else if afterDigit then some (acc.reverse, c :: rest)
    else none
  | [] => if afterDigit then some (acc.reverse, []) else none

/-- Reads a decimal run without a leading zero, or a zero alone. -/
def readDecimal : List Char → Option (List Char × List Char)
  | '0' :: rest => some (['0'], rest)
  | cs => readRun Char.isDigit false [] cs

/-- Whether a text starts with a minus sign, and the text after any sign. -/
def readSign : List Char → Bool × List Char
  | '-' :: rest => (true, rest)
  | '+' :: rest => (false, rest)
  | cs => (false, cs)

/-- The value of a run of digits in a base. -/
def valueIn (base : Nat) (digits : List Char) : Nat :=
  digits.foldl (fun n c => n * base + (Json.hexValue? c).getD 0) 0

/-- Whether a character is a digit of a base that is at most sixteen. -/
def isDigitIn (base : Nat) (c : Char) : Bool :=
  match Json.hexValue? c with
  | some n => n < base
  | none => false

/-- Reads a run of digits in a base as an integer of 64 bits. -/
def readBased (base : Nat) (cs : List Char) : Option (Int × List Char) := do
  let run ← readRun (isDigitIn base) false [] cs
  let n := valueIn base run.1
  if n ≤ 9223372036854775807 then some (n, run.2) else none

/-- Reads an integer of 64 bits. -/
def readInteger : List Char → Option (Int × List Char)
  | '0' :: 'x' :: rest => readBased 16 rest
  | '0' :: 'o' :: rest => readBased 8 rest
  | '0' :: 'b' :: rest => readBased 2 rest
  | cs => do
    let (negative, rest) := readSign cs
    let run ← readDecimal rest
    let n : Int := valueIn 10 run.1
    let n := if negative then -n else n
    if -9223372036854775808 ≤ n ∧ n ≤ 9223372036854775807 then some (n, run.2) else none

/-- Reads the exponent of a float, if its letter is next: its digits with their sign. -/
def readExponent : List Char → Option (Bool × List Char × List Char)
  | e :: rest =>
    if e = 'e' ∨ e = 'E' then
      let (negative, rest) := readSign rest
      (readRun Char.isDigit false [] rest).map fun run => (negative, run.1, run.2)
    else none
  | [] => none

/-- Whether the decimal `mantissa · 10 ^ exponent` is too great for a double of finite value: it is when
it is nearer to two to the power of 1024 than to the greatest finite double. -/
def overflows (mantissa : Nat) (exponent : Int) : Bool :=
  let digits := (Nat.toDigits 10 mantissa).length
  let limit := (Nat.pow 2 54 - 1) * Nat.pow 2 970
  if mantissa = 0 then false
  else if exponent + digits > 400 then true
  else if exponent + digits < 300 then false
  else if 0 ≤ exponent then limit ≤ mantissa * Nat.pow 10 exponent.toNat
  else limit * Nat.pow 10 (-exponent).toNat ≤ mantissa

/-- The digits of an exponent as a number, as far as it matters: anything above a million counts as a
million. -/
def exponentOf (negative : Bool) (digits : List Char) : Int :=
  let n : Int := min (valueIn 10 digits) 1000000
  if negative then -n else n

/-- Reads a float that has a fraction, an exponent or both. A positive one must be finite. -/
def readDecimalFloat (cs : List Char) : Option (String × List Char) := do
  let (negative, rest) := readSign cs
  let whole ← readDecimal rest
  let (fraction, afterFraction) ←
    match whole.2 with
    | '.' :: rest => readRun Char.isDigit false [] rest
    | rest => some ([], rest)
  let (exponent, rest) :=
    match readExponent afterFraction with
    | some (negative, digits, rest) => (exponentOf negative digits, rest)
    | none => (0, afterFraction)
  if rest.length = whole.2.length then none
  else if !negative && overflows (valueIn 10 (whole.1 ++ fraction)) (exponent - fraction.length) then
    none
  else some (spelling cs rest, rest)

/-- Reads a float that is spelled by a word. -/
def readSpecialFloat (cs : List Char) : Option (String × List Char) :=
  match (readSign cs).2 with
  | 'i' :: 'n' :: 'f' :: rest => some (spelling cs rest, rest)
  | 'n' :: 'a' :: 'n' :: rest => some (spelling cs rest, rest)
  | _ => none

/-- Reads a float. -/
def readFloat (cs : List Char) : Option (String × List Char) :=
  (readDecimalFloat cs).or (readSpecialFloat cs)

/-! ## Dates and times -/

/-- Reads `n` digits as a number between two bounds. -/
def readFixed (n lo hi : Nat) (cs : List Char) : Option (Nat × List Char) :=
  let run := cs.take n
  if run.length = n ∧ run.all Char.isDigit ∧ lo ≤ valueIn 10 run ∧ valueIn 10 run ≤ hi then
    some (valueIn 10 run, cs.drop n)
  else none

/-- Reads one given character. -/
def expect (c : Char) : List Char → Option (List Char)
  | d :: rest => if d = c then some rest else none
  | [] => none

/-- The number of days of a month. -/
def daysIn (year month : Nat) : Nat :=
  if month = 2 then
    if year % 4 = 0 ∧ (year % 100 ≠ 0 ∨ year % 400 = 0) then 29 else 28
  else if month = 4 ∨ month = 6 ∨ month = 9 ∨ month = 11 then 30
  else 31

/-- Reads a date. -/
def readDate (cs : List Char) : Option (List Char) := do
  let (year, rest) ← readFixed 4 0 9999 cs
  let (month, rest) ← readFixed 2 1 12 (← expect '-' rest)
  let (_, rest) ← readFixed 2 1 (daysIn year month) (← expect '-' rest)
  some rest

/-- Reads a time of day, which may have a leap second and a fraction. -/
def readTime (cs : List Char) : Option (List Char) := do
  let (_, rest) ← readFixed 2 0 23 cs
  let (_, rest) ← readFixed 2 0 59 (← expect ':' rest)
  let (_, rest) ← readFixed 2 0 60 (← expect ':' rest)
  match rest with
  | '.' :: fraction =>
    match fraction.takeWhile Char.isDigit with
    | [] => some rest
    | _ => some (fraction.dropWhile Char.isDigit)
  | _ => some rest

/-- Reads the distance of a time zone from universal time. -/
def readOffset : List Char → Option (List Char)
  | 'Z' :: rest => some rest
  | 'z' :: rest => some rest
  | c :: rest =>
    if c = '+' ∨ c = '-' then do
      let (_, rest) ← readFixed 2 0 23 rest
      let (_, rest) ← readFixed 2 0 59 (← expect ':' rest)
      some rest
    else none
  | [] => none

/-- Reads the time that may follow a date. -/
def readTimeAfterDate : List Char → Option (List Char)
  | c :: rest =>
    if c = 'T' ∨ c = 't' ∨ c = ' ' then
      (readTime rest).map fun rest => (readOffset rest).getD rest
    else none
  | [] => none

/-- Reads a date, a time of day, or a date with a time. -/
def readDatetime (cs : List Char) : Option (String × List Char) :=
  match readDate cs with
  | some rest =>
    let rest := (readTimeAfterDate rest).getD rest
    some (spelling cs rest, rest)
  | none => (readTime cs).map fun rest => (spelling cs rest, rest)

end FleetHealth.Toml
