import FleetHealth.Json.Basic
import FleetHealth.Text.Decimal
/-!
# The words of a JSON text

A JSON text is a sequence of tokens between white space. `Token.scan` splits a text into its tokens
and refuses one that has anything else in it; `Token.write` spells a token.

* `readString_length`, `readNumber_length` — what is left after a token is shorter than the text, so
  `Token.scan` ends.
-/

namespace FleetHealth.Json

/-- A word of a JSON text. -/
inductive Token where
  | objOpen
  | objClose
  | arrOpen
  | arrClose
  | colon
  | comma
  | null
  | bool (value : Bool)
  | int (value : Int)
  | real (literal : String)
  | str (text : Option String)
  deriving DecidableEq

/-! ## Texts in quotes -/

/-- What one character or escape inside quotes stands for: a character, or a unit of UTF-16. -/
inductive Piece where
  | char (c : Char)
  | unit (n : Nat)
  deriving DecidableEq

/-- The value of a hexadecimal digit of either case. -/
def hexValue? (c : Char) : Option Nat :=
  if '0' ≤ c ∧ c ≤ '9' then some (c.toNat - 48)
  else if 'a' ≤ c ∧ c ≤ 'f' then some (c.toNat - 87)
  else if 'A' ≤ c ∧ c ≤ 'F' then some (c.toNat - 55)
  else none

/-- The lower-case hexadecimal digit for a value below sixteen. -/
def hexDigit (n : Nat) : Char :=
  if n < 10 then Char.ofNat (n + 48) else Char.ofNat (n + 87)

/-- The character that a one-letter escape stands for. -/
def escaped? : Char → Option Char
  | '"' => some '"'
  | '\\' => some '\\'
  | '/' => some '/'
  | 'b' => some '\x08'
  | 'f' => some '\x0c'
  | 'n' => some '\n'
  | 'r' => some '\r'
  | 't' => some '\t'
  | _ => none

/-- Reads up to the closing quote: the pieces, after those already in `acc` (last first), and what
follows the quote. -/
def readString (acc : List Piece) : List Char → Option (List Piece × List Char)
  | [] => none
  | '"' :: rest => some (acc.reverse, rest)
  | '\\' :: 'u' :: a :: b :: c :: d :: rest =>
    match hexValue? a, hexValue? b, hexValue? c, hexValue? d with
    | some a, some b, some c, some d =>
      readString (.unit (a * 4096 + b * 256 + c * 16 + d) :: acc) rest
    | _, _, _, _ => none
  | '\\' :: e :: rest =>
    match escaped? e with
    | some c => readString (.char c :: acc) rest
    | none => none
  | c :: rest => if c.toNat < 0x20 then none else readString (.char c :: acc) rest

/-- Whether a unit of UTF-16 is the first half of a pair. -/
def isHighHalf (n : Nat) : Bool :=
  0xD800 ≤ n && n < 0xDC00

/-- Whether a unit of UTF-16 is the second half of a pair. -/
def isLowHalf (n : Nat) : Bool :=
  0xDC00 ≤ n && n < 0xE000

/-- The characters that the pieces stand for, after those in `acc` (last first): `none` when half of
a pair stands alone. -/
def joinPieces (acc : List Char) : List Piece → Option (List Char)
  | [] => some acc.reverse
  | .char c :: rest => joinPieces (c :: acc) rest
  | .unit n :: rest =>
    if isHighHalf n then
      match rest with
      | .unit m :: rest =>
        if isLowHalf m then
          joinPieces (Char.ofNat (0x10000 + (n - 0xD800) * 1024 + (m - 0xDC00)) :: acc) rest
        else none
      | _ => none
    else if isLowHalf n then none
    else joinPieces (Char.ofNat n :: acc) rest

/-- The text that the pieces between two quotes stand for. -/
def textOf (pieces : List Piece) : Option String :=
  (joinPieces [] pieces).map String.ofList

/-- The spelling of one character between quotes. -/
def writeChar (c : Char) : List Char :=
  if c = '"' then ['\\', '"']
  else if c = '\\' then ['\\', '\\']
  else if c = '\x08' then ['\\', 'b']
  else if c = '\x0c' then ['\\', 'f']
  else if c = '\n' then ['\\', 'n']
  else if c = '\r' then ['\\', 'r']
  else if c = '\t' then ['\\', 't']
  else if c.toNat < 0x20 then
    ['\\', 'u', '0', '0', hexDigit (c.toNat / 16), hexDigit (c.toNat % 16)]
  else [c]

/-- The spelling of a text, quotes included. A text without characters is spelled as a lone half. -/
def writeString : Option String → List Char
  | some s => '"' :: (s.toList.flatMap writeChar ++ ['"'])
  | none => ['"', '\\', 'u', 'd', '8', '0', '0', '"']

theorem readString_length {acc pieces : List Piece} {cs rest : List Char}
    (h : readString acc cs = some (pieces, rest)) : rest.length < cs.length := by
  fun_induction readString acc cs with
  | case1 => simp at h
  | case2 acc r =>
    simp only [Option.some.injEq, Prod.mk.injEq] at h
    simp [← h.2]
  | case3 acc _ _ _ _ r _ _ _ _ _ _ _ _ ih =>
    have := ih h
    simp only [List.length_cons]
    omega
  | case4 => simp at h
  | case5 acc e r _ c _ ih =>
    have := ih h
    simp only [List.length_cons]
    omega
  | case6 => simp at h
  | case7 => simp at h
  | case8 acc c r _ _ _ _ ih =>
    have := ih h
    simp only [List.length_cons]
    omega

/-! ## Numbers -/

/-- Reads one or more digits. -/
def readDigits (cs : List Char) : Option (List Char × List Char) :=
  match cs.takeWhile Char.isDigit with
  | [] => none
  | run => some (run, cs.dropWhile Char.isDigit)

/-- Reads a fraction if a point is next: `false` when there is none. -/
def readFraction : List Char → Option (Bool × List Char)
  | '.' :: rest => (readDigits rest).map fun r => (true, r.2)
  | cs => some (false, cs)

/-- Reads an exponent if its letter is next: `false` when there is none. -/
def readExponent : List Char → Option (Bool × List Char)
  | e :: sign :: rest =>
    if e = 'e' ∨ e = 'E' then
      if sign = '+' ∨ sign = '-' then (readDigits rest).map fun r => (true, r.2)
      else (readDigits (sign :: rest)).map fun r => (true, r.2)
    else some (false, e :: sign :: rest)
  | [e] => if e = 'e' ∨ e = 'E' then none else some (false, [e])
  | [] => some (false, [])

/-- Reads the part of a number before fraction and exponent, without sign: no digit follows a leading
zero. -/
def readWhole (cs : List Char) : Option (Nat × List Char) :=
  match readDigits cs with
  | some (run, rest) =>
    if run.head? = some '0' ∧ run.length ≠ 1 then none
    else some (Nat.ofDigitChars 10 run 0, rest)
  | none => none

/-- The token for a number spelled at the start of `cs` and ending before `rest`: an integer of the
given sign and whole part unless it is `-0` or has a fraction or an exponent. -/
def numberToken (cs rest : List Char) (negative extended : Bool) (whole : Nat) : Token :=
  if extended || (negative && whole == 0) then
    .real (String.ofList (cs.take (cs.length - rest.length)))
  else if negative then .int (-whole)
  else .int whole

/-- Reads a number. -/
def readNumber (cs : List Char) : Option (Token × List Char) := do
  let negative := cs.head? == some '-'
  let whole ← readWhole (if negative then cs.tail else cs)
  let fraction ← readFraction whole.2
  let exponent ← readExponent fraction.2
  some (numberToken cs exponent.2 negative (fraction.1 || exponent.1) whole.1, exponent.2)

theorem readDigits_length {cs run rest : List Char} (h : readDigits cs = some (run, rest)) :
    rest.length < cs.length := by
  unfold readDigits at h
  split at h
  · simp at h
  · rename_i hrun
    simp only [Option.some.injEq, Prod.mk.injEq] at h
    have hsplit := congrArg List.length (List.takeWhile_append_dropWhile (p := Char.isDigit) (l := cs))
    have hpos : 0 < (cs.takeWhile Char.isDigit).length :=
      List.length_pos_iff.mpr (by simpa using hrun)
    rw [List.length_append] at hsplit
    rw [← h.2]
    omega

theorem readFraction_length {cs rest : List Char} {b : Bool} (h : readFraction cs = some (b, rest)) :
    rest.length ≤ cs.length := by
  unfold readFraction at h
  split at h
  · obtain ⟨⟨run, r⟩, hr, he⟩ := Option.map_eq_some_iff.mp h
    have := readDigits_length hr
    simp only [Prod.mk.injEq] at he
    simp only [← he.2, List.length_cons]
    omega
  · simp only [Option.some.injEq, Prod.mk.injEq] at h
    simp [h.2]

theorem readExponent_length {cs rest : List Char} {b : Bool} (h : readExponent cs = some (b, rest)) :
    rest.length ≤ cs.length := by
  unfold readExponent at h
  split at h
  · split at h
    · split at h <;>
      · obtain ⟨⟨run, r⟩, hr, he⟩ := Option.map_eq_some_iff.mp h
        have := readDigits_length hr
        simp only [Prod.mk.injEq] at he
        simp only [← he.2, List.length_cons] at this ⊢
        omega
    · simp only [Option.some.injEq, Prod.mk.injEq] at h
      simp [← h.2]
  · split at h
    · simp at h
    · simp only [Option.some.injEq, Prod.mk.injEq] at h
      simp [← h.2]
  · simp only [Option.some.injEq, Prod.mk.injEq] at h
    simp [← h.2]

theorem readWhole_length {cs rest : List Char} {n : Nat} (h : readWhole cs = some (n, rest)) :
    rest.length < cs.length := by
  unfold readWhole at h
  split at h
  · rename_i run r hr
    split at h
    · simp at h
    · simp only [Option.some.injEq, Prod.mk.injEq] at h
      exact h.2 ▸ readDigits_length hr
  · simp at h

theorem readNumber_length {cs rest : List Char} {t : Token} (h : readNumber cs = some (t, rest)) :
    rest.length < cs.length := by
  unfold readNumber at h
  obtain ⟨whole, hw, h⟩ := Option.bind_eq_some_iff.mp h
  obtain ⟨fraction, hf, h⟩ := Option.bind_eq_some_iff.mp h
  obtain ⟨exponent, he, h⟩ := Option.bind_eq_some_iff.mp h
  simp only [Option.some.injEq, Prod.mk.injEq] at h
  have hwhole := readWhole_length hw
  have hfraction := readFraction_length hf
  have hexponent := readExponent_length he
  have hsign : (if cs.head? == some '-' then cs.tail else cs).length ≤ cs.length := by
    split <;> simp
  rw [← h.2]
  omega

/-! ## The whole text -/

/-- Splits a text into its tokens, after those already in `acc` (last first). -/
def Token.scanFrom (acc : List Token) (cs : List Char) : Option (List Token) :=
  match cs with
  | [] => some acc.reverse
  | ' ' :: rest => Token.scanFrom acc rest
  | '\t' :: rest => Token.scanFrom acc rest
  | '\n' :: rest => Token.scanFrom acc rest
  | '\r' :: rest => Token.scanFrom acc rest
  | '\x7b' :: rest => Token.scanFrom (.objOpen :: acc) rest
  | '\x7d' :: rest => Token.scanFrom (.objClose :: acc) rest
  | '[' :: rest => Token.scanFrom (.arrOpen :: acc) rest
  | ']' :: rest => Token.scanFrom (.arrClose :: acc) rest
  | ':' :: rest => Token.scanFrom (.colon :: acc) rest
  | ',' :: rest => Token.scanFrom (.comma :: acc) rest
  | 'n' :: 'u' :: 'l' :: 'l' :: rest => Token.scanFrom (.null :: acc) rest
  | 't' :: 'r' :: 'u' :: 'e' :: rest => Token.scanFrom (.bool true :: acc) rest
  | 'f' :: 'a' :: 'l' :: 's' :: 'e' :: rest => Token.scanFrom (.bool false :: acc) rest
  | '"' :: rest =>
    match h : readString [] rest with
    | some (pieces, rest') =>
      have := readString_length h
      Token.scanFrom (.str (textOf pieces) :: acc) rest'
    | none => none
  | c :: rest =>
    match h : readNumber (c :: rest) with
    | some (t, rest') =>
      have := readNumber_length h
      Token.scanFrom (t :: acc) rest'
    | none => none
termination_by cs.length
decreasing_by all_goals (simp only [List.length_cons] at *; omega)

/-- The tokens of a text, if there is nothing but tokens and white space in it. -/
def Token.scan (cs : List Char) : Option (List Token) :=
  Token.scanFrom [] cs

/-- The spelling of a token. -/
def Token.write : Token → List Char
  | .objOpen => ['\x7b']
  | .objClose => ['\x7d']
  | .arrOpen => ['[']
  | .arrClose => [']']
  | .colon => [':']
  | .comma => [',']
  | .null => ['n', 'u', 'l', 'l']
  | .bool true => ['t', 'r', 'u', 'e']
  | .bool false => ['f', 'a', 'l', 's', 'e']
  | .int n => Text.signedDigits n
  | .real literal => literal.toList
  | .str text => writeString text

end FleetHealth.Json
