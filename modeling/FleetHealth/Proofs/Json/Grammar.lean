import FleetHealth.Json.Tree
/-!
# The grammar of JSON

Which texts spell a value, said without the scanner and without the parser. A text is a row of words
with white space between them. A word has its one spelling, but for numbers with a fraction or an
exponent and for texts, whose characters may be written plainly or as escapes. Any white space, any
choice of escapes and any depth are in the grammar.

* `Spells` — the relation between texts and the values they spell.
-/

namespace FleetHealth.Json

/-! ## Texts between quotes -/

/-- The characters that stand for one piece of a text between quotes. -/
inductive Piece.Spelled : Piece → List Char → Prop
  | plain {c : Char} (hquote : c ≠ '"') (hslash : c ≠ '\\') (hcontrol : 0x20 ≤ c.toNat) :
    Spelled (.char c) [c]
  | escape {e c : Char} (h : escaped? e = some c) : Spelled (.char c) ['\\', e]
  | unit {a b c d : Char} {i j k l : Nat} (ha : hexValue? a = some i) (hb : hexValue? b = some j)
    (hc : hexValue? c = some k) (hd : hexValue? d = some l) :
    Spelled (.unit (i * 4096 + j * 256 + k * 16 + l)) ['\\', 'u', a, b, c, d]

/-- The characters that stand for a sequence of pieces. -/
inductive SpellsPieces : List Piece → List Char → Prop
  | nil : SpellsPieces [] []
  | cons {p : Piece} {ps : List Piece} {cs rest : List Char} (hp : p.Spelled cs)
    (hps : SpellsPieces ps rest) : SpellsPieces (p :: ps) (cs ++ rest)

/-- The spellings of a text, quotes included. -/
inductive SpellsText : Option String → List Char → Prop
  | quoted {ps : List Piece} {body : List Char} (h : SpellsPieces ps body) :
    SpellsText (textOf ps) ('"' :: (body ++ ['"']))

/-! ## Numbers -/

/-- One or more digits. -/
structure IsRun (cs : List Char) : Prop where
  ne_nil : cs ≠ []
  isDigit : ∀ c ∈ cs, c.isDigit

/-- A point with digits after it, or nothing. -/
inductive IsFraction : List Char → Prop
  | none : IsFraction []
  | point {run : List Char} (h : IsRun run) : IsFraction ('.' :: run)

/-- A power of ten with or without sign, or nothing. -/
inductive IsExponent : List Char → Prop
  | none : IsExponent []
  | bare {e : Char} {run : List Char} (he : e = 'e' ∨ e = 'E') (h : IsRun run) : IsExponent (e :: run)
  | signed {e sign : Char} {run : List Char} (he : e = 'e' ∨ e = 'E') (hsign : sign = '+' ∨ sign = '-')
    (h : IsRun run) : IsExponent (e :: sign :: run)

/-- The numbers that are no integers: those with a fraction or an exponent, and minus zero. -/
inductive IsReal : List Char → Prop
  | mk (negative : Bool) (whole : Nat) {fraction exponent : List Char} (hfraction : IsFraction fraction)
    (hexponent : IsExponent exponent)
    (h : fraction ≠ [] ∨ exponent ≠ [] ∨ (negative ∧ whole = 0)) :
    IsReal ((if negative then ['-'] else []) ++ (Text.digits whole ++ (fraction ++ exponent)))

/-! ## Words and texts -/

/-- The spellings of a word. -/
def Token.Spelled : Token → List Char → Prop
  | .real literal, cs => IsReal cs ∧ literal = String.ofList cs
  | .str text, cs => SpellsText text cs
  | t, cs => cs = t.write

/-- White space. -/
def IsBlank (c : Char) : Prop :=
  c = ' ' ∨ c = '\t' ∨ c = '\n' ∨ c = '\r'

/-- The characters that spell a sequence of words, with any white space around each. -/
inductive Layout : List Token → List Char → Prop
  | nil : Layout [] []
  | blank {ts : List Token} {c : Char} {cs : List Char} (hc : IsBlank c) (h : Layout ts cs) :
    Layout ts (c :: cs)
  | word {t : Token} {ts : List Token} {cs rest : List Char} (ht : t.Spelled cs) (h : Layout ts rest) :
    Layout (t :: ts) (cs ++ rest)

/-- Whether a text spells a value. -/
def Spells (text : String) (v : Json) : Prop :=
  Layout (tokens v) text.toList

end FleetHealth.Json
