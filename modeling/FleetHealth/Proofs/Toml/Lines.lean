import FleetHealth.Proofs.Json.Scanning
import FleetHealth.Proofs.Toml.Quoting
import FleetHealth.Toml.Document
/-!
# Reading documents that were written

A document is written line by line. Each value is read back from what stands on its line, each line as
one statement, and the lines one after the other as the statements of the document.

* `readValue_text`, `readValue_digits`, `readValue_noItems` — the values.
* `readStatement_line` — a name with its value.
* `readStatements_chunks` — a document in parts.
-/

namespace FleetHealth.Toml

/-! ## Numbers -/

theorem ne_of_isDigit {c d : Char} (hc : c.isDigit) (hd : d.isDigit = false) : c ≠ d := by
  rintro rfl
  rw [hc] at hd
  cases hd

/-- A written number as its first digit and the others. -/
theorem exists_cons_digits (n : Nat) :
    ∃ c cs, Text.digits n = c :: cs ∧ c.isDigit ∧ (∀ d ∈ cs, d.isDigit) ∧ (c = '0' → cs = []) := by
  cases hdigits : Text.digits n with
  | nil => simp [Text.digits] at hdigits
  | cons c cs =>
    have hall : ∀ d ∈ c :: cs, d.isDigit := fun d hd => Json.isDigit_of_mem_digits (n := n) (hdigits ▸ hd)
    refine ⟨c, cs, rfl, hall c List.mem_cons_self, fun d hd => hall d (List.mem_cons_of_mem _ hd), ?_⟩
    rintro rfl
    have hzero : n = 0 := Json.eq_zero_of_head?_toDigits (by rw [← Text.digits, hdigits]; rfl)
    subst hzero
    exact (List.cons.inj hdigits).2.symm

theorem hexValue?_of_isDigit {c : Char} (h : c.isDigit) :
    Json.hexValue? c = some (c.toNat - '0'.toNat) := by
  have hrange : '0' ≤ c ∧ c ≤ '9' := by simpa [Char.isDigit, Char.le_def] using h
  rw [Json.hexValue?, if_pos hrange]
  rfl

theorem valueIn_ten {cs : List Char} (h : ∀ c ∈ cs, c.isDigit) (n : Nat) :
    cs.foldl (fun n c => n * 10 + (Json.hexValue? c).getD 0) n = Nat.ofDigitChars 10 cs n := by
  induction cs generalizing n with
  | nil => rfl
  | cons c cs ih =>
    obtain ⟨hc, hcs⟩ := List.forall_mem_cons.mp h
    rw [List.foldl_cons, ih hcs, Nat.ofDigitChars_cons, hexValue?_of_isDigit hc, Option.getD_some,
      Nat.mul_comm]

theorem valueIn_digits (n : Nat) : valueIn 10 (Text.digits n) = n := by
  rw [valueIn, valueIn_ten fun _ => Json.isDigit_of_mem_digits, Text.digits, Nat.ofDigitChars_ten_toDigits]

theorem readRun_append {run : List Char} (hrun : ∀ c ∈ run, c.isDigit) (acc rest : List Char) :
    readRun Char.isDigit true acc (run ++ '\n' :: rest) = some (acc.reverse ++ run, '\n' :: rest) := by
  induction run generalizing acc with
  | nil => simp [readRun]
  | cons c run ih =>
    obtain ⟨hc, hcs⟩ := List.forall_mem_cons.mp hrun
    rw [List.cons_append, readRun, if_pos hc, ih hcs]
    · simp
    · exact ne_of_isDigit hc rfl

theorem readDecimal_digits (n : Nat) (rest : List Char) :
    readDecimal (Text.digits n ++ '\n' :: rest) = some (Text.digits n, '\n' :: rest) := by
  obtain ⟨c, cs, hdigits, hc, hcs, hzero⟩ := exists_cons_digits n
  rw [hdigits, List.cons_append]
  by_cases h0 : c = '0'
  · rw [hzero h0, h0]
    rfl
  · rw [readDecimal, readRun, if_pos hc, readRun_append hcs]
    · rfl
    · exact ne_of_isDigit hc rfl
    · exact fun _ heq => h0 (List.cons.inj heq).1

theorem readSign_of_isDigit {c : Char} (hc : c.isDigit) (cs : List Char) :
    readSign (c :: cs) = (false, c :: cs) := by
  rw [readSign]
  · exact fun _ heq => ne_of_isDigit hc rfl (List.cons.inj heq).1
  · exact fun _ heq => ne_of_isDigit hc rfl (List.cons.inj heq).1

theorem readInteger_digits {n : Nat} (hn : n ≤ 9223372036854775807) (rest : List Char) :
    readInteger (Text.digits n ++ '\n' :: rest) = some ((n : Int), '\n' :: rest) := by
  have hdecimal := readDecimal_digits n rest
  have hvalue := valueIn_digits n
  obtain ⟨c, cs, hdigits, hc, hcs, hzero⟩ := exists_cons_digits n
  rw [hdigits, List.cons_append] at hdecimal ⊢
  rw [hdigits] at hvalue
  -- nothing but a line feed comes after a leading zero
  have hbase (b : Char) (hb : b.isDigit = false) (hline : b ≠ '\n') :
      ∀ more, c :: (cs ++ '\n' :: rest) ≠ '0' :: b :: more := by
    intro more heq
    have htail := (List.cons.inj heq).2
    rw [hzero (List.cons.inj heq).1] at htail
    exact hline (List.cons.inj htail).1.symm
  rw [readInteger]
  · simp only [readSign_of_isDigit hc, hdecimal, Option.bind_eq_bind, Option.bind_some, hvalue,
      Bool.false_eq_true, if_false]
    rw [if_pos (by omega)]
  · exact hbase 'x' rfl (by decide)
  · exact hbase 'o' rfl (by decide)
  · exact hbase 'b' rfl (by decide)

/-! A number is no date, no time and no float, which are tried first. -/

/-- After some of its digits there is another one or the end of the line. -/
theorem expect_of_readFixed {c : Char} (hdigit : c.isDigit = false) (hline : c ≠ '\n') {cs : List Char}
    (hcs : ∀ d ∈ cs, d.isDigit) {n lo hi v : Nat} {rest more : List Char}
    (h : readFixed n lo hi (cs ++ '\n' :: rest) = some (v, more)) : expect c more = none := by
  simp only [readFixed, List.all_eq_true, Option.ite_none_right_eq_some] at h
  obtain ⟨⟨-, hdigits, -⟩, heq⟩ := h
  obtain rfl : (cs ++ '\n' :: rest).drop n = more := (Prod.mk.inj (Option.some.inj heq)).2
  have hn : n ≤ cs.length := by
    refine Nat.le_of_not_lt fun hlong => ?_
    have hmem : '\n' ∈ (cs ++ '\n' :: rest).take n := by
      rw [List.take_append, List.take_cons (by omega)]
      exact List.mem_append_right _ List.mem_cons_self
    exact absurd (hdigits '\n' hmem) (by decide)
  rw [List.drop_append_of_le_length hn]
  cases hdrop : cs.drop n with
  | nil => rw [List.nil_append, expect, if_neg (Ne.symm hline)]
  | cons d ds =>
    have hd : d.isDigit := hcs d (List.mem_of_mem_drop (hdrop ▸ List.mem_cons_self))
    rw [List.cons_append, expect, if_neg (ne_of_isDigit hd hdigit)]

theorem readDatetime_digits (n : Nat) (rest : List Char) :
    readDatetime (Text.digits n ++ '\n' :: rest) = none := by
  have hcs : ∀ d ∈ Text.digits n, d.isDigit := fun _ => Json.isDigit_of_mem_digits
  have hdate : readDate (Text.digits n ++ '\n' :: rest) = none := by
    unfold readDate
    cases hyear : readFixed 4 0 9999 (Text.digits n ++ '\n' :: rest) with
    | none => rfl
    | some r =>
      have hdash : expect '-' r.2 = none := expect_of_readFixed rfl (by decide) hcs hyear
      simp [hdash]
  have htime : readTime (Text.digits n ++ '\n' :: rest) = none := by
    unfold readTime
    cases hhour : readFixed 2 0 23 (Text.digits n ++ '\n' :: rest) with
    | none => rfl
    | some r =>
      have hcolon : expect ':' r.2 = none := expect_of_readFixed rfl (by decide) hcs hhour
      simp [hcolon]
  rw [readDatetime, hdate, htime]
  rfl

theorem readFloat_digits (n : Nat) (rest : List Char) :
    readFloat (Text.digits n ++ '\n' :: rest) = none := by
  have hdecimal := readDecimal_digits n rest
  obtain ⟨c, cs, hdigits, hc, -, -⟩ := exists_cons_digits n
  rw [hdigits, List.cons_append] at hdecimal ⊢
  have hfloat : readDecimalFloat (c :: (cs ++ '\n' :: rest)) = none := by
    simp [readDecimalFloat, readSign_of_isDigit hc, hdecimal, readExponent]
  have hspecial : readSpecialFloat (c :: (cs ++ '\n' :: rest)) = none := by
    rw [readSpecialFloat, readSign_of_isDigit hc]
    split
    · rename_i heq
      exact absurd (List.cons.inj heq).1 (ne_of_isDigit hc rfl)
    · rename_i heq
      exact absurd (List.cons.inj heq).1 (ne_of_isDigit hc rfl)
    · rfl
  rw [readFloat, hfloat, hspecial]
  rfl

/-! ## Values -/

theorem readText_of_isDigit {c : Char} (hc : c.isDigit) (cs : List Char) :
    readText (c :: cs) = none := by
  have hdouble : c ≠ '"' := ne_of_isDigit hc rfl
  have hsingle : c ≠ '\x27' := ne_of_isDigit hc rfl
  rw [readText]
  all_goals
    intro _ heq
    first
      | exact hdouble (List.cons.inj heq).1
      | exact hsingle (List.cons.inj heq).1

/-- A value that begins like none of the words and brackets is read by trying the forms in turn. -/
theorem readValue_of_head {fuel depth : Nat} (hfuel : 0 < fuel) {c : Char}
    (hc : c ≠ 't' ∧ c ≠ 'f' ∧ c ≠ '[' ∧ c ≠ '\x7b') (cs : List Char) :
    readValue fuel depth (c :: cs)
      = ((readText (c :: cs)).map fun r => (Value.str r.1, r.2)).or
          (((readDatetime (c :: cs)).map fun r => (Value.datetime r.1, r.2)).or
            (((readFloat (c :: cs)).map fun r => (Value.float r.1, r.2)).or
              ((readInteger (c :: cs)).map fun r => (Value.int r.1, r.2)))) := by
  obtain ⟨fuel, rfl⟩ := Nat.exists_eq_succ_of_ne_zero (Nat.ne_of_gt hfuel)
  obtain ⟨htrue, hfalse, hitems, htable⟩ := hc
  rw [readValue]
  · rw [readScalar]
    · exact fun _ heq => htrue (List.cons.inj heq).1
    · exact fun _ heq => hfalse (List.cons.inj heq).1
  · exact fun _ heq => hitems (List.cons.inj heq).1
  · exact fun _ heq => htable (List.cons.inj heq).1

theorem readValue_digits {fuel depth n : Nat} (hfuel : 0 < fuel) (hn : n ≤ 9223372036854775807)
    (rest : List Char) :
    readValue fuel depth (Text.digits n ++ '\n' :: rest) = some (.int n, '\n' :: rest) := by
  have hdatetime := readDatetime_digits n rest
  have hfloat := readFloat_digits n rest
  have hinteger := readInteger_digits hn rest
  obtain ⟨c, cs, hdigits, hc, -, -⟩ := exists_cons_digits n
  rw [hdigits, List.cons_append] at hdatetime hfloat hinteger ⊢
  rw [readValue_of_head hfuel
    ⟨ne_of_isDigit hc rfl, ne_of_isDigit hc rfl, ne_of_isDigit hc rfl, ne_of_isDigit hc rfl⟩,
    readText_of_isDigit hc, hdatetime, hfloat, hinteger]
  rfl

/-- A written text begins with a quote. -/
theorem exists_cons_writeText (cs : List Char) :
    ∃ c more, writeText cs = c :: more ∧ (c = '"' ∨ c = '\x27') := by
  unfold writeText
  rcases textForm cs with _ | _ | _ | _
  · exact ⟨_, _, rfl, .inl rfl⟩
  · exact ⟨_, _, rfl, .inr rfl⟩
  · exact ⟨_, _, rfl, .inl rfl⟩
  · exact ⟨_, _, rfl, .inr rfl⟩

theorem readValue_text {fuel depth : Nat} (hfuel : 0 < fuel) (cs rest : List Char) :
    readValue fuel depth (writeText cs ++ '\n' :: rest)
      = some (.str (String.ofList cs), '\n' :: rest) := by
  have hends : EndsText ('\n' :: rest) := by
    rintro c ⟨⟩
    decide
  have hread := readText_writeText cs hends
  obtain ⟨c, more, hwritten, hc⟩ := exists_cons_writeText cs
  rw [hwritten, List.cons_append] at hread ⊢
  have hhead : c ≠ 't' ∧ c ≠ 'f' ∧ c ≠ '[' ∧ c ≠ '\x7b' := by
    rcases hc with rfl | rfl <;> decide
  rw [readValue_of_head hfuel hhead, hread]
  rfl

theorem readValue_noItems {fuel : Nat} (hfuel : 1 < fuel) (rest : List Char) :
    readValue fuel maxDepth ('[' :: ']' :: '\n' :: rest) = some (.arr [], '\n' :: rest) := by
  obtain ⟨fuel, rfl⟩ := Nat.exists_eq_add_of_le' hfuel
  rfl

/-- Whether a text may stand for a value on a line. -/
structure Denotes (cs : List Char) (v : Value) : Prop where
  head : ∀ c ∈ cs.head?, isSpace c = false
  read : ∀ fuel rest, 1 < fuel → readValue fuel maxDepth (cs ++ '\n' :: rest) = some (v, '\n' :: rest)

theorem denotes_digits {n : Nat} (hn : n ≤ 9223372036854775807) : Denotes (Text.digits n) (.int n) where
  head := by
    obtain ⟨c, cs, hdigits, hc, -, -⟩ := exists_cons_digits n
    rw [hdigits]
    rintro d ⟨⟩
    simp [isSpace, ne_of_isDigit hc (show ' '.isDigit = false from rfl),
      ne_of_isDigit hc (show '\t'.isDigit = false from rfl)]
  read _ rest hfuel := readValue_digits (Nat.lt_of_succ_lt hfuel) hn rest

theorem denotes_text (s : String) : Denotes (writeText s.toList) (.str s) where
  head := by
    obtain ⟨c, more, hwritten, hc⟩ := exists_cons_writeText s.toList
    rw [hwritten]
    rintro d ⟨⟩
    rcases hc with rfl | rfl <;> rfl
  read _ rest hfuel := by
    rw [readValue_text (Nat.lt_of_succ_lt hfuel), String.ofList_toList]

theorem denotes_noItems : Denotes ['[', ']'] (.arr []) where
  head := by
    rintro c ⟨⟩
    rfl
  read _ rest hfuel := readValue_noItems hfuel rest

/-! ## Statements -/

/-- Whether a text is a name that needs no quotes. -/
def IsBareName (cs : List Char) : Prop :=
  cs ≠ [] ∧ ∀ c ∈ cs, isBareChar c

instance (cs : List Char) : Decidable (IsBareName cs) :=
  decidable_of_iff (cs.isEmpty = false ∧ cs.all isBareChar = true)
    (and_congr List.isEmpty_eq_false_iff List.all_eq_true)

theorem skipSpaces_of_head {cs : List Char} (h : ∀ c ∈ cs.head?, isSpace c = false) :
    skipSpaces cs = cs := by
  cases cs with
  | nil => rfl
  | cons c cs => rw [skipSpaces, List.dropWhile_cons, h c rfl, if_neg Bool.false_ne_true]

/-- A name ends before a character that no such name has. -/
theorem readName_append {name : List Char} (hname : IsBareName name) {rest : List Char}
    (hrest : ∀ c ∈ rest.head?, isBareChar c = false)
    (hdot : ∀ more, skipSpaces rest ≠ '.' :: more) :
    readName maxDepth (name ++ rest) = some ([String.ofList name], skipSpaces rest) := by
  obtain ⟨hne, hbare⟩ := hname
  cases name with
  | nil => exact absurd rfl hne
  | cons c cs =>
    have hc := hbare c List.mem_cons_self
    have hhead (d : Char) (hd : isBareChar d = false) : c ≠ d := by
      rintro rfl
      rw [hc] at hd
      cases hd
    have htake : (c :: cs ++ rest).takeWhile isBareChar = c :: cs := by
      rw [List.takeWhile_append_of_pos hbare]
      cases rest with
      | nil => simp
      | cons d ds => simp [hrest d rfl]
    have hdrop : (c :: cs ++ rest).dropWhile isBareChar = rest := by
      rw [List.dropWhile_append_of_pos hbare]
      cases rest with
      | nil => simp
      | cons d ds => simp [hrest d rfl]
    have hspaces : skipSpaces (c :: cs ++ rest) = c :: cs ++ rest := by
      apply skipSpaces_of_head
      rintro d ⟨⟩
      simp [isSpace, hhead ' ' rfl, hhead '\t' rfl]
    have hpart : readNamePart (c :: cs ++ rest) = some (String.ofList (c :: cs), rest) := by
      rw [List.cons_append] at htake hdrop ⊢
      rw [readNamePart, htake, hdrop]
      · exact fun _ heq => hhead '"' rfl (List.cons.inj heq).1
      · exact fun _ heq => hhead '\x27' rfl (List.cons.inj heq).1
    rw [maxDepth, readName, hspaces, hpart, Option.bind_eq_bind, Option.bind_some]
    -- by `hdot` there is no further part
    simp only

theorem readStatement_assign {name value : List Char} {v : Value} (hname : IsBareName name)
    (hvalue : Denotes value v) (rest : List Char) :
    readStatement (name ++ ' ' :: '=' :: ' ' :: (value ++ '\n' :: rest))
      = some (.assign [String.ofList name] v, rest) := by
  have hread : readName maxDepth (name ++ ' ' :: '=' :: ' ' :: (value ++ '\n' :: rest))
      = some ([String.ofList name], '=' :: ' ' :: (value ++ '\n' :: rest)) :=
    readName_append hname (by rintro c ⟨⟩; rfl) (by rintro more ⟨⟩)
  have hfuel : 1 < (name ++ ' ' :: '=' :: ' ' :: (value ++ '\n' :: rest)).length := by
    simp only [List.length_append, List.length_cons]
    omega
  have hspaces : skipSpaces (' ' :: (value ++ '\n' :: rest)) = value ++ '\n' :: rest := by
    show skipSpaces (value ++ '\n' :: rest) = _
    apply skipSpaces_of_head
    have hhead := hvalue.head
    cases value with
    | nil => rintro d ⟨⟩; rfl
    | cons d ds => exact hhead
  have hdone : finishLine ('\n' :: rest) = some rest := rfl
  obtain ⟨hne, hbare⟩ := hname
  cases name with
  | nil => exact absurd rfl hne
  | cons c cs =>
    have hc : c ≠ '[' := by
      rintro rfl
      exact absurd (hbare '[' List.mem_cons_self) (by decide)
    rw [List.cons_append] at hread hfuel ⊢
    rw [readStatement, hread]
    · show ((readValue _ maxDepth (skipSpaces (' ' :: (value ++ '\n' :: rest)))).bind fun x =>
          (finishLine x.2).bind fun rest =>
            some (Statement.assign [String.ofList (c :: cs)] x.1, rest)) = _
      rw [hspaces, hvalue.read _ _ hfuel]
      rfl
    · exact fun _ heq => hc (List.cons.inj heq).1
    · exact fun _ heq => hc (List.cons.inj heq).1

theorem readStatement_arrayHeader {name : List Char} (hname : IsBareName name) (rest : List Char) :
    readStatement ('[' :: '[' :: (name ++ ']' :: ']' :: '\n' :: rest))
      = some (.arrayHeader [String.ofList name], rest) := by
  have hread : readName maxDepth (name ++ ']' :: ']' :: '\n' :: rest)
      = some ([String.ofList name], ']' :: ']' :: '\n' :: rest) :=
    readName_append hname (by rintro c ⟨⟩; rfl) (by rintro more ⟨⟩)
  rw [readStatement, hread]
  rfl

/-! ## Documents -/

/-- Whether a text is read as one statement, blank lines before it aside. -/
structure Writes (s : Statement) (chunk : List Char) : Prop where
  ne_nil : chunk ≠ []
  read : ∀ rest, ∃ c cs, skipFiller false (chunk ++ rest) = some (c :: cs)
    ∧ readStatement (c :: cs) = some (s, rest)

theorem skipFiller_of_isBareChar {c : Char} (hc : isBareChar c) (cs : List Char) :
    skipFiller false (c :: cs) = some (c :: cs) := by
  have hne (d : Char) (hd : isBareChar d = false) : c ≠ d := by
    rintro rfl
    rw [hc] at hd
    cases hd
  rw [skipFiller]
  · simp [isSpace, hne ' ' rfl, hne '\t' rfl, hne '#' rfl]
  · exact hne '\n' rfl
  · exact fun _ heq => absurd heq (hne '\r' rfl)

theorem writes_assign {name value : List Char} {v : Value} (hname : IsBareName name)
    (hvalue : Denotes value v) :
    Writes (.assign [String.ofList name] v) (name ++ ' ' :: '=' :: ' ' :: (value ++ ['\n'])) where
  ne_nil := by simp
  read rest := by
    have hread := readStatement_assign hname hvalue rest
    obtain ⟨hne, hbare⟩ := hname
    cases name with
    | nil => exact absurd rfl hne
    | cons c cs =>
      refine ⟨c, cs ++ ' ' :: '=' :: ' ' :: (value ++ '\n' :: rest), ?_, hread⟩
      rw [← skipFiller_of_isBareChar (hbare c List.mem_cons_self)]
      simp

theorem writes_arrayHeader {name : List Char} (hname : IsBareName name) :
    Writes (.arrayHeader [String.ofList name])
      ('\n' :: '[' :: '[' :: (name ++ [']', ']', '\n'])) where
  ne_nil := List.cons_ne_nil _ _
  read rest := by
    refine ⟨'[', '[' :: (name ++ ']' :: ']' :: '\n' :: rest), ?_, readStatement_arrayHeader hname rest⟩
    simp [skipFiller, isSpace]

/-- **A document is read as the statements of its parts.** -/
theorem readStatements_chunks {parts : List (Statement × List Char)} (h : ∀ p ∈ parts, Writes p.1 p.2)
    {fuel : Nat} (hfuel : parts.length ≤ fuel) (acc : List Statement) :
    readStatements fuel acc (parts.flatMap (·.2)) = some (acc.reverse ++ parts.map (·.1)) := by
  induction parts generalizing fuel acc with
  | nil =>
    rw [readStatements.eq_def]
    simp [skipFiller]
  | cons p parts ih =>
    obtain ⟨hp, hparts⟩ := List.forall_mem_cons.mp h
    obtain ⟨c, cs, hskip, hread⟩ := hp.read (parts.flatMap (·.2))
    obtain ⟨fuel, rfl⟩ := Nat.exists_eq_add_of_le' hfuel
    rw [List.flatMap_cons, readStatements, hskip]
    show (readStatement (c :: cs)).bind _ = _
    rw [hread]
    have hrest := ih hparts (Nat.le_add_left parts.length fuel) (p.1 :: acc)
    exact hrest.trans (by simp)

theorem length_le_of_writes {parts : List (Statement × List Char)} (h : ∀ p ∈ parts, Writes p.1 p.2) :
    parts.length ≤ (parts.flatMap (·.2)).length := by
  induction parts with
  | nil => exact Nat.le_refl 0
  | cons p parts ih =>
    obtain ⟨hp, hparts⟩ := List.forall_mem_cons.mp h
    have hpos := List.length_pos_iff.mpr hp.ne_nil
    have hrest := ih hparts
    rw [List.flatMap_cons, List.length_append, List.length_cons]
    omega

/-- A document has no byte order mark if its first character is none. -/
theorem statements?_chunks {parts : List (Statement × List Char)} (h : ∀ p ∈ parts, Writes p.1 p.2)
    (hmark : ∀ c ∈ (parts.flatMap (·.2)).head?, c ≠ '\uFEFF') :
    statements? (String.ofList (parts.flatMap (·.2))) = some (parts.map (·.1)) := by
  have hread := readStatements_chunks h (length_le_of_writes h) []
  rw [statements?, String.toList_ofList]
  split
  · rename_i heq
    exact absurd rfl (hmark '\uFEFF' (by rw [heq]; rfl))
  · simpa using hread

end FleetHealth.Toml
