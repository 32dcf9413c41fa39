import FleetHealth.Proofs.Json.Grammar
/-!
# Scanning what is spelled

Every spelling of a word is scanned as that word, whatever follows it. Only a number has to be told from
its sequel, and only its end matters there.

* `readString_spelled` — a text between quotes, escapes included.
* `readNumber_spelled` — a number, with or without fraction and exponent.
* `Token.scanFrom_spelled` — any word.
-/

namespace FleetHealth.Json

/-! ## Texts -/

theorem readString_piece {p : Piece} {cs : List Char} (h : p.Spelled cs) (acc : List Piece)
    (rest : List Char) : readString acc (cs ++ rest) = readString (p :: acc) rest := by
  cases h with
  | plain hquote hslash hcontrol =>
    rw [List.singleton_append, readString.eq_def]
    split <;> grind
  | @escape e c h =>
    -- the letter of an escape with digits is no escape by itself
    have hu : e ≠ 'u' := by rintro rfl; cases h
    simp only [List.cons_append, List.nil_append]
    rw [readString.eq_def]
    split <;> grind
  | unit ha hb hc hd => simp only [List.cons_append, List.nil_append, readString, ha, hb, hc, hd]

theorem readString_pieces {ps : List Piece} {body : List Char} (h : SpellsPieces ps body)
    (acc : List Piece) (rest : List Char) :
    readString acc (body ++ rest) = readString (ps.reverse ++ acc) rest := by
  induction h generalizing acc with
  | nil => rfl
  | cons hp _ ih =>
    rw [List.append_assoc, readString_piece hp, ih]
    simp

/-- A text is read up to its closing quote. -/
theorem readString_spelled {ps : List Piece} {body : List Char} (h : SpellsPieces ps body)
    (rest : List Char) : readString [] (body ++ '"' :: rest) = some (ps, rest) := by
  rw [readString_pieces h, readString]
  simp

/-! ## Numbers -/

/-- Whether a run of digits that was just read cannot go on with `cs`. -/
def EndsRun (cs : List Char) : Prop :=
  ∀ c ∈ cs.head?, c.isDigit = false

/-- Whether a number that was just read cannot go on with `cs`. -/
def EndsNumber (cs : List Char) : Prop :=
  ∀ c ∈ cs.head?, c.isDigit = false ∧ c ≠ '.' ∧ c ≠ 'e' ∧ c ≠ 'E'

theorem EndsNumber.endsRun {cs : List Char} (h : EndsNumber cs) : EndsRun cs :=
  fun c hc => (h c hc).1

theorem readDigits_append {run rest : List Char} (hrun : IsRun run) (hrest : EndsRun rest) :
    readDigits (run ++ rest) = some (run, rest) := by
  have htake : (run ++ rest).takeWhile Char.isDigit = run := by
    rw [List.takeWhile_append_of_pos hrun.isDigit]
    cases rest with
    | nil => simp
    | cons c cs => simp [hrest c rfl]
  have hdrop : (run ++ rest).dropWhile Char.isDigit = rest := by
    rw [List.dropWhile_append_of_pos hrun.isDigit]
    cases rest with
    | nil => simp
    | cons c cs => simp [hrest c rfl]
  rw [readDigits, htake, hdrop]
  cases run with
  | nil => exact absurd rfl hrun.ne_nil
  | cons c cs => rfl

theorem isDigit_of_mem_digits {n : Nat} {c : Char} (h : c ∈ Text.digits n) : c.isDigit :=
  Nat.isDigit_of_mem_toDigits (by decide) (by decide) h

theorem isRun_digits (n : Nat) : IsRun (Text.digits n) :=
  ⟨by simp [Text.digits], fun _ => isDigit_of_mem_digits⟩

/-- Only zero is written with a leading zero. -/
theorem eq_zero_of_head?_toDigits {n : Nat} (h : (Nat.toDigits 10 n).head? = some '0') : n = 0 := by
  induction n using Nat.strongRecOn with
  | ind n ih =>
    by_cases hn : n < 10
    · rw [Nat.toDigits_of_lt_base hn] at h
      have hdigit : ∀ d, d < 10 → [d.digitChar].head? = some '0' → d = 0 := by decide
      exact hdigit n hn h
    · -- a longer number begins like the number without its last digit
      rw [Nat.toDigits_of_base_le (by decide) (by omega), List.head?_append] at h
      have hhead : (Nat.toDigits 10 (n / 10)).head? = some '0' := by
        cases hcs : Nat.toDigits 10 (n / 10) with
        | nil => exact absurd hcs (by simp)
        | cons c cs => simpa [hcs] using h
      have := ih (n / 10) (by omega) hhead
      omega

theorem readWhole_digits (n : Nat) {rest : List Char} (hrest : EndsRun rest) :
    readWhole (Text.digits n ++ rest) = some (n, rest) := by
  rw [readWhole, readDigits_append (isRun_digits n) hrest]
  have hzero : ¬((Text.digits n).head? = some '0' ∧ (Text.digits n).length ≠ 1) := by
    rintro ⟨hhead, hlength⟩
    rw [eq_zero_of_head?_toDigits hhead] at hlength
    exact hlength rfl
  simp only [if_neg hzero]
  rw [Text.digits, Nat.ofDigitChars_ten_toDigits]

theorem readFraction_append {fraction rest : List Char} (h : IsFraction fraction)
    (hrest : EndsRun rest) (hpoint : rest.head? ≠ some '.') :
    readFraction (fraction ++ rest) = some (!fraction.isEmpty, rest) := by
  cases h with
  | none =>
    rw [List.nil_append]
    unfold readFraction
    split
    · exact absurd rfl hpoint
    · rfl
  | point hrun =>
    rw [List.cons_append, readFraction, readDigits_append hrun hrest]
    rfl

theorem readExponent_append {exponent rest : List Char} (h : IsExponent exponent)
    (hrest : EndsNumber rest) :
    readExponent (exponent ++ rest) = some (!exponent.isEmpty, rest) := by
  cases h with
  | none =>
    rw [List.nil_append]
    unfold readExponent
    split
    · have := hrest _ rfl
      simp [this.2.2.1, this.2.2.2]
    · have := hrest _ rfl
      simp [this.2.2.1, this.2.2.2]
    · rfl
  | @bare e run he hrun =>
    cases run with
    | nil => exact absurd rfl hrun.ne_nil
    | cons c cs =>
      have hc : c.isDigit := hrun.isDigit c List.mem_cons_self
      have hsign : ¬(c = '+' ∨ c = '-') := by rintro (rfl | rfl) <;> exact absurd hc (by decide)
      have hdigits := readDigits_append hrun hrest.endsRun
      rw [List.cons_append] at hdigits
      simp only [List.cons_append, readExponent, if_pos he, if_neg hsign, hdigits]
      rfl
  | signed he hsign hrun =>
    simp only [List.cons_append, readExponent, if_pos he, if_pos hsign,
      readDigits_append hrun hrest.endsRun]
    rfl

theorem endsRun_exponent {exponent rest : List Char} (h : IsExponent exponent)
    (hrest : EndsNumber rest) :
    EndsRun (exponent ++ rest) ∧ (exponent ++ rest).head? ≠ some '.' := by
  cases h with
  | none => exact ⟨hrest.endsRun, fun h => (hrest '.' h).2.1 rfl⟩
  | bare he _ =>
    rcases he with rfl | rfl
    all_goals exact ⟨by rintro c ⟨⟩; decide, by simp⟩
  | signed he _ _ =>
    rcases he with rfl | rfl
    all_goals exact ⟨by rintro c ⟨⟩; decide, by simp⟩

theorem endsRun_fraction {fraction rest : List Char} (h : IsFraction fraction)
    (hrest : EndsRun rest) : EndsRun (fraction ++ rest) := by
  cases h with
  | none => exact hrest
  | point _ => rintro c ⟨⟩; decide

theorem digits_head?_ne_minus (n : Nat) (rest : List Char) :
    ((Text.digits n ++ rest).head? == some '-') = false := by
  cases h : Text.digits n with
  | nil => simp [Text.digits] at h
  | cons c cs =>
    have : c.isDigit := isDigit_of_mem_digits (by rw [h]; exact List.mem_cons_self)
    have hne : c ≠ '-' := by rintro rfl; exact absurd this (by decide)
    simpa using hne

/-- A number is read to its end, part by part. -/
theorem readNumber_append (negative : Bool) (whole : Nat) {fraction exponent rest : List Char}
    (hfraction : IsFraction fraction) (hexponent : IsExponent exponent) (hrest : EndsNumber rest) :
    let cs := (if negative then ['-'] else []) ++ (Text.digits whole ++ (fraction ++ exponent))
    readNumber (cs ++ rest)
      = some (numberToken (cs ++ rest) rest negative (!fraction.isEmpty || !exponent.isEmpty) whole,
          rest) := by
  intro cs
  obtain ⟨hrun, hpoint⟩ := endsRun_exponent hexponent hrest
  have hwhole := readWhole_digits whole (endsRun_fraction hfraction hrun)
  have hcs : cs ++ rest = (if negative then ['-'] else []) ++
      (Text.digits whole ++ (fraction ++ (exponent ++ rest))) := by simp [cs]
  have hnegative : ((cs ++ rest).head? == some '-') = negative := by
    rw [hcs]
    cases negative with
    | true => rfl
    | false => exact digits_head?_ne_minus whole _
  have htail : (if negative then (cs ++ rest).tail else cs ++ rest)
      = Text.digits whole ++ (fraction ++ (exponent ++ rest)) := by
    rw [hcs]
    cases negative <;> rfl
  simp only [readNumber, hnegative, htail, hwhole, readFraction_append hfraction hrun hpoint,
    readExponent_append hexponent hrest, Option.bind_eq_bind, Option.bind_some]

/-! ## Words -/

/-- Whether a word is a number, so that it has to be told from what follows it. -/
def Token.IsNumber : Token → Prop
  | .int _ => True
  | .real _ => True
  | _ => False

theorem signedDigits_eq (n : Int) :
    Text.signedDigits n
      = (if decide (n < 0) then ['-'] else []) ++ (Text.digits n.natAbs ++ ([] ++ [])) := by
  by_cases hn : n < 0 <;> simp [Text.signedDigits, hn]

theorem readNumber_spelled {t : Token} {cs : List Char} (ht : t.IsNumber) (h : t.Spelled cs)
    {rest : List Char} (hrest : EndsNumber rest) : readNumber (cs ++ rest) = some (t, rest) := by
  cases t with
  | int n =>
    cases h
    rw [Token.write, signedDigits_eq, readNumber_append _ _ .none .none hrest, numberToken]
    by_cases hn : n < 0
    · have hzero : n.natAbs ≠ 0 := by omega
      have hvalue : -(n.natAbs : Int) = n := by omega
      rw [hvalue]
      simp [hn, hzero]
    · have hvalue : (n.natAbs : Int) = n := by omega
      rw [hvalue]
      simp [hn]
  | real literal =>
    obtain ⟨hreal, rfl⟩ := h
    cases hreal with
    | mk negative whole hfraction hexponent h =>
      rw [readNumber_append negative whole hfraction hexponent hrest, numberToken, if_pos]
      · rw [List.length_append, Nat.add_sub_cancel, List.take_left]
      · grind
  | _ => exact absurd ht id

theorem head_of_isNumber {t : Token} {cs : List Char} (ht : t.IsNumber) (h : t.Spelled cs) :
    ∃ c rest, cs = c :: rest ∧ (c = '-' ∨ c.isDigit) := by
  have hdigits : ∀ n more, ∃ c rest, Text.digits n ++ more = c :: rest ∧ (c = '-' ∨ c.isDigit) := by
    intro n more
    cases hcs : Text.digits n with
    | nil => simp [Text.digits] at hcs
    | cons c cs => exact ⟨c, _, rfl, .inr (isDigit_of_mem_digits (hcs ▸ List.mem_cons_self))⟩
  have hsigned : ∀ (negative : Bool) n more, ∃ c rest,
      (if negative then ['-'] else []) ++ (Text.digits n ++ more) = c :: rest
        ∧ (c = '-' ∨ c.isDigit) := by
    intro negative n more
    cases negative with
    | true => exact ⟨_, _, rfl, .inl rfl⟩
    | false => exact hdigits n more
  cases t with
  | int n => cases h; rw [Token.write, signedDigits_eq]; exact hsigned _ _ _
  | real literal =>
    obtain ⟨hreal, -⟩ := h
    cases hreal
    exact hsigned _ _ _
  | _ => exact absurd ht id

/-- A number is scanned as it is read: nothing else begins like one. -/
theorem Token.scanFrom_of_readNumber (acc : List Token) {t : Token} {c : Char} {cs rest : List Char}
    (hc : c = '-' ∨ c.isDigit) (h : readNumber (c :: cs) = some (t, rest)) :
    Token.scanFrom acc (c :: cs) = Token.scanFrom (t :: acc) rest := by
  rw [Token.scanFrom.eq_def]
  split
  case h_1 heq => cases heq
  case h_16 heq =>
    cases heq
    split
    · rename_i hread
      rw [h] at hread
      cases hread
      rfl
    · rename_i hread
      rw [h] at hread
      cases hread
  -- every other rule asks for a first character that no number has
  all_goals
    rename_i heq
    injection heq with heq _
    subst heq
    exact absurd hc (by decide)

/-- A text is scanned as it is read. -/
theorem Token.scanFrom_of_readString (acc : List Token) {pieces : List Piece} {cs rest : List Char}
    (h : readString [] cs = some (pieces, rest)) :
    Token.scanFrom acc ('"' :: cs) = Token.scanFrom (.str (textOf pieces) :: acc) rest := by
  rw [Token.scanFrom]
  split
  · rename_i hagain
    rw [h] at hagain
    cases hagain
    rfl
  · rename_i hagain
    rw [h] at hagain
    cases hagain

/-- **A spelled word is scanned**, provided that a number ends where its spelling does. -/
theorem Token.scanFrom_spelled (acc : List Token) {t : Token} {cs rest : List Char}
    (h : t.Spelled cs) (hrest : t.IsNumber → EndsNumber rest) :
    Token.scanFrom acc (cs ++ rest) = Token.scanFrom (t :: acc) rest := by
  by_cases ht : t.IsNumber
  · obtain ⟨c, more, rfl, hc⟩ := head_of_isNumber ht h
    exact scanFrom_of_readNumber acc hc (readNumber_spelled ht h (hrest ht))
  cases t with
  | str text =>
    cases h with
    | quoted hps =>
      simp only [List.cons_append, List.append_assoc, List.nil_append]
      exact scanFrom_of_readString acc (readString_spelled hps rest)
  | int n => exact absurd trivial ht
  | real literal => exact absurd trivial ht
  | bool b =>
    cases h
    cases b <;> simp only [Token.write, List.cons_append, List.nil_append] <;> rw [Token.scanFrom]
  | _ =>
    cases h
    simp only [Token.write, List.cons_append, List.nil_append]
    rw [Token.scanFrom]

end FleetHealth.Json
