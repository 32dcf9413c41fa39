import FleetHealth.Toml.Printer
/-!
# Reading texts that were written

A text is read back whichever form it was written in, as long as no quote comes right after it.

* `readBasic_writeEscaped`, `readBasicLines_writeEscaped` — the forms with escapes, for any text.
* `readLiteral_append`, `readLiteralLines_append` — the forms without, for texts that fit them.
* `readText_writeText` — the form that the writer picks.
-/

namespace FleetHealth.Toml

/-! ## Spellings of a character -/

/-- How a character may be spelled in a form with escapes. -/
inductive Spelling (lines : Bool) (c : Char) : List Char → Prop
  /-- By a backslash and a letter. -/
  | letter {e : Char} : escaped? e = some c → Spelling lines c ['\\', e]
  /-- By its code point. -/
  | point {h i j k : Char} : codePoint? [h, i, j, k] = some c → Spelling lines c ['\\', 'u', h, i, j, k]
  /-- By itself. -/
  | plain : c ≠ '"' → c ≠ '\\' → (isPlain c ∨ lines ∧ c = '\n') → Spelling lines c [c]

theorem hexValue?_capitalHexDigit : ∀ n, n < 16 → Json.hexValue? (capitalHexDigit n) = some n := by
  decide

theorem codePoint?_capitalHexDigit {c : Char} (h : c.toNat < 256) :
    codePoint? ['0', '0', capitalHexDigit (c.toNat / 16), capitalHexDigit (c.toNat % 16)] = some c := by
  have hzero : Json.hexValue? '0' = some 0 := rfl
  have hhigh := hexValue?_capitalHexDigit (c.toNat / 16) (by omega)
  have hlow := hexValue?_capitalHexDigit (c.toNat % 16) (by omega)
  have hrun : hexRun? ['0', '0', capitalHexDigit (c.toNat / 16), capitalHexDigit (c.toNat % 16)]
      = some c.toNat := by
    simp only [hexRun?, List.foldlM_cons, List.foldlM_nil, hzero, hhigh, hlow, Option.map_some,
      Option.bind_eq_bind, Option.bind_some, Option.pure_def]
    congr 1
    omega
  have hvalid : c.toNat.isValidChar := c.valid
  rw [codePoint?, hrun]
  simp [hvalid, Char.ofNat_toNat]

theorem isPlain_of_not_isControl {c : Char} (h : isControl c = false) (hnewline : c ≠ '\n') :
    isPlain c := by
  simp only [isControl, Bool.or_eq_false_iff, Bool.and_eq_false_iff, decide_eq_false_iff_not,
    Decidable.not_not] at h
  simp only [isPlain, Bool.or_eq_true, Bool.and_eq_true, decide_eq_true_eq]
  rcases h.1 with (hlow | htab) | hline
  · exact .inr ⟨by omega, h.2⟩
  · exact .inl htab
  · exact absurd hline hnewline

theorem spelling_of_escape? {lines : Bool} {c : Char} {spelling : List Char}
    (h : escape? lines c = some spelling) : Spelling lines c spelling := by
  unfold escape? at h
  -- the characters with a letter of their own, and the line feed, which has none on several lines
  split at h
  · cases h; subst_vars; exact .letter rfl
  split at h
  · cases h; subst_vars; exact .letter rfl
  split at h
  · split at h
    · cases h
    · cases h; subst_vars; exact .letter rfl
  split at h
  · cases h; subst_vars; exact .letter rfl
  split at h
  · cases h; subst_vars; exact .letter rfl
  split at h
  · cases h; subst_vars; exact .letter rfl
  split at h
  · rename_i hcontrol
    cases h
    refine .point (codePoint?_capitalHexDigit ?_)
    simp only [isControl, Bool.or_eq_true, Bool.and_eq_true, decide_eq_true_eq] at hcontrol
    omega
  · cases h

theorem spelling_of_escape?_eq_none {lines : Bool} {c : Char} (hquote : c ≠ '"')
    (h : escape? lines c = none) : Spelling lines c [c] := by
  refine .plain hquote ?_ ?_
  · rintro rfl
    cases h
  · by_cases hnewline : c = '\n'
    · subst hnewline
      cases lines with
      | false => cases h
      | true => exact .inr ⟨rfl, rfl⟩
    · refine .inl (isPlain_of_not_isControl (Bool.eq_false_iff.mpr fun hcontrol => ?_) hnewline)
      simp only [escape?, hcontrol, if_true] at h
      grind

/-- What is written for a character: a quote as it is, if there may be one, or else a spelling. -/
theorem writeEscaped_cons (lines : Bool) (quotes : Nat) (c : Char) (cs : List Char) :
    (c = '"' ∧ lines ∧ quotes < 2
        ∧ writeEscaped lines quotes (c :: cs) = '"' :: writeEscaped lines (quotes + 1) cs)
      ∨ ∃ spelling, Spelling lines c spelling
        ∧ writeEscaped lines quotes (c :: cs) = spelling ++ writeEscaped lines 0 cs := by
  rw [writeEscaped]
  by_cases hquote : c = '"'
  · rw [if_pos hquote]
    by_cases hroom : (lines && decide (quotes < 2)) = true
    · rw [if_pos hroom]
      simp only [Bool.and_eq_true, decide_eq_true_eq] at hroom
      exact .inl ⟨hquote, hroom.1, hroom.2, rfl⟩
    · rw [if_neg hroom, hquote]
      exact .inr ⟨_, .letter rfl, rfl⟩
  · rw [if_neg hquote]
    cases hescape : escape? lines c with
    | some spelling => exact .inr ⟨spelling, spelling_of_escape? hescape, rfl⟩
    | none => exact .inr ⟨[c], spelling_of_escape?_eq_none hquote hescape, rfl⟩

/-! ## Forms with escapes -/

/-- Whether no quote comes next. -/
def EndsText (cs : List Char) : Prop :=
  ∀ c ∈ cs.head?, c ≠ '"' ∧ c ≠ '\x27'

theorem Spelling.head_ne_quote {lines : Bool} {c : Char} {spelling : List Char}
    (h : Spelling lines c spelling) (rest : List Char) : ∀ d ∈ (spelling ++ rest).head?, d ≠ '"' := by
  cases h with
  | letter _ => rintro d ⟨⟩; decide
  | point _ => rintro d ⟨⟩; decide
  | plain hquote _ _ => rintro d ⟨⟩; exact hquote

/-! ### On one line -/

theorem readBasic_spelling {c : Char} {spelling : List Char} (h : Spelling false c spelling)
    (acc rest : List Char) : readBasic acc (spelling ++ rest) = readBasic (c :: acc) rest := by
  cases h with
  | letter hletter =>
    unfold escaped? at hletter
    split at hletter <;> cases hletter <;> rfl
  | point hpoint =>
    simp only [List.cons_append, List.nil_append]
    rw [readBasic, hpoint]
  | plain hquote hslash hplain =>
    rw [List.singleton_append, readBasic]
    · simp_all
    · exact hquote
    all_goals
      intros
      contradiction

theorem readBasic_writeEscaped (quotes : Nat) (cs acc rest : List Char) :
    readBasic acc (writeEscaped false quotes cs ++ '"' :: rest)
      = some (collected (cs.reverse ++ acc), rest) := by
  induction cs generalizing quotes acc with
  | nil => rfl
  | cons c cs ih =>
    rcases writeEscaped_cons false quotes c cs with ⟨-, hlines, -, -⟩ | ⟨spelling, hspelling, hwritten⟩
    · cases hlines
    · rw [hwritten, List.append_assoc, readBasic_spelling hspelling, ih]
      simp

/-! ### On several lines -/

theorem replicate_succ_append {α : Type} (n : Nat) (a : α) (as : List α) :
    List.replicate (n + 1) a ++ as = List.replicate n a ++ a :: as := by
  rw [List.replicate_succ', List.append_assoc, List.singleton_append]

theorem readBasicLines_spelling {c : Char} {spelling : List Char} (h : Spelling true c spelling)
    (acc rest : List Char) :
    readBasicLines false acc (spelling ++ rest) = readBasicLines false (c :: acc) rest := by
  cases h with
  | letter hletter =>
    unfold escaped? at hletter
    split at hletter <;> cases hletter <;> rfl
  | point hpoint =>
    simp only [List.cons_append, List.nil_append]
    rw [readBasicLines, hpoint]
  | plain hquote hslash hplain =>
    have hreturn : c ≠ '\r' := by
      rintro rfl
      simp [isPlain] at hplain
    rw [List.singleton_append, readBasicLines]
    · simp_all
    all_goals
      intros
      contradiction

/-- A quote stands for itself unless two more follow it. -/
theorem readBasicLines_quote {cs : List Char} (h : ∀ rest, cs ≠ '"' :: '"' :: rest) (acc : List Char) :
    readBasicLines false acc ('"' :: cs) = readBasicLines false ('"' :: acc) cs := by
  rw [readBasicLines]
  · simp [isPlain]
  all_goals
    intros
    subst_vars
    first | contradiction | exact h _ rfl

/-- So do up to two quotes before anything else. -/
theorem readBasicLines_replicate {quotes : Nat} (hquotes : quotes ≤ 2) {cs : List Char}
    (h : ∀ c ∈ cs.head?, c ≠ '"') (acc : List Char) :
    readBasicLines false acc (List.replicate quotes '"' ++ cs)
      = readBasicLines false (List.replicate quotes '"' ++ acc) cs := by
  have hcs : ∀ rest, cs ≠ '"' :: rest := by
    rintro rest rfl
    exact h '"' rfl rfl
  match quotes, hquotes with
  | 0, _ => rfl
  | 1, _ => exact readBasicLines_quote (fun rest => hcs _) acc
  | 2, _ =>
    have hfirst :
        readBasicLines false acc ('"' :: '"' :: cs) = readBasicLines false ('"' :: acc) ('"' :: cs) :=
      readBasicLines_quote (fun rest heq => hcs rest (List.cons.inj heq).2) acc
    exact hfirst.trans (readBasicLines_quote (fun rest => hcs _) _)

/-- Up to two quotes may stand before the closing ones. -/
theorem readBasicLines_close {quotes : Nat} (hquotes : quotes ≤ 2) {rest : List Char}
    (hrest : EndsText rest) (acc : List Char) :
    readBasicLines false acc (List.replicate quotes '"' ++ '"' :: '"' :: '"' :: rest)
      = some (collected (List.replicate quotes '"' ++ acc), rest) := by
  have hne : ∀ cs, rest ≠ '"' :: cs := by
    rintro cs rfl
    exact (hrest '"' rfl).1 rfl
  match quotes, hquotes with
  | 0, _ =>
    show readBasicLines false acc ('"' :: '"' :: '"' :: rest) = _
    rw [readBasicLines]
    · rfl
    all_goals
      intros
      subst_vars
      exact hne _ rfl
  | 1, _ =>
    show readBasicLines false acc ('"' :: '"' :: '"' :: '"' :: rest) = _
    rw [readBasicLines]
    · rfl
    all_goals
      intros
      subst_vars
      exact hne _ rfl
  | 2, _ => rfl

/-- **A text on several lines is read back.** The writer counts the quotes that it wrote without an
escape, and they are still before the reader. -/
theorem readBasicLines_writeEscaped {quotes : Nat} (hquotes : quotes ≤ 2) (cs acc : List Char)
    {rest : List Char} (hrest : EndsText rest) :
    readBasicLines false acc
        (List.replicate quotes '"' ++ (writeEscaped true quotes cs ++ '"' :: '"' :: '"' :: rest))
      = some (collected (cs.reverse ++ (List.replicate quotes '"' ++ acc)), rest) := by
  induction cs generalizing quotes acc with
  | nil => exact readBasicLines_close hquotes hrest acc
  | cons c cs ih =>
    rcases writeEscaped_cons true quotes c cs with
      ⟨rfl, -, hroom, hwritten⟩ | ⟨spelling, hspelling, hwritten⟩
    · have hnext := @ih (quotes + 1) (by omega) acc
      rw [hwritten, List.cons_append, ← replicate_succ_append, hnext]
      simp [List.replicate_succ]
    · rw [hwritten, List.append_assoc,
        readBasicLines_replicate hquotes (hspelling.head_ne_quote _), readBasicLines_spelling hspelling]
      have hnext := @ih 0 (by omega) (c :: (List.replicate quotes '"' ++ acc))
      simpa using hnext

/-! ## Forms without escapes -/

theorem readLiteral_append {cs : List Char} (hquote : '\x27' ∉ cs) (hplain : ∀ c ∈ cs, isPlain c)
    (acc rest : List Char) :
    readLiteral acc (cs ++ '\x27' :: rest) = some (collected (cs.reverse ++ acc), rest) := by
  induction cs generalizing acc with
  | nil => rfl
  | cons c cs ih =>
    rw [List.mem_cons, not_or] at hquote
    obtain ⟨hc, hcs⟩ := hquote
    obtain ⟨hplainc, hplaincs⟩ := List.forall_mem_cons.mp hplain
    rw [List.cons_append, readLiteral, if_pos hplainc, ih hcs hplaincs]
    · simp
    · exact Ne.symm hc

theorem readLiteralLines_plain {c : Char} (hquote : c ≠ '\x27') (hplain : isPlain c ∨ c = '\n')
    (acc rest : List Char) : readLiteralLines acc (c :: rest) = readLiteralLines (c :: acc) rest := by
  have hreturn : c ≠ '\r' := by
    rintro rfl
    simp [isPlain] at hplain
  rw [readLiteralLines]
  · simp [hplain]
  all_goals
    intros
    contradiction

theorem readLiteralLines_quote {cs : List Char} (h : ∀ rest, cs ≠ '\x27' :: '\x27' :: rest)
    (acc : List Char) :
    readLiteralLines acc ('\x27' :: cs) = readLiteralLines ('\x27' :: acc) cs := by
  rw [readLiteralLines]
  · simp [isPlain]
  all_goals
    intros
    subst_vars
    first | contradiction | exact h _ rfl

theorem readLiteralLines_replicate {quotes : Nat} (hquotes : quotes ≤ 2) {cs : List Char}
    (h : ∀ c ∈ cs.head?, c ≠ '\x27') (acc : List Char) :
    readLiteralLines acc (List.replicate quotes '\x27' ++ cs)
      = readLiteralLines (List.replicate quotes '\x27' ++ acc) cs := by
  have hcs : ∀ rest, cs ≠ '\x27' :: rest := by
    rintro rest rfl
    exact h '\x27' rfl rfl
  match quotes, hquotes with
  | 0, _ => rfl
  | 1, _ => exact readLiteralLines_quote (fun rest => hcs _) acc
  | 2, _ =>
    have hfirst :
        readLiteralLines acc ('\x27' :: '\x27' :: cs) = readLiteralLines ('\x27' :: acc) ('\x27' :: cs) :=
      readLiteralLines_quote (fun rest heq => hcs rest (List.cons.inj heq).2) acc
    exact hfirst.trans (readLiteralLines_quote (fun rest => hcs _) _)

theorem readLiteralLines_close {quotes : Nat} (hquotes : quotes ≤ 2) {rest : List Char}
    (hrest : EndsText rest) (acc : List Char) :
    readLiteralLines acc (List.replicate quotes '\x27' ++ '\x27' :: '\x27' :: '\x27' :: rest)
      = some (collected (List.replicate quotes '\x27' ++ acc), rest) := by
  have hne : ∀ cs, rest ≠ '\x27' :: cs := by
    rintro cs rfl
    exact (hrest '\x27' rfl).2 rfl
  match quotes, hquotes with
  | 0, _ =>
    show readLiteralLines acc ('\x27' :: '\x27' :: '\x27' :: rest) = _
    rw [readLiteralLines]
    · rfl
    all_goals
      intros
      subst_vars
      exact hne _ rfl
  | 1, _ =>
    show readLiteralLines acc ('\x27' :: '\x27' :: '\x27' :: '\x27' :: rest) = _
    rw [readLiteralLines]
    · rfl
    all_goals
      intros
      subst_vars
      exact hne _ rfl
  | 2, _ => rfl

theorem longestRun_cons_self (quote : Char) (current : Nat) (cs : List Char) :
    longestRun quote current (quote :: cs) = longestRun quote (current + 1) cs := by
  rw [longestRun, if_pos rfl]

theorem le_longestRun (quote : Char) (current : Nat) (cs : List Char) :
    current ≤ longestRun quote current cs := by
  induction cs generalizing current with
  | nil => exact Nat.le_refl current
  | cons c cs ih =>
    rw [longestRun]
    split
    · exact Nat.le_trans (Nat.le_succ current) (ih (current + 1))
    · exact Nat.le_max_left _ _

/-- **A text whose runs of quotes are short is read back as it stands.** -/
theorem readLiteralLines_append {quotes : Nat} {cs : List Char}
    (hruns : longestRun '\x27' quotes cs ≤ 2) (hplain : ∀ c ∈ cs, isPlain c ∨ c = '\n')
    (acc : List Char) {rest : List Char} (hrest : EndsText rest) :
    readLiteralLines acc (List.replicate quotes '\x27' ++ (cs ++ '\x27' :: '\x27' :: '\x27' :: rest))
      = some (collected (cs.reverse ++ (List.replicate quotes '\x27' ++ acc)), rest) := by
  have hquotes := Nat.le_trans (le_longestRun _ quotes cs) hruns
  induction cs generalizing quotes acc with
  | nil => exact readLiteralLines_close hquotes hrest acc
  | cons c cs ih =>
    obtain ⟨hplainc, hplaincs⟩ := List.forall_mem_cons.mp hplain
    by_cases hc : c = '\x27'
    · subst hc
      rw [longestRun_cons_self] at hruns
      have hnext := ih hruns hplaincs acc (Nat.le_trans (le_longestRun _ _ cs) hruns)
      rw [List.cons_append, ← replicate_succ_append, hnext]
      simp [List.replicate_succ]
    · rw [longestRun, if_neg hc] at hruns
      have hrun : longestRun '\x27' 0 cs ≤ 2 := Nat.le_trans (Nat.le_max_right _ _) hruns
      have hhead : ∀ d ∈ (c :: cs ++ '\x27' :: '\x27' :: '\x27' :: rest).head?, d ≠ '\x27' := by
        rintro d ⟨⟩
        exact hc
      have hnext := ih hrun hplaincs (c :: (List.replicate quotes '\x27' ++ acc)) (by omega)
      rw [readLiteralLines_replicate hquotes hhead, List.cons_append, readLiteralLines_plain hc hplainc]
      simpa using hnext

/-! ## The form of a text -/

theorem not_mem_of_longestRun_eq_zero {quote : Char} {cs : List Char}
    (h : longestRun quote 0 cs = 0) : quote ∉ cs := by
  induction cs with
  | nil => exact List.not_mem_nil
  | cons c cs ih =>
    rw [longestRun] at h
    split at h
    · have := le_longestRun quote (0 + 1) cs
      omega
    · rename_i hc
      rw [List.mem_cons, not_or]
      exact ⟨Ne.symm hc, ih (by omega)⟩

theorem dropLineEnd_cons {c : Char} (hline : c ≠ '\n') (hreturn : c ≠ '\r') (cs : List Char) :
    dropLineEnd (c :: cs) = c :: cs := by
  unfold dropLineEnd
  split
  · rename_i heq
    exact absurd (List.cons.inj heq).1 hline
  · rename_i heq
    exact absurd (List.cons.inj heq).1 hreturn
  · rfl

/-- What stands for itself in a form without escapes: anything but control characters. -/
theorem isPlain_of_any_isControl {cs : List Char} (h : cs.any isControl = false) :
    ∀ c ∈ cs, isPlain c ∨ c = '\n' := by
  intro c hc
  by_cases hnewline : c = '\n'
  · exact .inr hnewline
  · refine .inl (isPlain_of_not_isControl ?_ hnewline)
    exact Bool.eq_false_iff.mpr fun hcontrol =>
      Bool.eq_false_iff.mp h (List.any_eq_true.mpr ⟨c, hc, hcontrol⟩)

/-- A text without a line feed does not start with one when it is written on several lines. -/
theorem dropLineEnd_writeEscaped {cs : List Char} (h : cs.contains '\n' = false) (rest : List Char) :
    dropLineEnd (writeEscaped true 0 cs ++ '"' :: rest) = writeEscaped true 0 cs ++ '"' :: rest := by
  cases cs with
  | nil => rfl
  | cons c cs =>
    rcases writeEscaped_cons true 0 c cs with ⟨-, -, -, hwritten⟩ | ⟨spelling, hspelling, hwritten⟩
    · rw [hwritten]
      rfl
    · rw [hwritten]
      cases hspelling with
      | letter _ => rfl
      | point _ => rfl
      | plain _ _ hplain =>
        refine dropLineEnd_cons ?_ ?_ _
        · rintro rfl
          simp at h
        · rintro rfl
          simp [isPlain] at hplain

theorem dropLineEnd_literal {cs : List Char} (hplain : ∀ c ∈ cs, isPlain c ∨ c = '\n')
    (h : cs.contains '\n' = false) (rest : List Char) :
    dropLineEnd (cs ++ '\x27' :: rest) = cs ++ '\x27' :: rest := by
  cases cs with
  | nil => rfl
  | cons c cs =>
    refine dropLineEnd_cons ?_ ?_ _
    · rintro rfl
      simp at h
    · rintro rfl
      have := hplain '\r' List.mem_cons_self
      simp [isPlain] at this

/-! ### Each form -/

@[simp] theorem collected_reverse (cs : List Char) : collected cs.reverse = String.ofList cs := by
  rw [collected, List.reverse_reverse]

theorem readText_basic (cs : List Char) {rest : List Char} (hrest : EndsText rest) :
    readText ('"' :: (writeEscaped false 0 cs ++ '"' :: rest)) = some (String.ofList cs, rest) := by
  have hread := readBasic_writeEscaped 0 cs [] rest
  have hopen : ∀ more, writeEscaped false 0 cs ++ '"' :: rest ≠ '"' :: '"' :: more := by
    intro more heq
    cases cs with
    | nil =>
      obtain rfl := (List.cons.inj heq).2
      exact (hrest '"' rfl).1 rfl
    | cons c cs =>
      rcases writeEscaped_cons false 0 c cs with ⟨-, hlines, -, -⟩ | ⟨spelling, hspelling, hwritten⟩
      · cases hlines
      · rw [hwritten, List.append_assoc] at heq
        exact hspelling.head_ne_quote _ '"' (by rw [heq]; rfl) rfl
  rw [readText, hread]
  · simp
  · exact hopen

theorem readText_literal {cs : List Char} (hquote : '\x27' ∉ cs) (hplain : ∀ c ∈ cs, isPlain c)
    {rest : List Char} (hrest : EndsText rest) :
    readText ('\x27' :: (cs ++ '\x27' :: rest)) = some (String.ofList cs, rest) := by
  have hread := readLiteral_append hquote hplain [] rest
  have hopen : ∀ more, cs ++ '\x27' :: rest ≠ '\x27' :: '\x27' :: more := by
    intro more heq
    cases cs with
    | nil =>
      obtain rfl := (List.cons.inj heq).2
      exact (hrest '\x27' rfl).2 rfl
    | cons c cs => exact hquote ((List.cons.inj heq).1 ▸ List.mem_cons_self)
  rw [readText, hread]
  · simp
  · exact hopen

/-- The line feed after the opening quotes of a text that has one. -/
def firstLine (cs : List Char) : List Char :=
  if cs.contains '\n' then ['\n'] else []

theorem readText_basicLines (cs : List Char) {rest : List Char} (hrest : EndsText rest) :
    readText ('"' :: '"' :: '"' ::
        (firstLine cs ++ (writeEscaped true 0 cs ++ '"' :: '"' :: '"' :: rest)))
      = some (String.ofList cs, rest) := by
  have hread := readBasicLines_writeEscaped (Nat.zero_le 2) cs [] hrest
  have hbody : dropLineEnd (firstLine cs ++ (writeEscaped true 0 cs ++ '"' :: '"' :: '"' :: rest))
      = writeEscaped true 0 cs ++ '"' :: '"' :: '"' :: rest := by
    unfold firstLine
    split
    · rfl
    · rename_i hline
      exact dropLineEnd_writeEscaped (Bool.eq_false_iff.mpr hline) _
  rw [readText, hbody]
  simpa using hread

theorem readText_literalLines {cs : List Char} (hruns : longestRun '\x27' 0 cs ≤ 2)
    (hplain : ∀ c ∈ cs, isPlain c ∨ c = '\n') {rest : List Char} (hrest : EndsText rest) :
    readText ('\x27' :: '\x27' :: '\x27' ::
        (firstLine cs ++ (cs ++ '\x27' :: '\x27' :: '\x27' :: rest)))
      = some (String.ofList cs, rest) := by
  have hread := readLiteralLines_append hruns hplain [] hrest
  have hbody : dropLineEnd (firstLine cs ++ (cs ++ '\x27' :: '\x27' :: '\x27' :: rest))
      = cs ++ '\x27' :: '\x27' :: '\x27' :: rest := by
    unfold firstLine
    split
    · rfl
    · rename_i hline
      exact dropLineEnd_literal hplain (Bool.eq_false_iff.mpr hline) _
  rw [readText, hbody]
  simpa using hread

/-! ### The form that is picked -/

/-- When a text is written without escapes, it may be. -/
theorem textForm_cases (cs : List Char) :
    textForm cs = .basic ∨ textForm cs = .basicLines
      ∨ (textForm cs = .literal ∧ '\x27' ∉ cs ∧ ∀ c ∈ cs, isPlain c)
      ∨ textForm cs = .literalLines ∧ longestRun '\x27' 0 cs ≤ 2 ∧ ∀ c ∈ cs, isPlain c ∨ c = '\n' := by
  unfold textForm
  simp only
  split
  · exact .inl rfl
  split
  · rename_i hliteral
    simp only [Bool.and_eq_true, Bool.not_eq_true', decide_eq_true_eq] at hliteral
    obtain ⟨⟨hcontrol, hnewline⟩, hsingle⟩ := hliteral
    refine .inr (.inr (.inl ⟨rfl, not_mem_of_longestRun_eq_zero hsingle, fun c hc => ?_⟩))
    refine (isPlain_of_any_isControl hcontrol c hc).resolve_right ?_
    rintro rfl
    exact absurd (List.contains_iff_mem.mpr hc) (Bool.eq_false_iff.mp hnewline)
  split
  · exact .inr (.inl rfl)
  split
  · rename_i hliteral
    simp only [Bool.and_eq_true, Bool.not_eq_true', decide_eq_true_eq] at hliteral
    exact .inr (.inr (.inr ⟨rfl, hliteral.2, isPlain_of_any_isControl hliteral.1⟩))
  split
  · exact .inr (.inl rfl)
  · exact .inl rfl

/-- **Every text is read back as it was**, unless a quote comes right after it. -/
theorem readText_writeText (cs : List Char) {rest : List Char} (hrest : EndsText rest) :
    readText (writeText cs ++ rest) = some (String.ofList cs, rest) := by
  unfold writeText
  rcases textForm_cases cs with hform | hform | ⟨hform, hquote, hplain⟩ | ⟨hform, hruns, hplain⟩
  · simpa [hform] using readText_basic cs hrest
  · simpa [hform, firstLine] using readText_basicLines cs hrest
  · simpa [hform] using readText_literal hquote hplain hrest
  · simpa [hform, firstLine] using readText_literalLines hruns hplain hrest

end FleetHealth.Toml
