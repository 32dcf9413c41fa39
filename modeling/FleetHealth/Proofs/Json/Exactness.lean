import FleetHealth.Proofs.Json.RoundTrip
import Mathlib.Data.List.TakeWhile
/-!
# Nothing but the grammar

The parser takes nothing that the grammar does not spell. What the scanner consumes is a spelling of the
word that it hands on, and the state of the fold remembers the words that it was given, whichever value
they come to in the end.

* `Text.digits_ofDigitChars` — a run of digits without leading zeros is the one way to write its value.
* `layout_of_scanFrom` — a text that is scanned consists of its words and white space.
* `State.taken_of_step` — no word is forgotten.
* `parse_iff_spells` — the parser reads exactly the texts of the grammar.
-/

namespace FleetHealth

/-! ## Digits -/

namespace Text

/-- A digit is what is written for its value. -/
theorem digits_of_isDigit {c : Char} (hc : c.isDigit) :
    c.toNat - 48 < 10 ∧ digits (c.toNat - 48) = [c] := by
  have hcodes : ∀ n, n < 128 → (Char.ofNat n).isDigit →
      n - 48 < 10 ∧ digits (n - 48) = [Char.ofNat n] := by decide +kernel
  have hbound : c.toNat ≤ '9'.toNat := of_decide_eq_true (Bool.and_eq_true_iff.mp hc).2
  have := hcodes c.toNat (Nat.lt_of_le_of_lt hbound (by decide))
  rw [Char.ofNat_toNat] at this
  exact this hc

theorem digits_append {n : Nat} (hn : 0 < n) {cs : List Char} (hcs : ∀ c ∈ cs, c.isDigit) :
    digits n ++ cs = digits (Nat.ofDigitChars 10 cs n) := by
  induction cs generalizing n with
  | nil => simp
  | cons c cs ih =>
    rw [List.forall_mem_cons] at hcs
    obtain ⟨hten, hc⟩ := digits_of_isDigit hcs.1
    have hstep : digits n ++ [c] = digits (10 * n + (c.toNat - 48)) := by
      rw [← hc]
      exact Nat.toDigits_append_toDigits (by decide) hn hten
    rw [List.append_cons, hstep, ih (by omega) hcs.2]
    rfl

/-- A run of digits without leading zeros is the one way to write its value. -/
theorem digits_ofDigitChars {run : List Char} (hne : run ≠ []) (hrun : ∀ c ∈ run, c.isDigit)
    (hzero : ¬(run.head? = some '0' ∧ run.length ≠ 1)) :
    digits (Nat.ofDigitChars 10 run 0) = run := by
  cases run with
  | nil => exact absurd rfl hne
  | cons c cs =>
    rw [List.forall_mem_cons] at hrun
    obtain ⟨-, hc⟩ := digits_of_isDigit hrun.1
    rw [Nat.ofDigitChars_cons, Nat.mul_zero, Nat.zero_add]
    rcases Nat.eq_zero_or_pos (c.toNat - 48) with he | hpos
    · -- zero stands alone
      have hc0 : c = '0' := by
        rw [he] at hc
        exact (List.cons.inj hc).1.symm
      subst hc0
      obtain rfl : cs = [] := by simpa using hzero
      rfl
    · rw [show '0'.toNat = 48 from rfl, ← digits_append hpos hrun.2, hc]
      rfl

end Text

namespace Json

theorem isRun_of_readDigits {cs run rest : List Char} (h : readDigits cs = some (run, rest)) :
    IsRun run ∧ cs = run ++ rest := by
  unfold readDigits at h
  split at h
  · cases h
  · rename_i hne
    cases h
    refine ⟨⟨hne, fun _ => List.mem_takeWhile_imp⟩, ?_⟩
    exact List.takeWhile_append_dropWhile.symm

/-! ## Texts -/

theorem spellsPieces_of_readString {acc pieces : List Piece} {cs rest : List Char}
    (h : readString acc cs = some (pieces, rest)) :
    ∃ ps body, SpellsPieces ps body ∧ cs = body ++ '"' :: rest ∧ pieces = acc.reverse ++ ps := by
  fun_induction readString acc cs with
  | case1 => cases h
  | case2 acc rest =>
    cases h
    exact ⟨[], [], .nil, rfl, by simp⟩
  | case3 acc a b c d rest i hi j hj k hk l hl ih =>
    obtain ⟨ps, body, hps, rfl, rfl⟩ := ih h
    exact ⟨_, _, .cons (.unit ‹_› ‹_› ‹_› ‹_›) hps, rfl, by simp⟩
  | case4 => cases h
  | case5 acc e rest hu c hc ih =>
    obtain ⟨ps, body, hps, rfl, rfl⟩ := ih h
    exact ⟨_, _, .cons (.escape hc) hps, rfl, by simp⟩
  | case6 => cases h
  | case7 => cases h
  | case8 acc c rest hquote hunit hslash hcontrol ih =>
    obtain ⟨ps, body, hps, rfl, rfl⟩ := ih h
    -- a backslash would stand before the closing quote at the latest
    obtain ⟨e, more, hmore⟩ := List.exists_cons_of_ne_nil (l := body ++ '"' :: rest) (by simp)
    have hplain : Piece.Spelled (.char c) [c] :=
      .plain hquote (fun hc => hslash e more hc hmore) (Nat.le_of_not_lt hcontrol)
    exact ⟨_, _, .cons hplain hps, rfl, by simp⟩

/-! ## Numbers -/

theorem eq_append_of_readWhole {cs rest : List Char} {n : Nat} (h : readWhole cs = some (n, rest)) :
    cs = Text.digits n ++ rest := by
  unfold readWhole at h
  split at h
  · rename_i run rest' hdigits
    obtain ⟨hrun, rfl⟩ := isRun_of_readDigits hdigits
    split at h
    · cases h
    · rename_i hzero
      cases h
      rw [Text.digits_ofDigitChars hrun.ne_nil hrun.isDigit hzero]
  · cases h

theorem isFraction_of_readFraction {cs rest : List Char} {b : Bool}
    (h : readFraction cs = some (b, rest)) :
    ∃ fraction, IsFraction fraction ∧ cs = fraction ++ rest ∧ b = !fraction.isEmpty := by
  unfold readFraction at h
  split at h
  · obtain ⟨⟨run, rest'⟩, hdigits, he⟩ := Option.map_eq_some_iff.mp h
    obtain ⟨hrun, rfl⟩ := isRun_of_readDigits hdigits
    cases he
    exact ⟨_, .point hrun, rfl, rfl⟩
  · cases h
    exact ⟨[], .none, rfl, rfl⟩

theorem isExponent_of_readExponent {cs rest : List Char} {b : Bool}
    (h : readExponent cs = some (b, rest)) :
    ∃ exponent, IsExponent exponent ∧ cs = exponent ++ rest ∧ b = !exponent.isEmpty := by
  unfold readExponent at h
  split at h
  · split at h
    · rename_i e sign more he
      split at h
      · rename_i hsign
        obtain ⟨⟨run, rest'⟩, hdigits, hresult⟩ := Option.map_eq_some_iff.mp h
        obtain ⟨hrun, rfl⟩ := isRun_of_readDigits hdigits
        cases hresult
        exact ⟨_, .signed he hsign hrun, rfl, rfl⟩
      · obtain ⟨⟨run, rest'⟩, hdigits, hresult⟩ := Option.map_eq_some_iff.mp h
        obtain ⟨hrun, hmore⟩ := isRun_of_readDigits hdigits
        cases hresult
        exact ⟨_, .bare he hrun, congrArg (e :: ·) hmore, rfl⟩
    · cases h
      exact ⟨[], .none, rfl, rfl⟩
  · split at h
    · cases h
    · cases h
      exact ⟨[], .none, rfl, rfl⟩
  · cases h
    exact ⟨[], .none, rfl, rfl⟩

/-- The parts of a number spell the token that is made of it. -/
theorem spelled_numberToken {negative : Bool} {whole : Nat}
    {fraction exponent word cs rest : List Char} (hfraction : IsFraction fraction)
    (hexponent : IsExponent exponent)
    (hword : (if negative then ['-'] else []) ++ (Text.digits whole ++ (fraction ++ exponent)) = word)
    (hcs : cs = word ++ rest) :
    (numberToken cs rest negative (!fraction.isEmpty || !exponent.isEmpty) whole).Spelled word := by
  unfold numberToken
  split
  · rename_i hreal
    have htake : cs.take (cs.length - rest.length) = word := by
      rw [hcs, List.length_append, Nat.add_sub_cancel, List.take_left]
    rw [htake]
    exact ⟨hword ▸ .mk negative whole hfraction hexponent (by grind), rfl⟩
  · rename_i hinteger
    obtain ⟨rfl, rfl⟩ : fraction = [] ∧ exponent = [] := by grind
    subst hword
    cases negative with
    | true =>
      have hsign : (-(whole : Int)) < 0 := by grind
      show _ = Text.signedDigits (-(whole : Int))
      rw [signedDigits_eq, decide_eq_true hsign, Int.natAbs_neg, Int.natAbs_natCast]
    | false =>
      have hsign : ¬(whole : Int) < 0 := by omega
      show _ = Text.signedDigits (whole : Int)
      rw [signedDigits_eq, decide_eq_false hsign, Int.natAbs_natCast]

theorem spelled_of_readNumber {cs rest : List Char} {t : Token}
    (h : readNumber cs = some (t, rest)) : ∃ word, t.Spelled word ∧ cs = word ++ rest := by
  unfold readNumber at h
  obtain ⟨⟨whole, rest₁⟩, hwhole, h⟩ := Option.bind_eq_some_iff.mp h
  obtain ⟨⟨fractional, rest₂⟩, hfraction, h⟩ := Option.bind_eq_some_iff.mp h
  obtain ⟨⟨exponential, rest₃⟩, hexponent, h⟩ := Option.bind_eq_some_iff.mp h
  simp only [Option.some.injEq, Prod.mk.injEq] at h
  obtain ⟨rfl, rfl⟩ := h
  have hsign : cs = (if cs.head? == some '-' then ['-'] else []) ++
      (if cs.head? == some '-' then cs.tail else cs) := by
    cases cs with
    | nil => rfl
    | cons c cs => by_cases hc : c = '-' <;> simp [hc]
  obtain ⟨fraction, hisFraction, rfl, rfl⟩ := isFraction_of_readFraction hfraction
  obtain ⟨exponent, hisExponent, rfl, rfl⟩ := isExponent_of_readExponent hexponent
  have hcs : cs = (if cs.head? == some '-' then ['-'] else []) ++
      (Text.digits whole ++ (fraction ++ exponent)) ++ rest₃ := by
    rw [eq_append_of_readWhole hwhole] at hsign
    simpa only [List.append_assoc] using hsign
  exact ⟨_, spelled_numberToken hisFraction hisExponent rfl hcs, hcs⟩

/-! ## Words -/

theorem layout_word (word : List Char) {acc ts : List Token} {t : Token} {rest : List Char}
    (h : ∃ us, ts = (t :: acc).reverse ++ us ∧ Layout us rest) (ht : t.Spelled word) :
    ∃ us, ts = acc.reverse ++ us ∧ Layout us (word ++ rest) := by
  obtain ⟨us, rfl, hlayout⟩ := h
  exact ⟨t :: us, by simp, .word ht hlayout⟩

theorem layout_blank {acc ts : List Token} {c : Char} {rest : List Char} (hc : IsBlank c)
    (h : ∃ us, ts = acc.reverse ++ us ∧ Layout us rest) :
    ∃ us, ts = acc.reverse ++ us ∧ Layout us (c :: rest) := by
  obtain ⟨us, rfl, hlayout⟩ := h
  exact ⟨us, rfl, .blank hc hlayout⟩

/-- **A text that is scanned consists of its words and white space.** -/
theorem layout_of_scanFrom {acc ts : List Token} {cs : List Char}
    (h : Token.scanFrom acc cs = some ts) : ∃ us, ts = acc.reverse ++ us ∧ Layout us cs := by
  fun_induction Token.scanFrom acc cs with
  | case1 acc =>
    cases h
    exact ⟨[], by simp, .nil⟩
  | case2 acc rest ih => exact layout_blank (by simp [IsBlank]) (ih h)
  | case3 acc rest ih => exact layout_blank (by simp [IsBlank]) (ih h)
  | case4 acc rest ih => exact layout_blank (by simp [IsBlank]) (ih h)
  | case5 acc rest ih => exact layout_blank (by simp [IsBlank]) (ih h)
  | case6 acc rest ih => exact layout_word ['\x7b'] (ih h) rfl
  | case7 acc rest ih => exact layout_word ['\x7d'] (ih h) rfl
  | case8 acc rest ih => exact layout_word ['['] (ih h) rfl
  | case9 acc rest ih => exact layout_word [']'] (ih h) rfl
  | case10 acc rest ih => exact layout_word [':'] (ih h) rfl
  | case11 acc rest ih => exact layout_word [','] (ih h) rfl
  | case12 acc rest ih => exact layout_word ['n', 'u', 'l', 'l'] (ih h) rfl
  | case13 acc rest ih => exact layout_word ['t', 'r', 'u', 'e'] (ih h) rfl
  | case14 acc rest ih => exact layout_word ['f', 'a', 'l', 's', 'e'] (ih h) rfl
  | case15 acc rest pieces rest' hread _ ih =>
    obtain ⟨ps, body, hps, rfl, rfl⟩ := spellsPieces_of_readString hread
    have hword := layout_word ('"' :: (body ++ ['"'])) (ih h) (.quoted hps)
    simpa using hword
  | case16 => cases h
  | case17 acc c rest _ _ _ _ _ _ _ _ _ _ _ _ _ _ t rest' hread _ ih =>
    obtain ⟨word, hword, hrest⟩ := spelled_of_readNumber hread
    rw [hrest]
    exact layout_word word (ih h) hword
  | case18 => cases h

/-! ## The words of a state -/

/-- The words of items that more items follow. -/
def itemsBefore (items : List Json) : List Token :=
  items.flatMap fun v => tokens v ++ [.comma]

/-- The words of members that more members follow. -/
def membersBefore (members : List (Option String × Json)) : List Token :=
  members.flatMap fun m => .str m.1 :: .colon :: (tokens m.2 ++ [.comma])

/-- The words since an array or object was opened, up to where its next value belongs. -/
def Frame.taken : Frame → List Token
  | .item items => .arrOpen :: itemsBefore items.reverse
  | .member members name => .objOpen :: (membersBefore members.reverse ++ [.str name, .colon])

/-- The words of all that is open, innermost first. -/
def framesTaken : List Frame → List Token
  | [] => []
  | frame :: frames => framesTaken frames ++ frame.taken

/-- The words that led to a state. -/
def State.taken : State → List Token
  | .value _ frames => framesTaken frames
  | .label _ members frames => framesTaken frames ++ .objOpen :: membersBefore members.reverse
  | .colon members name frames =>
    framesTaken frames ++ .objOpen :: (membersBefore members.reverse ++ [.str name])
  | .afterItem items frames => framesTaken frames ++ .arrOpen :: itemTokens items.reverse
  | .afterMember members frames => framesTaken frames ++ .objOpen :: memberTokens members.reverse
  | .done v => tokens v

/-- Whether something stands before the place where only more or the end can come. -/
def State.IsFilled : State → Prop
  | .afterItem items _ => items ≠ []
  | .afterMember members _ => members ≠ []
  | _ => True

theorem itemTokens_append_singleton (items : List Json) (v : Json) :
    itemTokens (items ++ [v]) = itemsBefore items ++ tokens v := by
  induction items with
  | nil => rfl
  | cons w items ih =>
    have hmore : itemTokens (w :: (items ++ [v])) = tokens w ++ .comma :: itemTokens (items ++ [v]) := by
      cases items <;> rfl
    rw [List.cons_append, hmore, ih]
    simp [itemsBefore]

theorem memberTokens_append_singleton (members : List (Option String × Json))
    (m : Option String × Json) :
    memberTokens (members ++ [m])
      = membersBefore members ++ .str m.1 :: .colon :: tokens m.2 := by
  induction members with
  | nil => rfl
  | cons k members ih =>
    have hmore : memberTokens (k :: (members ++ [m]))
        = .str k.1 :: .colon :: (tokens k.2 ++ .comma :: memberTokens (members ++ [m])) := by
      cases members <;> rfl
    rw [List.cons_append, hmore, ih]
    simp [membersBefore]

theorem taken_deliver (v : Json) (frames : List Frame) :
    (deliver v frames).IsFilled ∧ (deliver v frames).taken = framesTaken frames ++ tokens v := by
  cases frames with
  | nil => exact ⟨trivial, rfl⟩
  | cons frame frames =>
    cases frame with
    | item items =>
      refine ⟨List.cons_ne_nil _ _, ?_⟩
      simp [deliver, State.taken, framesTaken, Frame.taken, itemTokens_append_singleton]
    | member members name =>
      refine ⟨List.cons_ne_nil _ _, ?_⟩
      simp [deliver, State.taken, framesTaken, Frame.taken, memberTokens_append_singleton]

theorem taken_afterItem {items : List Json} (h : items ≠ []) (frames : List Frame) :
    framesTaken (.item items :: frames) = (State.afterItem items frames).taken ++ [.comma] := by
  cases items with
  | nil => exact absurd rfl h
  | cons v items =>
    simp [State.taken, framesTaken, Frame.taken, itemTokens_append_singleton, itemsBefore]

theorem taken_afterMember {members : List (Option String × Json)} (h : members ≠ [])
    (frames : List Frame) :
    framesTaken frames ++ .objOpen :: membersBefore members.reverse
      = (State.afterMember members frames).taken ++ [.comma] := by
  cases members with
  | nil => exact absurd rfl h
  | cons m members => simp [State.taken, memberTokens_append_singleton, membersBefore]

/-- **No word is forgotten.** -/
theorem State.taken_of_step {s s' : State} {t : Token} (hs : s.IsFilled)
    (h : s.step t = some s') : s'.IsFilled ∧ s'.taken = s.taken ++ [t] := by
  fun_cases State.step s t with
  | case1 first frames =>
    obtain rfl := Option.some.inj h
    exact ⟨trivial, rfl⟩
  | case2 first frames =>
    obtain rfl := Option.some.inj h
    exact ⟨trivial, rfl⟩
  | case3 frames =>
    obtain rfl := Option.some.inj h
    simpa [State.taken, framesTaken, Frame.taken, itemsBefore, tokens, itemTokens]
      using taken_deliver (.arr []) frames
  | case4 first frames =>
    obtain rfl := Option.some.inj h
    exact taken_deliver .null frames
  | case5 first frames b =>
    obtain rfl := Option.some.inj h
    exact taken_deliver (.bool b) frames
  | case6 first frames n =>
    obtain rfl := Option.some.inj h
    exact taken_deliver (.int n) frames
  | case7 first frames literal =>
    obtain rfl := Option.some.inj h
    exact taken_deliver (.real literal) frames
  | case8 first frames text =>
    obtain rfl := Option.some.inj h
    exact taken_deliver (.str text) frames
  | case9 first members frames text =>
    obtain rfl := Option.some.inj h
    exact ⟨trivial, by simp [State.taken]⟩
  | case10 frames =>
    obtain rfl := Option.some.inj h
    simpa [State.taken, membersBefore, tokens, memberTokens] using taken_deliver (.obj []) frames
  | case11 members name frames =>
    obtain rfl := Option.some.inj h
    exact ⟨trivial, by simp [State.taken, framesTaken, Frame.taken]⟩
  | case12 items frames =>
    obtain rfl := Option.some.inj h
    exact ⟨trivial, taken_afterItem hs frames⟩
  | case13 items frames =>
    obtain rfl := Option.some.inj h
    simpa [State.taken, tokens] using taken_deliver (.arr items.reverse) frames
  | case14 members frames =>
    obtain rfl := Option.some.inj h
    exact ⟨trivial, taken_afterMember hs frames⟩
  | case15 members frames =>
    obtain rfl := Option.some.inj h
    simpa [State.taken, tokens] using taken_deliver (.obj members.reverse) frames
  | case16 => simp_all [State.step]

theorem State.taken_of_foldlM {s s' : State} {ts : List Token} (hs : s.IsFilled)
    (h : ts.foldlM State.step s = some s') : s'.taken = s.taken ++ ts := by
  induction ts generalizing s with
  | nil =>
    cases h
    simp
  | cons t ts ih =>
    obtain ⟨s₁, hstep, hrest⟩ := Option.bind_eq_some_iff.mp h
    obtain ⟨hs₁, htaken⟩ := taken_of_step hs hstep
    rw [ih hs₁ hrest, htaken]
    simp

theorem eq_tokens_of_ofTokens? {ts : List Token} {v : Json} (h : ofTokens? ts = some v) :
    ts = tokens v := by
  unfold ofTokens? at h
  split at h
  · rename_i hfold
    cases h
    have hfilled : (State.value false []).IsFilled := trivial
    exact (State.taken_of_foldlM hfilled hfold).symm
  · cases h

/-- **The parser reads exactly the texts of the grammar**, each as the value that it spells. -/
theorem parse_iff_spells {text : String} {v : Json} : parse text = some v ↔ Spells text v := by
  refine ⟨fun h => ?_, parse_of_spells⟩
  obtain ⟨ts, hscan, hfold⟩ := Option.bind_eq_some_iff.mp h
  obtain ⟨us, hts, hlayout⟩ := layout_of_scanFrom hscan
  obtain rfl : ts = us := hts
  rwa [eq_tokens_of_ofTokens? hfold] at hlayout

end Json

end FleetHealth
