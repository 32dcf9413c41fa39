import Mathlib.Data.List.Chain
import FleetHealth.Proofs.Json.Scanning
/-!
# Parsing what is spelled

The words of a text are scanned one by one, and folding them rebuilds the value. That the words of a
value can be told apart and that they fold to it is shown by recursion on the value, with its items and
members, for any words before and after.

* `parse_of_spells` — a text that spells a value is read as that value.
* `parse_compact` — reading undoes writing, unless a number keeps a spelling of its own.
-/

namespace FleetHealth.Json

/-! ## Scanning the words of a value -/

/-- Whether no two numbers stand side by side, where one would run on into the other. -/
def Separated (ts : List Token) : Prop :=
  ts.IsChain fun t u => ¬(t.IsNumber ∧ u.IsNumber)

theorem Separated.cons {t : Token} {ts : List Token} (ht : ¬t.IsNumber) (h : Separated ts) :
    Separated (t :: ts) :=
  List.IsChain.cons h fun _ _ hboth => ht hboth.1

theorem Separated.append_cons {t : Token} {ts us : List Token} (hts : Separated ts)
    (ht : ¬t.IsNumber) (hus : Separated us) : Separated (ts ++ t :: us) := by
  refine List.isChain_append.mpr ⟨hts, hus.cons ht, ?_⟩
  rintro x - y ⟨⟩ hboth
  exact ht hboth.2

theorem separated_singleton (t : Token) : Separated [t] :=
  .singleton t

mutual

theorem separated_tokens (v : Json) : Separated (tokens v) := by
  cases v with
  | arr items =>
    exact ((separated_itemTokens items).append_cons id .nil).cons id
  | obj members =>
    exact ((separated_memberTokens members).append_cons id .nil).cons id
  | _ => exact separated_singleton _

theorem separated_itemTokens (items : List Json) : Separated (itemTokens items) := by
  match items with
  | [] => exact .nil
  | [v] => exact separated_tokens v
  | v :: w :: more =>
    exact (separated_tokens v).append_cons id (separated_itemTokens (w :: more))

theorem separated_memberTokens (members : List (Option String × Json)) :
    Separated (memberTokens members) := by
  match members with
  | [] => exact .nil
  | [(_, v)] => exact ((separated_tokens v).cons id).cons id
  | (_, v) :: next :: more =>
    exact (((separated_tokens v).append_cons id
      (separated_memberTokens (next :: more))).cons id).cons id

end

theorem scanFrom_blank (acc : List Token) {c : Char} (hc : IsBlank c) (cs : List Char) :
    Token.scanFrom acc (c :: cs) = Token.scanFrom acc cs := by
  rcases hc with rfl | rfl | rfl | rfl <;> rw [Token.scanFrom]

/-- Nothing but a number begins with a character that a number can go on with. -/
theorem endsNumber_of_layout {ts : List Token} {cs : List Char} (h : Layout ts cs)
    (hts : ∀ t ∈ ts.head?, ¬t.IsNumber) : EndsNumber cs := by
  cases h with
  | nil => rintro c ⟨⟩
  | blank hc _ =>
    rcases hc with rfl | rfl | rfl | rfl
    all_goals rintro c ⟨⟩; decide
  | @word t _ _ _ ht _ =>
    have hnumber := hts t rfl
    cases t with
    | int n => exact absurd trivial hnumber
    | real literal => exact absurd trivial hnumber
    | str text => cases ht; rintro c ⟨⟩; decide
    | bool b => cases ht; cases b <;> (rintro c ⟨⟩; decide)
    | _ => cases ht; rintro c ⟨⟩; decide

/-- **Words with white space between them are scanned.** -/
theorem scanFrom_layout {ts : List Token} {cs : List Char} (h : Layout ts cs) (hts : Separated ts)
    (acc : List Token) : Token.scanFrom acc cs = some (acc.reverse ++ ts) := by
  induction h generalizing acc with
  | nil => rw [Token.scanFrom, List.append_nil]
  | blank hc _ ih => rw [scanFrom_blank acc hc, ih hts]
  | @word t ts cs rest ht hrest ih =>
    have hnext := (List.isChain_cons.mp hts).1
    have hends : t.IsNumber → EndsNumber rest := fun hnumber =>
      endsNumber_of_layout hrest fun u hu hboth => hnext u hu ⟨hnumber, hboth⟩
    rw [Token.scanFrom_spelled acc ht hends, ih (List.isChain_cons.mp hts).2]
    simp

/-! ## Folding the words of a value -/

mutual

theorem foldlM_tokens (v : Json) (first : Bool) (frames : List Frame) (ts : List Token) :
    (tokens v ++ ts).foldlM State.step (.value first frames)
      = ts.foldlM State.step (deliver v frames) := by
  cases v with
  | null => rfl
  | bool b => rfl
  | int n => rfl
  | real literal => rfl
  | str text => rfl
  | arr items =>
    cases items with
    | nil => rfl
    | cons w more =>
      rw [tokens, List.cons_append, List.append_assoc, List.foldlM_cons]
      exact foldlM_itemTokens (w :: more) (List.cons_ne_nil _ _) true [] frames ts
  | obj members =>
    cases members with
    | nil => rfl
    | cons m more =>
      rw [tokens, List.cons_append, List.append_assoc, List.foldlM_cons]
      exact foldlM_memberTokens (m :: more) (List.cons_ne_nil _ _) true [] frames ts

theorem foldlM_itemTokens (items : List Json) (hne : items ≠ []) (first : Bool) (before : List Json)
    (frames : List Frame) (ts : List Token) :
    (itemTokens items ++ ([Token.arrClose] ++ ts)).foldlM State.step
        (.value first (.item before :: frames))
      = ts.foldlM State.step (deliver (.arr (before.reverse ++ items)) frames) := by
  match items, hne with
  | [v], _ =>
    rw [itemTokens, foldlM_tokens v, ← List.reverse_cons]
    rfl
  | v :: w :: more, _ =>
    -- the first item moves over to those before
    have hlist : (v :: before).reverse ++ w :: more = before.reverse ++ v :: w :: more := by simp
    rw [itemTokens, List.append_assoc, foldlM_tokens v, ← hlist]
    · exact foldlM_itemTokens (w :: more) (List.cons_ne_nil _ _) false (v :: before) frames ts
    · simp

theorem foldlM_memberTokens (members : List (Option String × Json)) (hne : members ≠ [])
    (first : Bool) (before : List (Option String × Json)) (frames : List Frame) (ts : List Token) :
    (memberTokens members ++ ([Token.objClose] ++ ts)).foldlM State.step
        (.label first before frames)
      = ts.foldlM State.step (deliver (.obj (before.reverse ++ members)) frames) := by
  match members, hne with
  | [(name, v)], _ =>
    rw [← List.reverse_cons]
    exact foldlM_tokens v false (.member before name :: frames) ([Token.objClose] ++ ts)
  | (name, v) :: m :: more, _ =>
    have hlist : ((name, v) :: before).reverse ++ m :: more
        = before.reverse ++ (name, v) :: m :: more := by simp
    have hvalue := foldlM_tokens v false (.member before name :: frames)
      (Token.comma :: (memberTokens (m :: more) ++ ([Token.objClose] ++ ts)))
    have hmore := foldlM_memberTokens (m :: more) (List.cons_ne_nil _ _) false
      ((name, v) :: before) frames ts
    rw [← hlist, ← hmore, memberTokens]
    · simp only [List.cons_append, List.append_assoc]
      exact hvalue
    · simp

end

/-- **A text that spells a value is read as that value.** -/
theorem parse_of_spells {text : String} {v : Json} (h : Spells text v) : parse text = some v := by
  have hscan : Token.scan text.toList = some (tokens v) :=
    scanFrom_layout h (separated_tokens v) []
  have hfold := foldlM_tokens v false [] []
  rw [List.append_nil] at hfold
  rw [parse, hscan, Option.bind_some, ofTokens?, hfold]
  rfl

/-! ## The compact text -/

mutual

/-- Whether no number in the value keeps a spelling of its own. -/
def IsExact : Json → Prop
  | .real _ => False
  | .arr items => ItemsExact items
  | .obj members => MembersExact members
  | _ => True

/-- `IsExact` for the items of an array. -/
def ItemsExact : List Json → Prop
  | [] => True
  | v :: rest => IsExact v ∧ ItemsExact rest

/-- `IsExact` for the members of an object. -/
def MembersExact : List (Option String × Json) → Prop
  | [] => True
  | (_, v) :: rest => IsExact v ∧ MembersExact rest

end

theorem hexValue?_hexDigit : ∀ n, n < 16 → hexValue? (hexDigit n) = some n := by decide

/-- What the spelling of a character between quotes stands for. -/
def pieceOf (c : Char) : Piece :=
  if c.toNat < 0x20 ∧ ¬(c = '\x08' ∨ c = '\x0c' ∨ c = '\n' ∨ c = '\r' ∨ c = '\t') then .unit c.toNat
  else .char c

theorem spelled_writeChar (c : Char) : (pieceOf c).Spelled (writeChar c) := by
  unfold writeChar
  -- the seven characters with an escape of their own
  split
  · subst_vars; exact .escape rfl
  split
  · subst_vars; exact .escape rfl
  split
  · subst_vars; exact .escape rfl
  split
  · subst_vars; exact .escape rfl
  split
  · subst_vars; exact .escape rfl
  split
  · subst_vars; exact .escape rfl
  split
  · subst_vars; exact .escape rfl
  split
  · -- any other control character: four digits, of which only the last two tell
    rename_i hcontrol
    have hpiece : pieceOf c
        = .unit (0 * 4096 + 0 * 256 + c.toNat / 16 * 16 + c.toNat % 16) := by
      have hvalue : 0 * 4096 + 0 * 256 + c.toNat / 16 * 16 + c.toNat % 16 = c.toNat := by omega
      rw [hvalue]
      simp_all [pieceOf]
    rw [hpiece]
    exact .unit rfl rfl (hexValue?_hexDigit (c.toNat / 16) (by omega))
      (hexValue?_hexDigit (c.toNat % 16) (by omega))
  · -- a character that stands for itself
    rename_i hquote hslash _ _ _ _ _ hplain
    have hpiece : pieceOf c = .char c := by simp_all [pieceOf]
    rw [hpiece]
    exact .plain hquote hslash (Nat.le_of_not_lt hplain)

theorem spellsPieces_flatMap (cs : List Char) :
    SpellsPieces (cs.map pieceOf) (cs.flatMap writeChar) := by
  induction cs with
  | nil => exact .nil
  | cons c cs ih => exact .cons (spelled_writeChar c) ih

theorem joinPieces_map_pieceOf (acc cs : List Char) :
    joinPieces acc (cs.map pieceOf) = some (acc.reverse ++ cs) := by
  induction cs generalizing acc with
  | nil => simp [joinPieces]
  | cons c cs ih =>
    rw [List.map_cons, pieceOf]
    split
    · -- a control character is no half of a pair
      rename_i hcontrol
      have hhigh : isHighHalf c.toNat = false := by
        simp only [isHighHalf, Bool.and_eq_false_imp, decide_eq_true_eq, decide_eq_false_iff_not]
        omega
      have hlow : isLowHalf c.toNat = false := by
        simp only [isLowHalf, Bool.and_eq_false_imp, decide_eq_true_eq, decide_eq_false_iff_not]
        omega
      rw [joinPieces.eq_def]
      simp [hhigh, hlow, ih, Char.ofNat_toNat]
    · simp [joinPieces, ih]

theorem spellsText_writeString (text : Option String) : SpellsText text (writeString text) := by
  cases text with
  | none =>
    have hhalf : Piece.Spelled (.unit 0xD800) ['\\', 'u', 'd', '8', '0', '0'] :=
      .unit (i := 13) (j := 8) (k := 0) (l := 0) rfl rfl rfl rfl
    exact .quoted (.cons hhalf .nil)
  | some s =>
    have htext : textOf (s.toList.map pieceOf) = some s := by
      rw [textOf, joinPieces_map_pieceOf]
      simp
    rw [← htext]
    have := SpellsText.quoted (spellsPieces_flatMap s.toList)
    rwa [htext] at this ⊢

/-- Whether a word has no spelling of its own. -/
def Token.IsExact : Token → Prop
  | .real _ => False
  | _ => True

theorem Token.spelled_write {t : Token} (h : t.IsExact) : t.Spelled t.write := by
  cases t with
  | real literal => exact absurd h id
  | str text => exact spellsText_writeString text
  | _ => rfl

mutual

theorem isExact_of_mem_tokens (v : Json) (hv : IsExact v) : ∀ t ∈ tokens v, t.IsExact := by
  cases v with
  | real literal => exact absurd hv id
  | arr items =>
    have hitems := isExact_of_mem_itemTokens items hv
    simpa [tokens, or_imp, forall_and, Token.IsExact] using hitems
  | obj members =>
    have hmembers := isExact_of_mem_memberTokens members hv
    simpa [tokens, or_imp, forall_and, Token.IsExact] using hmembers
  | _ => simp [tokens, Token.IsExact]

theorem isExact_of_mem_itemTokens (items : List Json) (h : ItemsExact items) :
    ∀ t ∈ itemTokens items, t.IsExact := by
  match items, h with
  | [], _ => simp [itemTokens]
  | [v], h => exact isExact_of_mem_tokens v h.1
  | v :: w :: more, h =>
    have hv := isExact_of_mem_tokens v h.1
    have hmore := isExact_of_mem_itemTokens (w :: more) h.2
    simpa [itemTokens, or_imp, forall_and, Token.IsExact] using And.intro hv hmore

theorem isExact_of_mem_memberTokens (members : List (Option String × Json))
    (h : MembersExact members) : ∀ t ∈ memberTokens members, t.IsExact := by
  match members, h with
  | [], _ => simp [memberTokens]
  | [(_, v)], h =>
    have hv := isExact_of_mem_tokens v h.1
    simpa [memberTokens, Token.IsExact] using hv
  | (_, v) :: next :: more, h =>
    have hv := isExact_of_mem_tokens v h.1
    have hmore := isExact_of_mem_memberTokens (next :: more) h.2
    simpa [memberTokens, or_imp, forall_and, Token.IsExact] using And.intro hv hmore

end

theorem layout_flatMap_write {ts : List Token} (h : ∀ t ∈ ts, t.IsExact) :
    Layout ts (ts.flatMap Token.write) := by
  induction ts with
  | nil => exact .nil
  | cons t ts ih =>
    rw [List.forall_mem_cons] at h
    exact .word (Token.spelled_write h.1) (ih h.2)

/-- The compact text of a value is one of its spellings. -/
theorem spells_compact {v : Json} (hv : IsExact v) : Spells v.compact v := by
  rw [Spells, compact, String.toList_ofList]
  exact layout_flatMap_write (isExact_of_mem_tokens v hv)

/-- **Reading undoes writing.** -/
theorem parse_compact {v : Json} (hv : IsExact v) : parse v.compact = some v :=
  parse_of_spells (spells_compact hv)

end FleetHealth.Json
