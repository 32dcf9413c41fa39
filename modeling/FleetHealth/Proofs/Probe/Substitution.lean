import FleetHealth.Http.HostName
import FleetHealth.Probe.Template
import Mathlib.Data.List.Infix
import Mathlib.Data.String.Basic
import Mathlib.Tactic.Ring
/-!
# The placeholders of a template

The URL of a probe is the template with the host of the probed address in place of every placeholder.
Placeholders are looked for once, from the left, and each one behind the last: what is put in is not read
again. That none is left is therefore not a matter of course. It holds as no character of an address is
one of the placeholder, so that none can arise where the host meets the template.

* `Pieces` — the pieces of a text between the occurrences of another.
* `Pieces.replaceFrom_eq` — to replace a text is to join the pieces by another one.
* `Pieces.not_occurs_intercalate` — joined by a text with none of its characters, they do not hold it.
* `url_substitutes` — what the URL is, and that no placeholder is left in it.
-/

namespace FleetHealth.Probe

/-! ## Pieces -/

/-- That `old` first occurs in a text between `before` and `after`. -/
def FirstBetween (old text before after : List Char) : Prop :=
  text = before ++ old ++ after ∧ ∀ b a, text = b ++ old ++ a → before.length ≤ b.length

/-- The pieces of a text between the occurrences of `old`, where each occurrence is the first one behind
the last. -/
inductive Pieces (old : List Char) : List Char → List (List Char) → Prop where
  | last {text : List Char} (hnone : ¬old <:+: text) : Pieces old text [text]
  | next {text before after : List Char} {pieces : List (List Char)}
      (hfirst : FirstBetween old text before after) (hrest : Pieces old after pieces) :
      Pieces old text (before :: pieces)

/-- How often a text occurs in another. -/
def occurrences (old text : List Char) : Nat :=
  text.tails.countP old.isPrefixOf

variable {old new text before after p : List Char} {pieces : List (List Char)} {c : Char}

namespace FirstBetween

theorem occurs (h : FirstBetween old text before after) : old <:+: text :=
  ⟨before, after, h.1.symm⟩

theorem nil (old after : List Char) : FirstBetween old (old ++ after) [] after :=
  ⟨rfl, fun _ _ _ => Nat.zero_le _⟩

/-- An occurrence stays the first one behind a character with which none begins. -/
theorem cons (hc : ¬old <+: c :: text) (h : FirstBetween old text before after) :
    FirstBetween old (c :: text) (c :: before) after := by
  refine ⟨by rw [h.1]; rfl, ?_⟩
  intro b a hsplit
  cases b with
  | nil => exact absurd ⟨a, hsplit.symm⟩ hc
  | cons d b => exact Nat.succ_le_succ (h.2 b a (List.cons.inj hsplit).2)

theorem of_cons (h : FirstBetween old (c :: text) (c :: before) after) :
    FirstBetween old text before after := by
  refine ⟨(List.cons.inj h.1).2, ?_⟩
  intro b a hsplit
  exact Nat.le_of_succ_le_succ (h.2 (c :: b) a (by rw [hsplit]; rfl))

theorem not_begins (h : FirstBetween old text (c :: before) after) : ¬old <+: text := by
  rintro ⟨a, hsplit⟩
  exact absurd (h.2 [] a hsplit.symm) (Nat.not_succ_le_zero _)

theorem not_occurs_before (hold : old ≠ []) (h : FirstBetween old text before after) :
    ¬old <:+: before := by
  rintro ⟨b, a, rfl⟩
  have hle := h.2 b (a ++ old ++ after) (by rw [h.1]; simp only [List.append_assoc])
  have hpos := List.length_pos_iff.mpr hold
  simp only [List.length_append] at hle
  omega

theorem unique {before' after' : List Char} (h : FirstBetween old text before after)
    (h' : FirstBetween old text before' after') : before = before' ∧ after = after' := by
  have hlength : before.length = before'.length := Nat.le_antisymm (h.2 _ _ h'.1) (h'.2 _ _ h.1)
  have hsplit : before ++ old ++ after = before' ++ old ++ after' := h.1.symm.trans h'.1
  rw [List.append_assoc, List.append_assoc] at hsplit
  obtain ⟨hbefore, hrest⟩ := List.append_inj hsplit hlength
  exact ⟨hbefore, List.append_cancel_left hrest⟩

end FirstBetween

namespace Pieces

theorem ne_nil (h : Pieces old text pieces) : pieces ≠ [] := by
  cases h <;> exact List.cons_ne_nil _ _

theorem unique {pieces' : List (List Char)} (h : Pieces old text pieces) (h' : Pieces old text pieces') :
    pieces = pieces' := by
  induction h generalizing pieces' with
  | last hnone =>
    cases h' with
    | last _ => rfl
    | next hfirst _ => exact absurd hfirst.occurs hnone
  | next hfirst _ ih =>
    cases h' with
    | last hnone => exact absurd hfirst.occurs hnone
    | next hfirst' hrest' =>
      obtain ⟨rfl, rfl⟩ := hfirst.unique hfirst'
      rw [ih hrest']

/-- A character with which no occurrence begins belongs to the first piece. -/
theorem cons (hc : ¬old <+: c :: text) (h : Pieces old text (p :: pieces)) :
    Pieces old (c :: text) ((c :: p) :: pieces) := by
  cases h with
  | last hnone =>
    refine .last ?_
    rw [List.infix_cons_iff]
    exact fun h => h.elim hc hnone
  | next hfirst hrest => exact .next (hfirst.cons hc) hrest

theorem intercalate_cons (h : Pieces old text pieces) (p : List Char) :
    new.intercalate (p :: pieces) = p ++ new ++ new.intercalate pieces :=
  List.intercalate_cons_of_ne_nil h.ne_nil

theorem intercalate_eq (h : Pieces old text pieces) : old.intercalate pieces = text := by
  induction h with
  | last _ => exact List.intercalate_singleton
  | next hfirst hrest ih => rw [hrest.intercalate_cons, ih, hfirst.1]

end Pieces

/-- Whatever was read before, the rest has pieces, and they are joined by the new text. -/
theorem exists_pieces (hold : old ≠ []) (new acc cs : List Char) :
    ∃ pieces, Pieces old cs pieces ∧
      replaceFrom old new acc cs = acc.reverse ++ new.intercalate pieces := by
  fun_induction replaceFrom old new acc cs with
  | case1 acc =>
    refine ⟨[[]], .last ?_, by rw [List.intercalate_singleton, List.append_nil]⟩
    rwa [List.infix_nil]
  | case2 acc c rest hfound ih =>
    -- an occurrence begins here, and a piece ends before it
    obtain ⟨pieces, hpieces, hjoined⟩ := ih
    rw [Bool.and_eq_true, List.isPrefixOf_iff_prefix] at hfound
    obtain ⟨after, hafter⟩ := hfound.1
    rw [← hafter, List.drop_left] at hpieces
    refine ⟨[] :: pieces, .next (hafter ▸ FirstBetween.nil old after) hpieces, ?_⟩
    simp only [List.unattach_reverse, List.unattach_attach] at hjoined
    rw [hjoined, hpieces.intercalate_cons, List.reverse_append, List.reverse_reverse,
      List.append_assoc, List.nil_append]
  | case3 acc c rest hnot ih =>
    -- none does, and the character goes before the first piece of the rest
    obtain ⟨pieces, hpieces, hjoined⟩ := ih
    have hc : ¬old <+: c :: rest := by simpa [hold] using hnot
    obtain ⟨p, pieces, rfl⟩ := List.exists_cons_of_ne_nil hpieces.ne_nil
    refine ⟨(c :: p) :: pieces, hpieces.cons hc, ?_⟩
    rw [hjoined, List.reverse_cons, List.append_assoc]
    cases pieces <;> simp

theorem Pieces.replaceFrom_eq (hold : old ≠ []) (h : Pieces old text pieces) (new : List Char) :
    replaceFrom old new [] text = new.intercalate pieces := by
  obtain ⟨pieces', hpieces', hjoined⟩ := exists_pieces hold new [] text
  rw [hjoined, h.unique hpieces', List.reverse_nil, List.nil_append]

/-! ## Seams -/

/-- A text that occurs across a character it does not have occurs on one side of it. -/
theorem infix_append_cons {l r : List Char} (hold : old ≠ []) (hc : c ∉ old) (h : old <:+: l ++ c :: r) :
    old <:+: l ∨ old <:+: r := by
  have hfront {front : List Char} (hfront : front <+: c :: r) (hmem : ∀ d ∈ front, d ∈ old) :
      front = [] := by
    cases front with
    | nil => rfl
    | cons d front =>
      obtain rfl := (List.cons_prefix_cons.mp hfront).1
      exact absurd (hmem d List.mem_cons_self) hc
  rcases List.infix_append_iff.mp h with hl | hr | ⟨l₁, l₂, rfl, hsuffix, hprefix⟩
  · exact .inl hl
  · rcases List.infix_cons_iff.mp hr with hprefix | hr
    · exact absurd (hfront hprefix fun _ => id) hold
    · exact .inr hr
  · obtain rfl := hfront hprefix fun _ => List.mem_append_right _
    rw [List.append_nil]
    exact .inl hsuffix.isInfix

/-- A text that occurs across another one that shares no character with it occurs on one side of it. -/
theorem infix_append_append {l r : List Char} (hold : old ≠ []) (hnew : new ≠ [])
    (hfresh : ∀ c ∈ new, c ∉ old) (h : old <:+: l ++ new ++ r) : old <:+: l ∨ old <:+: r := by
  induction new generalizing l with
  | nil => exact absurd rfl hnew
  | cons c new ih =>
    obtain ⟨hc, hfresh⟩ := List.forall_mem_cons.mp hfresh
    rw [List.append_assoc, List.cons_append] at h
    rcases infix_append_cons hold hc h with hl | hr
    · exact .inl hl
    · cases hrest : new with
      | nil => exact .inr (by simpa [hrest] using hr)
      | cons d new' =>
        have hnil : ¬old <:+: [] := by rwa [List.infix_nil]
        exact .inr ((ih (by simp [hrest]) hfresh (l := []) hr).resolve_left hnil)

namespace Pieces

theorem not_occurs_intercalate (hold : old ≠ []) (hnew : new ≠ []) (hfresh : ∀ c ∈ new, c ∉ old)
    (h : Pieces old text pieces) : ¬old <:+: new.intercalate pieces := by
  induction h with
  | last hnone => rwa [List.intercalate_singleton]
  | next hfirst hrest ih =>
    rw [hrest.intercalate_cons]
    intro hinfix
    exact (infix_append_append hold hnew hfresh hinfix).elim (hfirst.not_occurs_before hold) ih

end Pieces

/-! ## Lengths -/

theorem occurrences_cons_of_not (h : ¬old <+: c :: text) :
    occurrences old (c :: text) = occurrences old text := by
  rw [occurrences, List.tails_cons, List.countP_cons_of_neg (by rwa [List.isPrefixOf_iff_prefix])]
  rfl

theorem occurrences_eq_zero (h : ¬old <:+: text) : occurrences old text = 0 := by
  refine List.countP_eq_zero.mpr ?_
  intro tail htail hprefix
  exact h ((List.isPrefixOf_iff_prefix.mp hprefix).isInfix.trans ((List.mem_tails _ _).mp htail).isInfix)

/-- Where its first character is missing, a text does not begin. -/
theorem occurrences_append_of_not_mem {l : List Char} (hc : c ∉ l) (after : List Char) :
    occurrences (c :: old) (l ++ after) = occurrences (c :: old) after := by
  induction l with
  | nil => rfl
  | cons d l ih =>
    obtain ⟨hd, hl⟩ := not_or.mp (mt List.mem_cons.mpr hc)
    rw [List.cons_append, occurrences_cons_of_not, ih hl]
    exact fun hprefix => hd (List.cons_prefix_cons.mp hprefix).1

/-- A text whose first character does not come again in it does not overlap itself. -/
theorem occurrences_append (hc : c ∉ old) (after : List Char) :
    occurrences (c :: old) (c :: old ++ after) = occurrences (c :: old) after + 1 := by
  have hfound : (c :: old).isPrefixOf (c :: (old ++ after)) :=
    List.isPrefixOf_iff_prefix.mpr (List.prefix_append _ _)
  rw [List.cons_append, occurrences, List.tails_cons, List.countP_cons_of_pos hfound]
  exact congrArg (· + 1) (occurrences_append_of_not_mem hc after)

theorem FirstBetween.occurrences_eq (hc : c ∉ old) (h : FirstBetween (c :: old) text before after) :
    occurrences (c :: old) text = occurrences (c :: old) after + 1 := by
  induction before generalizing text with
  | nil =>
    rw [h.1]
    exact occurrences_append hc after
  | cons d before ih =>
    obtain rfl : text = d :: (before ++ (c :: old) ++ after) := h.1
    rw [occurrences_cons_of_not h.not_begins]
    exact ih h.of_cons

/-- There is one piece more than occurrences. -/
theorem Pieces.length_eq (hc : c ∉ old) (h : Pieces (c :: old) text pieces) :
    pieces.length = occurrences (c :: old) text + 1 := by
  induction h with
  | last hnone => rw [occurrences_eq_zero hnone, List.length_singleton]
  | next hfirst _ ih => rw [hfirst.occurrences_eq hc, List.length_cons, ih]

section Size

variable {size : List Char → Nat} (hsize : ∀ l r, size (l ++ r) = size l + size r)
include hsize

theorem size_intercalate (p : List Char) (pieces : List (List Char)) :
    size (new.intercalate (p :: pieces))
      = ((p :: pieces).map size).sum + pieces.length * size new := by
  induction pieces generalizing p with
  | nil => simp
  | cons q pieces ih =>
    rw [List.intercalate_cons_cons, hsize, hsize, ih]
    simp only [List.map_cons, List.sum_cons, List.length_cons]
    ring

/-- Every occurrence changes the size by the difference of the two texts. -/
theorem size_replaceFrom (hc : c ∉ old) (new text : List Char) :
    (size (replaceFrom (c :: old) new [] text) : Int)
      = size text + occurrences (c :: old) text * (size new - size (c :: old)) := by
  obtain ⟨pieces, h, hjoined⟩ := exists_pieces (List.cons_ne_nil c old) new [] text
  have hlength := h.length_eq hc
  have htext := h.intercalate_eq
  obtain ⟨p, pieces, rfl⟩ := List.exists_cons_of_ne_nil h.ne_nil
  have hcount : occurrences (c :: old) text = pieces.length := (Nat.succ.inj hlength).symm
  have hsizes : size text = size ((c :: old).intercalate (p :: pieces)) := by rw [htext]
  rw [hjoined, List.reverse_nil, List.nil_append, hcount, hsizes, size_intercalate hsize,
    size_intercalate hsize]
  push_cast
  ring

end Size

/-! ## Hosts -/

/-- Whether a character may stand in the address of a host. -/
def isAddressChar (c : Char) : Bool :=
  Http.isHexDigit c || ".:[]".toList.contains c

theorem not_mem_hostPlaceholder {c : Char} (h : isAddressChar c) : c ∉ hostPlaceholder.toList := by
  have hnone : hostPlaceholder.toList.all fun c => !isAddressChar c := by decide
  intro hmem
  have hc := List.all_eq_true.mp hnone c hmem
  rw [h] at hc
  cases hc

variable {ip : List Char}

theorem hostText_eq (ip : List Char) :
    hostText ip = if ':' ∈ ip ∧ ip.head? ≠ some '[' then '[' :: (ip ++ [']']) else ip := by
  simp only [hostText, Bool.and_eq_true, List.contains_iff_mem, bne_iff_ne]

/-- An address in brackets is taken as it is. -/
theorem hostText_bracketed (ip : List Char) : hostText ('[' :: (ip ++ [']'])) = '[' :: (ip ++ [']']) := by
  rw [hostText_eq, if_neg]
  exact fun h => h.2 rfl

theorem hostText_ne_nil (hip : ip ≠ []) : hostText ip ≠ [] := by
  rw [hostText_eq]
  split
  · exact List.cons_ne_nil _ _
  · exact hip

theorem isAddressChar_of_mem_hostText (hip : ∀ c ∈ ip, isAddressChar c) :
    ∀ c ∈ hostText ip, isAddressChar c := by
  rw [hostText_eq]
  split
  · simpa [or_imp, forall_and] using ⟨by decide, hip, by decide⟩
  · exact hip

/-! ## The URL -/

theorem toList_url (template ip : String) :
    (url template ip).toList
      = replaceFrom hostPlaceholder.toList (hostText ip.toList) [] template.toList :=
  String.toList_ofList

/-- **A probe goes to the template with the host in place of every placeholder**: the pieces of the
template between the placeholders are joined by the host, which stands in brackets if it has a colon and
no brackets yet. So it makes no difference whether the address itself was given in brackets. What comes of
an address has no placeholder left, and for each that there was its length, in characters or in bytes, has
changed by that of the host less seven. -/
theorem url_substitutes (template ip : String) :
    (∃ pieces, Pieces hostPlaceholder.toList template.toList pieces
      ∧ (∀ others, Pieces hostPlaceholder.toList template.toList others → others = pieces)
      ∧ pieces.length = occurrences hostPlaceholder.toList template.toList + 1
      ∧ (url template ip).toList = (hostText ip.toList).intercalate pieces)
    ∧ hostText ip.toList = (if ':' ∈ ip.toList ∧ ip.toList.head? ≠ some '['
        then '[' :: (ip.toList ++ [']']) else ip.toList)
    ∧ (':' ∈ ip.toList → ip.toList.head? ≠ some '[' → url template ip = url template ("[" ++ ip ++ "]"))
    ∧ (ip ≠ "" → (∀ c ∈ ip.toList, isAddressChar c) →
      ¬hostPlaceholder.toList <:+: (url template ip).toList
      ∧ ((url template ip).length : Int) = template.length
        + occurrences hostPlaceholder.toList template.toList * ((hostText ip.toList).length - 7)
      ∧ ((url template ip).utf8ByteSize : Int) = template.utf8ByteSize
        + occurrences hostPlaceholder.toList template.toList
          * ((String.ofList (hostText ip.toList)).utf8ByteSize - 7)) := by
  have hplaceholder : hostPlaceholder.toList ≠ [] := by decide
  have hrepeats : '$' ∉ "\x7bhost\x7d".toList := by decide
  obtain ⟨pieces, hpieces, -⟩ := exists_pieces hplaceholder [] [] template.toList
  have hurl := (toList_url template ip).trans (hpieces.replaceFrom_eq hplaceholder _)
  refine ⟨⟨pieces, hpieces, fun _ h => h.unique hpieces, hpieces.length_eq hrepeats, hurl⟩,
    hostText_eq _, ?_, ?_⟩
  · intro hcolon hopen
    have hbracketed : ("[" ++ ip ++ "]").toList = '[' :: (ip.toList ++ [']']) := by simp
    rw [url, url, hbracketed, hostText_bracketed, hostText_eq, if_pos ⟨hcolon, hopen⟩]
  · intro hne hip
    have hhost := isAddressChar_of_mem_hostText hip
    refine ⟨?_, ?_, ?_⟩
    · rw [hurl]
      exact hpieces.not_occurs_intercalate hplaceholder (hostText_ne_nil (by simpa using hne))
        fun c hc => not_mem_hostPlaceholder (hhost c hc)
    · rw [← String.length_toList, ← String.length_toList, toList_url]
      exact size_replaceFrom (fun _ _ => List.length_append) hrepeats _ _
    · rw [← String.utf8Len_toList, ← String.utf8Len_toList, String.utf8ByteSize_ofList, toList_url]
      exact size_replaceFrom String.utf8Len_append hrepeats _ _

/-- A template in which two placeholders stand between parts of others. -/
def brokenTemplate : String :=
  "$" ++ hostPlaceholder ++ "\x7bhost\x7d/$\x7bho" ++ hostPlaceholder ++ "st\x7d"

theorem url_substitutes_brokenTemplate :
    ':' ∈ "2001:db8::1".toList ∧ "2001:db8::1".toList.head? ≠ some '['
      ∧ url brokenTemplate "2001:db8::1" = url brokenTemplate "[2001:db8::1]"
      ∧ "2001:db8::1" ≠ "" ∧ (∀ c ∈ "2001:db8::1".toList, isAddressChar c)
      ∧ ¬hostPlaceholder.toList <:+: (url brokenTemplate "2001:db8::1").toList
      ∧ (url brokenTemplate "2001:db8::1").length = 41 := by
  obtain ⟨-, -, hbracketed, hclean⟩ := url_substitutes brokenTemplate "2001:db8::1"
  have hip : ∀ c ∈ "2001:db8::1".toList, isAddressChar c := List.all_eq_true.mp (by decide)
  obtain ⟨hnone, hlength, -⟩ := hclean (by decide) hip
  have hlength : ((url brokenTemplate "2001:db8::1").length : Int) = 41 := hlength
  exact ⟨by decide, by decide, hbracketed (by decide) (by decide), by decide, hip, hnone, by omega⟩

end FleetHealth.Probe
