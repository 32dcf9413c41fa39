import FleetHealth.Store.Outbox
import Mathlib.Algebra.GroupWithZero.Nat
/-!
# Keys

A number is written as a key of twenty digits. Keys of numbers differ when the numbers do, stand in the
same order, and can be read back.
-/

namespace FleetHealth

/-! ## Decimal digits -/

namespace Text

theorem isDigit_of_mem_padded {width n : Nat} {c : Char} (h : c ∈ padded width n) : c.isDigit := by
  rcases List.mem_append.mp h with h | h
  · rw [List.eq_of_mem_replicate h]
    rfl
  · exact Nat.isDigit_of_mem_toDigits (by decide) (by decide) h

theorem length_padded {width n : Nat} (hwidth : 0 < width) (hn : n < 10 ^ width) :
    (padded width n).length = width := by
  have hlength : (digits n).length ≤ width := (Nat.length_toDigits_le_iff (by decide) hwidth).mpr hn
  simp only [padded, List.length_append, List.length_replicate]
  omega

theorem ofDigitChars_padded (width n : Nat) : Nat.ofDigitChars 10 (padded width n) 0 = n := by
  rw [padded, Nat.ofDigitChars_append, Nat.ofDigitChars_replicate_zero, Nat.mul_zero, digits,
    Nat.ofDigitChars_ten_toDigits]

theorem digitValue_lt_ten {c : Char} (h : c.isDigit) : c.toNat - '0'.toNat < 10 := by
  have hc : 48 ≤ c.toNat ∧ c.toNat ≤ 57 := Char.isDigit_iff_toNat.mp h
  show c.toNat - 48 < 10
  omega

theorem ofDigitChars_lt_pow {cs : List Char} (hcs : ∀ c ∈ cs, c.isDigit) :
    Nat.ofDigitChars 10 cs 0 < 10 ^ cs.length := by
  induction cs with
  | nil => simp
  | cons c cs ih =>
    have hc := digitValue_lt_ten (hcs c List.mem_cons_self)
    have hrest := ih fun d hd => hcs d (List.mem_cons_of_mem _ hd)
    have hhead : 10 ^ cs.length * (10 * 0 + (c.toNat - '0'.toNat)) ≤ 10 ^ cs.length * 9 :=
      Nat.mul_le_mul_left _ (by omega)
    rw [Nat.ofDigitChars_cons, Nat.ofDigitChars_eq_ofDigitChars_zero, List.length_cons, Nat.pow_succ]
    omega

/-- Runs of digits of one length are in the order of their values. -/
theorem lt_of_ofDigitChars_lt {as bs : List Char} (has : ∀ c ∈ as, c.isDigit)
    (hbs : ∀ c ∈ bs, c.isDigit) (hlength : as.length = bs.length)
    (h : Nat.ofDigitChars 10 as 0 < Nat.ofDigitChars 10 bs 0) : as < bs := by
  induction as generalizing bs with
  | nil =>
    cases bs with
    | nil => exact absurd h (by simp)
    | cons b bs => exact absurd hlength (by simp)
  | cons a as ih =>
    cases bs with
    | nil => exact absurd hlength (by simp)
    | cons b bs =>
      have htail : as.length = bs.length := by simpa using hlength
      have ha : 48 ≤ a.toNat ∧ a.toNat ≤ 57 := Char.isDigit_iff_toNat.mp (has a List.mem_cons_self)
      have hb : 48 ≤ b.toNat ∧ b.toNat ≤ 57 := Char.isDigit_iff_toNat.mp (hbs b List.mem_cons_self)
      have hrest := ofDigitChars_lt_pow fun c hc => hbs c (List.mem_cons_of_mem _ hc)
      have hvalue : 10 ^ bs.length * (a.toNat - 48) + Nat.ofDigitChars 10 as 0
          < 10 ^ bs.length * (b.toNat - 48) + Nat.ofDigitChars 10 bs 0 := by
        rw [Nat.ofDigitChars_cons, Nat.ofDigitChars_cons, Nat.ofDigitChars_eq_ofDigitChars_zero,
          Nat.ofDigitChars_eq_ofDigitChars_zero (l := bs), htail, Nat.mul_zero, Nat.zero_add,
          Nat.zero_add] at h
        exact h
      rw [List.cons_lt_cons_iff]
      rcases Nat.lt_trichotomy a.toNat b.toNat with hab | hab | hab
      · exact .inl (UInt32.lt_iff_toNat_lt.mpr hab)
      · -- the same first digit: the others decide
        obtain rfl : a = b := Char.toNat_inj.mp hab
        exact .inr ⟨rfl, ih (fun c hc => has c (List.mem_cons_of_mem _ hc))
          (fun c hc => hbs c (List.mem_cons_of_mem _ hc)) htail (by omega)⟩
      · -- a greater first digit outweighs all that may follow the other one
        have hmul : 10 ^ bs.length * (b.toNat - 48 + 1) ≤ 10 ^ bs.length * (a.toNat - 48) :=
          Nat.mul_le_mul_left _ (by omega)
        rw [Nat.mul_succ] at hmul
        omega

/-- Texts of one length decide the order, whatever follows them. -/
theorem append_lt_append {as bs : List Char} (hlength : as.length = bs.length) (h : as < bs)
    (cs ds : List Char) : as ++ cs < bs ++ ds := by
  induction as generalizing bs with
  | nil =>
    obtain rfl : bs = [] := List.length_eq_zero_iff.mp hlength.symm
    exact absurd h (List.lt_irrefl [])
  | cons a as ih =>
    cases bs with
    | nil => exact absurd hlength (by simp)
    | cons b bs =>
      simp only [List.cons_append, List.cons_lt_cons_iff] at h ⊢
      rcases h with hab | ⟨hab, hrest⟩
      · exact .inl hab
      · exact .inr ⟨hab, ih (by simpa using hlength) hrest⟩

theorem unsigned?_of_digits {most : Nat} {cs : List Char} (hne : cs ≠ []) (hcs : cs.all Char.isDigit)
    (hmost : Nat.ofDigitChars 10 cs 0 ≤ most) : unsigned? most cs = some (Nat.ofDigitChars 10 cs 0) := by
  simp only [unsigned?]
  split
  · exact absurd hcs (by simp)
  · rw [ofDigits?, if_pos ⟨hne, hcs⟩]
    simpa using hmost

end Text

/-! ## Keys of numbers -/

namespace Store

theorem toList_idKey (id : UInt64) : (idKey id).toList = Text.padded 20 id.toNat :=
  String.toList_ofList

theorem length_idKey (id : UInt64) : (idKey id).toList.length = 20 := by
  rw [toList_idKey, Text.length_padded (by decide)]
  exact Nat.lt_trans id.toNat_lt (by decide)

/-- Keys are in the order of the numbers. -/
theorem idKey_lt_idKey {a b : UInt64} (h : a < b) : idKey a < idKey b := by
  refine Text.lt_of_ofDigitChars_lt ?_ ?_ (by rw [length_idKey, length_idKey]) ?_
  · rw [toList_idKey]
    intro _
    exact Text.isDigit_of_mem_padded
  · rw [toList_idKey]
    intro _
    exact Text.isDigit_of_mem_padded
  · rw [toList_idKey, toList_idKey, Text.ofDigitChars_padded, Text.ofDigitChars_padded]
    exact UInt64.lt_iff_toNat_lt.mp h

/-- A key gives its number back. -/
@[simp] theorem numberOfKey_idKey (id : UInt64) : numberOfKey (idKey id) = id := by
  have hdigits : (Text.padded 20 id.toNat).all Char.isDigit :=
    List.all_eq_true.mpr fun _ => Text.isDigit_of_mem_padded
  have hne : Text.padded 20 id.toNat ≠ [] := fun hnil => by
    have hlength := length_idKey id
    rw [toList_idKey, hnil] at hlength
    cases hlength
  rw [numberOfKey, toList_idKey, Text.unsigned?_of_digits hne hdigits, Text.ofDigitChars_padded]
  · exact UInt64.ofNat_toNat
  · rw [Text.ofDigitChars_padded]
    exact Nat.le_of_lt_succ id.toNat_lt

theorem idKey_injective {a b : UInt64} (h : idKey a = idKey b) : a = b := by
  rw [← numberOfKey_idKey a, h, numberOfKey_idKey]

/-- Keys of DNS tasks of one type differ by the node. -/
theorem dnsTaskKey_injective {a b : UInt64} {taskType : DnsTaskType}
    (h : dnsTaskKey a taskType = dnsTaskKey b taskType) : a = b := by
  unfold dnsTaskKey at h
  have hlists := congrArg String.toList h
  simp only [String.toList_append, List.append_assoc, List.append_cancel_right_eq] at hlists
  exact idKey_injective (String.toList_injective hlists)

/-- Keys of DNS tasks of one type are in the order of the nodes. -/
theorem dnsTaskKey_lt_dnsTaskKey {a b : UInt64} (taskType : DnsTaskType) (h : a < b) :
    dnsTaskKey a taskType < dnsTaskKey b taskType := by
  have hlength : (idKey a).toList.length = (idKey b).toList.length := by
    rw [length_idKey, length_idKey]
  have hkeys := Text.append_lt_append hlength (idKey_lt_idKey h) (":" ++ taskType.name).toList
    (":" ++ taskType.name).toList
  simp only [← String.toList_append, ← String.append_assoc] at hkeys
  exact hkeys

/-- Numbers are in the order of their keys, however they are written in order. -/
theorem lt_of_key_lt {key : UInt64 → String} (hkey : ∀ {a b}, a < b → key a < key b) {a b : UInt64}
    (h : key a < key b) : a < b := by
  apply Classical.byContradiction
  intro hab
  by_cases heq : a = b
  · rw [heq] at h
    exact String.lt_irrefl _ h
  · have hba : b < a := by
      rw [UInt64.lt_iff_toNat_lt] at hab ⊢
      have hne : a.toNat ≠ b.toNat := fun he => heq (UInt64.toNat_inj.mp he)
      omega
    exact String.lt_irrefl _ (String.lt_trans h (hkey hba))

theorem lt_of_idKey_lt {a b : UInt64} (h : idKey a < idKey b) : a < b :=
  lt_of_key_lt idKey_lt_idKey h

theorem lt_of_dnsTaskKey_lt {a b : UInt64} {taskType : DnsTaskType}
    (h : dnsTaskKey a taskType < dnsTaskKey b taskType) : a < b :=
  @lt_of_key_lt (dnsTaskKey · taskType) (dnsTaskKey_lt_dnsTaskKey taskType) _ _ h

end Store

end FleetHealth
