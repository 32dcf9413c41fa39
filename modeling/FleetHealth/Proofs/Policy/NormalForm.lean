import FleetHealth.Policy.Snapshot
import FleetHealth.Proofs.Health.Tracker
import Mathlib.Data.List.DropRight
/-!
# The normal form of a policy

A stored policy may hold anything, but its snapshot is in normal form: nothing in it is empty or out of
its limits. Written back as a policy, a snapshot is taken for what it is, so that what a run works with
does not depend on how often defaults were filled in.

* `Policy.snapshot_eq_error_iff` — only a method that is no token has no snapshot.
* `Policy.follows_of_snapshot` — what a snapshot makes of each field.
* `PolicySnapshot.snapshot_toPolicy` — a normal form is its own snapshot.
* `Policy.snapshot_is_normal_form` — all of it, for every policy.
-/

namespace FleetHealth

/-! ## Trimming -/

namespace Text

theorem trimChars_eq_rdropWhile (cs : List Char) :
    trimChars cs = (cs.dropWhile isBlank).rdropWhile isBlank :=
  rfl

theorem trimChars_of_forall {cs : List Char} (h : ∀ c ∈ cs, isBlank c = false) : trimChars cs = cs := by
  have hfront : cs.dropWhile isBlank = cs :=
    List.dropWhile_eq_self_iff.mpr fun hlength => by simp [h _ (List.getElem_mem hlength)]
  have hback : cs.rdropWhile isBlank = cs :=
    List.rdropWhile_eq_self_iff.mpr fun hne => by simp [h _ (List.getLast_mem hne)]
  rw [trimChars_eq_rdropWhile, hfront, hback]

theorem trimChars_trimChars (cs : List Char) : trimChars (trimChars cs) = trimChars cs := by
  -- cutting off the end leaves the first character where it is
  have hfront : (trimChars cs).dropWhile isBlank = trimChars cs := by
    have hinit : trimChars cs <+: cs.dropWhile isBlank := List.rdropWhile_prefix isBlank _
    have hdropped : (cs.dropWhile isBlank).dropWhile isBlank = cs.dropWhile isBlank :=
      List.dropWhile_idempotent isBlank cs
    rw [List.dropWhile_eq_self_iff] at hdropped ⊢
    intro hlength
    rw [hinit.getElem hlength]
    exact hdropped _
  rw [trimChars_eq_rdropWhile, hfront, trimChars_eq_rdropWhile]
  exact List.rdropWhile_idempotent isBlank _

theorem trim_trim (s : String) : trim (trim s) = trim s := by
  rw [trim, trim, String.toList_ofList, trimChars_trimChars]

theorem trim_of_forall {s : String} (h : ∀ c ∈ s.toList, isBlank c = false) : trim s = s := by
  rw [trim, trimChars_of_forall h, String.ofList_toList]

end Text

/-! ## Tokens -/

/-- Whether a byte is the code of a character that may stand in a token of HTTP. -/
def isTokenByte (b : UInt8) : Bool :=
  isTokenChar (Char.ofNat b.toNat)

theorem lt_of_isTokenChar {c : Char} (h : isTokenChar c) : c.toNat < 128 := by
  unfold isTokenChar at h
  rcases Bool.or_eq_true_iff.mp h with hword | hsign
  · have hbounds : c.toNat ≤ 'z'.toNat := by
      rcases Bool.or_eq_true_iff.mp hword with hletter | hdigit
      · rcases Bool.or_eq_true_iff.mp hletter with hupper | hlower
        · have hle : c.toNat ≤ 'Z'.toNat := (of_decide_eq_true hupper).2
          exact Nat.le_trans hle (by decide)
        · exact of_decide_eq_true (Bool.and_eq_true_iff.mp hlower).2
      · have hle : c.toNat ≤ '9'.toNat := of_decide_eq_true (Bool.and_eq_true_iff.mp hdigit).2
        exact Nat.le_trans hle (by decide)
    exact Nat.lt_of_le_of_lt hbounds (by decide)
  · have hsigns : "!#$%&'*+-.^_\x60|~".toList.all (·.toNat < 128) := by decide
    exact of_decide_eq_true (List.all_eq_true.mp hsigns c (by simpa using hsign))

theorem isBlank_of_isTokenChar {c : Char} (h : isTokenChar c) : Text.isBlank c = false := by
  have hascii : ∀ n, n < 128 → isTokenChar (Char.ofNat n) → Text.isBlank (Char.ofNat n) = false := by
    decide +kernel
  have hc := hascii c.toNat (lt_of_isTokenChar h)
  rw [Char.ofNat_toNat] at hc
  exact hc h

theorem toUpper_of_le {c : Char} (h : 128 ≤ c.toNat) : c.toUpper = c := by
  have hbound : ¬('a'.val ≤ c.val ∧ c.val ≤ 'z'.val) := fun hletter =>
    absurd (Nat.le_trans h hletter.2) (by decide)
  exact dif_neg hbound

theorem isTokenChar_toUpper (c : Char) : isTokenChar c.toUpper = isTokenChar c := by
  by_cases hascii : c.toNat < 128
  · have hcodes : ∀ n, n < 128 → isTokenChar (Char.ofNat n).toUpper = isTokenChar (Char.ofNat n) := by
      decide +kernel
    have hc := hcodes c.toNat hascii
    rwa [Char.ofNat_toNat] at hc
  · rw [toUpper_of_le (Nat.le_of_not_lt hascii)]

theorem toUpper_toUpper (c : Char) : c.toUpper.toUpper = c.toUpper := by
  by_cases hascii : c.toNat < 128
  · have hcodes : ∀ n, n < 128 → (Char.ofNat n).toUpper.toUpper = (Char.ofNat n).toUpper := by
      decide +kernel
    have hc := hcodes c.toNat hascii
    rwa [Char.ofNat_toNat] at hc
  · rw [toUpper_of_le (Nat.le_of_not_lt hascii), toUpper_of_le (Nat.le_of_not_lt hascii)]

theorem isTokenByte_ofNat {c : Char} (h : c.toNat < 128) :
    isTokenByte (UInt8.ofNat c.toNat) = isTokenChar c := by
  have hvalue : (UInt8.ofNat c.toNat).toNat = c.toNat := by
    rw [UInt8.toNat_ofNat']
    omega
  rw [isTokenByte, hvalue, Char.ofNat_toNat]

theorem lt_of_isTokenByte {b : UInt8} (h : isTokenByte b) : b.toNat < 128 := by
  have hbytes : ∀ n, n < 256 → isTokenChar (Char.ofNat n) → n < 128 := by decide +kernel
  exact hbytes b.toNat b.toNat_lt h

/-- The code of a character beyond ASCII has a byte beyond ASCII. -/
theorem exists_le_of_le {c : Char} (h : 128 ≤ c.toNat) : ∃ b ∈ String.utf8EncodeChar c, 128 ≤ b.toNat := by
  have hlong : ¬c.val.toNat ≤ 127 := Nat.not_le_of_lt h
  unfold String.utf8EncodeChar
  simp only [if_neg hlong]
  split_ifs <;> exact ⟨_, List.mem_cons_self, by rw [UInt8.toNat_ofNat']; omega⟩

/-- The bytes of a character are all those of tokens if the character may stand in one. -/
theorem forall_isTokenByte_iff (c : Char) :
    (∀ b ∈ String.utf8EncodeChar c, isTokenByte b) ↔ isTokenChar c := by
  by_cases hascii : c.toNat < 128
  · have hencode : String.utf8EncodeChar c = [UInt8.ofNat c.toNat] := if_pos (Nat.le_of_lt_succ hascii)
    rw [hencode]
    simp [isTokenByte_ofNat hascii]
  · obtain ⟨b, hb, hbeyond⟩ := exists_le_of_le (Nat.le_of_not_lt hascii)
    refine iff_of_false ?_ fun h => hascii (lt_of_isTokenChar h)
    intro hall
    have hbelow := lt_of_isTokenByte (hall b hb)
    omega

theorem mem_toUTF8_iff {s : String} {b : UInt8} :
    b ∈ s.toUTF8.data ↔ ∃ c ∈ s.toList, b ∈ String.utf8EncodeChar c := by
  have hbytes : s.toUTF8 = (s.toList.flatMap String.utf8EncodeChar).toByteArray :=
    String.utf8Encode_toList.symm
  rw [hbytes, List.data_toByteArray, List.mem_toArray, List.mem_flatMap]

/-! ## Methods -/

namespace Policy

variable {p : Policy} {q : PolicySnapshot}

/-- Whether the method, without blanks at its ends, has a byte that no token has. -/
def MethodIsInvalid (p : Policy) : Prop :=
  Text.trim p.method ≠ "" ∧ ∃ b ∈ (Text.trim p.method).toUTF8.data, ¬isTokenByte b

theorem methodIsInvalid_iff : p.MethodIsInvalid ↔ ∃ c ∈ (Text.trim p.method).toList, ¬isTokenChar c := by
  have hbytes : (∃ b ∈ (Text.trim p.method).toUTF8.data, ¬isTokenByte b)
      ↔ ∃ c ∈ (Text.trim p.method).toList, ¬isTokenChar c := by
    simp only [← forall_isTokenByte_iff, mem_toUTF8_iff, not_forall, exists_prop]
    constructor
    · rintro ⟨b, ⟨c, hc, hb⟩, hbad⟩
      exact ⟨c, hc, b, hb, hbad⟩
    · rintro ⟨c, hc, b, hb, hbad⟩
      exact ⟨b, ⟨c, hc, hb⟩, hbad⟩
  rw [MethodIsInvalid, hbytes, and_iff_right_iff_imp]
  rintro ⟨c, hc, -⟩ hempty
  rw [hempty] at hc
  cases hc

/-- The method of a policy whose method is a token. -/
def methodOrGet (p : Policy) : String :=
  if (Text.trim p.method).isEmpty then "GET" else (Text.trim p.method).map Char.toUpper

theorem effectiveMethod?_eq (p : Policy) :
    p.effectiveMethod?
      = if (Text.trim p.method).toList.all isTokenChar then some p.methodOrGet else none := by
  have hcapitals : ((Text.trim p.method).map Char.toUpper).toList.all isTokenChar
      = (Text.trim p.method).toList.all isTokenChar := by
    rw [String.toList_map, List.all_map]
    exact congrArg _ (funext isTokenChar_toUpper)
  simp only [effectiveMethod?, methodOrGet, hcapitals]
  by_cases hempty : (Text.trim p.method).isEmpty
  · rw [String.isEmpty_iff.mp hempty]
    rfl
  · simp only [hempty, if_false, Bool.false_eq_true]

theorem effectiveMethod?_eq_none_iff : p.effectiveMethod? = none ↔ p.MethodIsInvalid := by
  rw [methodIsInvalid_iff, effectiveMethod?_eq]
  simp

theorem effectiveMethod?_eq_some {method : String} (h : p.effectiveMethod? = some method) :
    method = p.methodOrGet ∧ ∀ c ∈ (Text.trim p.method).toList, isTokenChar c := by
  rw [effectiveMethod?_eq] at h
  split at h
  · rename_i hall
    exact ⟨(Option.some.inj h).symm, List.all_eq_true.mp hall⟩
  · cases h

/-! ## Snapshots -/

/-- **Only an invalid method keeps a policy from having a snapshot**, and it is named as it was stored. -/
theorem snapshot_eq_error_iff {e : PolicyError} :
    p.snapshot = .error e ↔ p.MethodIsInvalid ∧ e = .unsupportedMethod p.method := by
  rw [← effectiveMethod?_eq_none_iff]
  unfold snapshot
  cases p.effectiveMethod? with
  | none => simp [eq_comm]
  | some method => simp

end Policy

namespace PolicySnapshot

/-- What a snapshot looks like, whatever the policy. -/
structure IsNormal (q : PolicySnapshot) : Prop where
  urlTemplate : q.urlTemplate ≠ "" ∧ Text.trim q.urlTemplate = q.urlTemplate
  method : q.method ≠ "" ∧ ∀ c ∈ q.method.toList, isTokenChar c ∧ c.toUpper = c
  userAgent : q.userAgent ≠ ""
  timeout : 1 ≤ q.timeout
  maxAttempts : 1 ≤ q.maxAttempts ∧ q.maxAttempts ≤ 10
  tryDelay : q.tryDelay ≤ 60000
  successThreshold : 1 ≤ q.successThreshold
  failThreshold : 1 ≤ q.failThreshold

/-- Whether a snapshot grants what a policy asks for, with the defaults where it does not ask and within the
limits where it asks for too much. -/
structure Follows (q : PolicySnapshot) (p : Policy) : Prop where
  urlTemplate : q.urlTemplate = if Text.trim p.url = "" then "http://$\x7bhost\x7d/" else Text.trim p.url
  method : q.method
    = if Text.trim p.method = "" then "GET" else (Text.trim p.method).map Char.toUpper
  statusCodes : q.statusCodes = p.statusCodes
  userAgent : q.userAgent = if p.userAgent = "" then
      "Mozilla/5.0 (Macintosh; Intel Mac OS X 10_15_7) AppleWebKit/537.36 (KHTML, like Gecko) "
        ++ "Chrome/94.0.4606.81 Safari/537.36"
    else p.userAgent
  timeout : q.timeout = if p.timeoutMs.getD 0 = 0 then 5000 else p.timeoutMs.getD 0
  maxAttempts : (q.maxAttempts.toNat : Int)
    = if p.maxAttempts.toInt < 1 then 3 else min p.maxAttempts.toInt 10
  tryDelay : q.tryDelay.toNat = min (p.tryDelayMs.getD 1000).toNat 60000
  successThreshold : q.successThreshold.toNat = max p.countUp.toNat 1
  failThreshold : q.failThreshold.toNat = max p.countDown.toNat 1
  autoDown : q.autoDown = p.autoDown
  /-- What it says in base64 is whether only the basic request is asked for. -/
  marker : q.marker = if p.onlyBasicRequest then "eyJvbmx5QmFzaWNSZXF1ZXN0Ijp0cnVlfQ=="
    else "eyJvbmx5QmFzaWNSZXF1ZXN0IjpmYWxzZX0="

/-- The policy that asks for just what a snapshot says. -/
def toPolicy (q : PolicySnapshot) (onlyBasicRequest : Bool) : Policy where
  url := q.urlTemplate
  method := q.method
  statusCodes := q.statusCodes
  userAgent := q.userAgent
  timeoutMs := some q.timeout
  maxAttempts := Int64.ofNat q.maxAttempts.toNat
  tryDelayMs := some q.tryDelay
  countUp := q.successThreshold
  countDown := q.failThreshold
  autoDown := q.autoDown
  onlyBasicRequest := onlyBasicRequest

end PolicySnapshot

/-! ## Limits -/

theorem toNat_clampAttempts (n : Int64) :
    ((clampAttempts n).toNat : Int) = if n.toInt < 1 then 3 else min n.toInt 10 := by
  have hone : n < 1 ↔ n.toInt < 1 := Int64.lt_iff_toInt_lt
  have hten : 10 < n ↔ 10 < n.toInt := Int64.lt_iff_toInt_lt
  rw [clampAttempts]
  simp only [hone, hten]
  split
  · rfl
  · split
    · rw [Int.min_eq_right (by omega)]
      rfl
    · rw [UInt32.toNat_ofNat']
      omega

theorem clampAttempts_bounds (n : Int64) : 1 ≤ (clampAttempts n).toNat ∧ (clampAttempts n).toNat ≤ 10 := by
  have hvalue := toNat_clampAttempts n
  split at hvalue <;> omega

/-- A number of attempts within the limits is kept. -/
theorem clampAttempts_ofNat {n : UInt32} (hlow : 1 ≤ n) (hhigh : n ≤ 10) :
    clampAttempts (Int64.ofNat n.toNat) = n := by
  have hvalues : ∀ k ≤ 10, 1 ≤ k → clampAttempts (Int64.ofNat k) = UInt32.ofNat k := by decide
  rw [hvalues n.toNat (UInt32.le_iff_toNat_le.mp hhigh) (UInt32.le_iff_toNat_le.mp hlow),
    UInt32.ofNat_toNat]

theorem effectiveTimeout_eq (ms : Option UInt64) :
    effectiveTimeout ms = if ms.getD 0 = 0 then 5000 else ms.getD 0 := by
  cases ms <;> rfl

theorem one_le_effectiveTimeout (ms : Option UInt64) : 1 ≤ effectiveTimeout ms := by
  rw [effectiveTimeout_eq]
  split
  · decide
  · rename_i hne
    exact UInt64.le_iff_toNat_le.mpr (Nat.pos_of_ne_zero fun he => hne (UInt64.toNat_inj.mp he))

theorem effectiveTimeout_of_le {ms : UInt64} (h : 1 ≤ ms) : effectiveTimeout (some ms) = ms := by
  rw [effectiveTimeout, if_neg]
  rintro rfl
  exact absurd h (by decide)

theorem clampDelay_eq (ms : Option UInt64) :
    clampDelay ms = if ms.getD 1000 ≤ 60000 then ms.getD 1000 else 60000 :=
  rfl

theorem toNat_clampDelay (ms : Option UInt64) :
    (clampDelay ms).toNat = min (ms.getD 1000).toNat 60000 := by
  rw [clampDelay_eq]
  split
  · rename_i hle
    exact (Nat.min_eq_left (UInt64.le_iff_toNat_le.mp hle)).symm
  · rename_i hlt
    have hlt := UInt64.lt_iff_toNat_lt.mp (UInt64.not_le.mp hlt)
    exact (Nat.min_eq_right (Nat.le_of_lt hlt)).symm

theorem clampDelay_le (ms : Option UInt64) : clampDelay ms ≤ 60000 := by
  rw [UInt64.le_iff_toNat_le, toNat_clampDelay]
  exact Nat.min_le_right _ _

theorem clampDelay_of_le {ms : UInt64} (h : ms ≤ 60000) : clampDelay (some ms) = ms := by
  rw [clampDelay_eq]
  exact if_pos h

theorem one_le_atLeastOne (n : UInt32) : 1 ≤ atLeastOne n := by
  rw [UInt32.le_iff_toNat_le, toNat_atLeastOne]
  exact Nat.le_max_right _ _

theorem atLeastOne_of_le {n : UInt32} (h : 1 ≤ n) : atLeastOne n = n := by
  rw [atLeastOne, if_neg]
  rintro rfl
  exact absurd h (by decide)

/-! ## The normal form -/

namespace Policy

variable {p : Policy} {q : PolicySnapshot}

/-- What a snapshot holds. -/
theorem snapshot_eq_ok (h : p.snapshot = .ok q) :
    (∀ c ∈ (Text.trim p.method).toList, isTokenChar c)
      ∧ q = { urlTemplate := p.urlTemplate
              method := p.methodOrGet
              statusCodes := p.statusCodes
              userAgent := if p.userAgent.isEmpty then defaultUserAgent else p.userAgent
              timeout := effectiveTimeout p.timeoutMs
              maxAttempts := clampAttempts p.maxAttempts
              tryDelay := clampDelay p.tryDelayMs
              successThreshold := atLeastOne p.countUp
              failThreshold := atLeastOne p.countDown
              autoDown := p.autoDown
              marker := markerValue p.onlyBasicRequest } := by
  unfold snapshot at h
  cases hmethod : p.effectiveMethod? with
  | none =>
    rw [hmethod] at h
    cases h
  | some method =>
    obtain ⟨hget, htoken⟩ := effectiveMethod?_eq_some hmethod
    rw [hmethod, hget] at h
    exact ⟨htoken, (Except.ok.inj h).symm⟩

theorem markerValue_eq (onlyBasicRequest : Bool) :
    markerValue onlyBasicRequest = if onlyBasicRequest then "eyJvbmx5QmFzaWNSZXF1ZXN0Ijp0cnVlfQ=="
      else "eyJvbmx5QmFzaWNSZXF1ZXN0IjpmYWxzZX0=" := by
  cases onlyBasicRequest <;> decide +kernel

/-- **A snapshot follows its policy**, field by field. -/
theorem follows_of_snapshot (h : p.snapshot = .ok q) : q.Follows p := by
  obtain ⟨-, rfl⟩ := snapshot_eq_ok h
  constructor <;> dsimp only
  case urlTemplate => exact if_congr String.isEmpty_iff rfl rfl
  case method => exact if_congr String.isEmpty_iff rfl rfl
  case userAgent => exact if_congr String.isEmpty_iff rfl rfl
  case timeout => exact effectiveTimeout_eq p.timeoutMs
  case maxAttempts => exact toNat_clampAttempts p.maxAttempts
  case tryDelay => exact toNat_clampDelay p.tryDelayMs
  case successThreshold => exact toNat_atLeastOne p.countUp
  case failThreshold => exact toNat_atLeastOne p.countDown
  case marker => exact markerValue_eq p.onlyBasicRequest

theorem urlTemplate_ne_empty (p : Policy) : p.urlTemplate ≠ "" := by
  unfold urlTemplate
  by_cases hempty : (Text.trim p.url).isEmpty
  · simp only [hempty, if_true]
    decide
  · simp only [hempty, if_false, Bool.false_eq_true]
    exact fun he => hempty (String.isEmpty_iff.mpr he)

theorem trim_urlTemplate (p : Policy) : Text.trim p.urlTemplate = p.urlTemplate := by
  unfold urlTemplate
  by_cases hempty : (Text.trim p.url).isEmpty
  · simp only [hempty, if_true]
    decide +kernel
  · simp only [hempty, if_false, Bool.false_eq_true]
    exact Text.trim_trim p.url

theorem methodOrGet_ne_empty (p : Policy) : p.methodOrGet ≠ "" := by
  unfold methodOrGet
  split
  · decide
  · rename_i hne
    intro hempty
    have hlist : (Text.trim p.method).toList.map Char.toUpper = [] := by
      rw [← String.toList_map, hempty]
      rfl
    rw [List.map_eq_nil_iff, String.toList_eq_nil_iff] at hlist
    exact hne (String.isEmpty_iff.mpr hlist)

/-- A method that is a token consists of token characters, none of which has another capital. -/
theorem mem_methodOrGet (h : ∀ c ∈ (Text.trim p.method).toList, isTokenChar c) {c : Char}
    (hc : c ∈ p.methodOrGet.toList) : isTokenChar c ∧ c.toUpper = c := by
  unfold methodOrGet at hc
  split at hc
  · have hget : "GET".toList.all fun c => isTokenChar c ∧ c.toUpper = c := by decide
    exact of_decide_eq_true (List.all_eq_true.mp hget c hc)
  · rw [String.toList_map] at hc
    obtain ⟨d, hd, rfl⟩ := List.mem_map.mp hc
    rw [isTokenChar_toUpper, toUpper_toUpper]
    exact ⟨h d hd, rfl⟩

/-- A template without blanks at its ends is kept. -/
theorem urlTemplate_of_trim (hne : p.url ≠ "") (htrim : Text.trim p.url = p.url) :
    p.urlTemplate = p.url := by
  have hempty : ¬p.url.isEmpty := fun h => hne (String.isEmpty_iff.mp h)
  simp only [urlTemplate, htrim, hempty, if_false, Bool.false_eq_true]

/-- A token in capitals is kept: there are no blanks in it to cut off. -/
theorem effectiveMethod?_of_token (hne : p.method ≠ "")
    (htoken : ∀ c ∈ p.method.toList, isTokenChar c ∧ c.toUpper = c) :
    p.effectiveMethod? = some p.method := by
  have hempty : ¬p.method.isEmpty := fun h => hne (String.isEmpty_iff.mp h)
  have htrim : Text.trim p.method = p.method :=
    Text.trim_of_forall fun c hc => isBlank_of_isTokenChar (htoken c hc).1
  have hcapitals : p.method.map Char.toUpper = p.method := by
    rw [← String.toList_inj, String.toList_map]
    exact (List.map_congr_left fun c hc => (htoken c hc).2).trans (List.map_id _)
  rw [effectiveMethod?_eq, methodOrGet, htrim, if_neg hempty, hcapitals]
  exact if_pos (List.all_eq_true.mpr fun c hc => (htoken c hc).1)

theorem isNormal_of_snapshot (h : p.snapshot = .ok q) : q.IsNormal := by
  obtain ⟨htoken, rfl⟩ := snapshot_eq_ok h
  -- the projections go first, or the texts would be computed
  constructor <;> dsimp only
  case urlTemplate => exact ⟨urlTemplate_ne_empty p, trim_urlTemplate p⟩
  case method => exact ⟨methodOrGet_ne_empty p, fun c hc => mem_methodOrGet htoken hc⟩
  case userAgent =>
    split
    · decide
    · rename_i hne
      exact fun he => hne (String.isEmpty_iff.mpr he)
  case timeout => exact one_le_effectiveTimeout p.timeoutMs
  case maxAttempts =>
    obtain ⟨hlow, hhigh⟩ := clampAttempts_bounds p.maxAttempts
    exact ⟨UInt32.le_iff_toNat_le.mpr hlow, UInt32.le_iff_toNat_le.mpr hhigh⟩
  case tryDelay => exact clampDelay_le p.tryDelayMs
  case successThreshold => exact one_le_atLeastOne p.countUp
  case failThreshold => exact one_le_atLeastOne p.countDown

end Policy

namespace PolicySnapshot

variable {q : PolicySnapshot}

/-- **A normal form is its own snapshot.** -/
theorem snapshot_toPolicy (hq : q.IsNormal) {onlyBasicRequest : Bool}
    (hmarker : q.marker = markerValue onlyBasicRequest) :
    (q.toPolicy onlyBasicRequest).snapshot = .ok q := by
  have hmethod : (q.toPolicy onlyBasicRequest).effectiveMethod? = some q.method :=
    Policy.effectiveMethod?_of_token hq.method.1 hq.method.2
  have hurl : (q.toPolicy onlyBasicRequest).urlTemplate = q.urlTemplate :=
    Policy.urlTemplate_of_trim hq.urlTemplate.1 hq.urlTemplate.2
  have hagent : (if (q.toPolicy onlyBasicRequest).userAgent.isEmpty then defaultUserAgent
      else (q.toPolicy onlyBasicRequest).userAgent) = q.userAgent :=
    if_neg fun h => hq.userAgent (String.isEmpty_iff.mp h)
  rw [Policy.snapshot, hmethod, hurl, hagent]
  simp only [toPolicy, effectiveTimeout_of_le hq.timeout,
    clampAttempts_ofNat hq.maxAttempts.1 hq.maxAttempts.2, clampDelay_of_le hq.tryDelay,
    atLeastOne_of_le hq.successThreshold, atLeastOne_of_le hq.failThreshold, ← hmarker]

/-- The thresholds of a normal form are those of its tracker. -/
theorem tracker_eq (hq : q.IsNormal) :
    q.tracker = ⟨q.successThreshold, q.failThreshold, q.autoDown⟩ := by
  rw [tracker, Tracker.ofThresholds, atLeastOne_of_le hq.successThreshold,
    atLeastOne_of_le hq.failThreshold]

end PolicySnapshot

/-- **A snapshot is a normal form.** Only an invalid method keeps a policy from having one, and is named
as it was stored; otherwise it follows the policy, everything in it is within its limits, written back it
is its own snapshot, and the tracker judges by just its thresholds. -/
theorem Policy.snapshot_is_normal_form (p : Policy) :
    ((∃ e, p.snapshot = .error e) ↔ p.MethodIsInvalid)
      ∧ (∀ e, p.snapshot = .error e → e.message = s!"unsupported method '{p.method}'")
      ∧ ∀ q, p.snapshot = .ok q →
        q.Follows p ∧ q.IsNormal ∧ (q.toPolicy p.onlyBasicRequest).snapshot = .ok q
          ∧ q.tracker = ⟨q.successThreshold, q.failThreshold, q.autoDown⟩ := by
  refine ⟨?_, ?_, ?_⟩
  · constructor
    · rintro ⟨e, he⟩
      exact (snapshot_eq_error_iff.mp he).1
    · intro hinvalid
      exact ⟨_, snapshot_eq_error_iff.mpr ⟨hinvalid, rfl⟩⟩
  · intro e he
    rw [(snapshot_eq_error_iff.mp he).2]
    rfl
  · intro q hq
    have hnormal : q.IsNormal := isNormal_of_snapshot hq
    have hmarker : q.marker = markerValue p.onlyBasicRequest := by
      rw [(snapshot_eq_ok hq).2]
    exact ⟨follows_of_snapshot hq, hnormal, PolicySnapshot.snapshot_toPolicy hnormal hmarker,
      PolicySnapshot.tracker_eq hnormal⟩

/-- A policy that is not in normal form. -/
def untidyPolicy : Policy where
  url := " "
  method := "\u3000head "
  timeoutMs := some 0
  maxAttempts := 500
  tryDelayMs := some 90000
  countUp := 0
  countDown := 2
  autoDown := true

/-- Its snapshot has all of it in order. -/
theorem Policy.snapshot_is_normal_form_untidy : ∃ q, untidyPolicy.snapshot = .ok q
    ∧ q.Follows untidyPolicy ∧ q.IsNormal ∧ (q.toPolicy false).snapshot = .ok q ∧ q.tracker = ⟨1, 2, true⟩
    ∧ q.urlTemplate = "http://$\x7bhost\x7d/" ∧ q.method = "HEAD" ∧ q.timeout = 5000
    ∧ q.maxAttempts = 10 ∧ q.tryDelay = 60000 := by
  obtain ⟨hfails, -, hall⟩ := snapshot_is_normal_form untidyPolicy
  cases hq : untidyPolicy.snapshot with
  | error e =>
    have hmethod : untidyPolicy.effectiveMethod? = some "HEAD" := by decide +kernel
    rw [effectiveMethod?_eq_none_iff.mpr (hfails.mp ⟨e, hq⟩)] at hmethod
    cases hmethod
  | ok q =>
    obtain ⟨hfollows, hnormal, hagain, htracker⟩ := hall q hq
    obtain ⟨-, rfl⟩ := snapshot_eq_ok hq
    exact ⟨_, rfl, hfollows, hnormal, hagain, htracker, by decide +kernel, by decide +kernel, rfl, rfl, rfl⟩

-- a method between blanks of either kind
example : ({ method := "\u3000head " } : Policy).effectiveMethod? = some "HEAD" := by decide +kernel

end FleetHealth
