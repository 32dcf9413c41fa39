import FleetHealth.Json.Codec
import FleetHealth.Proofs.Json.RoundTrip
/-!
# Faithful codecs

A codec is faithful if what it writes is read back as it was. The codecs of the library are put together
from a few combinators, each of which keeps faithfulness, so that it is found for a codec by looking at
how it is built.

* `Codec.read_write` — the text of a value is read as that value.
* `Codec.faithful_recordWith` — records, by their fields.
-/

namespace FleetHealth

open Json

variable {α β ρ τ : Type}

/-- A codec is faithful if every value it writes is exact JSON and is read back. -/
class Codec.Faithful (c : Codec α) : Prop where
  exact : ∀ a, (c.encode a).IsExact
  decode_encode : ∀ a, c.decode (c.encode a) = some a

/-- A codec is present if it writes no value as `null`. -/
class Codec.Present (c : Codec α) : Prop where
  encode_ne_null : ∀ a, c.encode a ≠ .null

namespace Codec

open Faithful Present

/-- **A faithful codec reads back what it writes.** -/
theorem read_write (c : Codec α) [c.Faithful] (a : α) : c.read (c.write a) = some a := by
  rw [read, write, parse_compact (exact a), Option.bind_some, decode_encode]

instance : Codec.bool.Faithful :=
  ⟨fun _ => trivial, fun _ => rfl⟩

instance : Codec.string.Faithful :=
  ⟨fun _ => trivial, fun _ => rfl⟩

theorem boundedInt_of_mem {lo hi n : Int} (hlo : lo ≤ n) (hhi : n ≤ hi) :
    boundedInt lo hi (.int n) = some n :=
  if_pos ⟨hlo, hhi⟩

/-- Integers of a machine type are read back if its bounds are those of the codec. -/
theorem faithful_integer {lo hi : Int} {toInt : α → Int} {ofInt : Int → α}
    (hbounds : ∀ a, lo ≤ toInt a ∧ toInt a ≤ hi) (hback : ∀ a, ofInt (toInt a) = a) :
    Faithful ⟨fun a => .int (toInt a), fun v => (boundedInt lo hi v).map ofInt⟩ := by
  refine ⟨fun _ => trivial, ?_⟩
  intro a
  show (boundedInt lo hi (.int (toInt a))).map ofInt = some a
  rw [boundedInt_of_mem (hbounds a).1 (hbounds a).2, Option.map_some, hback]

instance : uint16.Faithful := by
  apply faithful_integer
  · intro n
    have hn := n.toNat_lt
    omega
  · simp

instance : uint32.Faithful := by
  apply faithful_integer
  · intro n
    have hn := n.toNat_lt
    omega
  · simp

instance : uint64.Faithful := by
  apply faithful_integer
  · intro n
    have hn := n.toNat_lt
    omega
  · simp

instance : int32.Faithful := by
  apply faithful_integer
  · intro n
    have hlo := n.le_toInt
    have hhi := n.toInt_lt
    omega
  · simp

instance : int64.Faithful := by
  apply faithful_integer
  · intro n
    have hlo := n.le_toInt
    have hhi := n.toInt_lt
    omega
  · simp

instance : Codec.string.Present := ⟨fun _ => nofun⟩

instance : uint64.Present := ⟨fun _ => nofun⟩

instance (c : Codec α) [c.Faithful] [c.Present] : (Codec.option c).Faithful := by
  constructor
  · intro a
    cases a with
    | none => trivial
    | some a => exact exact (c := c) a
  · intro a
    cases a with
    | none => rfl
    | some a =>
      -- a value of a present codec is never taken for an absent one
      have hdecode := decode_encode (c := c) a
      simp only [Codec.option]
      split
      · exact absurd ‹_› (encode_ne_null (c := c) a)
      · rw [hdecode]
        rfl

instance (c : Codec α) [c.Faithful] : (Codec.list c).Faithful := by
  constructor
  · intro as
    show ItemsExact (as.map c.encode)
    induction as with
    | nil => trivial
    | cons a as ih => exact ⟨exact a, ih⟩
  · intro as
    show (as.map c.encode).mapM c.decode = some as
    induction as with
    | nil => rfl
    | cons a as ih => simp [decode_encode (c := c) a, ih]

/-- Names are read back as long as each value is the first of its name. -/
theorem faithful_choice (bare : Json → Bool) {name : α → String} {values : List α}
    (h : ∀ a, values.find? (name · == name a) = some a) : (choice bare name values).Faithful :=
  ⟨fun _ => trivial, h⟩

end Codec

namespace Fields

/-- The names of the members. -/
def names : {τ : Type} → Fields τ → List String
  | _, .nil => []
  | _, .cons name _ _ rest => name :: rest.names

/-- Fields are faithful if the codec of every member is. -/
class inductive Faithful : {τ : Type} → Fields τ → Prop
  | nil : Faithful .nil
  | cons {α β : Type} {name : String} {codec : Codec α} {absent : Absent α} {rest : Fields β} :
    codec.Faithful → Faithful rest → Faithful (.cons name codec absent rest)

instance : Fields.nil.Faithful := .nil

instance {α β : Type} (name : String) (codec : Codec α) (absent : Absent α) (rest : Fields β)
    [hcodec : codec.Faithful] [hrest : rest.Faithful] : (cons name codec absent rest).Faithful :=
  .cons hcodec hrest

theorem name_mem_names_of_mem_encodeMembers {fs : Fields τ} {x : τ} {m : String × Json}
    (hm : m ∈ fs.encodeMembers x) : m.1 ∈ fs.names := by
  induction fs with
  | nil => simp [encodeMembers] at hm
  | cons name codec absent rest ih =>
    obtain ⟨a, b⟩ := x
    rcases List.mem_cons.mp hm with hm | hm
    · exact hm ▸ List.mem_cons_self
    · exact List.mem_cons_of_mem _ (ih hm)

theorem filter_name_eq_nil {members : List (String × Json)} {name : String}
    (h : ∀ m ∈ members, m.1 ≠ name) : members.filter (·.1 == name) = [] := by
  rw [List.filter_eq_nil_iff]
  intro m hm
  simpa using h m hm

/-- The members of a record are found whatever other members stand before them. -/
theorem decodeMembers_encodeMembers {fs : Fields τ} (hfs : fs.Faithful) (hnames : fs.names.Nodup)
    (x : τ) (before : List (String × Json)) (hbefore : ∀ m ∈ before, m.1 ∉ fs.names) :
    fs.decodeMembers (before ++ fs.encodeMembers x) = some x := by
  induction hfs generalizing before with
  | nil => rfl
  | @cons _ _ name codec absent rest hcodec _ ih =>
    obtain ⟨a, b⟩ := x
    have ⟨hname, hrest⟩ := List.nodup_cons.mp hnames
    have hmember : decodeMember codec absent name
        (before ++ encodeMembers (.cons name codec absent rest) (a, b)) = some a := by
      have hbefore : before.filter (·.1 == name) = [] := filter_name_eq_nil fun m hm he =>
        hbefore m hm (he ▸ List.mem_cons_self)
      have hafter : (rest.encodeMembers b).filter (·.1 == name) = [] := filter_name_eq_nil
        fun m hm he => hname (he ▸ name_mem_names_of_mem_encodeMembers hm)
      rw [decodeMember, List.filter_append, hbefore, encodeMembers]
      simp [hafter, hcodec.decode_encode a]
    -- for the other fields this member is one of those that stand before
    have hothers : rest.decodeMembers
        (before ++ encodeMembers (.cons name codec absent rest) (a, b)) = some b := by
      rw [encodeMembers, List.append_cons]
      apply ih hrest b _
      intro m hm
      rcases List.mem_append.mp hm with hm | hm
      · intro hin
        exact hbefore m hm (List.mem_cons_of_mem _ hin)
      · exact List.mem_singleton.mp hm ▸ hname
    simp only [decodeMembers, hmember, hothers]
    rfl

theorem membersExact_encodeMembers {fs : Fields τ} (hfs : fs.Faithful) (x : τ) :
    MembersExact ((fs.encodeMembers x).map fun m => (some m.1, m.2)) := by
  induction hfs with
  | nil => trivial
  | cons hcodec _ ih => exact ⟨hcodec.exact x.1, ih x.2⟩

end Fields

theorem Json.members?_ofMembers (members : List (String × Json)) :
    (ofMembers members).members? = some members := by
  simp only [ofMembers, members?]
  induction members with
  | nil => rfl
  | cons m members ih => simp [ih]

/-- Records are read back as long as no two members share a name and the tuple says all. -/
theorem Codec.faithful_recordWith (surplus : Bool) {fs : Fields τ} [hfs : fs.Faithful]
    (hnames : fs.names.Nodup) {toTuple : ρ → τ} {ofTuple : τ → ρ} (htuple : ∀ r, ofTuple (toTuple r) = r) :
    (Codec.recordWith surplus fs toTuple ofTuple).Faithful := by
  refine ⟨fun r => Fields.membersExact_encodeMembers hfs (toTuple r), ?_⟩
  intro r
  have hmembers := Fields.decodeMembers_encodeMembers hfs hnames (toTuple r) [] (by simp)
  rw [List.nil_append] at hmembers
  simp only [Codec.recordWith]
  split
  · rename_i h
    cases h
  · rw [members?_ofMembers, Option.bind_some, hmembers, Option.map_some, htuple]

theorem Codec.faithful_record {fs : Fields τ} [fs.Faithful] (hnames : fs.names.Nodup)
    {toTuple : ρ → τ} {ofTuple : τ → ρ} (htuple : ∀ r, ofTuple (toTuple r) = r) :
    (Codec.record fs toTuple ofTuple).Faithful :=
  faithful_recordWith false hnames htuple

end FleetHealth
