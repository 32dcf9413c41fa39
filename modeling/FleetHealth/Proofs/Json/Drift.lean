import FleetHealth.Proofs.Json.Faithful
/-!
# Texts of other versions

A text that another version of the program wrote need not be the one that is written here. Its members
may stand in another order, some of them may be unknown, and a field that had not been invented yet is
missing. `FieldForm` says of one field of a record what such a text may do with it, `Drifted` and
`Broken` what it may do with the whole record. None of them looks at how records are read.

* `Codec.Honours` — a codec reads what may be written for a value and refuses what may not.
* `Codec.honours_record` — records, by their fields.
* `Codec.tolerates` — what a codec honours in a value it honours in every text that spells the value.
-/

namespace FleetHealth

variable {α β ρ τ : Type}

/-! ## What may be written -/

/-- The JSON values that may be written for the values of a type, and those that must be refused. -/
structure Form (α : Type) where
  Writes : α → Json → Prop
  Refuses : Json → Prop

namespace Form

/-- Values that are written in one way and are never absent. -/
def plain (c : Codec α) : Form α where
  Writes a v := v = c.encode a
  Refuses v := v = .null

/-- Values that may be absent, which `null` stands for. -/
def option (form : Form α) : Form (Option α) where
  Writes
    | none, v => v = .null
    | some a, v => form.Writes a v
  Refuses v := v ≠ .null ∧ form.Refuses v

end Form

/-- A field of the records of a type: its name, how its values are written, and what stands for it when
it is left out. -/
structure FieldForm (ρ : Type) where
  name : String
  {α : Type}
  get : ρ → α
  form : Form α
  /-- What the field holds when it is left out, unless it must not be. -/
  default? : Option α

namespace FieldForm

/-- A field that must be written. -/
def required (name : String) (get : ρ → α) (form : Form α) : FieldForm ρ :=
  ⟨name, get, form, none⟩

/-- A field that may be left out for a default. -/
def defaulted (name : String) (get : ρ → α) (form : Form α) (default : α) : FieldForm ρ :=
  ⟨name, get, form, some default⟩

/-- A field whose value may be absent, and which may then be left out. -/
def optional (name : String) (get : ρ → Option α) (form : Form α) : FieldForm ρ :=
  ⟨name, get, form.option, some none⟩

end FieldForm

/-- The members for the fields of a record, in the order of the fields. A field that holds its default
is written or left out, every other one is written. -/
inductive Written (r : ρ) : List (FieldForm ρ) → List (String × Json) → Prop
  | nil : Written r [] []
  | write {f : FieldForm ρ} {fs : List (FieldForm ρ)} {v : Json} {members : List (String × Json)}
    (hf : f.form.Writes (f.get r) v) (h : Written r fs members) :
    Written r (f :: fs) ((f.name, v) :: members)
  | leave {f : FieldForm ρ} {fs : List (FieldForm ρ)} {members : List (String × Json)}
    (hf : f.default? = some (f.get r)) (h : Written r fs members) : Written r (f :: fs) members

/-- The members of an object for a record: those for its fields, in any order and among any others that
have no field's name. -/
def Drifted (fs : List (FieldForm ρ)) (r : ρ) (members : List (String × Json)) : Prop :=
  ∃ written extra, Written r fs written ∧ (∀ m ∈ extra, ∀ f ∈ fs, m.1 ≠ f.name)
    ∧ members.Perm (written ++ extra)

/-- The members of an object that stands for no record of a type. -/
inductive Broken (fs : List (FieldForm ρ)) (members : List (Option String × Json)) : Prop
  /-- A name without characters. -/
  | nameless {v : Json} (h : (none, v) ∈ members)
  /-- A field that must be written is missing. -/
  | missing {f : FieldForm ρ} (hf : f ∈ fs) (hdefault : f.default? = none)
    (h : ∀ v, (some f.name, v) ∉ members)
  /-- A field is written twice. -/
  | repeated {f : FieldForm ρ} (hf : f ∈ fs) (h : 2 ≤ members.countP (·.1 == some f.name))
  /-- A field is written with a value that must be refused, `null` for instance. -/
  | refused {f : FieldForm ρ} {v : Json} (hf : f ∈ fs) (hv : f.form.Refuses v)
    (h : (some f.name, v) ∈ members)

/-- Records, embedded or not. -/
def Form.record (fs : List (FieldForm ρ)) : Form ρ where
  Writes r v := ∃ members, v = Json.ofMembers members ∧ Drifted fs r members
  Refuses v := v = .null ∨ ∃ members, v = .obj members ∧ Broken fs members

/-! ## What codecs read -/

/-- A codec honours a form if it reads what may be written for a value as that value, and reads nothing
that must be refused. -/
class Codec.Honours (c : Codec α) (form : Form α) : Prop where
  reads : ∀ a v, form.Writes a v → c.decode v = some a
  refuses : ∀ v, form.Refuses v → c.decode v = none

/-- A codec is strict if it does not read `null`. -/
class Codec.Strict (c : Codec α) : Prop where
  decode_null : c.decode .null = none

namespace Codec

instance : Codec.bool.Strict := ⟨rfl⟩

instance : Codec.string.Strict := ⟨rfl⟩

instance : uint16.Strict := ⟨rfl⟩

instance : uint32.Strict := ⟨rfl⟩

instance : uint64.Strict := ⟨rfl⟩

instance : int32.Strict := ⟨rfl⟩

instance : int64.Strict := ⟨rfl⟩

instance (c : Codec α) : (Codec.list c).Strict := ⟨rfl⟩

instance (bare : Json → Bool) (name : α → String) (values : List α) :
    (choice bare name values).Strict := ⟨rfl⟩

instance (fields : Fields τ) (toTuple : ρ → τ) (ofTuple : τ → ρ) :
    (Codec.record fields toTuple ofTuple).Strict := ⟨rfl⟩

instance (c : Codec α) [c.Faithful] [c.Strict] : c.Honours (.plain c) where
  reads := by
    rintro a _ rfl
    exact Faithful.decode_encode a
  refuses := by
    rintro _ rfl
    exact Strict.decode_null

instance (c : Codec α) (form : Form α) [c.Honours form] [c.Strict] :
    (Codec.option c).Honours form.option where
  reads := by
    intro a v hv
    cases a with
    | none =>
      cases hv
      rfl
    | some a =>
      have hread : c.decode v = some a := Honours.reads a v hv
      simp only [Codec.option]
      split
      · -- a strict codec reads no value from `null`
        rw [Strict.decode_null] at hread
        cases hread
      · rw [hread]
        rfl
  refuses := by
    rintro v ⟨hnull, hv⟩
    have hread : c.decode v = none := Honours.refuses v hv
    simp only [Codec.option, hread]
    rfl

end Codec

/-! ## Fields by fields -/

/-- The members that a codec reads are the fields of a record, in order: each has the name of its field
and a codec that honours its form, and what is read when it is missing is its default. -/
inductive Fields.Realise : {τ : Type} → Fields τ → (ρ → τ) → List (FieldForm ρ) → Prop
  | nil {get : ρ → Unit} : Realise .nil get []
  | cons {α β : Type} {name : String} {codec : Codec α} {absent : Absent α} {rest : Fields β}
    {get : ρ → α × β} {form : Form α} {fs : List (FieldForm ρ)} [codec.Honours form]
    (h : rest.Realise (fun r => (get r).2) fs) :
    Realise (.cons name codec absent rest) get
      (⟨name, fun r => (get r).1, form, absent.ofObject?⟩ :: fs)

/-- Whether exactly what a record has for a field is found among members. -/
def FieldForm.Found (f : FieldForm ρ) (r : ρ) (members : List (String × Json)) : Prop :=
  (members.filter (·.1 == f.name) = [] ∧ f.default? = some (f.get r))
    ∨ ∃ v, members.filter (·.1 == f.name) = [(f.name, v)] ∧ f.form.Writes (f.get r) v

theorem exists_field_of_mem_written {r : ρ} {fs : List (FieldForm ρ)} {written : List (String × Json)}
    (h : Written r fs written) {m : String × Json} (hm : m ∈ written) : ∃ f ∈ fs, m.1 = f.name := by
  induction h with
  | nil => cases hm
  | write _ _ ih =>
    rcases List.mem_cons.mp hm with rfl | hm
    · exact ⟨_, List.mem_cons_self, rfl⟩
    · obtain ⟨f, hf, hname⟩ := ih hm
      exact ⟨f, List.mem_cons_of_mem _ hf, hname⟩
  | leave _ _ ih =>
    obtain ⟨f, hf, hname⟩ := ih hm
    exact ⟨f, List.mem_cons_of_mem _ hf, hname⟩

theorem found_of_written {r : ρ} {fs : List (FieldForm ρ)} {written : List (String × Json)}
    (h : Written r fs written) (hnames : (fs.map (·.name)).Nodup) :
    ∀ f ∈ fs, f.Found r written := by
  -- the members of the other fields have other names
  have hothers : ∀ {f : FieldForm ρ} {fs : List (FieldForm ρ)} {members : List (String × Json)},
      Written r fs members → f.name ∉ fs.map (·.name) →
        members.filter (·.1 == f.name) = [] := by
    intro f fs members hmembers hname
    refine Fields.filter_name_eq_nil fun m hm he => hname ?_
    obtain ⟨g, hg, hgname⟩ := exists_field_of_mem_written hmembers hm
    exact List.mem_map.mpr ⟨g, hg, hgname.symm.trans he⟩
  induction h with
  | nil => simp
  | @write f fs v members hf h ih =>
    rw [List.map_cons, List.nodup_cons] at hnames
    rw [List.forall_mem_cons]
    refine ⟨.inr ⟨v, by simp [hothers h hnames.1], hf⟩, ?_⟩
    intro g hg
    have hne : (f.name == g.name) = false :=
      beq_eq_false_iff_ne.mpr fun he => hnames.1 (List.mem_map.mpr ⟨g, hg, he.symm⟩)
    simpa [FieldForm.Found, hne] using ih hnames.2 g hg
  | leave hf h ih =>
    rw [List.map_cons, List.nodup_cons] at hnames
    rw [List.forall_mem_cons]
    exact ⟨.inl ⟨hothers h hnames.1, hf⟩, ih hnames.2⟩

theorem found_of_drifted {r : ρ} {fs : List (FieldForm ρ)} {members : List (String × Json)}
    (hnames : (fs.map (·.name)).Nodup) (h : Drifted fs r members) : ∀ f ∈ fs, f.Found r members := by
  obtain ⟨written, extra, hwritten, hextra, hperm⟩ := h
  intro f hf
  have hfilter : (members.filter (·.1 == f.name)).Perm (written.filter (·.1 == f.name)) := by
    have hnone := Fields.filter_name_eq_nil fun m hm => hextra m hm f hf
    simpa [List.filter_append, hnone] using hperm.filter (·.1 == f.name)
  rcases found_of_written hwritten hnames f hf with ⟨hnil, hdefault⟩ | ⟨v, hone, hv⟩
  · exact .inl ⟨List.perm_nil.mp (hnil ▸ hfilter), hdefault⟩
  · exact .inr ⟨v, List.perm_singleton.mp (hone ▸ hfilter), hv⟩

namespace Fields

theorem decodeMembers_of_found {fields : Fields τ} {get : ρ → τ} {fs : List (FieldForm ρ)}
    (h : fields.Realise get fs) {r : ρ} {members : List (String × Json)}
    (hfound : ∀ f ∈ fs, f.Found r members) : fields.decodeMembers members = some (get r) := by
  induction h with
  | nil => rfl
  | @cons _ _ name codec absent rest get form fs _ _ ih =>
    rw [List.forall_mem_cons] at hfound
    have hmember : decodeMember codec absent name members = some (get r).1 := by
      unfold decodeMember
      rcases hfound.1 with ⟨hnil, hdefault⟩ | ⟨v, hone, hv⟩
      · rw [hnil]
        exact hdefault
      · rw [hone]
        exact Codec.Honours.reads _ v hv
    simp only [decodeMembers, hmember, ih hfound.2]
    rfl

theorem decodeMember_of_missing (codec : Codec α) {absent : Absent α} {name : String}
    {members : List (String × Json)} (habsent : absent.ofObject? = none)
    (h : ∀ v, (name, v) ∉ members) : decodeMember codec absent name members = none := by
  have hnil : members.filter (·.1 == name) = [] :=
    filter_name_eq_nil fun m hm he => h m.2 (he ▸ hm)
  rw [decodeMember, hnil]
  exact habsent

theorem decodeMember_of_repeated (codec : Codec α) (absent : Absent α) {name : String}
    {members : List (String × Json)} (h : 2 ≤ members.countP (·.1 == name)) :
    decodeMember codec absent name members = none := by
  rw [List.countP_eq_length_filter] at h
  unfold decodeMember
  split
  · simp_all
  · simp_all
  · rfl

theorem decodeMember_of_refused {codec : Codec α} (absent : Absent α) {name : String} {v : Json}
    {members : List (String × Json)} (hv : codec.decode v = none) (h : (name, v) ∈ members) :
    decodeMember codec absent name members = none := by
  have hmem : (name, v) ∈ members.filter (·.1 == name) := List.mem_filter.mpr ⟨h, beq_self_eq_true _⟩
  unfold decodeMember
  split
  · simp_all
  · rename_i m hone
    rw [hone, List.mem_singleton] at hmem
    rw [← hmem]
    exact hv
  · rfl

theorem decodeMembers_of_broken {fields : Fields τ} {get : ρ → τ} {fs : List (FieldForm ρ)}
    (h : fields.Realise get fs) {members : List (String × Json)}
    (hbroken : Broken fs (members.map fun m => (some m.1, m.2))) :
    fields.decodeMembers members = none := by
  induction h with
  | nil => cases hbroken <;> simp_all
  | @cons _ _ name codec absent rest get form fs _ _ ih =>
    -- either this field is broken or one of the others
    by_cases hrest : Broken fs (members.map fun m => (some m.1, m.2))
    · simp [decodeMembers, ih hrest]
    have hmember : decodeMember codec absent name members = none := by
      cases hbroken with
      | nameless h => simp at h
      | missing hf hdefault h =>
        rcases List.mem_cons.mp hf with rfl | hf
        · exact decodeMember_of_missing codec hdefault (by simpa using h)
        · exact absurd (.missing hf hdefault h) hrest
      | repeated hf h =>
        rcases List.mem_cons.mp hf with rfl | hf
        · exact decodeMember_of_repeated codec absent (by simpa [List.countP_map, Function.comp_def] using h)
        · exact absurd (.repeated hf h) hrest
      | refused hf hv h =>
        rcases List.mem_cons.mp hf with rfl | hf
        · exact decodeMember_of_refused absent (Codec.Honours.refuses _ hv) (by simpa using h)
        · exact absurd (.refused hf hv h) hrest
    simp [decodeMembers, hmember]

end Fields

theorem Json.members?_eq_none {members : List (Option String × Json)} {v : Json}
    (h : (none, v) ∈ members) : (Json.obj members).members? = none := by
  simp only [Json.members?]
  induction members with
  | nil => cases h
  | cons m members ih =>
    rcases List.mem_cons.mp h with rfl | h
    · rfl
    · simp [ih h]

theorem Json.eq_map_of_forall_isSome {members : List (Option String × Json)}
    (h : ∀ v, (none, v) ∉ members) :
    ∃ named : List (String × Json), members = named.map fun m => (some m.1, m.2) := by
  induction members with
  | nil => exact ⟨[], rfl⟩
  | cons m members ih =>
    obtain ⟨named, rfl⟩ := ih fun v hv => h v (List.mem_cons_of_mem _ hv)
    obtain ⟨_ | name, v⟩ := m
    · exact absurd List.mem_cons_self (h v)
    · exact ⟨(name, v) :: named, rfl⟩

/-- **Records honour their fields**, however a text has drifted. -/
theorem Codec.honours_record {fields : Fields τ} {fs : List (FieldForm ρ)} {toTuple : ρ → τ}
    {ofTuple : τ → ρ} (hfields : fields.Realise toTuple fs) (hnames : (fs.map (·.name)).Nodup)
    (htuple : ∀ r, ofTuple (toTuple r) = r) :
    (Codec.record fields toTuple ofTuple).Honours (.record fs) where
  reads := by
    rintro r _ ⟨members, rfl, hdrifted⟩
    have hmembers : fields.decodeMembers members = some (toTuple r) :=
      Fields.decodeMembers_of_found hfields (found_of_drifted hnames hdrifted)
    show ((Json.ofMembers members).members?.bind fields.decodeMembers).map ofTuple = some r
    rw [Json.members?_ofMembers, Option.bind_some, hmembers, Option.map_some, htuple]
  refuses := by
    rintro _ (rfl | ⟨members, rfl, hbroken⟩)
    · rfl
    show ((Json.obj members).members?.bind fields.decodeMembers).map ofTuple = none
    by_cases hnamed : ∀ v, (none, v) ∉ members
    · obtain ⟨named, rfl⟩ := Json.eq_map_of_forall_isSome hnamed
      have hmembers := Fields.decodeMembers_of_broken hfields hbroken
      have hnamed := Json.members?_ofMembers named
      rw [Json.ofMembers] at hnamed
      rw [hnamed, Option.bind_some, hmembers, Option.map_none]
    · obtain ⟨v, hv⟩ := not_forall_not.mp hnamed
      rw [Json.members?_eq_none hv, Option.bind_none, Option.map_none]

/-! ## Texts -/

/-- Whether a codec honours a form in every text, whatever its white space, escapes and depth. -/
def Codec.Tolerates (c : Codec α) (form : Form α) : Prop :=
  ∀ text v, Json.Spells text v →
    (∀ a, form.Writes a v → c.read text = some a) ∧ (form.Refuses v → c.read text = none)

theorem Codec.tolerates (c : Codec α) (form : Form α) [c.Honours form] : c.Tolerates form := by
  intro text v hspells
  have hread : c.read text = c.decode v := by
    rw [read, Json.parse_of_spells hspells, Option.bind_some]
  rw [hread]
  exact ⟨fun a => Honours.reads a v, Honours.refuses v⟩

end FleetHealth
