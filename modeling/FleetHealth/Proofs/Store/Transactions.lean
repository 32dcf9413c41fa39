import FleetHealth.Proofs.Propagation.Lending
import FleetHealth.Proofs.Store.Health
import FleetHealth.Proofs.Store.Rows
import FleetHealth.Store.Outbox
import Mathlib.Data.List.Induction
/-!
# The transactions of a store

Whoever shares a store goes through transactions, each of which is done in one piece: runs judge health,
lend backups and leave notes for others, and clients store whole records. What a record is after any
sequence of transactions follows from those that concern it: the last one that stored it, and what was
done to its health and its backup since.

* `Commit.record?_node`, `Commit.record?_address` — what one transaction makes of a record.
* `Store.Keeps`, `Store.keeps_foldl` — what a sequence of them makes of it.
* `Store.apply_recordAddress_setBackup` — judging health and lending a backup can be done in either order.
-/

namespace FleetHealth

/-! ## Transactions -/

/-- A transaction of a run. -/
inductive Access where
  | recordAddress (id : UInt64) (t : Tracker) (passed : Bool)
  | recordNode (id : UInt64) (t : Tracker) (passed : Bool)
  | notify (draft : NotificationDraft)
  | enqueueDnsTask (nodeId : UInt64) (taskType : DnsTaskType)
  | listThresholds (nodeId : UInt64)
  | getAddress (id : UInt64)
  | setBackup (id : UInt64) (backup : Option (UInt64 × String))

namespace Access

/-- What a transaction returns if it does not fail. -/
@[reducible] def Reply : Access → Type
  | recordAddress _ _ _ => Address × Option Transition
  | recordNode _ _ _ => Node × Option Transition
  | notify _ => Notification
  | enqueueDnsTask _ _ => DnsTask
  | listThresholds _ => List Threshold
  | getAddress _ => Option Address
  | setBackup _ _ => Bool

/-- What comes of a transaction that may change the store. One that fails does not. -/
def settled {α : Type} (s : Store) : Except StoreError (α × Store) → Except StoreError α × Store
  | .ok (a, s') => (.ok a, s')
  | .error e => (.error e, s)

/-- Carries a transaction out at a time. -/
def run (now : UInt64) (s : Store) : (x : Access) → Except StoreError x.Reply × Store
  | recordAddress id t passed =>
    settled s ((s.recordAddress id t passed now).map fun (a, change, s') => ((a, change), s'))
  | recordNode id t passed =>
    settled s ((s.recordNode id t passed now).map fun (n, change, s') => ((n, change), s'))
  | notify draft => let (n, s') := s.createNotification draft now; (.ok n, s')
  | enqueueDnsTask nodeId taskType => settled s (s.enqueueDnsTask nodeId taskType now)
  | listThresholds nodeId => (s.listThresholds nodeId, s)
  | getAddress id => (s.getAddress id, s)
  | setBackup id backup => settled s (s.setAddressBackup id backup)

end Access

/-- A record that a client stores. -/
inductive Edit where
  | putCluster (c : Cluster)
  | putNode (n : Node)
  | putAddress (a : Address)
  | putThreshold (t : Threshold)

/-- The store after a client stored a record. -/
def Edit.apply (s : Store) : Edit → Store
  | putCluster c => s.putCluster c
  | putNode n => s.putNode n
  | putAddress a => s.putAddress a
  | putThreshold t => s.putThreshold t

/-- A transaction that was carried out: by a client, or at a time by a run of a number. -/
inductive Commit where
  | edit (e : Edit)
  | access (run : Nat) (x : Access) (now : UInt64)

/-- The store after a transaction. -/
def Commit.apply (s : Store) : Commit → Store
  | edit e => e.apply s
  | access _ x now => (x.run now s).2

/-! ## What concerns a record -/

namespace Commit

/-- What a transaction does to the health of a subject, if it is about that. -/
def judgement? (j : Subject) : Commit → Option (Health → Health)
  | access _ (.recordAddress id t passed) now =>
    if j = .address id then some fun h => (t.record h passed now).1 else none
  | access _ (.recordNode id t passed) now =>
    if j = .node id then some fun h => (t.record h passed now).1 else none
  | _ => none

/-- The backup that a transaction assigns to an address, if it does. -/
def assignment? (id : UInt64) : Commit → Option (Option (UInt64 × String))
  | access _ (.setBackup other backup) _ => if other = id then some backup else none
  | _ => none

/-- The node that a transaction stores under a number. -/
def node? (id : UInt64) : Commit → Option Node
  | edit (.putNode n) => if n.id = id then some n else none
  | _ => none

/-- The address that a transaction stores under a number. -/
def address? (id : UInt64) : Commit → Option Address
  | edit (.putAddress a) => if a.id = id then some a else none
  | _ => none

/-- What a transaction that does not store a node makes of it. -/
def amendNode (id : UInt64) (n : Node) (x : Commit) : Node :=
  { n with health := ((x.judgement? (.node id)).getD fun h => h) n.health }

/-- What a transaction that does not store an address makes of it. -/
def amendAddress (id : UInt64) (a : Address) (x : Commit) : Address :=
  ((x.assignment? id).map a.withBackup).getD
    { a with health := ((x.judgement? (.address id)).getD fun h => h) a.health }

end Commit

/-- The health of a subject after transactions, in their order. -/
def healthAfter (j : Subject) (log : List Commit) (h : Health) : Health :=
  (log.filterMap (Commit.judgement? j)).foldl (fun h change => change h) h

/-- An address with the backup that transactions assigned to its number last, if one did. -/
def Address.lastBackup (id : UInt64) (log : List Commit) (a : Address) : Address :=
  ((log.filterMap (Commit.assignment? id)).getLast?.map a.withBackup).getD a

/-! ## Changing a record in its place -/

namespace Store

variable {α β : Type} {c : Collection α} {s : Store} {key key' : String}

/-- The store with the record under a key changed, if there is one. -/
def modify (s : Store) (c : Collection α) (key : String) (change : α → α) : Store :=
  match s.record? c key with
  | some a => s.put c key (change a)
  | none => s

theorem record?_modify [c.codec.Faithful] (s : Store) (key other : String) (change : α → α) :
    (s.modify c key change).record? c other
      = if other = key then (s.record? c key).map change else s.record? c other := by
  by_cases hother : other = key
  · subst hother
    rw [if_pos rfl, modify]
    cases hrecord : s.record? c other with
    | none => simp only [hrecord, Option.map_none]
    | some a => simp only [record?_put_self, Option.map_some]
  · rw [if_neg hother, modify]
    split
    · exact record?_put_ne _ hother
    · rfl

theorem record?_modify_of_table_ne {d : Collection β} (h : d.table ≠ c.table) (s : Store)
    (key other : String) (change : α → α) :
    (s.modify c key change).record? d other = s.record? d other := by
  unfold modify
  split
  · exact record?_put_of_table_ne _ h other
  · rfl

/-- Changes that can be made to a record in either order can be made in the store in either order. -/
theorem modify_comm [c.codec.Faithful] (s : Store) (key key' : String) {f g : α → α}
    (h : ∀ a, f (g a) = g (f a)) :
    (s.modify c key f).modify c key' g = (s.modify c key' g).modify c key f := by
  by_cases hkey : key' = key
  · subst hkey
    cases hrecord : s.record? c key' with
    | none => simp only [modify, hrecord]
    | some a => simp only [modify, hrecord, record?_put_self, put_put_self, h]
  · rw [modify, record?_modify, if_neg hkey]
    conv => rhs; rw [modify, record?_modify, if_neg (Ne.symm hkey)]
    unfold modify
    cases s.record? c key' with
    | none => cases s.record? c key <;> rfl
    | some b =>
      cases s.record? c key with
      | none => rfl
      | some a => exact put_put_comm s _ _ fun _ => Ne.symm hkey

/-! ## One transaction -/

/-- A transaction that updates a record, whatever it returns, changes it in its place. -/
theorem settled_update {γ : Type} (s : Store) (key : String) (change : α → α × β)
    (reply : α × β × Store → γ × Store) (hreply : ∀ r, (reply r).2 = r.2.2) :
    (Access.settled s ((s.update c key change).map reply)).2 = s.modify c key fun a => (change a).1 := by
  unfold modify
  cases hrecord : s.record? c key with
  | none =>
    obtain ⟨e, he⟩ : ∃ e, s.update c key change = .error e := update_of_record?_eq_none hrecord
    rw [he]
    rfl
  | some a =>
    rw [update_of_record? hrecord]
    exact hreply _

theorem apply_recordAddress (run : Nat) (id : UInt64) (t : Tracker) (passed : Bool) (now : UInt64)
    (s : Store) : Commit.apply s (.access run (.recordAddress id t passed) now)
      = s.modify .addresses (idKey id) fun a => { a with health := (t.record a.health passed now).1 } := by
  show (Access.settled s ((s.recordAddress id t passed now).map _)).2 = _
  rw [recordAddress, updateAddressHealth]
  exact settled_update s _ _ _ (by intro _; rfl)

theorem apply_recordNode (run : Nat) (id : UInt64) (t : Tracker) (passed : Bool) (now : UInt64)
    (s : Store) : Commit.apply s (.access run (.recordNode id t passed) now)
      = s.modify .nodes (idKey id) fun n => { n with health := (t.record n.health passed now).1 } := by
  show (Access.settled s ((s.recordNode id t passed now).map _)).2 = _
  rw [recordNode, updateNodeHealth]
  exact settled_update s _ _ _ (by intro _; rfl)

theorem apply_setBackup (run : Nat) (id : UInt64) (backup : Option (UInt64 × String)) (now : UInt64)
    (s : Store) : Commit.apply s (.access run (.setBackup id backup) now)
      = s.modify .addresses (idKey id) fun a => a.withBackup backup :=
  settled_update s _ _ _ (by intro _; rfl)

/-- **Judging the health of an address and lending it a backup can be done in either order.** -/
theorem apply_recordAddress_setBackup (s : Store) (run run' : Nat) (id id' : UInt64) (t : Tracker)
    (passed : Bool) (now now' : UInt64) (backup : Option (UInt64 × String)) :
    Commit.apply (Commit.apply s (.access run (.recordAddress id t passed) now))
        (.access run' (.setBackup id' backup) now')
      = Commit.apply (Commit.apply s (.access run' (.setBackup id' backup) now'))
        (.access run (.recordAddress id t passed) now) := by
  simp only [apply_recordAddress, apply_setBackup]
  exact modify_comm s _ _ fun _ => rfl

end Store

namespace Commit

open Store

/-- Whether a transaction is about nodes and addresses: storing one, judging its health or assigning a
backup to it. -/
def isAboutHosts : Commit → Bool
  | edit (.putNode _) => true
  | edit (.putAddress _) => true
  | access _ (.recordAddress _ _ _) _ => true
  | access _ (.recordNode _ _ _) _ => true
  | access _ (.setBackup _ _) _ => true
  | _ => false

/-- Any other transaction leaves nodes and addresses alone. -/
theorem record?_of_not_isAboutHosts {α : Type} {c : Collection α}
    (hc : c.table = .nodes ∨ c.table = .addresses) {x : Commit} (h : x.isAboutHosts = false) (s : Store)
    (key : String) : (x.apply s).record? c key = s.record? c key := by
  have hput {β : Type} {d : Collection β} (hd : d.table ≠ .nodes ∧ d.table ≠ .addresses) (s : Store)
      (other : String) (b : β) : (s.put d other b).record? c key = s.record? c key := by
    refine record?_put_of_table_ne b ?_ key
    rcases hc with hc | hc
    · exact hc ▸ Ne.symm hd.1
    · exact hc ▸ Ne.symm hd.2
  cases x with
  | edit e =>
    cases e with
    | putCluster cluster => exact hput (d := .clusters) (by decide) s _ cluster
    | putThreshold t => exact hput (d := .thresholds) (by decide) s _ t
    | _ => cases h
  | access run x now =>
    cases x with
    | notify draft => exact hput (d := .notifications) (by decide) s _ _
    | enqueueDnsTask nodeId taskType =>
      show (Access.settled s (s.enqueueDnsTask nodeId taskType now)).2.record? c key = _
      rw [enqueueDnsTask]
      cases s.find? .dnsTasks (dnsTaskKey nodeId taskType) with
      | error e => rfl
      | ok waiting => exact hput (d := .dnsTasks) (by decide) s _ _
    | listThresholds nodeId => rfl
    | getAddress id => rfl
    | _ => cases h

/-- What is left alone was neither stored nor amended. -/
theorem or_map_of_eq {α : Type} {stored before after : Option α} {amend : α → α} (hstored : stored = none)
    (hamend : ∀ a, amend a = a) (h : after = before) : after = stored.or (before.map amend) := by
  rw [h, hstored, Option.none_or, funext hamend]
  exact Option.map_id'.symm

/-- What is changed in its place was not stored, and is amended if it is the one that was meant. -/
theorem record?_modify_idKey {α : Type} {c : Collection α} [c.codec.Faithful] (s : Store)
    {id other : UInt64} {change amend : α → α} (hself : id = other → ∀ a, amend a = change a)
    (hother : id ≠ other → ∀ a, amend a = a) :
    (s.modify c (idKey other) change).record? c (idKey id)
      = none.or ((s.record? c (idKey id)).map amend) := by
  rw [record?_modify]
  by_cases hid : id = other
  · subst hid
    rw [if_pos rfl, Option.none_or, funext (hself rfl)]
  · rw [if_neg fun he => hid (idKey_injective he)]
    exact or_map_of_eq rfl (hother hid) rfl

/-- **A node after a transaction** is the one that was stored, or else the one before, judged anew. -/
theorem record?_node (s : Store) (id : UInt64) (x : Commit) :
    (x.apply s).record? .nodes (idKey id)
      = (x.node? id).or ((s.record? .nodes (idKey id)).map fun n => amendNode id n x) := by
  cases x with
  | edit e =>
    cases e with
    | putNode n =>
      show (s.put .nodes (idKey n.id) n).record? .nodes (idKey id) = _
      by_cases hid : n.id = id
      · rw [hid, record?_put_self, node?, if_pos hid]
        rfl
      · have hkey : idKey id ≠ idKey n.id := fun he => hid (idKey_injective he).symm
        exact or_map_of_eq (if_neg hid) (fun _ => rfl) (record?_put_ne _ hkey)
    | putAddress a =>
      exact or_map_of_eq rfl (fun _ => rfl)
        (record?_put_of_table_ne (c := .addresses) (d := .nodes) a (by decide) _)
    | _ => exact or_map_of_eq rfl (fun _ => rfl) (record?_of_not_isAboutHosts (.inl rfl) rfl s _)
  | access run x now =>
    cases x with
    | recordNode other t passed =>
      rw [apply_recordNode]
      refine record?_modify_idKey s (fun hid n => ?_) (fun hid n => ?_)
      · have hjudgement : (access run (.recordNode other t passed) now).judgement? (.node id)
            = some fun h => (t.record h passed now).1 := if_pos (congrArg Subject.node hid)
        rw [amendNode, hjudgement]
        rfl
      · have hjudgement : (access run (.recordNode other t passed) now).judgement? (.node id) = none :=
          if_neg fun he => hid (Subject.node.inj he)
        rw [amendNode, hjudgement]
        rfl
    | recordAddress other t passed =>
      rw [apply_recordAddress]
      exact or_map_of_eq rfl (fun _ => rfl) (record?_modify_of_table_ne (by decide) s _ _ _)
    | setBackup other backup =>
      rw [apply_setBackup]
      exact or_map_of_eq rfl (fun _ => rfl) (record?_modify_of_table_ne (by decide) s _ _ _)
    | _ => exact or_map_of_eq rfl (fun _ => rfl) (record?_of_not_isAboutHosts (.inl rfl) rfl s _)

/-- **An address after a transaction** is the one that was stored, or else the one before, judged anew or
with another backup. -/
theorem record?_address (s : Store) (id : UInt64) (x : Commit) :
    (x.apply s).record? .addresses (idKey id)
      = (x.address? id).or ((s.record? .addresses (idKey id)).map fun a => amendAddress id a x) := by
  cases x with
  | edit e =>
    cases e with
    | putAddress a =>
      show (s.put .addresses (idKey a.id) a).record? .addresses (idKey id) = _
      by_cases hid : a.id = id
      · rw [hid, record?_put_self, address?, if_pos hid]
        rfl
      · have hkey : idKey id ≠ idKey a.id := fun he => hid (idKey_injective he).symm
        exact or_map_of_eq (if_neg hid) (fun _ => rfl) (record?_put_ne _ hkey)
    | putNode n =>
      exact or_map_of_eq rfl (fun _ => rfl)
        (record?_put_of_table_ne (c := .nodes) (d := .addresses) n (by decide) _)
    | _ => exact or_map_of_eq rfl (fun _ => rfl) (record?_of_not_isAboutHosts (.inr rfl) rfl s _)
  | access run x now =>
    cases x with
    | recordAddress other t passed =>
      rw [apply_recordAddress]
      refine record?_modify_idKey s (fun hid a => ?_) (fun hid a => ?_)
      · have hjudgement : (access run (.recordAddress other t passed) now).judgement? (.address id)
            = some fun h => (t.record h passed now).1 := if_pos (congrArg Subject.address hid)
        rw [amendAddress, hjudgement]
        rfl
      · have hjudgement :
            (access run (.recordAddress other t passed) now).judgement? (.address id) = none :=
          if_neg fun he => hid (Subject.address.inj he)
        rw [amendAddress, hjudgement]
        rfl
    | setBackup other backup =>
      rw [apply_setBackup]
      refine record?_modify_idKey s (fun hid a => ?_) (fun hid a => ?_)
      · have hassignment : (access run (.setBackup other backup) now).assignment? id = some backup :=
          if_pos hid.symm
        rw [amendAddress, hassignment]
        rfl
      · have hassignment : (access run (.setBackup other backup) now).assignment? id = none :=
          if_neg fun he => hid he.symm
        rw [amendAddress, hassignment]
        rfl
    | recordNode other t passed =>
      rw [apply_recordNode]
      exact or_map_of_eq rfl (fun _ => rfl) (record?_modify_of_table_ne (by decide) s _ _ _)
    | _ => exact or_map_of_eq rfl (fun _ => rfl) (record?_of_not_isAboutHosts (.inr rfl) rfl s _)

end Commit

/-! ## A sequence of transactions -/

section Sequence

variable {α : Type} {c : Collection α} {key : String} {stored? : Commit → Option α}
  {amend : α → Commit → α}

/-- As long as nobody stores a record anew, it is amended by one transaction after the other. -/
theorem record?_foldl (h : ∀ (s : Store) (x : Commit),
      (x.apply s).record? c key = (stored? x).or ((s.record? c key).map fun a => amend a x))
    {log : List Commit} (hlog : ∀ x ∈ log, stored? x = none) (s : Store) :
    (log.foldl Commit.apply s).record? c key = (s.record? c key).map fun a => log.foldl amend a := by
  induction log generalizing s with
  | nil => exact Option.map_id'.symm
  | cons x log ih =>
    obtain ⟨hx, hrest⟩ := List.forall_mem_cons.mp hlog
    rw [List.foldl_cons, ih hrest, h, hx, Option.none_or, Option.map_map]
    rfl

/-- The last one that was stored is amended by what comes after. -/
theorem record?_foldl_of_stored (h : ∀ (s : Store) (x : Commit),
      (x.apply s).record? c key = (stored? x).or ((s.record? c key).map fun a => amend a x))
    {x : Commit} {a : α} (hx : stored? x = some a) {after : List Commit}
    (hafter : ∀ y ∈ after, stored? y = none) (before : List Commit) (s : Store) :
    ((before ++ x :: after).foldl Commit.apply s).record? c key = some (after.foldl amend a) := by
  rw [List.foldl_append, List.foldl_cons, record?_foldl h hafter, h, hx]
  rfl

end Sequence

theorem healthAfter_concat (j : Subject) (log : List Commit) (x : Commit) (h : Health) :
    healthAfter j (log ++ [x]) h = ((x.judgement? j).getD fun h => h) (healthAfter j log h) := by
  rw [healthAfter, healthAfter, List.filterMap_append, List.foldl_append]
  cases hx : x.judgement? j <;> simp [hx]

theorem Address.lastBackup_concat (id : UInt64) (log : List Commit) (x : Commit) (a : Address) :
    a.lastBackup id (log ++ [x]) = ((x.assignment? id).map a.withBackup).getD (a.lastBackup id log) := by
  rw [lastBackup, lastBackup, List.filterMap_append]
  cases hx : x.assignment? id <;> simp [hx]

theorem Commit.judgement?_of_assignment? {x : Commit} {id : UInt64} {backup : Option (UInt64 × String)}
    (h : x.assignment? id = some backup) (j : Subject) : x.judgement? j = none := by
  unfold Commit.assignment? at h
  split at h
  · rfl
  · cases h

theorem foldl_amendNode (id : UInt64) (log : List Commit) (n : Node) :
    log.foldl (Commit.amendNode id) n = { n with health := healthAfter (.node id) log n.health } := by
  induction log using List.reverseRecOn with
  | nil => rfl
  | append_singleton log x ih =>
    rw [List.foldl_append, List.foldl_cons, List.foldl_nil, ih, Commit.amendNode, healthAfter_concat]

theorem foldl_amendAddress (id : UInt64) (log : List Commit) (a : Address) :
    log.foldl (Commit.amendAddress id) a
      = { a.lastBackup id log with health := healthAfter (.address id) log a.health } := by
  induction log using List.reverseRecOn with
  | nil => rfl
  | append_singleton log x ih =>
    rw [List.foldl_append, List.foldl_cons, List.foldl_nil, ih, Commit.amendAddress, healthAfter_concat,
      Address.lastBackup_concat]
    cases hx : x.assignment? id with
    | none => rfl
    | some backup =>
      -- it is the backup alone that changes, and the one before does not count any more
      rw [Commit.judgement?_of_assignment? hx, Address.lastBackup]
      cases (log.filterMap (Commit.assignment? id)).getLast? <;> rfl

/-! ## What becomes of nodes and addresses -/

/-- Whether the nodes and addresses of a store are what was put there last, as it was judged and lent
backups since. `log` holds the transactions since the store was `s₀`. -/
structure Store.Keeps (s₀ : Store) (log : List Commit) (s : Store) : Prop where
  /-- The last node that was stored under a number has all its fields but the health that was judged. -/
  node : ∀ before n after, log = before ++ .edit (.putNode n) :: after →
    (∀ m, .edit (.putNode m) ∈ after → m.id ≠ n.id) → s.record? .nodes (idKey n.id)
      = some { n with health := healthAfter (.node n.id) after n.health }
  /-- The last address that was stored under a number has all its fields but the health that was judged
  and the backup that was assigned. -/
  address : ∀ before a after, log = before ++ .edit (.putAddress a) :: after →
    (∀ b, .edit (.putAddress b) ∈ after → b.id ≠ a.id) → s.record? .addresses (idKey a.id)
      = some { a.lastBackup a.id after with health := healthAfter (.address a.id) after a.health }
  /-- So it is with a node that was there before and was never stored. -/
  oldNode : ∀ id, (∀ m, .edit (.putNode m) ∈ log → m.id ≠ id) → s.record? .nodes (idKey id)
    = (s₀.record? .nodes (idKey id)).map fun n => { n with health := healthAfter (.node id) log n.health }
  /-- So it is with an address that was there before and was never stored. -/
  oldAddress : ∀ id, (∀ b, .edit (.putAddress b) ∈ log → b.id ≠ id) → s.record? .addresses (idKey id)
    = (s₀.record? .addresses (idKey id)).map fun a =>
      { a.lastBackup id log with health := healthAfter (.address id) log a.health }

theorem Commit.node?_eq_none {log : List Commit} {id : UInt64}
    (h : ∀ m, .edit (.putNode m) ∈ log → m.id ≠ id) : ∀ x ∈ log, x.node? id = none := by
  intro x hx
  unfold Commit.node?
  split
  · exact if_neg (h _ hx)
  · rfl

theorem Commit.address?_eq_none {log : List Commit} {id : UInt64}
    (h : ∀ b, .edit (.putAddress b) ∈ log → b.id ≠ id) : ∀ x ∈ log, x.address? id = none := by
  intro x hx
  unfold Commit.address?
  split
  · exact if_neg (h _ hx)
  · rfl

/-- **No transaction is lost on a node or an address.** -/
theorem Store.keeps_foldl (s₀ : Store) (log : List Commit) : s₀.Keeps log (log.foldl Commit.apply s₀) where
  node before n after hlog hafter := by
    have hstored : Commit.node? n.id (.edit (.putNode n)) = some n := if_pos rfl
    rw [hlog, record?_foldl_of_stored (fun s x => x.record?_node s n.id) hstored
      (Commit.node?_eq_none hafter), foldl_amendNode]
  address before a after hlog hafter := by
    have hstored : Commit.address? a.id (.edit (.putAddress a)) = some a := if_pos rfl
    rw [hlog, record?_foldl_of_stored (fun s x => x.record?_address s a.id) hstored
      (Commit.address?_eq_none hafter), foldl_amendAddress]
  oldNode id hlog := by
    rw [record?_foldl (fun s x => x.record?_node s id) (Commit.node?_eq_none hlog)]
    simp only [foldl_amendNode]
  oldAddress id hlog := by
    rw [record?_foldl (fun s x => x.record?_address s id) (Commit.address?_eq_none hlog)]
    simp only [foldl_amendAddress]

end FleetHealth
