import FleetHealth.Proofs.Propagation.Lending
import FleetHealth.Proofs.Propagation.Pipeline
import FleetHealth.Proofs.Store.Rows
/-!
# Reacting to an event again

A threshold that has been applied has nothing left to do until an address or a threshold is edited,
whatever other thresholds are applied in between; a DNS task that waits is only asked for again. Both are
read off single rows: what a delivery does to the addresses and the tasks of a store it does row by row.

* `Threshold.rewrite_self`, `Threshold.rewrite_kept` — an applied threshold is done, and stays so.
* `Event.rewrite_of_mem`, `Event.ask_of_mem` — an event that has been delivered leaves nothing to do.
* `Store.row?_applyEvent`, `Store.record?_applyEvent` — a delivery, row by row.
-/

namespace FleetHealth

/-! ## The row of an address -/

namespace Threshold

/-- What a threshold makes of the row of an address when it is applied for a role. -/
def rewrite (role : Role) (t : Threshold) (row : String) : String :=
  match Address.codec.read row with
  | none => row
  | some a =>
    if t.addressId = a.id ∧ a.role = role then
      match t.decide a with
      | none => row
      | some backup => Address.codec.write (a.withBackup backup)
    else row

/-- What thresholds make of the row of an address, one after the other. -/
def rewriteAll (role : Role) (ts : List Threshold) (row : String) : String :=
  ts.foldl (fun row t => t.rewrite role row) row

variable {role role' : Role} {t t' : Threshold} {ts : List Threshold} {row : String} {a : Address}
  {backup : Option (UInt64 × String)}

theorem rewrite_of_read (h : Address.codec.read row = some a) (role : Role) (t : Threshold) :
    t.rewrite role row
      = if t.addressId = a.id ∧ a.role = role then
          match t.decide a with
          | none => row
          | some backup => Address.codec.write (a.withBackup backup)
        else row := by
  unfold rewrite
  rw [h]

/-- A threshold leaves a row as it is, or writes into it what it has decided. -/
theorem rewrite_cases (role : Role) (t : Threshold) (row : String) :
    t.rewrite role row = row
      ∨ ∃ a backup, Address.codec.read row = some a ∧ t.addressId = a.id ∧ a.role = role
        ∧ t.decide a = some backup ∧ t.rewrite role row = Address.codec.write (a.withBackup backup) := by
  cases hread : Address.codec.read row with
  | none =>
    left
    unfold rewrite
    rw [hread]
  | some a =>
    rw [rewrite_of_read hread]
    by_cases hnamed : t.addressId = a.id ∧ a.role = role
    · rw [if_pos hnamed]
      cases hdecide : t.decide a with
      | none => exact .inl rfl
      | some backup => exact .inr ⟨a, backup, rfl, hnamed.1, hnamed.2, hdecide, rfl⟩
    · rw [if_neg hnamed]
      exact .inl rfl

/-- After one threshold has decided, another one has nothing to decide; the same one decides the same. -/
theorem decide_withBackup (h : t'.decide a = some backup) (hsame : t.id = t'.id → t = t') :
    t.decide (a.withBackup backup) = none ∨ t.decide (a.withBackup backup) = some backup := by
  by_cases hup : a.health.isUp
  · -- the backup was taken away, and there is nothing else to take
    have hbackup : backup = none := by
      unfold decide at h
      simp only [hup, if_true] at h
      split at h
      · exact (Option.some.inj h).symm
      · cases h
    left
    unfold decide Address.withBackup
    simp [hup, hbackup]
  · -- the backup is that of the threshold that decided, and no other threshold touches it
    have hbackup : backup = some (t'.id, t'.backupIp) := by
      unfold decide at h
      simp only [hup, Bool.false_eq_true, if_false] at h
      split at h
      · split at h
        · exact (Option.some.inj h).symm
        · cases h
      · exact (Option.some.inj h).symm
    by_cases hid : t.id = t'.id
    · right
      obtain rfl := hsame hid
      unfold decide Address.withBackup
      simp [hup, hbackup]
    · left
      unfold decide Address.withBackup
      simp [hup, hbackup, Ne.symm hid]

/-- After one threshold has written a row, no threshold has anything to write into it. -/
theorem rewrite_written (h : t'.decide a = some backup) (hsame : t.id = t'.id → t = t') :
    t.rewrite role (Address.codec.write (a.withBackup backup))
      = Address.codec.write (a.withBackup backup) := by
  rw [rewrite_of_read (Codec.read_write Address.codec _)]
  split
  · rcases decide_withBackup h hsame with hdecide | hdecide <;> rw [hdecide]
    rfl
  · rfl

/-- **An applied threshold is done**: applying it again changes nothing. -/
theorem rewrite_self (role : Role) (t : Threshold) (row : String) :
    t.rewrite role (t.rewrite role row) = t.rewrite role row := by
  rcases rewrite_cases role t row with hsame | ⟨a, backup, -, -, -, hdecide, hwritten⟩
  · rw [hsame, hsame]
  · rw [hwritten]
    exact rewrite_written hdecide fun _ => rfl

/-- **A threshold that is done stays so** when another one is applied, for whatever role. -/
theorem rewrite_kept (h : t.rewrite role row = row) (hsame : t.id = t'.id → t = t') (role' : Role) :
    t.rewrite role (t'.rewrite role' row) = t'.rewrite role' row := by
  rcases rewrite_cases role' t' row with hleft | ⟨a, backup, -, -, -, hdecide, hwritten⟩
  · rw [hleft, h]
  · rw [hwritten]
    exact rewrite_written hdecide hsame

theorem rewriteAll_kept (h : t.rewrite role row = row) (hsame : ∀ t' ∈ ts, t.id = t'.id → t = t')
    (role' : Role) : t.rewrite role (rewriteAll role' ts row) = rewriteAll role' ts row := by
  induction ts generalizing row with
  | nil => exact h
  | cons t' rest ih =>
    have hhead := rewrite_kept h (hsame t' List.mem_cons_self) role'
    exact ih hhead fun t'' ht'' => hsame t'' (List.mem_cons_of_mem _ ht'')

/-- Once thresholds have been applied in order, each of them is done. -/
theorem rewrite_rewriteAll (hsame : ∀ t ∈ ts, ∀ t' ∈ ts, t.id = t'.id → t = t') (ht : t ∈ ts) :
    t.rewrite role (rewriteAll role ts row) = rewriteAll role ts row := by
  induction ts generalizing row with
  | nil => cases ht
  | cons head rest ih =>
    have hrest (t : Threshold) (ht : t ∈ head :: rest) : ∀ t' ∈ rest, t.id = t'.id → t = t' :=
      fun t' ht' => hsame t ht t' (List.mem_cons_of_mem _ ht')
    rcases List.mem_cons.mp ht with rfl | htail
    · exact rewriteAll_kept (rewrite_self role t row) (hrest t ht) role
    · exact ih (fun t ht => hrest t (List.mem_cons_of_mem _ ht)) htail

/-- Thresholds leave a row as it is, or write the address into it with another backup, if it is of the
role and one of them names it. -/
theorem rewriteAll_cases (role : Role) (ts : List Threshold) (row : String) :
    rewriteAll role ts row = row
      ∨ ∃ a backup, Address.codec.read row = some a ∧ a.role = role ∧ (∃ t ∈ ts, t.addressId = a.id)
        ∧ rewriteAll role ts row = Address.codec.write (a.withBackup backup) := by
  induction ts generalizing row with
  | nil => exact .inl rfl
  | cons t rest ih =>
    have hcons : rewriteAll role (t :: rest) row = rewriteAll role rest (t.rewrite role row) := rfl
    rw [hcons]
    rcases rewrite_cases role t row with hsame | ⟨a, backup, hread, hid, hrole, -, hwritten⟩
    · rw [hsame]
      refine (ih row).imp_right ?_
      rintro ⟨a, backup, hread, hrole, ⟨t', ht', hid⟩, hrest⟩
      exact ⟨a, backup, hread, hrole, ⟨t', List.mem_cons_of_mem _ ht', hid⟩, hrest⟩
    · rw [hwritten]
      right
      rcases ih (Address.codec.write (a.withBackup backup)) with hsame | ⟨b, backup', hb, -, -, hrest⟩
      · exact ⟨a, backup, hread, hrole, ⟨t, List.mem_cons_self, hid⟩, hsame⟩
      · -- what is written last is the first address with the last backup
        rw [Codec.read_write Address.codec, Option.some_inj] at hb
        subst hb
        exact ⟨a, backup', hread, hrole, ⟨t, List.mem_cons_self, hid⟩, hrest⟩

/-- Thresholds that are done leave a row as it is. -/
theorem rewriteAll_of_forall (h : ∀ t ∈ ts, t.rewrite role row = row) :
    rewriteAll role ts row = row := by
  induction ts with
  | nil => rfl
  | cons t rest ih =>
    have hhead : t.rewrite role row = row := h t List.mem_cons_self
    show rewriteAll role rest (t.rewrite role row) = row
    rw [hhead]
    exact ih fun t ht => h t (List.mem_cons_of_mem _ ht)

end Threshold

/-! ## Events -/

/-- The task without the time at which it was last asked for. -/
def DnsTask.undated (task : DnsTask) : DnsTask :=
  { task with updatedAt := 0 }

namespace Event

open Store

variable {s : Store} {e : Event} {es : List Event} {row : String}

/-- What the delivery of an event makes of the row of an address, by the thresholds of a store. -/
def rewrite (s : Store) (row : String) (e : Event) : String :=
  if e.addressId.isSome then Threshold.rewriteAll e.role (s.thresholdsOn e.nodeId) row else row

/-- Thresholds of one number are one threshold, whichever nodes they were looked up for. -/
theorem eq_of_mem_thresholdsOn (hs : s.WellFormed) {n m : UInt64} {t t' : Threshold}
    (ht : t ∈ s.thresholdsOn n) (ht' : t' ∈ s.thresholdsOn m) (hid : t.id = t'.id) : t = t' := by
  have hrecord := ((mem_thresholdsOn hs).mp ht).1
  rw [hid, ((mem_thresholdsOn hs).mp ht').1] at hrecord
  exact (Option.some.inj hrecord).symm

/-- A threshold that is done stays so while events are delivered. -/
theorem foldl_rewrite_kept (hs : s.WellFormed) {role : Role} {t : Threshold} {n : UInt64}
    (ht : t ∈ s.thresholdsOn n) (h : t.rewrite role row = row) :
    t.rewrite role (es.foldl (rewrite s) row) = es.foldl (rewrite s) row := by
  induction es generalizing row with
  | nil => exact h
  | cons e rest ih =>
    apply ih
    unfold rewrite
    split
    · exact Threshold.rewriteAll_kept h (fun t' ht' => eq_of_mem_thresholdsOn hs ht ht') e.role
    · exact h

/-- **The thresholds of a delivered event are done** for good: they have nothing to do, whatever events
were delivered before and since. -/
theorem rewrite_of_mem (hs : s.WellFormed) (he : e ∈ es) (row : String) :
    rewrite s (es.foldl (rewrite s) row) e = es.foldl (rewrite s) row := by
  obtain ⟨before, after, rfl⟩ := List.append_of_mem he
  rw [List.foldl_append, List.foldl_cons]
  generalize before.foldl (rewrite s) row = row
  by_cases haddress : e.addressId.isSome
  · have hrow : rewrite s row e = Threshold.rewriteAll e.role (s.thresholdsOn e.nodeId) row :=
      if_pos haddress
    have hdone {t : Threshold} (ht : t ∈ s.thresholdsOn e.nodeId) :
        t.rewrite e.role (rewrite s row e) = rewrite s row e := by
      rw [hrow]
      exact Threshold.rewrite_rewriteAll (fun t ht t' ht' => eq_of_mem_thresholdsOn hs ht ht') ht
    rw [rewrite, if_pos haddress]
    apply Threshold.rewriteAll_of_forall
    intro t ht
    exact foldl_rewrite_kept hs ht (hdone ht)
  · exact if_neg haddress

/-- What the delivery of an event makes of the task under a key, the time of the last request aside. -/
def ask (key : String) (task : Option DnsTask) (x : Event × UInt64) : Option DnsTask :=
  if x.1.role.participatesInDns ∧ key = dnsTaskKey x.1.nodeId .nodeChange then
    some { nodeId := x.1.nodeId, taskType := .nodeChange,
           createdAt := (task.map (·.createdAt)).getD x.2, updatedAt := 0 }
  else task

/-- A task that waits is only asked for again. -/
theorem foldl_ask_waiting {nodeId createdAt : UInt64} (xs : List (Event × UInt64)) :
    xs.foldl (ask (dnsTaskKey nodeId .nodeChange)) (some ⟨nodeId, .nodeChange, createdAt, 0⟩)
      = some ⟨nodeId, .nodeChange, createdAt, 0⟩ := by
  induction xs with
  | nil => rfl
  | cons x rest ih =>
    have hhead : ask (dnsTaskKey nodeId .nodeChange) (some ⟨nodeId, .nodeChange, createdAt, 0⟩) x
        = some ⟨nodeId, .nodeChange, createdAt, 0⟩ := by
      unfold ask
      split
      · rename_i hasks
        rw [dnsTaskKey_injective hasks.2]
        rfl
      · rfl
    rw [List.foldl_cons, hhead, ih]

/-- **The task of a delivered event waits** for good, and is only asked for again. -/
theorem ask_of_mem {key : String} {xs : List (Event × UInt64)} {x : Event × UInt64}
    (hx : x.1 ∈ xs.map (·.1)) (task : Option DnsTask) :
    ask key (xs.foldl (ask key) task) x = xs.foldl (ask key) task := by
  obtain ⟨y, hy, he⟩ := List.mem_map.mp hx
  obtain ⟨before, after, rfl⟩ := List.append_of_mem hy
  rw [List.foldl_append, List.foldl_cons]
  generalize before.foldl (ask key) task = task
  by_cases hasks : y.1.role.participatesInDns ∧ key = dnsTaskKey y.1.nodeId .nodeChange
  · have hfirst : ask key task y
        = some ⟨y.1.nodeId, .nodeChange, (task.map (·.createdAt)).getD y.2, 0⟩ := if_pos hasks
    rw [hfirst, hasks.2, foldl_ask_waiting]
    rw [he] at hasks ⊢
    unfold ask
    rw [if_pos ⟨hasks.1, rfl⟩]
    rfl
  · rw [he] at hasks
    exact if_neg hasks

end Event

/-! ## The rows of a store -/

namespace Store

variable {s s' : Store} {role : Role} {t : Threshold} {key : String}

/-- Applying a threshold leaves the store as it is when there is nothing to decide, and writes the
address that it names otherwise. -/
theorem fireThreshold_cases (hs : s.WellFormed) (h : s.fireThreshold role t = .ok s') :
    s' = s ∧ (∀ a, s.record? .addresses (idKey t.addressId) = some a → a.role = role →
        t.decide a = none)
      ∨ ∃ a backup, s.record? .addresses (idKey t.addressId) = some a ∧ a.role = role
        ∧ t.decide a = some backup
        ∧ s' = s.put .addresses (idKey t.addressId) (a.withBackup backup) := by
  unfold fireThreshold at h
  cases ha : s.record? .addresses (idKey t.addressId) with
  | none =>
    rw [getAddress, hs.find?_of_record?_eq_none .addresses ha] at h
    cases h
    left
    refine ⟨rfl, ?_⟩
    intro a ha
    cases ha
  | some a =>
    have hid : a.id = t.addressId := hs.keyed.address_id ha
    rw [getAddress, find?_of_record? ha] at h
    simp only [bind, Except.bind, pure, Except.pure] at h
    split at h
    · rename_i hrole
      split at h
      · rename_i hdecide
        cases h
        left
        refine ⟨rfl, ?_⟩
        rintro a ⟨⟩ -
        exact hdecide
      · rename_i backup hdecide
        rw [hid, setAddressBackup, update_of_record? ha] at h
        cases h
        exact .inr ⟨a, backup, rfl, hrole, hdecide, rfl⟩
    · rename_i hrole
      cases h
      left
      refine ⟨rfl, ?_⟩
      rintro a ⟨⟩ hrole'
      exact absurd hrole' hrole

/-- What a threshold makes of the row of an address that it names, and of any other row. -/
theorem rewrite_of_row? (hs : s.WellFormed) (role : Role) (t : Threshold) {value : String}
    (hrow : s.row? .addresses key = some value) :
    ∃ a, s.record? .addresses key = some a
      ∧ t.rewrite role value = if key = idKey t.addressId ∧ a.role = role then
          match t.decide a with
          | none => value
          | some backup => Address.codec.write (a.withBackup backup)
        else value := by
  have hmem : (key, value) ∈ s.addresses.rows := Table.find?_eq_some_iff.mp hrow
  obtain ⟨a, ha⟩ := hs.decodes .addresses (key, value) hmem
  have hrecord : s.record? .addresses key = some a := record?_eq_some_iff.mpr ⟨value, hmem, ha⟩
  have hnamed : t.addressId = a.id ↔ key = idKey t.addressId := by
    rw [hs.keyed.key_eq hrecord]
    exact ⟨fun h => congrArg idKey h.symm, fun h => (idKey_injective h).symm⟩
  refine ⟨a, hrecord, ?_⟩
  simp only [Threshold.rewrite_of_read ha, hnamed]

/-- Applying a threshold over a well-formed store, row by row. -/
theorem row?_fireThreshold (hs : s.WellFormed) (h : s.fireThreshold role t = .ok s') (key : String) :
    s'.row? .addresses key = (s.row? .addresses key).map (t.rewrite role) := by
  rcases fireThreshold_cases hs h with ⟨rfl, hdecide⟩ | ⟨a, backup, ha, hrole, hdecide, rfl⟩
  · cases hrow : s'.row? .addresses key with
    | none => rfl
    | some value =>
      obtain ⟨a, ha, hrewrite⟩ := rewrite_of_row? hs role t hrow
      rw [Option.map_some, hrewrite]
      split
      · rename_i hnamed
        rw [hdecide a (hnamed.1 ▸ ha) hnamed.2]
      · rfl
  · have hput := row?_put s .addresses (idKey t.addressId) (a.withBackup backup) .addresses key
    refine hput.trans ?_
    by_cases hkey : key = idKey t.addressId
    · subst hkey
      obtain ⟨value, hmem, hread⟩ := record?_eq_some_iff.mp ha
      have hrow : s.row? .addresses (idKey t.addressId) = some value := Table.find?_eq_some_iff.mpr hmem
      obtain ⟨b, hb, hrewrite⟩ := rewrite_of_row? hs role t hrow
      obtain rfl : a = b := Option.some.inj (ha.symm.trans hb)
      rw [if_pos ⟨rfl, rfl⟩, hrow, Option.map_some, hrewrite, if_pos ⟨rfl, hrole⟩, hdecide]
      rfl
    · rw [if_neg fun h => hkey h.2]
      cases hrow : s.row? .addresses key with
      | none => rfl
      | some value =>
        obtain ⟨b, -, hrewrite⟩ := rewrite_of_row? hs role t hrow
        rw [Option.map_some, hrewrite, if_neg fun h => hkey h.1]

theorem row?_fireThresholds (hs : s.WellFormed) (role : Role) (ts : List Threshold) (key : String) :
    (s.fireThresholds role ts).2.row? .addresses key
      = (s.row? .addresses key).map (Threshold.rewriteAll role ts) := by
  induction ts generalizing s with
  | nil => exact Option.map_id_apply.symm
  | cons t rest ih =>
    obtain ⟨s', hfire, hamended⟩ := amended_fireThreshold hs role t
    rw [fireThresholds, hfire]
    exact (ih hamended.wellFormed).trans (by rw [row?_fireThreshold hs hfire, Option.map_map]; rfl)

/-- **Applying the thresholds of a node**, row by row. -/
theorem row?_fire (hs : s.WellFormed) (role : Role) (nodeId : UInt64) (key : String) :
    (s.fire role nodeId).2.row? .addresses key
      = (s.row? .addresses key).map (Threshold.rewriteAll role (s.thresholdsOn nodeId)) := by
  rw [fire, listThresholds, scan_of_decodes (hs.decodes .thresholds)]
  exact row?_fireThresholds hs role _ key

/-- Asking for a node to be published again, the time of the request aside. -/
theorem record?_handle_dnsTask (hs : s.WellFormed) (e : Event) (now : UInt64) (key : String) :
    ((Handler.dnsTask.handle e now s).2.record? .dnsTasks key).map DnsTask.undated
      = Event.ask key ((s.record? .dnsTasks key).map DnsTask.undated) (e, now) := by
  unfold Event.ask
  by_cases hrole : e.role.participatesInDns
  · have henqueue := enqueueDnsTask_eq hs e.nodeId .nodeChange now
    have hconcerns : Handler.dnsTask.concerns e := hrole
    rw [Handler.handle_of_concerns hconcerns, Handler.dnsTask]
    simp only [henqueue]
    by_cases hkey : key = dnsTaskKey e.nodeId .nodeChange
    · rw [if_pos ⟨hrole, hkey⟩, hkey, record?_put_self, Option.map_map]
      rfl
    · rw [if_neg fun h => hkey h.2, record?_put_ne _ hkey]
  · rw [if_neg fun h => hrole h.1, Handler.handle_of_not_concerns hrole]

/-- A delivery writes no threshold, and no addresses before its thresholds are applied. -/
theorem handle_dnsTask_addresses (e : Event) (now : UInt64) (s : Store) :
    (Handler.dnsTask.handle e now s).2.addresses = s.addresses
      ∧ (Handler.dnsTask.handle e now s).2.thresholds = s.thresholds := by
  rcases handle_dnsTask e now s with h | ⟨task, -, -, h⟩ <;> rw [h] <;> exact ⟨rfl, rfl⟩

/-- The rows of the addresses after an event was delivered. -/
theorem row?_applyEvent (hs : s.WellFormed) (e : Event) (now : UInt64) (key : String) :
    (applyEvent e now standardPipeline s).2.row? .addresses key
      = (s.row? .addresses key).map (Event.rewrite s · e) := by
  rw [applyEvent_standardPipeline]
  let s₁ := (s.createNotification e.draft now).2
  let s₂ := (Handler.dnsTask.handle e now s₁).2
  have hs₂ : s₂.WellFormed := wellFormed_handle_dnsTask (wellFormed_createNotification hs e.draft now) e now
  have hsame : s₂.addresses = s.addresses ∧ s₂.thresholds = s.thresholds :=
    handle_dnsTask_addresses e now s₁
  have hrow : s₂.row? .addresses key = s.row? .addresses key := congrArg (·.find? key) hsame.1
  have hthresholds : s₂.thresholdsOn e.nodeId = s.thresholdsOn e.nodeId :=
    thresholdsOn_congr hsame.2 e.nodeId
  show (Handler.threshold.handle e now s₂).2.row? .addresses key = _
  unfold Event.rewrite
  by_cases haddress : e.addressId.isSome
  · have hfire := row?_fire hs₂ e.role e.nodeId key
    rw [hthresholds, hrow] at hfire
    rw [Handler.handle_of_concerns haddress]
    simp only [if_pos haddress]
    exact hfire
  · rw [Handler.handle_of_not_concerns haddress, hrow]
    simp only [if_neg haddress]
    exact Option.map_id_apply.symm

/-- The tasks after an event was delivered, the times of the last requests aside. -/
theorem record?_applyEvent (hs : s.WellFormed) (e : Event) (now : UInt64) (key : String) :
    ((applyEvent e now standardPipeline s).2.record? .dnsTasks key).map DnsTask.undated
      = Event.ask key ((s.record? .dnsTasks key).map DnsTask.undated) (e, now) := by
  rw [applyEvent_standardPipeline]
  have hback := rebacked_handle_threshold e now
    (Handler.dnsTask.handle e now (s.createNotification e.draft now).2).2
  have hasked := record?_handle_dnsTask (wellFormed_createNotification hs e.draft now) e now key
  rw [record?_congr (c := .dnsTasks) hback.dnsTasks]
  exact hasked

end Store

end FleetHealth
