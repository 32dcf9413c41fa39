import FleetHealth.Proofs.Propagation.Repeating
/-!
# What may be touched

A footprint says what may be touched in a store: whose health, whose backups, and which nodes may be
asked to be published again. Nothing else ever changes, but for notifications, which are appended. What
stays within a footprint can be done one after the other, and the delivery of an event stays within the
footprint of its node and of the thresholds on it.

* `Store.Rewrites` — rows of a collection written over or added, and no others touched.
* `Store.Within` — a store after something that stays within a footprint.
* `Store.within_applyEvent` — the delivery of an event.
-/

namespace FleetHealth

/-! ## Rows of one collection -/

namespace Store

variable {α : Type} {c : Collection α} {R R' : Option α → α → Prop} {s s' s'' : Store} {key : String}

/-- Whether a store is another one with rows of a collection written over or added: such a row holds a
record, which is related to the one that was there before. -/
def Rewrites (c : Collection α) (R : Option α → α → Prop) (s s' : Store) : Prop :=
  ∀ key, s'.row? c.table key = s.row? c.table key
    ∨ ∃ a, s'.record? c key = some a ∧ R (s.record? c key) a

/-- Rows with the same text hold the same record. -/
theorem record?_of_row?_eq (h : s'.row? c.table key = s.row? c.table key) :
    s'.record? c key = s.record? c key :=
  congrArg (Option.bind · c.codec.read) h

theorem rewrites_of_table_eq (h : s'.table c.table = s.table c.table) : Rewrites c R s s' :=
  fun key => .inl (congrArg (·.find? key) h)

theorem Rewrites.mono (h : Rewrites c R s s') (hR : ∀ old a, R old a → R' old a) :
    Rewrites c R' s s' := fun key =>
  (h key).imp_right fun ⟨a, ha, hold⟩ => ⟨a, ha, hR _ a hold⟩

theorem Rewrites.trans (hR : ∀ old a b, R old a → R (some a) b → R old b) (h : Rewrites c R s s')
    (h' : Rewrites c R s' s'') : Rewrites c R s s'' := by
  intro key
  rcases h' key with hsame' | ⟨b, hb, hold'⟩
  · rcases h key with hsame | ⟨a, ha, hold⟩
    · exact .inl (hsame'.trans hsame)
    · exact .inr ⟨a, (record?_of_row?_eq hsame').trans ha, hold⟩
  · rcases h key with hsame | ⟨a, ha, hold⟩
    · rw [record?_of_row?_eq hsame] at hold'
      exact .inr ⟨b, hb, hold'⟩
    · rw [ha] at hold'
      exact .inr ⟨b, hb, hR _ a b hold hold'⟩

/-- If no record may be written, the table stays as it is. -/
theorem Rewrites.table_eq (h : Rewrites c R s s') (hR : ∀ old a, ¬R old a) :
    s'.table c.table = s.table c.table := by
  apply Table.ext_find?
  intro key
  rcases h key with hsame | ⟨a, -, hold⟩
  · exact hsame
  · exact absurd hold (hR _ a)

theorem rewrites_put [c.codec.Faithful] {a : α} (h : R (s.record? c key) a) :
    Rewrites c R s (s.put c key a) := by
  intro other
  rw [row?_put]
  by_cases hother : other = key
  · subst hother
    exact .inr ⟨a, record?_put_self a, h⟩
  · exact .inl (if_neg fun he => hother he.2)

end Store

/-! ## Footprints -/

/-- What may be touched in a store. -/
structure Footprint where
  /-- The nodes whose health may change. -/
  nodes : UInt64 → Prop
  /-- The addresses whose health may change. -/
  addresses : UInt64 → Prop
  /-- The addresses whose backup may change, by number and role. -/
  backups : UInt64 → Role → Prop
  /-- The nodes that may be asked to be published again. -/
  dns : UInt64 → Prop

namespace Footprint

/-- Whether a node may be written over another one: another health, if the footprint allows that. -/
def NodeOver (f : Footprint) (old : Option Node) (n : Node) : Prop :=
  ∃ o, old = some o ∧ n.identity = o.identity ∧ f.nodes o.id

/-- Whether an address may be written over another one: with another health or another backup, whichever
the footprint allows. -/
def AddressOver (f : Footprint) (old : Option Address) (a : Address) : Prop :=
  ∃ o, old = some o ∧ a.identity = o.identity
    ∧ (a.health = o.health ∨ f.addresses o.id)
    ∧ (a.backupIp = o.backupIp ∧ a.backupThresholdId = o.backupThresholdId ∨ f.backups o.id o.role)
    ∧ (f.addresses o.id ∨ f.backups o.id o.role)

/-- Whether a task may be written: it is new, or keeps the time of the first request. -/
def TaskOver (f : Footprint) (old : Option DnsTask) (task : DnsTask) : Prop :=
  f.dns task.nodeId ∧ task.taskType = .nodeChange ∧ ∀ o ∈ old, task.createdAt = o.createdAt

/-- Whether a footprint allows no more than another one. -/
structure Le (f g : Footprint) : Prop where
  nodes : ∀ id, f.nodes id → g.nodes id
  addresses : ∀ id, f.addresses id → g.addresses id
  backups : ∀ id role, f.backups id role → g.backups id role
  dns : ∀ id, f.dns id → g.dns id

variable {f g : Footprint}

theorem NodeOver.trans (old : Option Node) (n m : Node) (h : f.NodeOver old n)
    (h' : f.NodeOver (some n) m) : f.NodeOver old m := by
  obtain ⟨o, rfl, hidentity, hnode⟩ := h
  obtain ⟨_, ⟨⟩, hidentity', -⟩ := h'
  exact ⟨o, rfl, hidentity'.trans hidentity, hnode⟩

theorem AddressOver.trans (old : Option Address) (a b : Address) (h : f.AddressOver old a)
    (h' : f.AddressOver (some a) b) : f.AddressOver old b := by
  obtain ⟨o, rfl, hidentity, hhealth, hbackup, hany⟩ := h
  obtain ⟨_, ⟨⟩, hidentity', hhealth', hbackup', -⟩ := h'
  -- number and role are those of the first address throughout
  have hid : a.identity.id = o.identity.id := congrArg Address.id hidentity
  have hrole : a.identity.role = o.identity.role := congrArg Address.role hidentity
  replace hid : a.id = o.id := hid
  replace hrole : a.role = o.role := hrole
  rw [hid] at hhealth'
  rw [hid, hrole] at hbackup'
  refine ⟨o, rfl, hidentity'.trans hidentity, ?_, ?_, hany⟩
  · rcases hhealth' with hsame | hjudged
    · exact hhealth.imp_left hsame.trans
    · exact .inr hjudged
  · rcases hbackup' with hsame | hlent
    · exact hbackup.imp_left fun h => ⟨hsame.1.trans h.1, hsame.2.trans h.2⟩
    · exact .inr hlent

theorem TaskOver.trans (old : Option DnsTask) (a b : DnsTask) (h : f.TaskOver old a)
    (h' : f.TaskOver (some a) b) : f.TaskOver old b :=
  ⟨h'.1, h'.2.1, fun o ho => (h'.2.2 a rfl).trans (h.2.2 o ho)⟩

theorem Le.nodeOver (h : f.Le g) (old : Option Node) (n : Node) (hn : f.NodeOver old n) :
    g.NodeOver old n := by
  obtain ⟨o, hold, hidentity, hnode⟩ := hn
  exact ⟨o, hold, hidentity, h.nodes _ hnode⟩

theorem Le.addressOver (h : f.Le g) (old : Option Address) (a : Address) (ha : f.AddressOver old a) :
    g.AddressOver old a := by
  obtain ⟨o, hold, hidentity, hhealth, hbackup, hany⟩ := ha
  exact ⟨o, hold, hidentity, hhealth.imp_right (h.addresses _), hbackup.imp_right (h.backups _ _),
    hany.imp (h.addresses _) (h.backups _ _)⟩

theorem Le.taskOver (h : f.Le g) (old : Option DnsTask) (task : DnsTask) (ht : f.TaskOver old task) :
    g.TaskOver old task :=
  ⟨h.dns _ ht.1, ht.2⟩

end Footprint

namespace Store

variable {f g : Footprint} {s s' s'' : Store}

/-- Whether a store is another one after something that stayed within a footprint. -/
structure Within (f : Footprint) (s s' : Store) : Prop where
  clusters : s'.clusters = s.clusters
  thresholds : s'.thresholds = s.thresholds
  /-- As long as there is room, notifications are appended. -/
  notifications : s'.HasRoom → s.HasRoom ∧ ∃ added, s'.notifications.rows = s.notifications.rows ++ added
  nodes : Rewrites .nodes f.NodeOver s s'
  addresses : Rewrites .addresses f.AddressOver s s'
  dnsTasks : Rewrites .dnsTasks f.TaskOver s s'

theorem Within.refl (f : Footprint) (s : Store) : Within f s s :=
  ⟨rfl, rfl, fun hroom => ⟨hroom, [], (List.append_nil _).symm⟩, rewrites_of_table_eq rfl,
    rewrites_of_table_eq rfl, rewrites_of_table_eq rfl⟩

theorem Within.trans (h : Within f s s') (h' : Within f s' s'') : Within f s s'' where
  clusters := h'.clusters.trans h.clusters
  thresholds := h'.thresholds.trans h.thresholds
  notifications := by
    intro hroom
    obtain ⟨hroom', added', hadded'⟩ := h'.notifications hroom
    obtain ⟨hroom, added, hadded⟩ := h.notifications hroom'
    exact ⟨hroom, added ++ added', by rw [hadded', hadded, List.append_assoc]⟩
  nodes := h.nodes.trans Footprint.NodeOver.trans h'.nodes
  addresses := h.addresses.trans Footprint.AddressOver.trans h'.addresses
  dnsTasks := h.dnsTasks.trans Footprint.TaskOver.trans h'.dnsTasks

theorem Within.mono (h : Within f s s') (hle : f.Le g) : Within g s s' :=
  { h with
    nodes := h.nodes.mono hle.nodeOver
    addresses := h.addresses.mono hle.addressOver
    dnsTasks := h.dnsTasks.mono hle.taskOver }

/-! ## The delivery of an event -/

theorem within_createNotification (hs : s.WellFormed) (f : Footprint) (draft : NotificationDraft)
    (now : UInt64) : Within f s (s.createNotification draft now).2 where
  clusters := rfl
  thresholds := rfl
  notifications := by
    intro hroom
    have hroom := hasRoom_of_createNotification hs hroom
    exact ⟨hroom, _, insertRow_of_forall_lt (lt_nextNotificationId hs hroom)⟩
  nodes := rewrites_of_table_eq rfl
  addresses := rewrites_of_table_eq rfl
  dnsTasks := rewrites_of_table_eq rfl

theorem within_handle_dnsTask (hs : s.WellFormed) {e : Event}
    (hdns : e.role.participatesInDns → f.dns e.nodeId) (now : UInt64) :
    Within f s (Handler.dnsTask.handle e now s).2 := by
  by_cases hrole : e.role.participatesInDns
  · have hconcerns : Handler.dnsTask.concerns e := hrole
    have henqueue := enqueueDnsTask_eq hs e.nodeId .nodeChange now
    rw [Handler.handle_of_concerns hconcerns, Handler.dnsTask]
    simp only [henqueue]
    refine ⟨rfl, rfl, fun hroom => ⟨hroom, [], (List.append_nil _).symm⟩, rewrites_of_table_eq rfl,
      rewrites_of_table_eq rfl, rewrites_put ⟨hdns hrole, rfl, ?_⟩⟩
    intro o ho
    rw [Option.mem_def.mp ho]
    rfl
  · rw [Handler.handle_of_not_concerns hrole]
    exact .refl f s

theorem within_fire (hs : s.WellFormed) {role : Role} {nodeId : UInt64}
    (hbackups : ∀ t ∈ s.thresholdsOn nodeId, f.backups t.addressId role) :
    Within f s (s.fire role nodeId).2 := by
  have hamended := amended_fire hs role nodeId
  have hback := rebacked_fire role nodeId s
  refine ⟨hamended.clusters, hamended.thresholds, ?_, rewrites_of_table_eq hamended.nodes, ?_,
    rewrites_of_table_eq hback.dnsTasks⟩
  · intro hroom
    refine ⟨hroom.congr hback.notifications.symm, [], ?_⟩
    rw [hback.notifications, List.append_nil]
  · intro key
    have hrow := row?_fire hs role nodeId key
    cases hvalue : s.row? .addresses key with
    | none =>
      rw [hvalue] at hrow
      exact .inl (hrow.trans hvalue.symm)
    | some value =>
      rw [hvalue, Option.map_some] at hrow
      rcases Threshold.rewriteAll_cases role (s.thresholdsOn nodeId) value with
        hsame | ⟨a, backup, hread, hrole, ⟨t, ht, hid⟩, hwritten⟩
      · rw [hsame] at hrow
        exact .inl (hrow.trans hvalue.symm)
      · -- a threshold on the node names the address
        have hallowed : f.backups a.id a.role := by
          rw [← hid, hrole]
          exact hbackups t ht
        have hold : s.record? .addresses key = some a := by
          show (s.row? .addresses key).bind Address.codec.read = some a
          rw [hvalue]
          exact hread
        refine .inr ⟨a.withBackup backup, ?_, a, hold, rfl, .inl rfl, .inr hallowed, .inr hallowed⟩
        show ((s.fire role nodeId).2.row? .addresses key).bind Address.codec.read = _
        rw [hrow, hwritten]
        exact Codec.read_write Address.codec _

/-- **The delivery of an event** touches the task of its node, if nodes of its role are published, and
the backups of the addresses that the thresholds on its node name. -/
theorem within_applyEvent (hs : s.WellFormed) {e : Event} (now : UInt64)
    (hdns : e.role.participatesInDns → f.dns e.nodeId)
    (hbackups : e.addressId.isSome → ∀ t ∈ s.thresholdsOn e.nodeId, f.backups t.addressId e.role) :
    Within f s (applyEvent e now standardPipeline s).2 := by
  rw [applyEvent_standardPipeline]
  have hs₁ := wellFormed_createNotification hs e.draft now
  have hs₂ := wellFormed_handle_dnsTask hs₁ e now
  have hnotified := within_createNotification hs f e.draft now
  have hnotified := hnotified.trans (within_handle_dnsTask hs₁ hdns now)
  refine hnotified.trans ?_
  by_cases haddress : Handler.threshold.concerns e
  · rw [Handler.handle_of_concerns haddress]
    refine within_fire hs₂ ?_
    rw [thresholdsOn_congr hnotified.thresholds]
    exact hbackups haddress
  · rw [Handler.handle_of_not_concerns haddress]
    exact .refl f _

end Store

end FleetHealth
