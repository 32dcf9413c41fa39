import FleetHealth.Proofs.Monitor.Steps
/-!
# The registry of monitors

Registered monitors stand in the order of their clusters, one a cluster. A call that takes monitors off
the registry marks their tasks, so that they are dropped, and leaves all others as they are.

* `Service.lookup_insertMonitor`, `Service.lookup_filter_ne` — the registry after a call.
* `Service.Cancels` — the tasks after a call.
-/

namespace FleetHealth.Service

variable {v v' : Service} {id : Nat} {t : Task} {clusterId : UInt64} {now : UInt64}

/-! ## Entries -/

theorem lookup_insertMonitor (clusterId other : UInt64) (id : Nat) (registry : List (UInt64 × Nat)) :
    (insertMonitor clusterId id registry).lookup other
      = if clusterId = other then some id else registry.lookup other := by
  induction registry with
  | nil =>
    unfold insertMonitor
    by_cases hother : clusterId = other
    · simp [hother]
    · simp [List.lookup_cons, hother, beq_false_of_ne (Ne.symm hother)]
  | cons entry rest ih =>
    obtain ⟨c, j⟩ := entry
    unfold insertMonitor
    by_cases hother : clusterId = other
    · subst hother
      simp only [if_true]
      split
      · simp
      · split
        · simp
        · rename_i hne
          have hne : (clusterId == c) = false := beq_false_of_ne hne
          rw [List.lookup_cons, hne, ih, if_pos rfl]
    · have hother' : (other == clusterId) = false := beq_false_of_ne (Ne.symm hother)
      simp only [if_neg hother] at ih ⊢
      split
      · rw [List.lookup_cons, hother']
      · split
        · rename_i heq
          obtain rfl : clusterId = c := heq
          rw [List.lookup_cons, List.lookup_cons, hother']
        · rw [List.lookup_cons, List.lookup_cons, ih]

theorem mem_insertMonitor {entry : UInt64 × Nat} {registry : List (UInt64 × Nat)}
    (hentry : entry ∈ insertMonitor clusterId id registry) :
    entry.1 = clusterId ∨ entry ∈ registry := by
  induction registry with
  | nil => exact .inl (congrArg Prod.fst (List.mem_singleton.mp hentry))
  | cons head rest ih =>
    unfold insertMonitor at hentry
    split at hentry
    · rcases List.mem_cons.mp hentry with rfl | hentry
      · exact .inl rfl
      · exact .inr hentry
    · split at hentry
      · rcases List.mem_cons.mp hentry with rfl | hentry
        · exact .inl rfl
        · exact .inr (List.mem_cons_of_mem _ hentry)
      · rcases List.mem_cons.mp hentry with rfl | hentry
        · exact .inr List.mem_cons_self
        · exact (ih hentry).imp_right (List.mem_cons_of_mem _)

theorem pairwise_insertMonitor {registry : List (UInt64 × Nat)} (clusterId : UInt64) (id : Nat)
    (hregistry : registry.Pairwise fun a b => a.1 < b.1) :
    (insertMonitor clusterId id registry).Pairwise fun a b => a.1 < b.1 := by
  induction registry with
  | nil => exact List.pairwise_singleton _ _
  | cons head rest ih =>
    obtain ⟨hhead, hrest⟩ := List.pairwise_cons.mp hregistry
    unfold insertMonitor
    split
    · rename_i hlt
      refine List.pairwise_cons.mpr ⟨?_, hregistry⟩
      intro entry hentry
      rcases List.mem_cons.mp hentry with rfl | hentry
      · exact hlt
      · exact UInt64.lt_trans hlt (hhead entry hentry)
    · rename_i hnot
      split
      · rename_i heq
        exact List.pairwise_cons.mpr ⟨fun entry hentry => heq ▸ hhead entry hentry, hrest⟩
      · rename_i hne
        refine List.pairwise_cons.mpr ⟨?_, ih hrest⟩
        intro entry hentry
        rcases mem_insertMonitor hentry with heq | hentry
        · rw [heq]
          exact UInt64.lt_of_le_of_ne (UInt64.not_lt.mp hnot) (Ne.symm hne)
        · exact hhead entry hentry

theorem lookup_filter_ne (clusterId other : UInt64) (registry : List (UInt64 × Nat)) :
    (registry.filter (·.1 != clusterId)).lookup other
      = if clusterId = other then none else registry.lookup other := by
  induction registry with
  | nil => simp
  | cons entry rest ih =>
    obtain ⟨c, j⟩ := entry
    rw [List.filter_cons]
    by_cases hc : c = clusterId
    · subst hc
      rw [if_neg (by simp), ih]
      by_cases hother : c = other
      · rw [if_pos hother, if_pos hother]
      · rw [if_neg hother, if_neg hother, List.lookup_cons, beq_false_of_ne (Ne.symm hother)]
    · rw [if_pos (by simpa using hc), List.lookup_cons, List.lookup_cons, ih]
      by_cases hother : other = c
      · subst hother
        simp [Ne.symm hc]
      · rw [beq_false_of_ne hother]

/-- A registry in order has one entry a cluster. -/
theorem lookup_eq_some_iff {registry : List (UInt64 × Nat)}
    (hregistry : registry.Pairwise fun a b => a.1 < b.1) :
    registry.lookup clusterId = some id ↔ (clusterId, id) ∈ registry := by
  rw [List.lookup_eq_some_iff]
  constructor
  · rintro ⟨before, after, rfl, -⟩
    simp
  · intro hmem
    obtain ⟨before, after, rfl⟩ := List.append_of_mem hmem
    refine ⟨before, after, rfl, ?_⟩
    intro entry hentry
    have hlt := (List.pairwise_append.mp hregistry).2.2 entry hentry (clusterId, id) List.mem_cons_self
    exact bne_iff_ne.mpr fun he => UInt64.lt_irrefl _ (he ▸ hlt)

/-! ## Tasks -/

/-- Whether a service is another one in which some tasks are to be dropped, with a registry of its
own. -/
structure Cancels (v v' : Service) (ids : List Nat) : Prop where
  clock : v'.clock = v.clock
  tasks : ∀ id, v'.tasks[id]? = v.tasks[id]?.map fun t =>
    if id ∈ ids then { t with cancelled := true } else t

theorem Cancels.refl (v : Service) : v.Cancels v [] :=
  ⟨rfl, fun id => by simp⟩

theorem Cancels.length {ids : List Nat} (hv : v.Cancels v' ids) : v'.tasks.length = v.tasks.length := by
  have hiff (n : Nat) : v'.tasks.length ≤ n ↔ v.tasks.length ≤ n := by
    have hn := hv.tasks n
    constructor
    · intro hle
      rw [List.getElem?_eq_none hle, eq_comm, Option.map_eq_none_iff] at hn
      exact List.getElem?_eq_none_iff.mp hn
    · intro hle
      rw [List.getElem?_eq_none hle, Option.map_none] at hn
      exact List.getElem?_eq_none_iff.mp hn
  exact Nat.le_antisymm ((hiff _).mpr (Nat.le_refl _)) ((hiff _).mp (Nat.le_refl _))

theorem Cancels.cancel {ids : List Nat} (hv : v.Cancels v' ids) (id : Nat) :
    v.Cancels (v'.cancel id) (id :: ids) := by
  have hid := hv.tasks id
  unfold Service.cancel
  cases ht : v'.tasks[id]? with
  | none =>
    refine ⟨hv.clock, ?_⟩
    intro other
    rw [hv.tasks other]
    by_cases hother : other = id
    · rw [ht, eq_comm, Option.map_eq_none_iff] at hid
      rw [hother, hid]
      rfl
    · simp [hother]
  | some t =>
    refine ⟨hv.clock, ?_⟩
    intro other
    show (v'.tasks.set id { t with cancelled := true })[other]? = _
    by_cases hother : other = id
    · subst hother
      rw [ht, eq_comm, Option.map_eq_some_iff] at hid
      obtain ⟨t₀, ht₀, rfl⟩ := hid
      rw [List.getElem?_set_self (List.getElem?_eq_some_iff.mp ht).1, ht₀]
      simp only [Option.map_some, List.mem_cons, true_or, if_true]
      split <;> rfl
    · rw [List.getElem?_set_ne (Ne.symm hother), hv.tasks other]
      simp [hother]

theorem Cancels.cancelAll {ids : List Nat} (hv : v.Cancels v' ids) (entries : List (UInt64 × Nat)) :
    ∃ ids', v.Cancels (entries.foldl (fun v entry => v.cancel entry.2) v') ids'
      ∧ ∀ id, id ∈ ids' ↔ id ∈ ids ∨ id ∈ entries.map (·.2) := by
  induction entries generalizing v' ids with
  | nil => exact ⟨ids, hv, by simp⟩
  | cons entry rest ih =>
    obtain ⟨ids', hcancels, hids⟩ := ih (hv.cancel entry.2)
    refine ⟨ids', hcancels, ?_⟩
    intro id
    rw [hids]
    simp only [List.mem_cons, List.map_cons]
    constructor
    · rintro ((rfl | hold) | hrest)
      · exact .inr (.inl rfl)
      · exact .inl hold
      · exact .inr (.inr hrest)
    · rintro (hold | rfl | hrest)
      · exact .inl (.inr hold)
      · exact .inl (.inl rfl)
      · exact .inr hrest

/-- A monitor is registered in place of the one before. -/
theorem register_eq_some (ht : v.tasks[id]? = some t) (hstep : v.step now (.register id) = some v') :
    v.Cancels v' (v.registry.lookup t.clusterId).toList
      ∧ v'.registry = insertMonitor t.clusterId id v.registry := by
  simp only [step, Option.bind_eq_bind, ht, Option.bind_some, Option.some.injEq] at hstep
  subst hstep
  cases v.registry.lookup t.clusterId with
  | none =>
    have hcancels := Cancels.refl v
    exact ⟨⟨hcancels.clock, hcancels.tasks⟩, rfl⟩
  | some old =>
    have hcancels := (Cancels.refl v).cancel old
    refine ⟨⟨hcancels.clock, hcancels.tasks⟩, ?_⟩
    show insertMonitor t.clusterId id (v.cancel old).registry = _
    unfold Service.cancel
    split <;> rfl

end FleetHealth.Service
