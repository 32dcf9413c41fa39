import FleetHealth.Proofs.Store.Requests
import Mathlib.Data.List.Induction
import Mathlib.Logic.ExistsUnique
/-!
# The queue of DNS tasks

A node is published again once, however often it was asked for since the tasks were last taken. So the
queue holds one task for each node and type that was asked for since then. The task says when it was first
asked for and when it was last asked for.

* `QueueCall.Pending` — what is to wait after a history of calls.
* `Store.queues_afterCalls` — what does wait, by induction over the history.
* `Store.tasks_wait_once` — what the calls return, and what becomes of each request.
-/

namespace FleetHealth

/-! ## Calls -/

/-- What may be asked of the queue. -/
inductive QueueCall where
  | enqueue (nodeId : UInt64) (taskType : DnsTaskType) (now : UInt64)
  | list
  | take
  deriving DecidableEq

namespace QueueCall

/-- The call as a request to a store. -/
def request : QueueCall → StoreRequest
  | enqueue nodeId taskType now => .enqueueDnsTask nodeId taskType now
  | list => .listDnsTasks
  | take => .takeDnsTasks

/-- The time of a call that asks for a node in a type. -/
def time? (nodeId : UInt64) (taskType : DnsTaskType) : QueueCall → Option UInt64
  | enqueue other otherType now => if other = nodeId ∧ otherType = taskType then some now else none
  | _ => none

/-- The calls of a history since tasks were last taken. -/
def sinceTake (calls : List QueueCall) : List QueueCall :=
  (calls.reverse.takeWhile (· ≠ take)).reverse

/-- The times at which a node was asked for in a type since tasks were last taken. -/
def times (calls : List QueueCall) (nodeId : UInt64) (taskType : DnsTaskType) : List UInt64 :=
  (sinceTake calls).filterMap (time? nodeId taskType)

/-- Whether tasks are what is to wait after a history: one task for each node and type that was asked for
since tasks were last taken, with the time of the first request and that of the last one, in the order of
the nodes. -/
structure Pending (calls : List QueueCall) (tasks : List DnsTask) : Prop where
  ordered : tasks.Pairwise fun t u => t.nodeId < u.nodeId
  one : ∀ nodeId taskType, (∃ now, enqueue nodeId taskType now ∈ sinceTake calls)
    ↔ ∃! t, t ∈ tasks ∧ t.nodeId = nodeId ∧ t.taskType = taskType
  dated : ∀ t ∈ tasks, (times calls t.nodeId t.taskType).head? = some t.createdAt
    ∧ (times calls t.nodeId t.taskType).getLast? = some t.updatedAt

/-- The task that is to wait for a node in a type. -/
def waiting? (calls : List QueueCall) (nodeId : UInt64) (taskType : DnsTaskType) : Option DnsTask :=
  (times calls nodeId taskType).head?.bind fun createdAt =>
    (times calls nodeId taskType).getLast?.map fun updatedAt => { nodeId, taskType, createdAt, updatedAt }

variable {calls before mid : List QueueCall} {nodeId : UInt64} {taskType : DnsTaskType} {now : UInt64}
  {t : DnsTask}

/-! ## Histories -/

@[simp] theorem sinceTake_concat_take (calls : List QueueCall) : sinceTake (calls ++ [take]) = [] := by
  simp [sinceTake]

theorem sinceTake_concat {c : QueueCall} (hc : c ≠ take) :
    sinceTake (calls ++ [c]) = sinceTake calls ++ [c] := by
  simp [sinceTake, hc]

/-- Calls that take nothing away only add to the history since the last take. -/
theorem sinceTake_append (hmid : take ∉ mid) : sinceTake (calls ++ mid) = sinceTake calls ++ mid := by
  induction mid using List.reverseRecOn with
  | nil => simp
  | append_singleton mid c ih =>
    simp only [List.mem_append, List.mem_singleton, not_or] at hmid
    rw [← List.append_assoc, sinceTake_concat (Ne.symm hmid.2), ih hmid.1, List.append_assoc]

/-- Nothing from before a take counts after it. -/
theorem sinceTake_subset : sinceTake (before ++ take :: mid) ⊆ mid := by
  induction mid using List.reverseRecOn with
  | nil =>
    rw [sinceTake_concat_take]
    exact List.Subset.refl []
  | append_singleton mid c ih =>
    rw [← List.cons_append, ← List.append_assoc]
    by_cases hc : c = take
    · rw [hc, sinceTake_concat_take]
      exact List.nil_subset _
    · rw [sinceTake_concat hc]
      exact List.append_subset.mpr
        ⟨List.subset_append_of_subset_left _ ih, List.subset_append_right _ _⟩

theorem mem_times : now ∈ times calls nodeId taskType ↔ enqueue nodeId taskType now ∈ sinceTake calls := by
  unfold times
  rw [List.mem_filterMap]
  constructor
  · rintro ⟨c, hc, htime⟩
    cases c with
    | enqueue other otherType since =>
      by_cases hsame : other = nodeId ∧ otherType = taskType
      · rw [time?, if_pos hsame] at htime
        obtain ⟨rfl, rfl⟩ := hsame
        exact Option.some.inj htime ▸ hc
      · rw [time?, if_neg hsame] at htime
        cases htime
    | list => cases htime
    | take => cases htime
  · intro hc
    exact ⟨_, hc, by simp [time?]⟩

@[simp] theorem times_concat_take : times (calls ++ [take]) nodeId taskType = [] := by
  simp [times]

@[simp] theorem times_concat_list : times (calls ++ [list]) nodeId taskType = times calls nodeId taskType := by
  simp [times, sinceTake_concat, time?]

theorem times_concat_enqueue (other : UInt64) (otherType : DnsTaskType) :
    times (calls ++ [enqueue other otherType now]) nodeId taskType
      = times calls nodeId taskType
        ++ if other = nodeId ∧ otherType = taskType then [now] else [] := by
  have hne : enqueue other otherType now ≠ take := nofun
  rw [times, sinceTake_concat hne, List.filterMap_append, ← times, List.filterMap_cons, time?]
  by_cases h : other = nodeId ∧ otherType = taskType
  · rw [if_pos h, if_pos h, List.filterMap_nil]
  · rw [if_neg h, if_neg h, List.filterMap_nil]

theorem waiting?_eq_some_iff : waiting? calls nodeId taskType = some t
    ↔ t.nodeId = nodeId ∧ t.taskType = taskType
      ∧ (times calls nodeId taskType).head? = some t.createdAt
      ∧ (times calls nodeId taskType).getLast? = some t.updatedAt := by
  unfold waiting?
  constructor
  · intro h
    obtain ⟨first, hfirst, h⟩ := Option.bind_eq_some_iff.mp h
    obtain ⟨last, hlast, rfl⟩ := Option.map_eq_some_iff.mp h
    exact ⟨rfl, rfl, hfirst, hlast⟩
  · rintro ⟨rfl, rfl, hfirst, hlast⟩
    rw [hfirst, hlast]
    rfl

/-- There is a task to wait for exactly what was asked for. -/
theorem isSome_waiting?_iff :
    (waiting? calls nodeId taskType).isSome ↔ ∃ now, enqueue nodeId taskType now ∈ sinceTake calls := by
  simp only [← mem_times]
  unfold waiting?
  cases htimes : times calls nodeId taskType with
  | nil => simp
  | cons first rest =>
    rw [List.getLast?_eq_some_getLast (List.cons_ne_nil first rest)]
    simp

/-- What another request for the same makes of the task that is to wait. -/
theorem waiting?_concat_enqueue (calls : List QueueCall) (nodeId : UInt64) (taskType : DnsTaskType)
    (now : UInt64) : waiting? (calls ++ [enqueue nodeId taskType now]) nodeId taskType
      = some { nodeId, taskType, updatedAt := now,
               createdAt := ((waiting? calls nodeId taskType).map (·.createdAt)).getD now } := by
  rw [waiting?_eq_some_iff, times_concat_enqueue, if_pos ⟨rfl, rfl⟩, List.getLast?_concat]
  refine ⟨rfl, rfl, ?_, rfl⟩
  unfold waiting?
  cases htimes : times calls nodeId taskType with
  | nil => rfl
  | cons first rest =>
    rw [List.getLast?_eq_some_getLast (List.cons_ne_nil first rest)]
    rfl

end QueueCall

/-! ## What waits -/

namespace Store

open QueueCall

variable {s s' : Store} {calls : List QueueCall} {nodeId : UInt64} {taskType : DnsTaskType} {now : UInt64}

/-- The store after one call after the other. -/
def afterCalls (s : Store) (calls : List QueueCall) : Store :=
  s.afterAll (calls.map QueueCall.request)

theorem afterCalls_concat (s : Store) (calls : List QueueCall) (c : QueueCall) :
    s.afterCalls (calls ++ [c]) = (s.afterCalls calls).after c.request := by
  simp [afterCalls, afterAll]

/-- Whether the queue of a store holds what is to wait after a history, and nothing else. -/
structure Queues (s : Store) (calls : List QueueCall) : Prop where
  /-- The queue by itself, whatever the other tables hold. -/
  wellFormed : ({ dnsTasks := s.dnsTasks } : Store).WellFormed
  record?_eq : ∀ nodeId taskType, s.record? .dnsTasks (dnsTaskKey nodeId taskType)
    = waiting? calls nodeId taskType

theorem queues_of_empty (hempty : s.dnsTasks = .empty) : s.Queues [] := by
  refine ⟨?_, ?_⟩
  · rw [hempty]
    exact wellFormed_empty
  · intro nodeId taskType
    show (s.dnsTasks.find? _).bind _ = _
    rw [hempty]
    rfl

theorem Queues.decodes (hs : s.Queues calls) : s.Decodes .dnsTasks :=
  hs.wellFormed.decodes .dnsTasks

theorem Queues.listDnsTasks (hs : s.Queues calls) : s.listDnsTasks = .ok (s.records .dnsTasks) := by
  unfold Store.listDnsTasks
  rw [scan_of_decodes hs.decodes]
  simp

theorem Queues.mem_records_iff (hs : s.Queues calls) {t : DnsTask} :
    t ∈ s.records .dnsTasks ↔ waiting? calls t.nodeId t.taskType = some t := by
  rw [← hs.record?_eq]
  exact hs.wellFormed.keyed.mem_records_iff (c := .dnsTasks)

/-- A task that waits for a node is the only one that does. -/
theorem Queues.pending (hs : s.Queues calls) : Pending calls (s.records .dnsTasks) where
  ordered := by
    have hkeys := hs.wellFormed.keyed.pairwise_records (c := .dnsTasks)
    refine List.Pairwise.imp ?_ hkeys
    intro t u hlt
    have htype : t.taskType = u.taskType := by cases t.taskType; cases u.taskType; rfl
    rw [htype] at hlt
    exact lt_of_dnsTaskKey_lt hlt
  one nodeId taskType := by
    rw [← isSome_waiting?_iff, Option.isSome_iff_exists]
    constructor
    · rintro ⟨t, ht⟩
      obtain ⟨rfl, rfl, -, -⟩ := waiting?_eq_some_iff.mp ht
      refine ⟨t, ⟨hs.mem_records_iff.mpr ht, rfl, rfl⟩, ?_⟩
      rintro u ⟨hu, hnode, htype⟩
      rw [hs.mem_records_iff, hnode, htype, ht] at hu
      exact (Option.some.inj hu).symm
    · rintro ⟨t, ⟨ht, rfl, rfl⟩, -⟩
      exact ⟨t, hs.mem_records_iff.mp ht⟩
  dated t ht := by
    obtain ⟨-, -, hdates⟩ := waiting?_eq_some_iff.mp (hs.mem_records_iff.mp ht)
    exact hdates

/-! ## What calls return -/

theorem Queues.handle_list (hs : s.Queues calls) :
    s.handle .listDnsTasks = .ok (.dnsTasks (s.records .dnsTasks), s) := by
  show s.listDnsTasks.map _ = _
  rw [hs.listDnsTasks]
  rfl

theorem Queues.handle_take (hs : s.Queues calls) : s.handle .takeDnsTasks
    = .ok (.dnsTasks (s.records .dnsTasks), { s with dnsTasks := .empty }) := by
  show s.takeDnsTasks.map _ = _
  unfold takeDnsTasks
  rw [hs.listDnsTasks]
  rfl

/-- A request returns the task that waits after it. -/
theorem Queues.handle_enqueue (hs : s.Queues calls) (nodeId : UInt64) (taskType : DnsTaskType)
    (now : UInt64) :
    ∃ t, waiting? (calls ++ [enqueue nodeId taskType now]) nodeId taskType = some t
      ∧ s.handle (.enqueueDnsTask nodeId taskType now)
        = .ok (.dnsTask t, s.put .dnsTasks (dnsTaskKey nodeId taskType) t) := by
  refine ⟨_, waiting?_concat_enqueue calls nodeId taskType now, ?_⟩
  show (s.enqueueDnsTask nodeId taskType now).map _ = _
  rw [enqueueDnsTask]
  simp only [find?_of_decodes hs.decodes, hs.record?_eq]
  rfl

/-- **A call leaves what is to wait after it.** -/
theorem Queues.after (hs : s.Queues calls) (c : QueueCall) :
    (s.after c.request).Queues (calls ++ [c]) := by
  cases c with
  | list =>
    show (s.after .listDnsTasks).Queues _
    rw [after_of_handle hs.handle_list]
    refine ⟨hs.wellFormed, ?_⟩
    intro nodeId taskType
    rw [hs.record?_eq, waiting?, waiting?, times_concat_list]
  | take =>
    show (s.after .takeDnsTasks).Queues _
    rw [after_of_handle hs.handle_take]
    refine ⟨wellFormed_empty, ?_⟩
    intro nodeId taskType
    rw [waiting?, times_concat_take]
    rfl
  | enqueue nodeId taskType now =>
    obtain ⟨t, ht, hqueued⟩ := hs.handle_enqueue nodeId taskType now
    obtain ⟨rfl, rfl, -⟩ := waiting?_eq_some_iff.mp ht
    show (s.after (.enqueueDnsTask t.nodeId t.taskType now)).Queues _
    rw [after_of_handle hqueued]
    refine ⟨hs.wellFormed.put .dnsTasks rfl, ?_⟩
    intro nodeId taskType
    have htype : taskType = t.taskType := by cases taskType; cases t.taskType; rfl
    subst htype
    by_cases hnode : t.nodeId = nodeId
    · subst hnode
      rw [ht, record?_put_self]
    · -- what waits for another node is neither asked for nor written
      have hkey : dnsTaskKey nodeId t.taskType ≠ dnsTaskKey t.nodeId t.taskType := by
        intro he
        exact hnode (dnsTaskKey_injective he).symm
      have htimes : times (calls ++ [enqueue t.nodeId t.taskType now]) nodeId t.taskType
          = times calls nodeId t.taskType := by
        rw [times_concat_enqueue, if_neg fun hsame => hnode hsame.1, List.append_nil]
      rw [record?_put_ne _ hkey, hs.record?_eq, waiting?, waiting?, htimes]

/-- **What waits is what was asked for**, after any calls to a queue that was empty. -/
theorem queues_afterCalls (hempty : s.dnsTasks = .empty) (calls : List QueueCall) :
    (s.afterCalls calls).Queues calls := by
  induction calls using List.reverseRecOn with
  | nil => exact queues_of_empty hempty
  | append_singleton calls c ih =>
    rw [afterCalls_concat]
    exact ih.after c

/-! ## Rows that hold no task -/

/-- Whether a request fails and leaves the store as it is. -/
def Refuses (s : Store) (r : StoreRequest) : Prop :=
  s.handle r = .error .undecodable ∧ s.after r = s

/-- A queue with a row that holds no task is not taken from. -/
theorem refuses_take {row : String × String} (hrow : row ∈ s.dnsTasks.rows)
    (hread : DnsTask.codec.read row.2 = none) : s.Refuses .takeDnsTasks := by
  have hhandle : s.handle .takeDnsTasks = .error .undecodable := by
    have hlist : s.listDnsTasks = .error .undecodable :=
      scan_of_unreadable (c := .dnsTasks) hrow hread _
    show s.takeDnsTasks.map _ = _
    unfold takeDnsTasks
    rw [hlist]
    rfl
  exact ⟨hhandle, after_of_handle_eq_error hhandle⟩

/-- What such a row stands for cannot be asked for. -/
theorem refuses_enqueue {row : String × String} (hrow : row ∈ s.dnsTasks.rows)
    (hread : DnsTask.codec.read row.2 = none) (hkey : row.1 = dnsTaskKey nodeId taskType) (now : UInt64) :
    s.Refuses (.enqueueDnsTask nodeId taskType now) := by
  have hhandle : s.handle (.enqueueDnsTask nodeId taskType now) = .error .undecodable := by
    have hfind : s.find? .dnsTasks row.1 = .error .undecodable :=
      find?_of_unreadable (c := .dnsTasks) hrow hread
    show (s.enqueueDnsTask nodeId taskType now).map _ = _
    rw [enqueueDnsTask]
    simp only [← hkey, hfind]
    rfl
  exact ⟨hhandle, after_of_handle_eq_error hhandle⟩

/-! ## All calls -/

/-- **Tasks wait once.** After any calls to a queue that was empty, listing returns what is to wait and
changes nothing, taking returns just that and empties the queue, and asking for a node returns the task
that waits for it from then on. So a request is covered by one task, which waits until tasks are taken and
is returned then; and a task is only returned again if it was asked for again. A queue with a row that
holds no task is not taken from, and what the row stands for cannot be asked for. -/
theorem tasks_wait_once (hempty : s.dnsTasks = .empty) :
    (∀ calls, ∃ tasks, Pending calls tasks
      ∧ (s.afterCalls calls).handle .listDnsTasks = .ok (.dnsTasks tasks, s.afterCalls calls)
      ∧ (s.afterCalls calls).handle .takeDnsTasks
        = .ok (.dnsTasks tasks, { s.afterCalls calls with dnsTasks := .empty })
      ∧ ∀ nodeId taskType now, ∃ t tasks', Pending (calls ++ [enqueue nodeId taskType now]) tasks'
        ∧ t ∈ tasks' ∧ t.nodeId = nodeId ∧ t.taskType = taskType
        ∧ (s.afterCalls calls).handle (.enqueueDnsTask nodeId taskType now)
          = .ok (.dnsTask t, s.afterCalls (calls ++ [enqueue nodeId taskType now])))
    ∧ (∀ calls before nodeId taskType now mid, calls = before ++ enqueue nodeId taskType now :: mid →
      QueueCall.take ∉ mid → ∃ tasks s',
        (s.afterCalls calls).handle .listDnsTasks = .ok (.dnsTasks tasks, s.afterCalls calls)
        ∧ (s.afterCalls calls).handle .takeDnsTasks = .ok (.dnsTasks tasks, s')
        ∧ now ∈ times calls nodeId taskType
        ∧ ∃! t, t ∈ tasks ∧ t.nodeId = nodeId ∧ t.taskType = taskType)
    ∧ (∀ before mid tasks s', (s.afterCalls (before ++ QueueCall.take :: mid)).handle .takeDnsTasks
        = .ok (.dnsTasks tasks, s') →
      ∀ t ∈ tasks, ∃ now, enqueue t.nodeId t.taskType now ∈ mid)
    ∧ ∀ broken : Store, ∀ row ∈ broken.dnsTasks.rows, DnsTask.codec.read row.2 = none →
      broken.Refuses .takeDnsTasks
      ∧ ∀ nodeId taskType now, row.1 = dnsTaskKey nodeId taskType →
        broken.Refuses (.enqueueDnsTask nodeId taskType now) := by
  have hqueues := queues_afterCalls hempty
  refine ⟨?_, ?_, ?_, ?_⟩
  · intro calls
    refine ⟨_, (hqueues calls).pending, (hqueues calls).handle_list, (hqueues calls).handle_take, ?_⟩
    intro nodeId taskType now
    obtain ⟨t, ht, hqueued⟩ := (hqueues calls).handle_enqueue nodeId taskType now
    obtain ⟨rfl, rfl, -⟩ := waiting?_eq_some_iff.mp ht
    have hnext := hqueues (calls ++ [enqueue t.nodeId t.taskType now])
    refine ⟨t, _, hnext.pending, hnext.mem_records_iff.mpr ht, rfl, rfl, ?_⟩
    have hafter : s.afterCalls (calls ++ [enqueue t.nodeId t.taskType now]) = _ :=
      (afterCalls_concat s calls _).trans (after_of_handle hqueued)
    rw [hqueued, hafter]
  · rintro calls before nodeId taskType now mid rfl hmid
    have hq := hqueues (before ++ enqueue nodeId taskType now :: mid)
    have hsince : enqueue nodeId taskType now
        ∈ sinceTake (before ++ enqueue nodeId taskType now :: mid) := by
      rw [sinceTake_append (by simp [hmid])]
      simp
    exact ⟨_, _, hq.handle_list, hq.handle_take, mem_times.mpr hsince,
      (hq.pending.one nodeId taskType).mp ⟨now, hsince⟩⟩
  · intro before mid tasks s' htake t ht
    have hq := hqueues (before ++ QueueCall.take :: mid)
    rw [hq.handle_take] at htake
    cases htake
    -- the task has the time of a request, which came after the take before
    have hasked := mem_times.mp (List.mem_of_head? (hq.pending.dated t ht).1)
    exact ⟨t.createdAt, sinceTake_subset hasked⟩
  · intro broken row hrow hread
    exact ⟨refuses_take hrow hread, fun _ _ now hkey => refuses_enqueue hrow hread hkey now⟩

/-- Two nodes are asked for, one of them twice: that one waits once, with the times of both requests. -/
theorem tasks_wait_once_askedTwice : ∃ tasks s',
    (({} : Store).afterCalls [enqueue 2 .nodeChange 10, enqueue 1 .nodeChange 11,
      enqueue 2 .nodeChange 12]).handle .takeDnsTasks = .ok (.dnsTasks tasks, s')
    ∧ (⟨2, .nodeChange, 10, 12⟩ : DnsTask) ∈ tasks := by
  obtain ⟨hcalls, -⟩ := tasks_wait_once (s := {}) rfl
  obtain ⟨tasks, hpending, -, htake, -⟩ := hcalls [enqueue 2 .nodeChange 10,
    enqueue 1 .nodeChange 11, enqueue 2 .nodeChange 12]
  refine ⟨tasks, _, htake, ?_⟩
  obtain ⟨t, ⟨ht, hnode, htype⟩, -⟩ := (hpending.one 2 .nodeChange).mp ⟨10, by decide⟩
  have hdates := hpending.dated t ht
  rw [hnode, htype] at hdates
  obtain ⟨nodeId, taskType, createdAt, updatedAt⟩ := t
  obtain rfl : nodeId = 2 := hnode
  obtain rfl : taskType = .nodeChange := htype
  obtain rfl : 10 = createdAt := Option.some.inj hdates.1
  obtain rfl : 12 = updatedAt := Option.some.inj hdates.2
  exact ht

end Store

end FleetHealth
