/-
The scheduler's queues partition the tasks.

`Stable` is the machine invariant between two operations: the queue
invariant with only the running task out, no task pending and no
preemption requested (both are raised and consumed inside one timer
interrupt). Every operation keeps it and never loses a terminated task
from `dead` (`Stable.step`), so it holds after every run; what it says
about heads, links and states is `Partitioned`.
-/
import ZenithOS.Scheduler.Proofs.Calls

namespace ZenithOS.Scheduler

open Lib Mm Proc

-- ========================================================= the invariant

/-- No queue besides the scheduler's own. -/
def noWait : Empty → Option TaskPtr := nofun

/-- The machine between two operations. -/
structure Stable (y : SchedSys) (q : QueueId Empty → List TaskPtr)
    (dead : List TaskPtr) : Prop where
  settled : Settled y.sched noWait q dead y.added
  pending : y.sched.pendingTask = none
  request : y.sched.preemptionRequested = false

variable {y : SchedSys} {q : QueueId Empty → List TaskPtr} {dead : List TaskPtr}
  {t : TaskPtr} {trampoline : Nat}

/-- `scheduler_init` on a machine without tasks. -/
theorem stable_init {boot : Sched} (hboot : boot.taskCount = 0) (id entry stack : Nat) :
    Stable (sysInit boot id entry stack) (fun _ => []) [] := by
  have hwait : noWait = fun _ => none := funext nofun
  refine ⟨?_, rfl, rfl⟩
  rw [hwait]
  exact settled_init hboot id entry stack

/-- Every operation comes back and keeps the machine stable; what it does
to the queues is `Moved`. -/
theorem Stable.step_moved (h : Stable y q dead) (trampoline : Nat) {op : SchedOp}
    (hop : op.Allowed y) :
    ∃ y' q' dead', sysStep trampoline y op = some y' ∧ Stable y' q' dead' ∧ dead ⊆ dead'
      ∧ Moved (op.back y.sched) (op.blocked y.sched (q .blocked)) y.sched y'.sched q q' := by
  obtain ⟨y', q', dead', hstep, hset, hp, hr, hmoved, hsub⟩ :=
    h.settled.step trampoline h.pending h.request hop fun _ _ => nofun
  exact ⟨y', q', dead', hstep, ⟨hset, hp, hr⟩, hsub, hmoved⟩

/-- Every operation comes back, keeps the machine stable and buries no
one again. -/
theorem Stable.step (h : Stable y q dead) {op : SchedOp} (hop : op.Allowed y) :
    ∃ y' q' dead', sysStep trampoline y op = some y' ∧ Stable y' q' dead'
      ∧ dead ⊆ dead' := by
  obtain ⟨y', q', dead', hstep, hstable, hsub, -⟩ := h.step_moved trampoline hop
  exact ⟨y', q', dead', hstep, hstable, hsub⟩

-- ========================================================= the partition

/-- How often a task occurs: as the current task and in the queues. -/
def occurrences (s : Sched) (ready blocked sleep : List TaskPtr) (t : TaskPtr) : Nat :=
  (if s.currentTask = some t then 1 else 0)
    + ready.count t + blocked.count t + sleep.count t

/-- The three queues are linked lists that end, and each added task is in
one place, with the state of that place. -/
structure Partitioned (s : Sched) (added ready blocked sleep : List TaskPtr) :
    Prop where
  ready_linked : Linked (links s) s.readyQueue ready
  blocked_linked : Linked (links s) s.blockedQueue blocked
  sleep_linked : Linked (links s) s.sleepQueue sleep
  idle : ∀ i, s.idle = some i → i ∉ ready ∧ i ∉ blocked ∧ i ∉ sleep
  queued : ∀ t, t ∈ ready ∨ t ∈ blocked ∨ t ∈ sleep → t ∈ added
  once : ∀ t ∈ added, occurrences s ready blocked sleep t
    = if (s.tasks t).state = .terminated then 0 else 1
  state : ∀ t ∈ added,
    (s.currentTask = some t → (s.tasks t).state = .running)
    ∧ (t ∈ ready → (s.tasks t).state = .ready)
    ∧ (t ∈ blocked → (s.tasks t).state = .blocked)
    ∧ (t ∈ sleep → (s.tasks t).state = .sleeping)

/-- An added task is current exactly when it is out. -/
theorem Stable.current_iff (h : Stable y q dead) (ht : t ∈ y.added) :
    y.sched.currentTask = some t ↔ t ∈ running y.sched := by
  have hidle := (h.settled.inv.added_lt t ht).2
  unfold running
  split_ifs with hcur
  · simp only [List.not_mem_nil, iff_false]
    intro heq
    exact hidle (by rw [← heq, hcur])
  · exact Option.mem_toList.symm

/-- The number of times a task is in a queue. -/
theorem Stable.count_eq (h : Stable y q dead) (k : QueueId Empty) (t : TaskPtr) :
    (q k).count t = if t ∈ q k then 1 else 0 :=
  (h.settled.inv.queues.linked k).nodup.count

/-- Every added task that is not terminated is in one place. -/
theorem Stable.once (h : Stable y q dead) (ht : t ∈ y.added) :
    occurrences y.sched (q .ready) (q .blocked) (q .sleep) t
      = if (y.sched.tasks t).state = .terminated then 0 else 1 := by
  simp only [occurrences, h.count_eq, h.current_iff ht]
  have hinv := h.settled.inv
  -- each place excludes the others: by its state, or as `out`
  rcases hinv.placed t ht with hmem | ⟨k, hmem⟩ | hmem
  · have hfree : ∀ k, t ∉ q k := fun k hk => (hinv.queued k t hk).2.1 hmem
    have hstate := h.settled.state t hmem
    simp [hmem, hfree, hstate]
  · obtain ⟨-, hout, hstate⟩ := hinv.queued k t hmem
    have hother : ∀ k', t ∈ q k' ↔ k' = k := fun k' =>
      ⟨fun hk' => hinv.queues.disjoint hk' hmem, fun heq => heq ▸ hmem⟩
    have hlive : (y.sched.tasks t).state ≠ .terminated :=
      hstate ▸ queueState_ne_terminated k
    cases k with
    | wait m => exact m.elim
    | ready | blocked | sleep => simp [hother, hout, hlive]
  · obtain ⟨-, hout, hstate⟩ := hinv.dead_added t hmem
    have hfree : ∀ k, t ∉ q k := hinv.not_queued fun k heq =>
      queueState_ne_terminated k (heq.symm.trans hstate)
    simp [hout, hfree, hstate]

/-- The queues and the running task are a partition of the tasks added. -/
theorem Stable.partitioned (h : Stable y q dead) :
    Partitioned y.sched y.added (q .ready) (q .blocked) (q .sleep) := by
  have hinv := h.settled.inv
  refine ⟨hinv.queues.linked .ready, hinv.queues.linked .blocked,
    hinv.queues.linked .sleep, fun i hi => ?_, fun t ht => ?_, fun t ht => h.once ht,
    fun t ht => ⟨fun hcur => ?_, fun hmem => (hinv.queued .ready t hmem).2.2,
      fun hmem => (hinv.queued .blocked t hmem).2.2,
      fun hmem => (hinv.queued .sleep t hmem).2.2⟩⟩
  · have hfree : ∀ k, i ∉ q k := fun k hk =>
      (hinv.added_lt i (hinv.queued k i hk).1).2 hi.symm
    exact ⟨hfree .ready, hfree .blocked, hfree .sleep⟩
  · rcases ht with hmem | hmem | hmem
    exacts [(hinv.queued .ready t hmem).1, (hinv.queued .blocked t hmem).1,
      (hinv.queued .sleep t hmem).1]
  · exact h.settled.state t ((h.current_iff ht).mp hcur)

/-- The dead are never current. -/
theorem Stable.dead_not_current (h : Stable y q dead) (ht : t ∈ dead) :
    y.sched.currentTask ≠ some t := fun hcur =>
  have hadd := (h.settled.inv.dead_added t ht).1
  (h.settled.inv.dead_added t ht).2.1 ((h.current_iff hadd).mp hcur)

/-- The dead are exactly the added tasks with state `TERMINATED`. -/
theorem Stable.mem_dead (h : Stable y q dead) (ht : t ∈ y.added)
    (hstate : (y.sched.tasks t).state = .terminated) : t ∈ dead := by
  rcases h.settled.inv.placed t ht with hmem | ⟨k, hmem⟩ | hmem
  · have hrun := h.settled.state t hmem
    rw [hrun] at hstate
    cases hstate
  · exact absurd ((h.settled.inv.queued k t hmem).2.2.symm.trans hstate)
      (queueState_ne_terminated k)
  · exact hmem

/-- Whole runs: every allowed run comes back to a stable machine that
still has the dead it started with. -/
theorem Stable.run (h : Stable y q dead) {ops : List SchedOp}
    (hops : AllowedRun (sysStep trampoline) (fun y op => op.Allowed y) y ops) :
    ∃ y', runOps (sysStep trampoline) y ops = some y'
      ∧ ∃ q' dead', Stable y' q' dead' ∧ dead ⊆ dead' := by
  refine run_total (P := fun y => ∃ q' dead', Stable y q' dead' ∧ dead ⊆ dead') ?_
    ⟨q, dead, h, List.Subset.refl _⟩ hops
  rintro y op ⟨q', dead', hstable, hsub⟩ hop
  obtain ⟨y', q'', dead'', hstep, hstable', hsub'⟩ := hstable.step hop
  exact ⟨y', hstep, q'', dead'', hstable', List.Subset.trans hsub hsub'⟩

/-- After every run from `scheduler_init`, the tasks are partitioned
among the current task, the three queues and the terminated ones, and a
terminated task does not become current in any continuation. -/
theorem sched_queue_partition (trampoline id entry stack : Nat) (boot : Sched)
    (hboot : boot.taskCount = 0) (ops : List SchedOp)
    (hops : AllowedRun (sysStep trampoline) (fun y op => op.Allowed y)
      (sysInit boot id entry stack) ops) :
    ∃ y, runOps (sysStep trampoline) (sysInit boot id entry stack) ops = some y
      ∧ (∃ ready blocked sleep, Partitioned y.sched y.added ready blocked sleep)
      ∧ ∀ t ∈ y.added, (y.sched.tasks t).state = .terminated →
          ∀ ops', AllowedRun (sysStep trampoline) (fun y op => op.Allowed y) y ops' →
            ∃ y', runOps (sysStep trampoline) y ops' = some y'
              ∧ y'.sched.currentTask ≠ some t := by
  obtain ⟨y, hrun, q, dead, hstable, -⟩ := (stable_init hboot id entry stack).run hops
  refine ⟨y, hrun, ⟨_, _, _, hstable.partitioned⟩, fun t ht hdead ops' hops' => ?_⟩
  obtain ⟨y', hrun', q', dead', hstable', hsub⟩ := hstable.run hops'
  exact ⟨y', hrun', hstable'.dead_not_current (hsub (hstable.mem_dead ht hdead))⟩

/-- A machine before `scheduler_init`. -/
def bootSched : Sched :=
  { tasks := fun _ => {}, taskCount := 0, processes := fun _ => {}
    readyQueue := none, currentTask := none, idle := none, blockedQueue := none
    sleepQueue := none, pendingTask := none, preemptionTicks := 0
    preemptionRequested := false, bootContext := {}, systemTicks := 0
    activePml4Physical := 0x1000, cr3 := 0x1000, tssRsp0 := 0, stack := fun _ => 0 }

/-- Two tasks: one blocks, the other wakes it and exits. -/
def twoTaskOps : List SchedOp :=
  [.createTask 2 0x100 0x8000 none, .createTask 3 0x200 0x10000 none, .addTask 1,
    .addTask 2, .yield { rsp := 0x500 }, .blockCurrent { rsp := 0xb000 }, .unblock 1,
    .timer 0x13000, .exit { rsp := 0x12000 }]

/-- One task runs, the other has exited. -/
theorem sched_queue_partition_two_tasks :
    ∃ y, runOps (sysStep 0x42) (sysInit bootSched 1 0x50 0x4000) twoTaskOps = some y
      ∧ (y.sched.currentTask = some 1 ∧ (y.sched.tasks 2).state = .terminated)
      ∧ ∃ ready blocked sleep, Partitioned y.sched y.added ready blocked sleep := by
  obtain ⟨y, hrun, hpart, -⟩ :=
    sched_queue_partition 0x42 1 0x50 0x4000 bootSched rfl twoTaskOps (by decide)
  have hfinal : (runOps (sysStep 0x42) (sysInit bootSched 1 0x50 0x4000) twoTaskOps).map
      (fun y => (y.sched.currentTask, (y.sched.tasks 2).state))
      = some (some 1, .terminated) := by decide
  rw [hrun] at hfinal
  exact ⟨y, hrun, by simpa using hfinal, hpart⟩

end ZenithOS.Scheduler
