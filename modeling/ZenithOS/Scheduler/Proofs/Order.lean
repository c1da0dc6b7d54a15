/-
The ready queue is served in order.

Tasks enter at the end, from `scheduler_add_task`, `scheduler_unblock`,
the wake-up loop and the two requeues, and leave at the head, through
`scheduler_schedule` or `scheduler_get_next_interrupt_rsp`. So the machine
is a FIFO (`schedFifo`), and what holds of those holds here: nobody
overtakes, and who gives up the processor while ready is last.
-/
import ZenithOS.Scheduler.Proofs.Partition

namespace ZenithOS.Scheduler

open Lib Mm Proc

variable {y y' : SchedSys} {q : QueueId Empty → List TaskPtr} {dead ready : List TaskPtr}
  {t : TaskPtr} {op : SchedOp} {trampoline : Nat}

/-- The tasks of the ready queue, in its order, in a stable machine. -/
def ReadyView (y : SchedSys) (ready : List TaskPtr) : Prop :=
  ∃ q dead, Stable y q dead ∧ q .ready = ready

/-- The view is the ready queue. -/
theorem ReadyView.linked (h : ReadyView y ready) :
    Linked (links y.sched) y.sched.readyQueue ready := by
  obtain ⟨q, dead, hstable, rfl⟩ := h
  exact hstable.settled.inv.queues.linked .ready

/-- A ready task does not run. -/
theorem Stable.ready_waiting (h : Stable y q dead) (ht : t ∈ q .ready) :
    y.sched.currentTask ≠ some t := by
  obtain ⟨hadd, hout, -⟩ := h.settled.inv.queued .ready t ht
  intro hcur
  exact hout ((h.current_iff hadd).mp hcur)

/-- An operation serves the ready queue. -/
theorem ReadyView.step (h : ReadyView y ready) (hop : op.Allowed y) :
    ∃ y' ready', sysStep trampoline y op = some y' ∧ ReadyView y' ready'
      ∧ Serves y.sched.idle (op.back y.sched) y.sched.currentTask y'.sched.currentTask ready
        ready' := by
  obtain ⟨q, dead, hstable, rfl⟩ := h
  obtain ⟨y', q', dead', hstep, hstable', -, hmoved⟩ := hstable.step_moved _ hop
  exact ⟨y', q' .ready, hstep, ⟨q', dead', hstable', rfl⟩, hmoved.ready⟩

/-- The scheduler serves its ready queue in order. -/
theorem schedFifo (trampoline : Nat) :
    Fifo (sysStep trampoline) (fun y op => op.Allowed y) (fun y => y.sched.currentTask)
      ReadyView := by
  refine ⟨?_, ?_, ?_⟩
  · intro y ready h
    exact h.linked.nodup
  · intro y ready h t ht
    obtain ⟨q, dead, hstable, rfl⟩ := h
    exact hstable.ready_waiting ht
  · intro y ready op h hop
    obtain ⟨y', ready', hstep, hview, hserves⟩ := h.step hop
    exact ⟨y', ready', y.sched.idle, op.back y.sched, hstep, hview, hserves⟩

/-- `scheduler_yield` and the timer put the running task back. -/
def SchedOp.Requeues : SchedOp → Prop
  | .yield _ | .timer _ => True
  | _ => False

/-- The running task goes to the end. -/
theorem SchedOp.Requeues.back (h : op.Requeues) (hcur : y.sched.currentTask = some t)
    (hidle : some t ≠ y.sched.idle) : op.back y.sched = [t] := by
  cases op with
  | yield regs => exact running_task hcur hidle
  | timer rsp => exact running_task hcur hidle
  | _ => exact h.elim

/-- In every run, of two tasks in the ready queue the one ahead is current
before the other is; and a task that yields or is preempted either goes on
or is last in the queue, behind all that were in it. -/
theorem ready_queue_in_order (trampoline id entry stack : Nat) (boot : Sched)
    (hboot : boot.taskCount = 0) (ops : List SchedOp)
    (hops : AllowedRun (sysStep trampoline) (fun y op => op.Allowed y)
      (sysInit boot id entry stack) ops) :
    ∃ y ready, runOps (sysStep trampoline) (sysInit boot id entry stack) ops = some y
      ∧ Linked (links y.sched) y.sched.readyQueue ready
      ∧ (∀ a b, Ahead a b ready → ∀ ops',
          AllowedRun (sysStep trampoline) (fun y op => op.Allowed y) y ops' →
          ∃ y', runOps (sysStep trampoline) y ops' = some y'
            ∧ (y'.sched.currentTask = some b → ∃ ops₁ ops₂ z, ops' = ops₁ ++ ops₂ ∧ ops₂ ≠ []
              ∧ runOps (sysStep trampoline) y ops₁ = some z ∧ z.sched.currentTask = some a))
      ∧ ∀ op : SchedOp, op.Allowed y → op.Requeues → ∀ t, y.sched.currentTask = some t →
          some t ≠ y.sched.idle →
          ∃ y' ready', sysStep trampoline y op = some y'
            ∧ Linked (links y'.sched) y'.sched.readyQueue ready'
            ∧ (y'.sched.currentTask = some t ∨ ∃ front, ready' = front ++ [t]
              ∧ ∀ u ∈ ready, y'.sched.currentTask = some u ∨ u ∈ front) := by
  obtain ⟨y, hrun, q, dead, hstable, -⟩ := (stable_init hboot id entry stack).run hops
  have hview : ReadyView y (q .ready) := ⟨q, dead, hstable, rfl⟩
  refine ⟨y, q .ready, hrun, hview.linked, ?_, ?_⟩
  · intro a b hahead ops' hops'
    obtain ⟨y', hrun', -⟩ := hstable.run hops'
    refine ⟨y', hrun', ?_⟩
    intro hb
    exact (schedFifo trampoline).no_overtaking hview hahead hops' hrun' hb
  · intro op hop hrequeues t hcur hidle
    obtain ⟨y', ready', hstep, hview', hserves⟩ := hview.step hop
    rw [hrequeues.back hcur hidle] at hserves
    exact ⟨y', ready', hstep, hview'.linked, hserves.behind hcur⟩

/-- Three tasks are added; the first two run in their order. -/
def threeTaskOps : List SchedOp :=
  [.createTask 2 0x100 0x8000 none, .createTask 3 0x200 0x10000 none,
    .createTask 4 0x300 0x20000 none, .addTask 1, .addTask 2, .addTask 3]

/-- Three tasks take turns. -/
theorem ready_queue_in_order_three_tasks :
    ∃ y y', runOps (sysStep 0x42) (sysInit bootSched 1 0x50 0x4000) threeTaskOps = some y
      ∧ runOps (sysStep 0x42) y [.yield { rsp := 0x500 }, .timer 0xa000, .yield { rsp := 0xb000 }]
        = some y'
      ∧ y'.sched.currentTask = some 2
      ∧ ∃ ops₁ ops₂ z, [.yield { rsp := 0x500 }, .timer 0xa000, .yield { rsp := 0xb000 }]
        = ops₁ ++ ops₂ ∧ ops₂ ≠ [] ∧ runOps (sysStep 0x42) y ops₁ = some z
        ∧ z.sched.currentTask = some 1 := by
  obtain ⟨y, ready, hrun, hlinked, horder, -⟩ :=
    ready_queue_in_order 0x42 1 0x50 0x4000 bootSched rfl threeTaskOps (by decide)
  have hqueue : (runOps (sysStep 0x42) (sysInit bootSched 1 0x50 0x4000) threeTaskOps).map
      (fun y => (y.sched.readyQueue, links y.sched 1, links y.sched 2, links y.sched 3))
      = some (some 1, some 2, some 3, none) := by decide
  have hcontinued : (runOps (sysStep 0x42) (sysInit bootSched 1 0x50 0x4000) threeTaskOps).map
      (fun y => (decide (AllowedRun (sysStep 0x42) (fun y op => op.Allowed y) y
          [.yield { rsp := 0x500 }, .timer 0xa000, .yield { rsp := 0xb000 }]),
        (runOps (sysStep 0x42) y [.yield { rsp := 0x500 }, .timer 0xa000,
          .yield { rsp := 0xb000 }]).map fun y => y.sched.currentTask))
      = some (true, some (some 2)) := by decide
  rw [hrun, Option.map_some] at hqueue hcontinued
  injection hqueue with hqueue
  injection hqueue with hhead hqueue
  injection hqueue with hone hqueue
  injection hqueue with htwo hthree
  injection hcontinued with hcontinued
  injection hcontinued with hallowed hcurrent
  have hready : ready = [1, 2, 3] := by
    apply hlinked.unique
    exact ⟨hhead, hone, htwo, hthree⟩
  have hahead : Ahead 1 2 ready := ⟨[], [2, 3], hready, List.mem_cons_self⟩
  obtain ⟨y', hrun', hbefore⟩ := horder 1 2 hahead _ (of_decide_eq_true hallowed)
  rw [hrun', Option.map_some] at hcurrent
  injection hcurrent with hcurrent
  exact ⟨y, y', hrun, hrun', hcurrent, hbefore hcurrent⟩

end ZenithOS.Scheduler
