/-
Sleeping locks: `sync/mutex.c`.

A mutex has an owner and a queue of waiters, threaded through the same
`task->next` as the scheduler's queues. `mutex_lock` loops: a pass that
finds the lock taken blocks the task and yields, and the next pass comes
when the task runs again. `mutex_unlock` hands the lock to the first
waiter, which is still asleep, and wakes it.

A pass, from the entry or from a wake-up to the return or to the yield,
is one step here, and so is a call of `mutex_unlock`. Each holds the
mutex's `guard` from its first access to its last, which is then free
between steps and is not modelled.

# Runs

Any number of mutexes, and any of the scheduler's operations in between.
`waiting m` is the record of the tasks that have blocked in `mutex_lock`
of `m` and have not been made its owner since, in that order.
-/
import ZenithOS.Scheduler.Run
import Mathlib.Data.Fintype.Basic

namespace ZenithOS.Sync

open Lib Mm Scheduler

/-- `mutex_t`. -/
structure Mutex where
  locked : Bool
  owner : Option TaskPtr
  waitQueue : Option TaskPtr
  deriving DecidableEq, Repr

/-- `mutex_init`. -/
def mutexInit : Mutex := { locked := false, owner := none, waitQueue := none }

/-- How a pass of `mutex_lock` ends. -/
inductive LockPass
  | returned
  | yielded (resume : Resume)
  deriving DecidableEq, Repr

/-- One pass of the loop of `mutex_lock` by `current`; `regs` are the
registers `scheduler_yield` saves. -/
def mutexLockPass (s : Sched) (mutex : Mutex) (current : TaskPtr) (regs : CpuContext) :
    Option (LockPass × Mutex × Sched) :=
  if mutex.owner = some current then some (.returned, mutex, s)
  else if !mutex.locked then
    some (.returned, { mutex with locked := true, owner := some current }, s)
  else do
    let (s, head) ← taskQueuePush (setState s current .blocked) mutex.waitQueue current
    let (resume, s) ← schedulerYield s regs
    some (.yielded resume, { mutex with waitQueue := head }, s)

/-- `mutex_lock` from its entry to the end of its first pass. -/
def mutexLock (s : Sched) (mutex : Mutex) (regs : CpuContext) :
    Option (LockPass × Mutex × Sched) :=
  match s.currentTask with
  | none => some (.returned, mutex, s)
  | some current =>
      if mutex.owner = some current then some (.returned, mutex, s)
      else mutexLockPass s mutex current regs

/-- `mutex_unlock`. -/
def mutexUnlock (s : Sched) (mutex : Mutex) : Option (Mutex × Sched) :=
  match s.currentTask with
  | none => some (mutex, s)
  | some current =>
      if mutex.owner ≠ some current then some (mutex, s)
      else
        match mutex.waitQueue with
        | none => some ({ mutex with locked := false, owner := none }, s)
        | some next => do
            let (s, head) ← taskQueueRemove s mutex.waitQueue next
            let mutex := { mutex with waitQueue := head, owner := some next }
            let s ← schedulerUnblock s (some next)
            some (mutex, s)

-- ==================================================================== runs

variable {μ : Type} [DecidableEq μ]

/-- The scheduler, the tasks added so far, the mutexes and the record of
who waits. -/
structure MutexSys (μ : Type) where
  sched : Sched
  added : List TaskPtr
  mutexes : μ → Mutex
  waiting : μ → List TaskPtr

/-- The current task enters `mutex_lock`, goes on in it after a wake-up,
or calls `mutex_unlock`; or the scheduler does something. -/
inductive MutexOp (μ : Type)
  | lock (m : μ) (regs : CpuContext)
  | relock (m : μ) (regs : CpuContext)
  | unlock (m : μ)
  | sched (op : SchedOp)

/-- The task an operation calls `scheduler_unblock` on. -/
def unblocks : SchedOp → List TaskPtr
  | .unblock t => [t]
  | _ => []

/-- The idle task takes no mutex, and only `mutex_unlock` wakes a
waiter. -/
def MutexOp.Allowed (y : MutexSys μ) : MutexOp μ → Prop
  | .lock .. | .relock .. => y.sched.currentTask ≠ y.sched.idle
  | .unlock _ => True
  | .sched op => op.Allowed ⟨y.sched, y.added⟩
      ∧ ∀ t ∈ unblocks op, ∀ m, t ∉ y.waiting m

instance [Fintype μ] (y : MutexSys μ) : ∀ op : MutexOp μ, Decidable (op.Allowed y)
  | .lock .. | .relock .. => inferInstanceAs (Decidable (_ ≠ _))
  | .unlock _ => isTrue trivial
  | .sched _ => inferInstanceAs (Decidable (_ ∧ _))

/-- After a pass of the current task on `m`. -/
def lockPassed (y : MutexSys μ) (m : μ) (r : LockPass × Mutex × Sched) : MutexSys μ :=
  { y with
    sched := r.2.2
    mutexes := Function.update y.mutexes m r.2.1
    waiting :=
      match r.1 with
      | .returned => y.waiting
      | .yielded _ =>
          Function.update y.waiting m (y.waiting m ++ y.sched.currentTask.toList) }

/-- After a `mutex_unlock` of `m`: its new owner no longer waits. -/
def unlocked (y : MutexSys μ) (m : μ) (r : Mutex × Sched) : MutexSys μ :=
  { y with
    sched := r.2
    mutexes := Function.update y.mutexes m r.1
    waiting := Function.update y.waiting m
      ((y.waiting m).filter fun t => some t ≠ r.1.owner) }

/-- One step; `none` when the code does not come back. -/
def mutexStep (trampoline : Nat) (y : MutexSys μ) : MutexOp μ → Option (MutexSys μ)
  | .lock m regs => (mutexLock y.sched (y.mutexes m) regs).map (lockPassed y m)
  | .relock m regs =>
      match y.sched.currentTask with
      | none => some y
      | some current =>
          (mutexLockPass y.sched (y.mutexes m) current regs).map (lockPassed y m)
  | .unlock m => (mutexUnlock y.sched (y.mutexes m)).map (unlocked y m)
  | .sched op =>
      (sysStep trampoline ⟨y.sched, y.added⟩ op).map fun z =>
        { y with sched := z.sched, added := z.added }

/-- The machine after `scheduler_init`, with every mutex initialised. -/
def mutexSysInit (μ : Type) (boot : Sched) (id entry stack : Nat) : MutexSys μ :=
  { sched := schedulerInit boot id entry stack
    added := []
    mutexes := fun _ => mutexInit
    waiting := fun _ => [] }

end ZenithOS.Sync
