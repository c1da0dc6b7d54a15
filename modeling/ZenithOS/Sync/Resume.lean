/-
Where a suspended task's state is, and where the task is resumed from.

# Points

Timer interrupts come between any two statements that run with interrupts
enabled. Most of these leave nothing half done, so the calls are one step
each. Two do not: `mutex_lock` has queued the task and marked it `BLOCKED`
when it calls `scheduler_yield`, and `scheduler_unblock` goes on with a
test made before it disables interrupts. `point` says which of the two a
stream of execution is at, if any.

# Saves

`scheduler_yield` saves the previous task in its `context` and an
interrupt leaves it in the frame it pushes. `saves t` records the last of
these for each task, and what `task_create` prepares before; the code does
not keep it. `resume_mode` and `interrupt_rsp` are the code's own account.
-/
import ZenithOS.Sync.Mutex
import ZenithOS.Scheduler.InterruptFlag

namespace ZenithOS.Sync

open Lib Mm Scheduler

/-- Where the state of a task that does not run is. -/
inductive Source
  | context (context : CpuContext)
  | frame (rsp : Nat)
  | userEntry
  deriving DecidableEq, Repr

/-- Whom `scheduler_yield` resumes, and from where. -/
def resumedFrom : Resume → Option (TaskPtr × Source)
  | .caller => none
  | .context t context => some (t, .context context)
  | .interrupt t rsp => some (t, .frame rsp)

/-- Whom the exit of an interrupt resumes, with `s` the machine it chooses
in. A trampoline frame leads to the task's context. -/
def exitResumption (s : Sched) : Resume → Option (TaskPtr × Source)
  | .interrupt t rsp =>
      match nextFrame s t with
      | .saved => some (t, .frame rsp)
      | .trampoline => some (t, .context (s.tasks t).context)
      | .user _ => some (t, .userEntry)
  | resume => resumedFrom resume

/-- Whom a timer interrupt resumes. -/
def timerResumption (trampoline : Nat) (s : Sched) (rsp : Nat) :
    Option (TaskPtr × Source) := do
  let s ← schedulerTick (tickSystem s)
  let s := schedulerPreempt s
  let (resume, _) ← isrExit trampoline s rsp
  exitResumption (schedulerSaveInterruptContext s rsp) resume

/-- Whom an operation resumes when it switches. -/
def resumption (trampoline : Nat) (s : Sched) : SchedOp → Option (TaskPtr × Source)
  | .yield regs => (schedulerYield s regs).bind fun r => resumedFrom r.1
  | .blockCurrent regs => (schedulerBlockCurrentLocked s regs).bind fun r => resumedFrom r.1
  | .sleep ticks regs => (schedulerSleep s ticks regs).bind fun r => resumedFrom r.1
  | .exit regs => (taskExit s regs).bind fun r => resumedFrom r.1
  | .timer rsp => timerResumption trampoline s rsp
  | .createTask .. | .addTask _ | .unblock _ => none

/-- Where the task that an operation switches away from is left. -/
def suspension : SchedOp → Option Source
  | .yield regs | .blockCurrent regs | .sleep _ regs | .exit regs => some (.context regs)
  | .timer rsp => some (.frame rsp)
  | .createTask .. | .addTask _ | .unblock _ => none

/-- The record of the saves after a switch away from `previous`. -/
def saved (saves : TaskPtr → Option Source) (previous : Option TaskPtr)
    (source : Option Source) : TaskPtr → Option Source :=
  match previous with
  | none => saves
  | some t => Function.update saves t source

/-- What an operation leaves of the record. -/
def savesAfter (trampoline : Nat) (s : Sched) (saves : TaskPtr → Option Source)
    (op : SchedOp) : TaskPtr → Option Source :=
  match op with
  | .createTask id entry stack process =>
      Function.update saves s.taskCount
        (some (.context ((taskCreate s id entry stack process).tasks s.taskCount).context))
  | op =>
      match resumption trampoline s op with
      | none => saves
      | some _ => saved saves s.currentTask (suspension op)

-- ==================================================================== runs

/-- What a stream is in the middle of, with interrupts enabled. -/
inductive Point
  | none
  /-- In `mutex_lock`, between `irq_spin_unlock` and `scheduler_yield`. -/
  | queued
  /-- In `scheduler_unblock`, after the test of the task. -/
  | unblocking (t : TaskPtr)
  deriving DecidableEq, Repr

variable {μ : Type} [DecidableEq μ]

/-- Scheduler and mutexes, where each caller is, and where each task was
last left. -/
structure ResumeSys (μ : Type) where
  sys : MutexSys μ
  point : Option TaskPtr → Point
  saves : TaskPtr → Option Source

/-- Who runs. -/
abbrev ResumeSys.current (y : ResumeSys μ) : Option TaskPtr := y.sys.sched.currentTask

/-- The calls, `mutex_lock` and `scheduler_unblock` in their two steps. -/
inductive ResumeOp (μ : Type)
  | sched (op : SchedOp)
  /-- A pass of `mutex_lock` up to `irq_spin_unlock`. -/
  | lock (m : μ)
  | unlock (m : μ)
  /-- The test of `scheduler_unblock`. -/
  | test (t : TaskPtr)
  /-- The rest of `scheduler_unblock`. -/
  | relink

/-- A pass of the loop of `mutex_lock` with the guard held; `false` when
the task is queued. -/
def mutexLockGuarded (s : Sched) (mutex : Mutex) (current : TaskPtr) :
    Option (Bool × Mutex × Sched) :=
  if mutex.owner = some current then some (true, mutex, s)
  else if !mutex.locked then
    some (true, { mutex with locked := true, owner := some current }, s)
  else do
    let (s, head) ← taskQueuePush (setState s current .blocked) mutex.waitQueue current
    some (false, { mutex with waitQueue := head }, s)

/-- After a guarded pass of `current` on `m`. -/
def lockGuarded (y : ResumeSys μ) (m : μ) (current : TaskPtr) (r : Bool × Mutex × Sched) :
    ResumeSys μ :=
  { y with
    sys :=
      { y.sys with
        sched := r.2.2
        mutexes := Function.update y.sys.mutexes m r.2.1
        waiting :=
          if r.1 then y.sys.waiting
          else Function.update y.sys.waiting m (y.sys.waiting m ++ [current]) }
    point := if r.1 then y.point else Function.update y.point (some current) .queued }

/-- The yield of `mutex_lock` leaves its point. -/
def pointAfter (y : ResumeSys μ) : SchedOp → Option TaskPtr → Point
  | .yield _ => Function.update y.point y.current .none
  | _ => y.point

/-- One step; `none` when the code does not come back, or the stream is
not in `scheduler_unblock`. -/
def resumeStep (trampoline : Nat) (y : ResumeSys μ) : ResumeOp μ → Option (ResumeSys μ)
  | .sched op =>
      (mutexStep trampoline y.sys (.sched op)).map fun sys =>
        { sys := sys
          point := pointAfter y op
          saves := savesAfter trampoline y.sys.sched y.saves op }
  | .lock m =>
      match y.current with
      | none => some y
      | some current =>
          (mutexLockGuarded y.sys.sched (y.sys.mutexes m) current).map
            (lockGuarded y m current)
  | .unlock m =>
      (mutexStep trampoline y.sys (.unlock m)).map fun sys => { y with sys := sys }
  | .test t =>
      if (y.sys.sched.tasks t).state ≠ .blocked then some y
      else some { y with point := Function.update y.point y.current (.unblocking t) }
  | .relink =>
      match y.point y.current with
      | .unblocking t =>
          (schedulerUnblockLocked y.sys.sched t).map fun s =>
            { y with
              sys := { y.sys with sched := s }
              point := Function.update y.point y.current .none }
      | _ => none

/-- Kernel tasks only: their process, if any, is not a user process. -/
def KernelTask (s : Sched) (process : Option ProcessPtr) : Prop :=
  ∀ pr ∈ process, (s.processes pr).isUserProcess = false

instance KernelTask.decidable (s : Sched) : ∀ process, Decidable (KernelTask s process)
  | none => isTrue nofun
  | some pr => decidable_of_iff ((s.processes pr).isUserProcess = false) (by simp [KernelTask])

/-- The calls that can be made at a point. -/
def Point.Admits : Point → SchedOp → Prop
  | _, .unblock _ => False
  | _, .timer rsp => rsp ≠ null
  | .none, _ => True
  | .queued, .yield _ => True
  | _, _ => False

/-- What the caller of a scheduler call promises besides. -/
def MadeOfKernelTasks (s : Sched) : SchedOp → Prop
  | .createTask _ _ _ process => KernelTask s process
  | _ => True

/-- What the callers promise. -/
def ResumeOp.Allowed (y : ResumeSys μ) : ResumeOp μ → Prop
  | .sched op => op.Allowed ⟨y.sys.sched, y.sys.added⟩ ∧ (y.point y.current).Admits op
      ∧ MadeOfKernelTasks y.sys.sched op
  | .lock _ => y.current ≠ y.sys.sched.idle ∧ y.point y.current = .none
  | .unlock _ => y.point y.current = .none
  | .test t => t < y.sys.sched.taskCount ∧ y.point y.current = .none
  | .relink => True

/-- A task queued by `mutex_lock` yields before its time slice ends, and a
task whose test `scheduler_unblock` has made is still in `blocked_queue`
when it goes on. -/
def ResumeOp.Keeps (y : ResumeSys μ) : ResumeOp μ → Prop
  | .sched (.timer _) => y.point y.current = .queued → ¬ sliceEnds y.sys.sched
  | .relink =>
      match y.point y.current with
      | .unblocking t => (y.sys.sched.tasks t).state = .blocked ∧ ∀ m, t ∉ y.sys.waiting m
      | _ => True
  | _ => True

instance Point.decidableAdmits : ∀ (p : Point) (op : SchedOp), Decidable (p.Admits op)
  | _, .unblock _ => isFalse False.elim
  | .none, .timer _ | .queued, .timer _ | .unblocking _, .timer _ =>
      inferInstanceAs (Decidable (_ ≠ _))
  | .none, .createTask .. | .none, .addTask _ | .none, .yield _ | .none, .blockCurrent _
  | .none, .sleep .. | .none, .exit _ | .queued, .yield _ => isTrue trivial
  | .queued, .createTask .. | .queued, .addTask _ | .queued, .blockCurrent _
  | .queued, .sleep .. | .queued, .exit _ | .unblocking _, .createTask ..
  | .unblocking _, .addTask _ | .unblocking _, .yield _ | .unblocking _, .blockCurrent _
  | .unblocking _, .sleep .. | .unblocking _, .exit _ => isFalse False.elim

instance MadeOfKernelTasks.decidable (s : Sched) :
    ∀ op : SchedOp, Decidable (MadeOfKernelTasks s op)
  | .createTask _ _ _ process => inferInstanceAs (Decidable (KernelTask s process))
  | .addTask _ | .yield _ | .blockCurrent _ | .unblock _ | .sleep .. | .exit _ | .timer _ =>
      isTrue trivial

instance ResumeOp.decidableAllowed (y : ResumeSys μ) :
    ∀ op : ResumeOp μ, Decidable (op.Allowed y)
  | .sched _ => inferInstanceAs (Decidable (_ ∧ _ ∧ _))
  | .lock _ | .test _ => inferInstanceAs (Decidable (_ ∧ _))
  | .unlock _ => inferInstanceAs (Decidable (_ = _))
  | .relink => isTrue trivial

instance ResumeOp.decidableKeeps [Fintype μ] (y : ResumeSys μ) :
    ∀ op : ResumeOp μ, Decidable (op.Keeps y)
  | .sched (.timer _) => inferInstanceAs (Decidable (_ → _))
  | .relink =>
      match hpoint : y.point y.current with
      | .unblocking t =>
          decidable_of_iff ((y.sys.sched.tasks t).state = .blocked ∧ ∀ m, t ∉ y.sys.waiting m)
            (by simp only [ResumeOp.Keeps, hpoint])
      | .none | .queued => isTrue (by simp only [ResumeOp.Keeps, hpoint])
  | .sched (.createTask ..) | .sched (.addTask _) | .sched (.yield _)
  | .sched (.blockCurrent _) | .sched (.unblock _) | .sched (.sleep ..) | .sched (.exit _)
  | .lock _ | .unlock _ | .test _ => isTrue trivial

/-- The machine after `scheduler_init`, with every mutex initialised. -/
def resumeInit (μ : Type) (boot : Sched) (id entry stack : Nat) : ResumeSys μ :=
  let sys := mutexSysInit μ boot id entry stack
  { sys := sys
    point := fun _ => .none
    saves := fun t => some (.context (sys.sched.tasks t).context) }

end ZenithOS.Sync
