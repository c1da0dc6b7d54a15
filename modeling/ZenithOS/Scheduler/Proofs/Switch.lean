/-
What the scheduler's own calls do to the queue invariant: the pushes and
removals on its three queues, the requeue and dispatch halves of
`scheduler_yield`, the wake-up loop, and the interrupt exit path.

Each lemma is stated for any tasks that are out and any wait queues, so
that the callers in `sync/mutex.c` can use it with their waiters queued.
-/
import ZenithOS.Scheduler.Proofs.Queues
import ZenithOS.Lib.Fifo

namespace ZenithOS.Scheduler

open Lib Mm Proc

variable {μ : Type} [DecidableEq μ] {s : Sched} {wait : μ → Option TaskPtr}
  {q : QueueId μ → List TaskPtr} {out dead added : List TaskPtr} {t : TaskPtr}

-- ============================================================ the calls

section Calls

variable {s' : Sched} {regs : CpuContext} {resume : Resume}

/-- A running task is put at the end of the ready queue; otherwise nothing
is done. -/
theorem schedulerRequeue_cases (h : schedulerRequeue s = some s') :
    s' = s ∨ ∃ t, s.currentTask = some t ∧ (s.tasks t).state = .running
      ∧ readyPush (schedulerResetResumeState (setState s t .ready) t) t = some s' := by
  unfold schedulerRequeue at h
  cases hcur : s.currentTask with
  | none =>
      rw [hcur] at h
      exact .inl (Option.some.inj h).symm
  | some t =>
      rw [hcur] at h
      dsimp only at h
      by_cases hrun : some t ≠ s.idle ∧ (s.tasks t).state = .running
      · rw [if_pos hrun] at h
        exact .inr ⟨t, rfl, hrun.2, h⟩
      · rw [if_neg hrun] at h
        exact .inl (Option.some.inj h).symm

/-- A call that queues its caller away comes back at once, to a caller
that is no task or idle, or is a push and a yield. -/
theorem schedulerBlockCurrentLocked_cases
    (h : schedulerBlockCurrentLocked s regs = some (resume, s')) :
    (resume = .caller ∧ s' = s) ∨ ∃ t s₁, s.currentTask = some t ∧ some t ≠ s.idle
      ∧ blockedPush (setState s t .blocked) t = some s₁
      ∧ schedulerYield s₁ regs = some (resume, s') := by
  unfold schedulerBlockCurrentLocked at h
  cases hcur : s.currentTask with
  | none =>
      rw [hcur] at h
      obtain ⟨rfl, rfl⟩ := Prod.mk.inj (Option.some.inj h)
      exact .inl ⟨rfl, rfl⟩
  | some t =>
      rw [hcur] at h
      dsimp only at h
      by_cases hidle : some t = s.idle
      · rw [if_pos hidle] at h
        obtain ⟨rfl, rfl⟩ := Prod.mk.inj (Option.some.inj h)
        exact .inl ⟨rfl, rfl⟩
      · rw [if_neg hidle] at h
        obtain ⟨s₁, hpush, hyield⟩ := Option.bind_eq_some_iff.mp h
        exact .inr ⟨t, s₁, rfl, hidle, hpush, hyield⟩

/-- `scheduler_sleep` returns early, or queues the task and switches. -/
theorem schedulerSleep_cases {ticks : Nat}
    (h : schedulerSleep s ticks regs = some (resume, s')) :
    (resume = .caller ∧ s' = s) ∨ ∃ t s₁, s.currentTask = some t ∧ some t ≠ s.idle
      ∧ schedulerSleepQueueAdd (setTask s t { s.tasks t with
          wakeTick := (s.systemTicks + ticks) % 2 ^ 64, state := .sleeping }) t = some s₁
      ∧ schedulerYield s₁ regs = some (resume, s') := by
  unfold schedulerSleep at h
  cases hcur : s.currentTask with
  | none =>
      rw [hcur] at h
      obtain ⟨rfl, rfl⟩ := Prod.mk.inj (Option.some.inj h)
      exact .inl ⟨rfl, rfl⟩
  | some t =>
      rw [hcur] at h
      dsimp only at h
      by_cases hidle : some t = s.idle
      · rw [if_pos hidle] at h
        obtain ⟨rfl, rfl⟩ := Prod.mk.inj (Option.some.inj h)
        exact .inl ⟨rfl, rfl⟩
      · rw [if_neg hidle] at h
        obtain ⟨s₁, hpush, hyield⟩ := Option.bind_eq_some_iff.mp h
        exact .inr ⟨t, s₁, rfl, hidle, hpush, hyield⟩

/-- `task_exit` returns early, or ends the task and yields. -/
theorem taskExit_cases (h : taskExit s regs = some (resume, s')) :
    (resume = .caller ∧ s' = s) ∨ ∃ t, s.currentTask = some t
      ∧ schedulerYield (setState s t .terminated) regs = some (resume, s') := by
  unfold taskExit at h
  cases hcur : s.currentTask with
  | none =>
      rw [hcur] at h
      obtain ⟨rfl, rfl⟩ := Prod.mk.inj (Option.some.inj h)
      exact .inl ⟨rfl, rfl⟩
  | some t =>
      rw [hcur] at h
      exact .inr ⟨t, rfl, h⟩

/-- `scheduler_unblock` tests the state and goes on. -/
theorem schedulerUnblock_cases (h : schedulerUnblock s (some t) = some s') :
    ((s.tasks t).state ≠ .blocked ∧ s' = s)
      ∨ (s.tasks t).state = .blocked ∧ schedulerUnblockLocked s t = some s' := by
  unfold schedulerUnblock at h
  dsimp only at h
  by_cases hstate : (s.tasks t).state = .blocked
  · rw [if_neg (not_not.mpr hstate)] at h
    exact .inr ⟨hstate, h⟩
  · rw [if_pos hstate] at h
    exact .inl ⟨hstate, (Option.some.inj h).symm⟩

end Calls

-- ====================================================== what moves leave

/-- A state without what moving a task writes: the queues, and a task's
link, state and resume fields. -/
def core (s : Sched) : Sched :=
  { s with
    readyQueue := none, blockedQueue := none, sleepQueue := none
    tasks := fun t => { s.tasks t with
      next := none, state := .ready, interruptRsp := null, resumeMode := .context } }

/-- Only moves lie between `s` and `s'`. -/
def Kept (s s' : Sched) : Prop := core s' = core s

/-- Task `t` differs at most in its link. -/
def SameTask (s s' : Sched) (t : TaskPtr) : Prop :=
  s'.tasks t = { s.tasks t with next := (s'.tasks t).next }

/-- Task `t` has been made ready: its resume state is reset. -/
def Readied (s s' : Sched) (t : TaskPtr) : Prop :=
  s'.tasks t = { s.tasks t with
    next := (s'.tasks t).next, state := .ready, interruptRsp := null
    resumeMode := .context }

theorem Kept.trans {s s' s'' : Sched} (h : Kept s s') (h' : Kept s' s'') :
    Kept s s'' :=
  Eq.trans h' h

theorem SameTask.trans {s s' s'' : Sched} (h : SameTask s s' t)
    (h' : SameTask s' s'' t) : SameTask s s'' t := by
  unfold SameTask at *
  rw [h', h]

theorem Readied.trans_same {s s' s'' : Sched} (h : Readied s s' t)
    (h' : SameTask s' s'' t) : Readied s s'' t := by
  unfold Readied SameTask at *
  rw [h', h]

theorem SameTask.trans_readied {s s' s'' : Sched} (h : SameTask s s' t)
    (h' : Readied s' s'' t) : Readied s s'' t := by
  unfold Readied SameTask at *
  rw [h', h]

theorem SameTask.state {s s' : Sched} (h : SameTask s s' t) :
    (s'.tasks t).state = (s.tasks t).state :=
  (congrArg Task.state h :)

omit [DecidableEq μ] in
theorem relink_kept {next : TaskPtr → Option TaskPtr} {k : QueueId μ}
    {head : Option TaskPtr} : Kept s (relink s next k head) := by
  cases k <;> rfl

omit [DecidableEq μ] in
theorem relink_sameTask {next : TaskPtr → Option TaskPtr} {k : QueueId μ}
    {head : Option TaskPtr} : SameTask s (relink s next k head) t := by
  cases k <;> rfl

theorem setTask_core {task : Task} (htask :
    { task with next := none, state := .ready, interruptRsp := null
                resumeMode := .context }
      = { s.tasks t with next := none, state := .ready, interruptRsp := null
                         resumeMode := .context }) :
    Kept s (setTask s t task) := by
  unfold Kept core
  congr 1
  funext u
  by_cases hut : u = t
  · subst hut
    simpa using htask
  · simp [Function.update_of_ne hut]

theorem setState_kept {state : TaskState} : Kept s (setState s t state) :=
  setTask_core rfl

theorem schedulerResetResumeState_kept : Kept s (schedulerResetResumeState s t) :=
  setTask_core rfl

theorem setTask_sameTask {task : Task} {u : TaskPtr} (hut : u ≠ t) :
    SameTask s (setTask s t task) u := by
  simp [SameTask, Function.update_of_ne hut]

/-- A push changes links alone. -/
theorem taskQueuePush_links {s' : Sched} {head head' : Option TaskPtr}
    (h : taskQueuePush s head t = some (s', head')) : ∃ next, s' = setLinks s next := by
  obtain ⟨⟨next, h'⟩, -, heq⟩ := Option.map_eq_some_iff.mp h
  exact ⟨next, (Prod.mk.inj heq).1.symm⟩

/-- A removal changes links alone. -/
theorem taskQueueRemove_links {s' : Sched} {head head' : Option TaskPtr}
    (h : taskQueueRemove s head t = some (s', head')) : ∃ next, s' = setLinks s next := by
  obtain ⟨⟨next, h'⟩, -, heq⟩ := Option.map_eq_some_iff.mp h
  exact ⟨next, (Prod.mk.inj heq).1.symm⟩

theorem readyPush_kept {s' : Sched} (h : readyPush s t = some s') : Kept s s' := by
  obtain ⟨⟨s₁, head⟩, hpush, rfl⟩ := Option.map_eq_some_iff.mp h
  obtain ⟨next, rfl⟩ := taskQueuePush_links hpush
  rfl

theorem blockedPush_kept {s' : Sched} (h : blockedPush s t = some s') : Kept s s' := by
  obtain ⟨⟨s₁, head⟩, hpush, rfl⟩ := Option.map_eq_some_iff.mp h
  obtain ⟨next, rfl⟩ := taskQueuePush_links hpush
  rfl

theorem schedulerSleepQueueAdd_kept {s' : Sched}
    (h : schedulerSleepQueueAdd s t = some s') : Kept s s' := by
  obtain ⟨⟨s₁, head⟩, hpush, rfl⟩ := Option.map_eq_some_iff.mp h
  obtain ⟨next, rfl⟩ := taskQueuePush_links hpush
  rfl

theorem blockedRemove_kept {s' : Sched} (h : blockedRemove s t = some s') :
    Kept s s' := by
  obtain ⟨⟨s₁, head⟩, hpush, rfl⟩ := Option.map_eq_some_iff.mp h
  obtain ⟨next, rfl⟩ := taskQueueRemove_links hpush
  rfl

theorem sleepRemove_kept {s' : Sched} (h : sleepRemove s t = some s') : Kept s s' := by
  obtain ⟨⟨s₁, head⟩, hpush, rfl⟩ := Option.map_eq_some_iff.mp h
  obtain ⟨next, rfl⟩ := taskQueueRemove_links hpush
  rfl

-- ================================================== the scheduler's queues

/-- The task goes to the end of the ready queue. -/
theorem SchedInv.readyPush (h : SchedInv s wait q (t :: out) dead added)
    (hstate : (s.tasks t).state = .ready) :
    ∃ next head, readyPush s t = some (relink s next (.ready : QueueId μ) head)
      ∧ SchedInv (relink s next (.ready : QueueId μ) head) wait
          (Function.update q .ready (q .ready ++ [t])) out dead added := by
  obtain ⟨next, head, hpush, hinv⟩ := h.push (k := .ready) hstate
  refine ⟨next, head, ?_, hinv wait fun m => by simp⟩
  have hpush' : pushBack (links s) s.taskCount s.readyQueue t = some (next, head) :=
    hpush
  simp only [Scheduler.readyPush, taskQueuePush, hpush', Option.map_some]
  rfl

/-- The task goes to the end of the blocked queue. -/
theorem SchedInv.blockedPush (h : SchedInv s wait q (t :: out) dead added)
    (hstate : (s.tasks t).state = .blocked) :
    ∃ next head, blockedPush s t = some (relink s next (.blocked : QueueId μ) head)
      ∧ SchedInv (relink s next (.blocked : QueueId μ) head) wait
          (Function.update q .blocked (q .blocked ++ [t])) out dead added := by
  obtain ⟨next, head, hpush, hinv⟩ := h.push (k := .blocked) hstate
  refine ⟨next, head, ?_, hinv wait fun m => by simp⟩
  have hpush' : pushBack (links s) s.taskCount s.blockedQueue t = some (next, head) :=
    hpush
  simp only [Scheduler.blockedPush, taskQueuePush, hpush', Option.map_some]
  rfl

/-- The task goes to the end of the sleep queue. -/
theorem SchedInv.sleepQueueAdd (h : SchedInv s wait q (t :: out) dead added)
    (hstate : (s.tasks t).state = .sleeping) :
    ∃ next head,
      schedulerSleepQueueAdd s t = some (relink s next (.sleep : QueueId μ) head)
      ∧ SchedInv (relink s next (.sleep : QueueId μ) head) wait
          (Function.update q .sleep (q .sleep ++ [t])) out dead added := by
  obtain ⟨next, head, hpush, hinv⟩ := h.push (k := .sleep) hstate
  refine ⟨next, head, ?_, hinv wait fun m => by simp⟩
  have hpush' : pushBack (links s) s.taskCount s.sleepQueue t = some (next, head) :=
    hpush
  simp only [schedulerSleepQueueAdd, taskQueuePush, hpush', Option.map_some]
  rfl

/-- The task leaves the blocked queue. -/
theorem SchedInv.blockedRemove (h : SchedInv s wait q out dead added)
    (ht : t ∈ q .blocked) :
    ∃ next head, blockedRemove s t = some (relink s next (.blocked : QueueId μ) head)
      ∧ SchedInv (relink s next (.blocked : QueueId μ) head) wait
          (Function.update q .blocked ((q .blocked).erase t)) (t :: out) dead
          added := by
  obtain ⟨next, head, hunlink, hinv⟩ := h.remove ht
  refine ⟨next, head, ?_, hinv wait fun m => by simp⟩
  have hunlink' : unlink (links s) s.taskCount s.blockedQueue t = some (next, head) :=
    hunlink
  simp only [Scheduler.blockedRemove, taskQueueRemove, hunlink', Option.map_some]
  rfl

/-- The task leaves the sleep queue. -/
theorem SchedInv.sleepRemove (h : SchedInv s wait q out dead added)
    (ht : t ∈ q .sleep) :
    ∃ next head, sleepRemove s t = some (relink s next (.sleep : QueueId μ) head)
      ∧ SchedInv (relink s next (.sleep : QueueId μ) head) wait
          (Function.update q .sleep ((q .sleep).erase t)) (t :: out) dead added := by
  obtain ⟨next, head, hunlink, hinv⟩ := h.remove ht
  refine ⟨next, head, ?_, hinv wait fun m => by simp⟩
  have hunlink' : unlink (links s) s.taskCount s.sleepQueue t = some (next, head) :=
    hunlink
  simp only [Scheduler.sleepRemove, taskQueueRemove, hunlink', Option.map_some]
  rfl

/-- Make a task that is out ready again: the common tail of
`scheduler_unblock`, of the wake-up and of the requeue. -/
theorem SchedInv.makeReady (h : SchedInv s wait q (t :: out) dead added) :
    ∃ s', Scheduler.readyPush (schedulerResetResumeState (setState s t .ready) t) t
        = some s'
      ∧ SchedInv s' wait (Function.update q .ready (q .ready ++ [t])) out dead added
      ∧ s' = relink (schedulerResetResumeState (setState s t .ready) t) (links s')
          (.ready : QueueId μ) s'.readyQueue := by
  have hready : SchedInv (schedulerResetResumeState (setState s t .ready) t) wait q
      (t :: out) dead added :=
    h.congr ((setState_sameShape (List.mem_cons_self ..)).trans
      schedulerResetResumeState_sameShape)
  obtain ⟨next, head, hpush, hinv⟩ := hready.readyPush
    (by simp [schedulerResetResumeState, setState])
  exact ⟨_, hpush, hinv, rfl⟩

/-- The ready queue gives up its first task. -/
theorem SchedInv.readyQueuePop (h : SchedInv s wait q out dead added)
    {l : List TaskPtr} (hl : q .ready = t :: l) :
    s.readyQueue = some t
      ∧ SchedInv (schedulerReadyQueuePop s) wait (Function.update q .ready l)
          (t :: out) dead added := by
  obtain ⟨hhead, -⟩ := h.queues.pop hl
  have hhead' : s.readyQueue = some t := hhead
  -- popping the head is removing it
  obtain ⟨next, head, hunlink, hinv⟩ := h.remove (t := t) (k := .ready) (by simp [hl])
  have hpop := hinv wait fun m => by simp
  rw [hl, List.erase_cons_head] at hpop
  have hremoved : next = Function.update (links s) t none ∧ head = links s t := by
    rw [hhead, unlink, if_pos rfl] at hunlink
    simpa [eq_comm] using hunlink
  refine ⟨hhead', hpop.congr ⟨?_, fun u _ => ?_, ?_, ?_, ?_, ?_, ?_⟩⟩
  all_goals simp only [schedulerReadyQueuePop, hhead', relink, setTask, setLinks]
  · funext u
    by_cases hut : u = t
    · simp [links, hut, hremoved.1]
    · simp [links, Function.update_of_ne hut, hremoved.1]
  · by_cases hut : u = t
    · simp [hut]
    · simp [Function.update_of_ne hut]
  · exact hremoved.2.symm

-- ============================================================== switching

/-- Everything but the address space: what a switch to `t` writes. -/
theorem schedulerSwitchTo_eq (s : Sched) (t : TaskPtr) :
    schedulerSwitchTo s (some t)
      = (some t, { switchAddressSpace s t with
          tssRsp0 := kernelStackTop (s.tasks t)
          currentTask := some t
          preemptionTicks := 0
          tasks := if some t = s.idle then s.tasks
            else Function.update s.tasks t { s.tasks t with state := .running } }) := by
  have hspace : ∀ s : Sched, (switchAddressSpace s t).tasks = s.tasks
      ∧ (switchAddressSpace s t).idle = s.idle := by
    intro s
    unfold switchAddressSpace pageTableSwitch
    split
    · split_ifs <;> exact ⟨rfl, rfl⟩
    · exact ⟨rfl, rfl⟩
  by_cases hidle : some t = s.idle
  · simp [schedulerSwitchTo, tssSetRsp0, hspace, ← hidle]
  · simp [schedulerSwitchTo, tssSetRsp0, hspace, hidle, setState, setTask]

/-- The fields a call leaves alone between two interrupts. -/
structure SameRequest (s s' : Sched) : Prop where
  pendingTask : s'.pendingTask = s.pendingTask
  preemptionRequested : s'.preemptionRequested = s.preemptionRequested

theorem SameRequest.trans {s s' s'' : Sched} (h : SameRequest s s')
    (h' : SameRequest s' s'') : SameRequest s s'' :=
  ⟨h'.1.trans h.1, h'.2.trans h.2⟩

theorem switchAddressSpace_sameRequest : SameRequest s (switchAddressSpace s t) := by
  unfold switchAddressSpace pageTableSwitch
  split
  · split_ifs <;> exact ⟨rfl, rfl⟩
  · exact ⟨rfl, rfl⟩

theorem switchAddressSpace_sameShape :
    SameShape out s (switchAddressSpace s t) := by
  unfold switchAddressSpace pageTableSwitch
  split
  · split_ifs <;> exact ⟨rfl, fun _ _ => rfl, rfl, rfl, rfl, rfl, rfl⟩
  · exact SameShape.refl out s

/-- A switch touches the queues only through the state of a task that is
out. -/
theorem schedulerSwitchTo_sameShape (ht : some t = s.idle ∨ t ∈ out) :
    SameShape out s (schedulerSwitchTo s (some t)).2 := by
  rw [schedulerSwitchTo_eq]
  have hspace : SameShape out s (switchAddressSpace s t) := switchAddressSpace_sameShape
  by_cases hidle : some t = s.idle
  · simp only [if_pos hidle]
    exact ⟨rfl, fun _ _ => rfl, hspace.taskCount, hspace.idle, hspace.readyQueue,
      hspace.blockedQueue, hspace.sleepQueue⟩
  · simp only [if_neg hidle]
    have hstate : SameShape out s (setState s t .running) :=
      setState_sameShape (ht.resolve_left hidle)
    exact ⟨hstate.links, hstate.states, hspace.taskCount, hspace.idle,
      hspace.readyQueue, hspace.blockedQueue, hspace.sleepQueue⟩

/-- The task the processor runs, idle and the boot stream apart. -/
def running (s : Sched) : List TaskPtr :=
  if s.currentTask = s.idle then [] else s.currentTask.toList

/-- Between two operations: what runs is out and `RUNNING`, and nothing
else is out. -/
structure Settled (s : Sched) (wait : μ → Option TaskPtr)
    (q : QueueId μ → List TaskPtr) (dead added : List TaskPtr) : Prop where
  inv : SchedInv s wait q (running s) dead added
  state : ∀ t ∈ running s, (s.tasks t).state = .running

/-- What the ready queue goes through when the machine moves on: tasks
arrive at its end, or its first task is current and `back` goes to the
end. -/
abbrev ReadyServed (back : List TaskPtr) (s s' : Sched) (q q' : QueueId μ → List TaskPtr) :
    Prop :=
  Serves s.idle back s.currentTask s'.currentTask (q .ready) (q' .ready)

/-- What a call does to the queues that hold ready and blocked tasks. -/
structure Moved (back blocked : List TaskPtr) (s s' : Sched) (q q' : QueueId μ → List TaskPtr) :
    Prop where
  wait : SameWait q q'
  blocked : q' .blocked = blocked
  ready : ReadyServed back s s' q q'

omit [DecidableEq μ] in
/-- Nothing moves. -/
theorem Moved.same {s' : Sched} (back : List TaskPtr) (q : QueueId μ → List TaskPtr)
    (hcur : s'.currentTask = s.currentTask) : Moved back (q .blocked) s s' q q :=
  ⟨SameWait.refl q, rfl, .stays [] (List.append_nil _).symm hcur⟩

omit [DecidableEq μ] in
/-- A first part after which the same task is current, and after which
some tasks have arrived. -/
theorem Moved.after {back blocked : List TaskPtr} {s₁ s' : Sched}
    {q₁ q' : QueueId μ → List TaskPtr} (h : Moved back blocked s₁ s' q₁ q')
    (arrivals : List TaskPtr) (hwait : SameWait q q₁)
    (hready : q₁ .ready = q .ready ++ arrivals) (hcur : s₁.currentTask = s.currentTask)
    (hidle : s₁.idle = s.idle) : Moved back blocked s s' q q' := by
  refine ⟨hwait.trans h.wait, h.blocked, ?_⟩
  have hserves := h.ready
  unfold ReadyServed at hserves ⊢
  rw [hready, hcur, hidle] at hserves
  exact hserves.arrived

/-- What `scheduler_schedule` does to the queues. -/
structure Dispatched (s s' : Sched) (q q' : QueueId μ → List TaskPtr) : Prop where
  wait : SameWait q q'
  blocked : q' .blocked = q .blocked
  next : (q .ready = [] ∧ q' .ready = [] ∧ s'.currentTask = s.idle)
    ∨ ∃ t, q .ready = t :: q' .ready ∧ s'.currentTask = some t

omit [DecidableEq μ] in
/-- When the caller is queued elsewhere. -/
theorem Dispatched.moved {s' : Sched} {q' : QueueId μ → List TaskPtr}
    (h : Dispatched s s' q q') : Moved [] (q .blocked) s s' q q' := by
  refine ⟨h.wait, h.blocked, ?_⟩
  rcases h.next with ⟨hempty, hqueue, hcur⟩ | ⟨t, hready, hcur⟩
  · exact .idles rfl hempty hqueue hcur
  · exact .switches [] t (q' .ready) (by rw [List.append_nil, hready])
      (List.append_nil _).symm hcur

omit [DecidableEq μ] in
/-- When the caller has been put to the end of the ready queue before. -/
theorem Dispatched.moved_requeued {s₁ s' : Sched} {q₁ q' : QueueId μ → List TaskPtr}
    (h : Dispatched s₁ s' q₁ q') (hwait : SameWait q q₁) (hblocked : q₁ .blocked = q .blocked)
    (hready : q₁ .ready = q .ready ++ [t]) (hcur : s.currentTask = some t) :
    Moved [t] (q .blocked) s s' q q' := by
  refine ⟨hwait.trans h.wait, h.blocked.trans hblocked, ?_⟩
  rcases h.next with ⟨hempty, -, -⟩ | ⟨u, hnext, hserved⟩
  · rw [hready] at hempty
    exact absurd hempty (List.concat_ne_nil t _)
  · rw [hready] at hnext
    unfold ReadyServed
    cases hq : q .ready with
    | nil =>
        rw [hq] at hnext
        injection hnext with hhead htail
        exact .stays [] htail.symm (by rw [hserved, hcur, hhead])
    | cons v l =>
        rw [hq] at hnext
        injection hnext with hhead htail
        exact .switches [] v l (List.append_nil _) htail.symm (by rw [hserved, hhead])

omit [DecidableEq μ] in
/-- Updates that keep every state and the current task. -/
theorem Settled.congr {s' : Sched} (h : Settled s wait q dead added)
    (hs : SameShape [] s s') (hcur : s'.currentTask = s.currentTask) :
    Settled s' wait q dead added := by
  have hrun : running s' = running s := by
    unfold running
    rw [hcur, hs.idle]
  refine ⟨hrun ▸ h.inv.congr { hs with states := fun t _ => hs.states t (by simp) }, ?_⟩
  intro t ht
  rw [hs.states t (by simp)]
  exact h.state t (hrun ▸ ht)

omit [DecidableEq μ] in
/-- Switching to idle with every task queued. -/
theorem SchedInv.switchToIdle (h : SchedInv s wait q [] dead added)
    (hidle : some t = s.idle) :
    Settled (schedulerSwitchTo s (some t)).2 wait q dead added := by
  have hshape : SameShape [] s (schedulerSwitchTo s (some t)).2 :=
    schedulerSwitchTo_sameShape (.inl hidle)
  have hrun : running (schedulerSwitchTo s (some t)).2 = [] := by
    rw [running, hshape.idle, schedulerSwitchTo_eq]
    simp [hidle]
  exact ⟨hrun ▸ h.congr hshape, by simp [hrun]⟩

omit [DecidableEq μ] in
/-- Switching to the task that is out. -/
theorem SchedInv.switchToTask (h : SchedInv s wait q [t] dead added) :
    Settled (schedulerSwitchTo s (some t)).2 wait q dead added := by
  have ht : t ∈ [t] := List.mem_cons_self ..
  have hidle : some t ≠ s.idle := (h.added_lt t (h.out_added t ht)).2
  have hshape := schedulerSwitchTo_sameShape (s := s) (.inr ht)
  have hrun : running (schedulerSwitchTo s (some t)).2 = [t] := by
    rw [running, hshape.idle, schedulerSwitchTo_eq]
    simp [hidle]
  refine ⟨hrun ▸ h.congr hshape, ?_⟩
  rw [hrun, schedulerSwitchTo_eq]
  simp [hidle]

omit [DecidableEq μ] in
/-- An empty queue has no head. -/
theorem SchedInv.readyQueue_none (h : SchedInv s wait q out dead added)
    (hq : q .ready = []) : s.readyQueue = none := by
  have hlinked := h.queues.linked .ready
  rw [hq] at hlinked
  exact hlinked

/-- `scheduler_schedule` with every task queued: idle runs when no task
is ready, and otherwise the first ready task does. -/
theorem SchedInv.schedule_cases (h : SchedInv s wait q [] dead added) :
    (∃ i, q .ready = [] ∧ s.idle = some i
      ∧ schedulerSchedule s = schedulerSwitchTo s (some i))
    ∨ ∃ t l, q .ready = t :: l ∧ s.idle ≠ some t ∧ s.readyQueue = some t
      ∧ schedulerSchedule s
          = schedulerSwitchTo (schedulerReadyQueuePop s) (some t) := by
  obtain ⟨i, hidle, -, -⟩ := h.idle
  cases hq : q .ready with
  | nil =>
      have hnone := h.readyQueue_none hq
      exact .inl ⟨i, rfl, hidle, by
        simp [schedulerSchedule, schedulerGetNextTask, hnone, hidle]⟩
  | cons t l =>
      obtain ⟨hhead, -⟩ := h.readyQueuePop hq
      have hadd : t ∈ added := (h.queued .ready t (by simp [hq])).1
      have hti : s.idle ≠ some t := fun heq => (h.added_lt t hadd).2 heq.symm
      exact .inr ⟨t, l, rfl, hti, hhead, by
        simp [schedulerSchedule, schedulerGetNextTask, hhead, Ne.symm hti]⟩

/-- `scheduler_schedule` with every task queued. -/
theorem SchedInv.schedule (h : SchedInv s wait q [] dead added) :
    ∃ next s' q', schedulerSchedule s = (some next, s')
      ∧ Settled s' wait q' dead added ∧ SameRequest s s' ∧ Dispatched s s' q q' := by
  rcases h.schedule_cases with ⟨i, hq, hidle, heq⟩ | ⟨t, l, hq, -, hhead, heq⟩
  · refine ⟨i, _, q, ?_, h.switchToIdle hidle.symm, ?_,
      ⟨SameWait.refl q, rfl, .inl ⟨hq, hq, ?_⟩⟩⟩
    · rw [heq, schedulerSwitchTo_eq]
    · rw [schedulerSwitchTo_eq]
      exact switchAddressSpace_sameRequest.trans ⟨rfl, rfl⟩
    · rw [schedulerSwitchTo_eq]
      exact hidle.symm
  · refine ⟨t, _, Function.update q .ready l, ?_, (h.readyQueuePop hq).2.switchToTask, ?_,
      ⟨(SameWait.refl q).update (by simp), Function.update_of_ne (by simp) _ _, .inr ⟨t, ?_, ?_⟩⟩⟩
    rotate_left 2
    · rw [Function.update_self, hq]
    · rw [schedulerSwitchTo_eq]
    · rw [heq, schedulerSwitchTo_eq]
    · rw [schedulerSwitchTo_eq]
      refine SameRequest.trans ?_ (switchAddressSpace_sameRequest.trans ⟨rfl, rfl⟩)
      unfold schedulerReadyQueuePop
      rw [hhead]
      exact ⟨rfl, rfl⟩

theorem saveContext_sameShape {regs : CpuContext} {previous : Option TaskPtr} :
    SameShape out s (saveContext s previous regs) := by
  cases previous with
  | none => exact ⟨rfl, fun _ _ => rfl, rfl, rfl, rfl, rfl, rfl⟩
  | some t => exact setTask_sameShape rfl (.inr rfl)

/-- The second half of `scheduler_yield`. -/
theorem SchedInv.dispatch (h : SchedInv s wait q [] dead added) (regs : CpuContext) :
    ∃ resume s' q', schedulerDispatch s regs = (resume, s')
      ∧ Settled s' wait q' dead added ∧ SameRequest s s' ∧ Dispatched s s' q q' := by
  obtain ⟨next, s', q', hsched, hset, hreq, hmoved⟩ := h.schedule
  have hcur : (saveContext s' s.currentTask regs).currentTask = s'.currentTask := by
    cases s.currentTask <;> rfl
  have hsaved : Settled (saveContext s' s.currentTask regs) wait q' dead added :=
    hset.congr saveContext_sameShape hcur
  have hsavedMoved : Dispatched s (saveContext s' s.currentTask regs) q q' :=
    ⟨hmoved.wait, hmoved.blocked, by rw [hcur]; exact hmoved.next⟩
  have hsavedReq : SameRequest s (saveContext s' s.currentTask regs) :=
    hreq.trans (by cases s.currentTask <;> exact ⟨rfl, rfl⟩)
  unfold schedulerDispatch
  simp only [hsched]
  split_ifs
  · exact ⟨_, _, q', rfl, hset, hreq, hmoved⟩
  · exact ⟨_, _, q', rfl, hsaved, hsavedReq, hsavedMoved⟩
  · exact ⟨_, _, q', rfl, hsaved, hsavedReq, hsavedMoved⟩

-- =============================================================== yielding

/-- A caller that is not a running task is not requeued. -/
theorem schedulerYield_queued {regs : CpuContext}
    (hcur : ∀ t, s.currentTask = some t →
      some t = s.idle ∨ (s.tasks t).state ≠ .running) :
    schedulerYield s regs = some (schedulerDispatch s regs) := by
  unfold schedulerYield schedulerRequeue
  cases hc : s.currentTask with
  | none => simp
  | some t =>
      have hnot : ¬ (some t ≠ s.idle ∧ (s.tasks t).state = .running) := by
        rintro ⟨hidle, hrun⟩
        exact (hcur t hc).elim hidle fun hne => hne hrun
      simp [if_neg hnot]

/-- A running caller goes to the end of the ready queue first. -/
theorem SchedInv.requeue (h : SchedInv s wait q [t] dead added)
    (hcur : s.currentTask = some t) (hstate : (s.tasks t).state = .running) :
    ∃ s', schedulerRequeue s = some s'
      ∧ SchedInv s' wait (Function.update q .ready (q .ready ++ [t])) [] dead added
      ∧ s' = relink (schedulerResetResumeState (setState s t .ready) t) (links s')
          (.ready : QueueId μ) s'.readyQueue := by
  have hidle : some t ≠ s.idle :=
    (h.added_lt t (h.out_added t (List.mem_cons_self ..))).2
  obtain ⟨s', hpush, hinv, hs'⟩ := h.makeReady
  refine ⟨s', ?_, hinv, hs'⟩
  rw [← hpush]
  simp [schedulerRequeue, hcur, hidle, hstate]

/-- Idle and the boot stream are left for any ready task, and idle for no
one else. -/
theorem Dispatched.stays_iff {s' : Sched} {q' : QueueId μ → List TaskPtr}
    (h : Dispatched s s' q q') (hinv : SchedInv s wait q out dead added)
    (hcur : s.currentTask = none ∨ s.currentTask = s.idle) :
    s'.currentTask = s.currentTask ↔ s.readyQueue = none ∧ s.currentTask ≠ none := by
  obtain ⟨i, hidle, -, -⟩ := hinv.idle
  rcases h.next with ⟨hempty, -, hnext⟩ | ⟨t, hready, hnext⟩
  · rw [hnext, hinv.readyQueue_none hempty]
    rcases hcur with hnone | hsame
    · simp [hnone, hidle]
    · simp [hsame, hidle]
  · have hadd : t ∈ added := (hinv.queued .ready t (by simp [hready])).1
    have hti : some t ≠ s.idle := (hinv.added_lt t hadd).2
    have hhead : s.readyQueue = some t := (hinv.readyQueuePop hready).1
    rw [hnext, hhead]
    rcases hcur with hnone | hsame
    · simp [hnone]
    · simp [hsame, hti]

/-- A caller that has gone to the end of the ready queue is left for any
other task that is ready. -/
theorem Dispatched.stays_iff_requeued {s₁ s' : Sched} {q₁ q' : QueueId μ → List TaskPtr}
    (h : Dispatched s₁ s' q₁ q') (hinv : SchedInv s wait q [t] dead added)
    (hready : q₁ .ready = q .ready ++ [t]) (hcur : s.currentTask = some t) :
    s'.currentTask = s.currentTask ↔ s.readyQueue = none ∧ s.currentTask ≠ none := by
  rcases h.next with ⟨hempty, -, -⟩ | ⟨u, hnext, hserved⟩
  · rw [hready] at hempty
    exact absurd hempty (List.concat_ne_nil t _)
  · rw [hready] at hnext
    cases hq : q .ready with
    | nil =>
        rw [hq] at hnext
        injection hnext with hhead htail
        simp [hserved, hcur, hhead, hinv.readyQueue_none hq]
    | cons v l =>
        rw [hq] at hnext
        injection hnext with hhead htail
        have hvt : v ∉ [t] := (hinv.queued .ready v (by simp [hq])).2.1
        have hfirst : s.readyQueue = some v := (hinv.readyQueuePop hq).1
        rw [List.mem_singleton] at hvt
        simp [hserved, hcur, ← hhead, hvt, hfirst]

/-- `scheduler_yield` between operations; it stays with the caller when no
task is ready. -/
theorem Settled.yield (h : Settled s wait q dead added) (regs : CpuContext) :
    ∃ resume s' q', schedulerYield s regs = some (resume, s')
      ∧ Settled s' wait q' dead added ∧ SameRequest s s'
      ∧ Moved (running s) (q .blocked) s s' q q'
      ∧ (s'.currentTask = s.currentTask ↔ s.readyQueue = none ∧ s.currentTask ≠ none) := by
  have hinv := h.inv
  have hstate := h.state
  unfold running at hinv hstate ⊢
  by_cases hidle : s.currentTask = s.idle
  · rw [if_pos hidle] at hinv ⊢
    obtain ⟨resume, s', q', hdisp, hset, hreq, hmoved⟩ := hinv.dispatch regs
    refine ⟨resume, s', q', ?_, hset, hreq, hmoved.moved,
      hmoved.stays_iff hinv (.inr hidle)⟩
    rw [schedulerYield_queued fun t ht => .inl (by rw [← ht, hidle]), hdisp]
  · rw [if_neg hidle] at hinv hstate ⊢
    cases hcur : s.currentTask with
    | none =>
        rw [hcur] at hinv
        obtain ⟨resume, s', q', hdisp, hset, hreq, hmoved⟩ := hinv.dispatch regs
        have hstays := hmoved.stays_iff hinv (.inl hcur)
        rw [hcur] at hstays
        refine ⟨resume, s', q', ?_, hset, hreq, hmoved.moved, hstays⟩
        rw [schedulerYield_queued (by simp [hcur]), hdisp]
    | some t =>
        rw [hcur] at hinv hstate
        obtain ⟨s₁, hreq₁, hinv₁, hs₁⟩ :=
          hinv.requeue hcur (hstate t (by simp))
        obtain ⟨resume, s', q', hdisp, hset, hreq, hmoved⟩ := hinv₁.dispatch regs
        have hready : Function.update q .ready (q .ready ++ [t]) .ready = q .ready ++ [t] :=
          Function.update_self ..
        have hstays := hmoved.stays_iff_requeued hinv hready hcur
        rw [hcur] at hstays
        refine ⟨resume, s', q', by rw [schedulerYield, hreq₁, Option.map_some, hdisp],
          hset, SameRequest.trans ?_ hreq,
          hmoved.moved_requeued ((SameWait.refl q).update (by simp))
            (Function.update_of_ne (by simp) _ _) hready hcur, hstays⟩
        rw [hs₁]
        exact ⟨rfl, rfl⟩

-- ================================================================ waking

/-- Take a task out of one of the two waiting queues and make it ready. -/
private theorem SchedInv.moveToReady {k : QueueId μ} {s₁ : Sched}
    (h : SchedInv s₁ wait (Function.update q k ((q k).erase t)) (t :: out) dead added)
    (hk : k ≠ .ready) (hkept : Kept s s₁) (hsame : ∀ u, SameTask s s₁ u) :
    ∃ s', Scheduler.readyPush (schedulerResetResumeState (setState s₁ t .ready) t) t
        = some s'
      ∧ SchedInv s' wait (Function.update (Function.update q k ((q k).erase t)) .ready
          (q .ready ++ [t])) out dead added
      ∧ Kept s s' ∧ Readied s s' t ∧ ∀ u ≠ t, SameTask s s' u := by
  obtain ⟨s', hpush, hinv, hs'⟩ := h.makeReady
  rw [Function.update_of_ne hk.symm] at hinv
  refine ⟨s', hpush, hinv, ?_, (hsame t).trans_readied ?_, fun u hu => ?_⟩
  · rw [hs']
    exact hkept.trans (setState_kept.trans (schedulerResetResumeState_kept.trans relink_kept))
  · rw [hs']
    simp [Readied, relink, setLinks, schedulerResetResumeState, setState]
  · rw [hs']
    exact (hsame u).trans ((setTask_sameTask hu).trans
      ((setTask_sameTask hu).trans relink_sameTask))

/-- Waking a sleeper. -/
theorem SchedInv.wakeTask (h : SchedInv s wait q out dead added) (ht : t ∈ q .sleep) :
    ∃ s', wakeTask s t = some s'
      ∧ SchedInv s' wait (Function.update
          (Function.update q .sleep ((q .sleep).erase t)) .ready (q .ready ++ [t]))
          out dead added
      ∧ Kept s s' ∧ Readied s s' t ∧ ∀ u ≠ t, SameTask s s' u := by
  obtain ⟨next, head, hremove, hout⟩ := h.sleepRemove ht
  obtain ⟨s', hpush, hinv⟩ := hout.moveToReady (s := s) (by simp) relink_kept
    fun u => relink_sameTask
  exact ⟨s', by rw [Scheduler.wakeTask, hremove]; exact hpush, hinv⟩

/-- `scheduler_unblock` of a task in the blocked queue. -/
theorem SchedInv.unblockLocked (h : SchedInv s wait q out dead added)
    (ht : t ∈ q .blocked) :
    ∃ s', schedulerUnblockLocked s t = some s'
      ∧ SchedInv s' wait (Function.update
          (Function.update q .blocked ((q .blocked).erase t)) .ready (q .ready ++ [t]))
          out dead added
      ∧ Kept s s' ∧ Readied s s' t ∧ ∀ u ≠ t, SameTask s s' u := by
  obtain ⟨next, head, hremove, hout⟩ := h.blockedRemove ht
  obtain ⟨s', hpush, hinv⟩ := hout.moveToReady (s := s) (by simp) relink_kept
    fun u => relink_sameTask
  exact ⟨s', by rw [schedulerUnblockLocked, hremove]; exact hpush, hinv⟩

/-- The wake-up test. -/
def due (s : Sched) (t : TaskPtr) : Bool := (s.tasks t).wakeTick ≤ s.systemTicks

theorem Kept.due_eq {s s' : Sched} (h : Kept s s') (t : TaskPtr) :
    due s' t = due s t := by
  have hwake : (s'.tasks t).wakeTick = (s.tasks t).wakeTick :=
    (congrArg (fun c : Sched => (c.tasks t).wakeTick) h :)
  have hticks : s'.systemTicks = s.systemTicks := (congrArg Sched.systemTicks h :)
  unfold due
  rw [hwake, hticks]

/-- The sleep queue after the loop has passed `rest`, and the ready
queue. -/
def afterWake (s : Sched) (q : QueueId μ → List TaskPtr) (done rest : List TaskPtr) :
    QueueId μ → List TaskPtr :=
  Function.update
    (Function.update q .sleep (done ++ rest.filter fun t => !due s t)) .ready
    (q .ready ++ rest.filter (due s))

/-- What the loop does to each task: the due ones of `rest` are readied,
the others keep all but their links. -/
structure Woken (rest : List TaskPtr) (s s' : Sched) : Prop where
  kept : Kept s s'
  due : ∀ u ∈ rest, due s u = true → Readied s s' u
  other : ∀ u, u ∉ rest ∨ Scheduler.due s u = false → SameTask s s' u

/-- What the wake-up loop needs of an invariant of the queues: the sleep
queue can be walked, and a sleeper be woken. -/
structure Wakes (P : Sched → (QueueId μ → List TaskPtr) → Prop) : Prop where
  linked : ∀ {s q}, P s q → Linked (links s) s.sleepQueue (q .sleep)
  wake : ∀ {s q t}, P s q → t ∈ q .sleep →
    ∃ s', Scheduler.wakeTask s t = some s'
      ∧ P s' (Function.update (Function.update q .sleep ((q .sleep).erase t)) .ready
          (q .ready ++ [t]))
      ∧ Kept s s' ∧ Readied s s' t ∧ ∀ u ≠ t, SameTask s s' u

variable {P : Sched → (QueueId μ → List TaskPtr) → Prop}

/-- The loop of `scheduler_check_sleeping_tasks` with `rest` still to
visit: exactly the due tasks move, in order. -/
theorem Wakes.checkSleepingFrom (hP : Wakes P) {done rest : List TaskPtr} {fuel : Nat}
    (h : P s q) (hsleep : q .sleep = done ++ rest) (hfuel : rest.length ≤ fuel) :
    ∃ s', checkSleepingFrom fuel rest.head? s = some s'
      ∧ P s' (afterWake s q done rest) ∧ Woken rest s s' := by
  induction rest generalizing s q done fuel with
  | nil =>
      refine ⟨s, by cases fuel <;> rfl, ?_, rfl, by simp, fun u _ => rfl⟩
      have hq : afterWake s q done [] = q := by
        simp [afterWake, ← hsleep]
      rw [hq]
      exact h
  | cons t rest ih =>
      obtain ⟨fuel, rfl⟩ : ∃ f, fuel = f + 1 := ⟨fuel - 1, by simp at hfuel; omega⟩
      have hfuel' : rest.length ≤ fuel := Nat.le_of_succ_le_succ hfuel
      -- the successor the loop reads is the next task of the queue
      have hlinked := hP.linked h
      rw [hsleep] at hlinked
      have hnext : (s.tasks t).next = rest.head? := by
        have htail := hlinked.suffix.2
        cases rest with
        | nil => exact htail
        | cons u rest => exact htail.1
      have hdone : t ∉ done ∧ t ∉ rest := by
        have hnodup := hlinked.nodup
        rw [List.nodup_append] at hnodup
        exact ⟨fun hmem => hnodup.2.2 t hmem t (List.mem_cons_self ..) rfl,
          (List.nodup_cons.mp hnodup.2.1).1⟩
      rw [List.head?_cons, Scheduler.checkSleepingFrom, hnext]
      by_cases hdue : s.systemTicks ≥ (s.tasks t).wakeTick
      · obtain ⟨s₁, hwake, hinv₁, hkept₁, hreadied₁, hsame₁⟩ :=
          hP.wake (t := t) h (by simp [hsleep])
        have hd : due s t = true := by simpa [due] using hdue
        have hfun : due s₁ = due s := funext hkept₁.due_eq
        have herase : (q .sleep).erase t = done ++ rest := by
          rw [hsleep, List.erase_append_right _ hdone.1, List.erase_cons_head]
        rw [herase] at hinv₁
        obtain ⟨s', hrun, hinv', hwoken⟩ := ih hinv₁
          ((Function.update_of_ne (by simp) _ _).trans (Function.update_self ..)) hfuel'
        have hother := hwoken.other
        have hdued := hwoken.due
        rw [hfun] at hother hdued
        refine ⟨s', ?_, ?_, hkept₁.trans hwoken.kept, fun u hu hu' => ?_, fun u hu => ?_⟩
        · simp only [if_pos hdue, hwake]
          exact hrun
        · have hq : afterWake s q done (t :: rest) = afterWake s₁
              (Function.update (Function.update q .sleep (done ++ rest)) .ready
                (q .ready ++ [t])) done rest := by
            funext k
            cases k <;> simp [afterWake, hfun, hd, Function.update]
          rw [hq]
          exact hinv'
        · by_cases hut : u = t
          · subst hut
            exact hreadied₁.trans_same (hother u (.inl hdone.2))
          · exact (hsame₁ u hut).trans_readied
              (hdued u ((List.mem_cons.mp hu).resolve_left hut) hu')
        · have hut : u ≠ t := by
            rintro rfl
            rcases hu with hu | hu
            · exact hu (List.mem_cons_self ..)
            · rw [hd] at hu
              cases hu
          exact (hsame₁ u hut).trans (hother u
            (hu.imp_left fun hnot hmem => hnot (List.mem_cons_of_mem _ hmem)))
      · obtain ⟨s', hrun, hinv', hwoken⟩ := ih h
          (hsleep.trans (List.append_cons done t rest)) hfuel'
        have hd : due s t = false := by simpa [due] using hdue
        refine ⟨s', ?_, ?_, hwoken.kept, fun u hu hu' => ?_, fun u hu => ?_⟩
        · simp only [if_neg hdue]
          exact hrun
        · have hq : afterWake s q done (t :: rest) = afterWake s q (done ++ [t]) rest := by
            simp [afterWake, hd]
          rw [hq]
          exact hinv'
        · have hut : u ≠ t := by
            rintro rfl
            rw [hd] at hu'
            cases hu'
          exact hwoken.due u ((List.mem_cons.mp hu).resolve_left hut) hu'
        · exact hwoken.other u
            (hu.imp_left fun hnot hmem => hnot (List.mem_cons_of_mem _ hmem))

/-- `scheduler_tick` under such an invariant. -/
theorem Wakes.tick (hP : Wakes P) (h : P s q) (hlen : (q .sleep).length ≤ s.taskCount) :
    ∃ s', schedulerTick s = some s'
      ∧ P s' (afterWake s q [] (q .sleep)) ∧ Woken (q .sleep) s s' := by
  obtain ⟨s', hrun, hinv, hwoken⟩ :=
    hP.checkSleepingFrom h (List.nil_append (q .sleep)).symm hlen
  have hhead : s.sleepQueue = (q .sleep).head? := by
    have hlinked := hP.linked h
    cases hq : q .sleep with
    | nil => rw [hq] at hlinked; exact hlinked
    | cons t l => rw [hq] at hlinked; exact hlinked.1
  exact ⟨s', by rw [schedulerTick, hhead]; exact hrun, hinv, hwoken⟩

/-- Waking keeps the invariant. -/
theorem SchedInv.wakes (wait : μ → Option TaskPtr) (out dead added : List TaskPtr) :
    Wakes (fun s q => SchedInv s wait q out dead added) :=
  ⟨fun h => h.queues.linked .sleep, fun h ht => h.wakeTask ht⟩

theorem Kept.running_eq {s s' : Sched} (h : Kept s s') : running s' = running s := by
  have hcur : s'.currentTask = s.currentTask := (congrArg Sched.currentTask h :)
  have hidle : s'.idle = s.idle := (congrArg Sched.idle h :)
  unfold running
  rw [hcur, hidle]

theorem Kept.sameRequest {s s' : Sched} (h : Kept s s') : SameRequest s s' :=
  ⟨(congrArg Sched.pendingTask h :), (congrArg Sched.preemptionRequested h :)⟩

omit [DecidableEq μ] in
/-- A move of other tasks leaves the running one running. -/
theorem SchedInv.settled_of_kept {s' : Sched} {q' : QueueId μ → List TaskPtr}
    (h : SchedInv s' wait q' (running s) dead added) (hkept : Kept s s')
    (hsame : ∀ t ∈ running s, SameTask s s' t)
    (hstate : ∀ t ∈ running s, (s.tasks t).state = .running) :
    Settled s' wait q' dead added := by
  refine ⟨hkept.running_eq ▸ h, fun t ht => ?_⟩
  rw [hkept.running_eq] at ht
  rw [(hsame t ht).state]
  exact hstate t ht

/-- `scheduler_tick`. -/
theorem SchedInv.tick (h : SchedInv s wait q out dead added) :
    ∃ s', schedulerTick s = some s'
      ∧ SchedInv s' wait (afterWake s q [] (q .sleep)) out dead added
      ∧ Woken (q .sleep) s s' :=
  (SchedInv.wakes wait out dead added).tick h (h.length_le .sleep)

/-- `scheduler_tick` between operations. -/
theorem Settled.tick (h : Settled s wait q dead added) :
    ∃ s', schedulerTick s = some s'
      ∧ Settled s' wait (afterWake s q [] (q .sleep)) dead added
      ∧ Woken (q .sleep) s s' := by
  obtain ⟨s', hrun, hinv, hwoken⟩ := h.inv.tick
  refine ⟨s', hrun, ?_, hwoken⟩
  refine hinv.settled_of_kept hwoken.kept
    (fun t ht => hwoken.other t (.inl fun hmem => ?_)) h.state
  exact (h.inv.queued .sleep t hmem).2.1 ht

-- ==================================================== the interrupt's exit

theorem schedulerPreempt_sameShape : SameShape out s (schedulerPreempt s) := by
  unfold schedulerPreempt
  split_ifs
  · exact SameShape.refl out s
  all_goals exact ⟨rfl, fun _ _ => rfl, rfl, rfl, rfl, rfl, rfl⟩

/-- A preemption request switches nothing. -/
theorem schedulerPreempt_current :
    (schedulerPreempt s).currentTask = s.currentTask
      ∧ (schedulerPreempt s).pendingTask = s.pendingTask := by
  unfold schedulerPreempt
  split_ifs <;> exact ⟨rfl, rfl⟩

/-- A request raised by `scheduler_preempt` means the slice ended. -/
theorem schedulerPreempt_request (hbefore : s.preemptionRequested = false)
    (hafter : (schedulerPreempt s).preemptionRequested = true) : sliceEnds s := by
  unfold schedulerPreempt at hafter
  split_ifs at hafter with hcur hticks hready
  · simp [hbefore] at hafter
  · simp [hbefore] at hafter
  · simp [hbefore] at hafter
  · rw [not_or] at hcur
    exact ⟨hcur.1, hcur.2, by omega⟩

theorem schedulerSaveInterruptContext_sameShape {rsp : Nat} :
    SameShape out s (schedulerSaveInterruptContext s rsp) := by
  unfold schedulerSaveInterruptContext
  split
  · exact SameShape.refl out s
  · split_ifs
    · exact SameShape.refl out s
    · exact setTask_sameShape rfl (.inr rfl)

theorem schedulerSaveInterruptContext_current (s : Sched) (rsp : Nat) :
    (schedulerSaveInterruptContext s rsp).currentTask = s.currentTask
      ∧ SameRequest s (schedulerSaveInterruptContext s rsp) := by
  unfold schedulerSaveInterruptContext
  split
  · exact ⟨rfl, rfl, rfl⟩
  · split_ifs <;> exact ⟨rfl, rfl, rfl⟩

/-- Choosing the frame of the next task writes stack memory and
`user_started`, nothing else. -/
theorem nextInterruptRsp_eq (trampoline : Nat) (s : Sched) (next : TaskPtr) :
    (nextInterruptRsp trampoline s next).2
      = { s with
          processes := (nextInterruptRsp trampoline s next).2.processes
          stack := (nextInterruptRsp trampoline s next).2.stack } := by
  have hbuild : ∀ s : Sched, (schedulerBuildContextInterruptRsp trampoline s next).2
      = { s with
          stack := (schedulerBuildContextInterruptRsp trampoline s next).2.stack } := by
    intro s
    by_cases hrsp : (s.tasks next).context.rsp = 0
    · simp [schedulerBuildContextInterruptRsp, hrsp]
    · simp only [schedulerBuildContextInterruptRsp, if_neg hrsp]
  unfold nextInterruptRsp
  dsimp only
  split
  · split_ifs
    · rw [hbuild]
      rfl
    · rfl
    · rfl
    · rw [hbuild]
  · split_ifs
    · rfl
    · rw [hbuild]

theorem nextInterruptRsp_sameShape {trampoline : Nat} {next : TaskPtr} :
    SameShape out s (nextInterruptRsp trampoline s next).2 := by
  rw [nextInterruptRsp_eq]
  exact ⟨rfl, fun _ _ => rfl, rfl, rfl, rfl, rfl, rfl⟩

/-- The previous task's half of a preemption: with `next` already out of
the queue, whatever ran goes to the end of it. -/
theorem Settled.preemptRequeue (h : Settled s wait q dead added)
    {l : List TaskPtr} (hl : q .ready = t :: l) :
    ∃ s', preemptRequeue (schedulerReadyQueuePop s) = some s'
      ∧ SchedInv s' wait (Function.update q .ready (l ++ running s)) [t] dead added
      ∧ Kept (schedulerReadyQueuePop s) s' := by
  obtain ⟨hhead, hpop⟩ := h.inv.readyQueuePop hl
  have hfields : (schedulerReadyQueuePop s).currentTask = s.currentTask
      ∧ (schedulerReadyQueuePop s).idle = s.idle := by
    simp [schedulerReadyQueuePop, hhead]
  by_cases hidle : s.currentTask = s.idle
  · have hrun : running s = [] := if_pos hidle
    rw [hrun] at hpop ⊢
    rw [List.append_nil]
    refine ⟨_, ?_, hpop, rfl⟩
    unfold Scheduler.preemptRequeue
    rw [hfields.1, hfields.2, hidle]
    cases s.idle <;> simp
  · cases hcur : s.currentTask with
    | none =>
        have hrun : running s = [] := by simp [running, hcur]
        rw [hrun] at hpop ⊢
        rw [List.append_nil]
        refine ⟨_, ?_, hpop, rfl⟩
        simp [Scheduler.preemptRequeue, hfields, hcur]
    | some u =>
        have hrun : running s = [u] := by
          rw [running, if_neg hidle, hcur]
          rfl
        rw [hrun] at hpop ⊢
        have hut : u ≠ t := by
          have hnodup := hpop.out_nodup
          intro heq
          simp [heq] at hnodup
        have hstate : ((schedulerReadyQueuePop s).tasks u).state = .running := by
          have hu := h.state u (by simp [hrun])
          simpa [schedulerReadyQueuePop, hhead, Function.update_of_ne hut] using hu
        have hready : SchedInv (setState (schedulerReadyQueuePop s) u .ready) wait _ [u, t]
            dead added := hpop.swap.congr (setState_sameShape (List.mem_cons_self ..))
        obtain ⟨next, head, hpush, hinv⟩ := hready.readyPush (by simp [setState])
        rw [Function.update_self, Function.update_idem] at hinv
        refine ⟨_, ?_, hinv, setState_kept.trans relink_kept⟩
        rw [← hpush]
        have huidle : some u ≠ s.idle := fun heq => hidle (by rw [hcur, heq])
        simp [Scheduler.preemptRequeue, hfields, hcur, huidle, hstate]

/-- `scheduler_get_next_interrupt_rsp`: either nothing is to be resumed
and only the request is dropped, or the first ready task is pending and
out, with everything else queued. -/
theorem Settled.getNextInterruptRsp (h : Settled s wait q dead added)
    (hpending : s.pendingTask = none) (trampoline : Nat) :
    (∃ s', schedulerGetNextInterruptRsp trampoline s = some (null, s')
      ∧ Settled s' wait q dead added ∧ s'.currentTask = s.currentTask
      ∧ s'.pendingTask = none ∧ s'.preemptionRequested = false)
    ∨ ∃ rsp t l s', schedulerGetNextInterruptRsp trampoline s = some (rsp, s')
      ∧ rsp ≠ null ∧ q .ready = t :: l
      ∧ SchedInv s' wait (Function.update q .ready (l ++ running s)) [t] dead added
      ∧ s'.pendingTask = some t ∧ s'.preemptionRequested = false := by
  obtain ⟨i, hidle, -, -⟩ := h.inv.idle
  by_cases hreq : s.preemptionRequested = true
  · cases hq : q .ready with
    | nil =>
        refine .inl ⟨{ s with preemptionRequested := false }, ?_, ?_, rfl, hpending, rfl⟩
        · simp [schedulerGetNextInterruptRsp, hreq, schedulerGetNextTask,
            h.inv.readyQueue_none hq, hidle]
        · exact h.congr ⟨rfl, fun _ _ => rfl, rfl, rfl, rfl, rfl, rfl⟩ rfl
    | cons t l =>
        obtain ⟨hhead, -⟩ := h.inv.readyQueuePop hq
        have hadd : t ∈ added := (h.inv.queued .ready t (by simp [hq])).1
        have hti : ¬ some t = s.idle := (h.inv.added_lt t hadd).2
        have hframe := nextInterruptRsp_eq trampoline s t
        have hset : Settled (nextInterruptRsp trampoline s t).2 wait q dead added :=
          h.congr nextInterruptRsp_sameShape (by rw [hframe])
        have hpend : (nextInterruptRsp trampoline s t).2.pendingTask = none := by
          rw [hframe]
          exact hpending
        by_cases hnull : (nextInterruptRsp trampoline s t).1 = null
        · refine .inl ⟨{ (nextInterruptRsp trampoline s t).2 with
            preemptionRequested := false }, ?_, ?_, by rw [hframe], hpend, rfl⟩
          · simp [schedulerGetNextInterruptRsp, hreq, schedulerGetNextTask, hhead, hti,
              hnull]
          · exact hset.congr ⟨rfl, fun _ _ => rfl, rfl, rfl, rfl, rfl, rfl⟩ rfl
        · have hrun : running (nextInterruptRsp trampoline s t).2 = running s := by
            rw [hframe]
            rfl
          obtain ⟨s', hrequeue, hinv, -⟩ := hset.preemptRequeue hq
          rw [hrun] at hinv
          refine .inr ⟨(nextInterruptRsp trampoline s t).1, t, l,
            { s' with pendingTask := some t, preemptionRequested := false },
            ?_, hnull, rfl, ?_, rfl, rfl⟩
          · simp [schedulerGetNextInterruptRsp, hreq, schedulerGetNextTask, hhead, hti,
              hnull, hrequeue]
          · exact hinv.congr ⟨rfl, fun _ _ => rfl, rfl, rfl, rfl, rfl, rfl⟩
  · refine .inl ⟨s, ?_, h, rfl, hpending, by simpa using hreq⟩
    simp [schedulerGetNextInterruptRsp, hreq]

/-- What a commit to `t` writes. -/
theorem schedulerCommitPendingTask_eq (hpending : s.pendingTask = some t) :
    schedulerCommitPendingTask s
      = { s with
          currentTask := some t
          preemptionTicks := 0
          pendingTask := none
          tasks := if some t = s.idle then s.tasks
            else Function.update s.tasks t { s.tasks t with state := .running } } := by
  by_cases hidle : some t = s.idle
  · simp [schedulerCommitPendingTask, hpending, ← hidle]
  · simp [schedulerCommitPendingTask, hpending, hidle, setState, setTask]

omit [DecidableEq μ] in
/-- `scheduler_commit_pending_task` with the pending task out. -/
theorem SchedInv.commitPendingTask (h : SchedInv s wait q [t] dead added)
    (hpending : s.pendingTask = some t) :
    Settled (schedulerCommitPendingTask s) wait q dead added
      ∧ (schedulerCommitPendingTask s).currentTask = some t
      ∧ (schedulerCommitPendingTask s).pendingTask = none
      ∧ (schedulerCommitPendingTask s).preemptionRequested = s.preemptionRequested := by
  have ht : t ∈ [t] := List.mem_cons_self ..
  have hidle : some t ≠ s.idle := (h.added_lt t (h.out_added t ht)).2
  have hcommit : schedulerCommitPendingTask s
      = { setState s t .running with
          currentTask := some t, preemptionTicks := 0, pendingTask := none } := by
    rw [schedulerCommitPendingTask_eq hpending, if_neg hidle]
    rfl
  rw [hcommit]
  have hinv : SchedInv { setState s t .running with
      currentTask := some t, preemptionTicks := 0, pendingTask := none } wait q [t]
      dead added :=
    h.congr ((setState_sameShape ht).trans ⟨rfl, fun _ _ => rfl, rfl, rfl, rfl, rfl, rfl⟩)
  have hrun : running { setState s t .running with
      currentTask := some t, preemptionTicks := 0, pendingTask := none } = [t] := by
    simp [running, setState, hidle]
  refine ⟨⟨hrun ▸ hinv, ?_⟩, rfl, rfl, rfl⟩
  rw [hrun]
  simp [setState]

/-- `common_isr_entry` from `scheduler_save_interrupt_context` on. -/
theorem Settled.isrExit (h : Settled s wait q dead added)
    (hpending : s.pendingTask = none) (trampoline rsp : Nat) :
    ∃ resume s' q', isrExit trampoline s rsp = some (resume, s')
      ∧ Settled s' wait q' dead added ∧ Moved (running s) (q .blocked) s s' q q'
      ∧ s'.pendingTask = none ∧ s'.preemptionRequested = false := by
  have hsaved : Settled (schedulerSaveInterruptContext s rsp) wait q dead added :=
    h.congr schedulerSaveInterruptContext_sameShape
      (schedulerSaveInterruptContext_current s rsp).1
  have hpending' : (schedulerSaveInterruptContext s rsp).pendingTask = none :=
    (schedulerSaveInterruptContext_current s rsp).2.pendingTask.trans hpending
  have hsame := (schedulerSaveInterruptContext_current s rsp).1
  have hrun : running (schedulerSaveInterruptContext s rsp) = running s := by
    have hshape : SameShape [] s (schedulerSaveInterruptContext s rsp) :=
      schedulerSaveInterruptContext_sameShape
    unfold running
    rw [hsame, hshape.idle]
  unfold Scheduler.isrExit
  dsimp only
  rw [← hrun]
  generalize schedulerSaveInterruptContext s rsp = s₁ at hsaved hpending' hsame
  rcases hsaved.getNextInterruptRsp hpending' trampoline with
    ⟨s', hnext, hset, hcur, hp, hr⟩ | ⟨rsp', t, l, s', hnext, hnull, hq, hinv, hp, hr⟩
  · exact ⟨.caller, s', q, by simp [hnext], hset, Moved.same _ q (hcur.trans hsame), hp, hr⟩
  · obtain ⟨hset, hcur, hp', hr'⟩ := hinv.commitPendingTask hp
    refine ⟨.interrupt t rsp', _, _, by simp [hnext, hnull, hcur], hset, ?_, hp', hr'.trans hr⟩
    exact ⟨(SameWait.refl q).update (by simp), Function.update_of_ne (by simp) _ _,
      .switches [] t l (by rw [List.append_nil, hq]) (Function.update_self ..) hcur⟩

end ZenithOS.Scheduler
