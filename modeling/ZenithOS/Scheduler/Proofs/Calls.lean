/-
What each call of the scheduler does to a settled machine.

The calls come back, settle the machine again, and leave the wait queues
to their owners: a task waiting on a mutex is in none of the scheduler's
queues, so none of its calls moves it. `scheduler_unblock` is the
exception that proves it, and is only asked about tasks that are in no
wait queue.
-/
import ZenithOS.Scheduler.Proofs.Switch

namespace ZenithOS.Scheduler

open Lib Mm Proc

variable {μ : Type} [DecidableEq μ] {s : Sched} {wait : μ → Option TaskPtr}
  {q : QueueId μ → List TaskPtr} {dead added : List TaskPtr} {t : TaskPtr}

omit [DecidableEq μ] in
/-- `scheduler_init` on a machine without tasks. -/
theorem settled_init {boot : Sched} (hboot : boot.taskCount = 0) (id entry stack : Nat) :
    Settled (schedulerInit boot id entry stack) (fun _ : μ => none) (fun _ => []) [] [] := by
  have hinv : SchedInv (schedulerInit boot id entry stack) (fun _ : μ => none) (fun _ => [])
      [] [] [] := by
    refine ⟨⟨fun k => ?_, by simp⟩, by simp, by simp, List.nodup_nil, by simp, by simp,
      by simp, ⟨0, ?_, ?_, ?_⟩, fun t hlt _ hidle => ?_⟩
    · cases k with
      | wait m => rfl
      | ready | blocked | sleep => rfl
    · simp [schedulerInit, hboot]
    · simp [schedulerInit, taskCreate, hboot]
    · simp [schedulerInit, taskCreate, hboot]
    · simp only [schedulerInit, taskCreate, setTask, hboot] at hlt hidle
      exact absurd (by simp; omega) hidle
  have hrun : running (schedulerInit boot id entry stack) = [] := by
    simp [running, schedulerInit]
  exact ⟨hrun ▸ hinv, by simp [hrun]⟩

omit [DecidableEq μ] in
/-- What the running task does next, when it is not idle and not the
boot stream. -/
theorem Settled.current (h : Settled s wait q dead added) (hcur : s.currentTask = some t)
    (hidle : some t ≠ s.idle) :
    SchedInv s wait q [t] dead added ∧ (s.tasks t).state = .running := by
  have hrun : running s = [t] := by
    rw [running, hcur, if_neg hidle]
    rfl
  exact ⟨hrun ▸ h.inv, h.state t (by simp [hrun])⟩

omit [DecidableEq μ] in
/-- The running task is in no ready queue. -/
theorem Settled.not_ready (h : Settled s wait q dead added) (hcur : s.currentTask = some t)
    (hidle : some t ≠ s.idle) : t ∉ q .ready := by
  obtain ⟨hinv, -⟩ := h.current hcur hidle
  intro hmem
  exact (hinv.queued .ready t hmem).2.1 (List.mem_cons_self ..)

/-- The current task having given up its place, `scheduler_yield` settles
the machine again, with another task current. -/
theorem SchedInv.yieldAway {s₁ : Sched} (h : SchedInv s₁ wait q [] dead added)
    (hcur : s₁.currentTask = some t) (hstate : (s₁.tasks t).state ≠ .running)
    (hreq : SameRequest s s₁) (regs : CpuContext) :
    ∃ resume s' q', schedulerYield s₁ regs = some (resume, s')
      ∧ Settled s' wait q' dead added ∧ SameRequest s s'
      ∧ Moved [] (q .blocked) s₁ s' q q'
      ∧ (t ∉ q .ready → some t ≠ s₁.idle → s'.currentTask ≠ some t) := by
  obtain ⟨resume, s', q', hdisp, hset, hreq', hmoved⟩ := h.dispatch regs
  refine ⟨resume, s', q', ?_, hset, hreq.trans hreq', hmoved.moved, fun hnot hidle => ?_⟩
  · rw [schedulerYield_queued fun u hu => ?_, hdisp]
    obtain rfl : t = u := Option.some.inj (hcur.symm.trans hu)
    exact .inr hstate
  · rcases hmoved.next with ⟨-, -, hnext⟩ | ⟨u, hready, hnext⟩
    · rw [hnext]
      exact hidle.symm
    · rw [hnext]
      rintro ⟨rfl⟩
      exact hnot (by simp [hready])

/-- Nobody runs but idle or the boot stream. -/
theorem running_idle (hcur : s.currentTask = some t) (hidle : some t = s.idle) :
    running s = [] := by
  rw [running, hcur, if_pos hidle]

theorem running_none (hcur : s.currentTask = none) : running s = [] := by
  rw [running, hcur]
  exact ite_self []

theorem running_task (hcur : s.currentTask = some t) (hidle : some t ≠ s.idle) :
    running s = [t] := by
  rw [running, hcur, if_neg hidle]
  rfl

/-- `scheduler_block_current` puts the running task at the end of the
blocked queue. -/
theorem Settled.blockCurrent (h : Settled s wait q dead added) (regs : CpuContext) :
    ∃ resume s' q', schedulerBlockCurrentLocked s regs = some (resume, s')
      ∧ Settled s' wait q' dead added ∧ SameRequest s s'
      ∧ Moved [] (q .blocked ++ running s) s s' q q'
      ∧ (s'.currentTask = s.currentTask ↔ s.currentTask = none ∨ s.currentTask = s.idle) := by
  cases hcur : s.currentTask with
  | none =>
      rw [running_none hcur, List.append_nil]
      exact ⟨.caller, _, q, by simp only [schedulerBlockCurrentLocked, hcur], h, ⟨rfl, rfl⟩,
        Moved.same [] q rfl, by simp [hcur]⟩
  | some t =>
      by_cases hidle : some t = s.idle
      · rw [running_idle hcur hidle, List.append_nil]
        exact ⟨.caller, _, q, by simp only [schedulerBlockCurrentLocked, hcur, if_pos hidle],
          h, ⟨rfl, rfl⟩, Moved.same [] q rfl, by simp [hcur, hidle]⟩
      · rw [running_task hcur hidle]
        obtain ⟨hinv, -⟩ := h.current hcur hidle
        have hblocked : SchedInv (setState s t .blocked) wait q [t] dead added :=
          hinv.congr (setState_sameShape (List.mem_cons_self ..))
        obtain ⟨next, head, hpush, hinv₁⟩ := hblocked.blockedPush (by simp [setState])
        obtain ⟨resume, s', q', hyield, hset, hreq, hmoved, hleft⟩ := hinv₁.yieldAway
          (s := s) hcur (by simp [relink_state, setState]) ⟨rfl, rfl⟩ regs
        rw [Function.update_self] at hmoved
        rw [Function.update_of_ne (by simp)] at hleft
        refine ⟨resume, s', q', ?_, hset, hreq,
          hmoved.after [] ((SameWait.refl q).update (by simp)) ?_ rfl rfl, ?_⟩
        rotate_left
        · rw [Function.update_of_ne (by simp), List.append_nil]
        · simp [hleft (h.not_ready hcur hidle) hidle, hidle]
        simp only [schedulerBlockCurrentLocked, hcur, if_neg hidle, hpush]
        exact hyield

/-- `scheduler_sleep` puts it into the sleep queue. -/
theorem Settled.sleep (h : Settled s wait q dead added) (ticks : Nat) (regs : CpuContext) :
    ∃ resume s' q', schedulerSleep s ticks regs = some (resume, s')
      ∧ Settled s' wait q' dead added ∧ SameRequest s s' ∧ Moved [] (q .blocked) s s' q q'
      ∧ (s'.currentTask = s.currentTask ↔ s.currentTask = none ∨ s.currentTask = s.idle) := by
  cases hcur : s.currentTask with
  | none =>
      exact ⟨.caller, _, q, by simp only [schedulerSleep, hcur], h, ⟨rfl, rfl⟩,
        Moved.same [] q rfl, by simp [hcur]⟩
  | some t =>
      by_cases hidle : some t = s.idle
      · exact ⟨.caller, _, q, by simp only [schedulerSleep, hcur, if_pos hidle], h,
          ⟨rfl, rfl⟩, Moved.same [] q rfl, by simp [hcur, hidle]⟩
      · obtain ⟨hinv, -⟩ := h.current hcur hidle
        have hasleep : SchedInv (setTask s t { s.tasks t with
            wakeTick := (s.systemTicks + ticks) % 2 ^ 64, state := .sleeping })
            wait q [t] dead added :=
          hinv.congr (setTask_sameShape rfl (.inl (List.mem_cons_self ..)))
        obtain ⟨next, head, hpush, hinv₁⟩ := hasleep.sleepQueueAdd (by simp)
        obtain ⟨resume, s', q', hyield, hset, hreq, hmoved, hleft⟩ := hinv₁.yieldAway
          (s := s) hcur (by simp [relink_state]) ⟨rfl, rfl⟩ regs
        rw [Function.update_of_ne (by simp)] at hmoved hleft
        refine ⟨resume, s', q', ?_, hset, hreq,
          hmoved.after [] ((SameWait.refl q).update (by simp)) ?_ rfl rfl, ?_⟩
        rotate_left
        · rw [Function.update_of_ne (by simp), List.append_nil]
        · simp [hleft (h.not_ready hcur hidle) hidle, hidle]
        simp only [schedulerSleep, hcur, if_neg hidle, hpush]
        exact hyield

/-- `task_exit` puts it nowhere. -/
theorem Settled.exit (h : Settled s wait q dead added) (hcur : s.currentTask = some t)
    (hidle : some t ≠ s.idle) (regs : CpuContext) :
    ∃ resume s' q', taskExit s regs = some (resume, s')
      ∧ Settled s' wait q' (t :: dead) added ∧ SameRequest s s'
      ∧ Moved [] (q .blocked) s s' q q' := by
  obtain ⟨hinv, -⟩ := h.current hcur hidle
  have hdead : SchedInv (setState s t .terminated) wait q [t] dead added :=
    hinv.congr (setState_sameShape (List.mem_cons_self ..))
  obtain ⟨resume, s', q', hyield, hset, hreq, hmoved, -⟩ :=
    (hdead.bury (by simp [setState])).yieldAway (s := s) hcur (by simp [setState]) ⟨rfl, rfl⟩ regs
  exact ⟨resume, s', q', by simp only [taskExit, hcur]; exact hyield, hset, hreq,
    hmoved.after [] (SameWait.refl q) (List.append_nil _).symm rfl rfl⟩

omit [DecidableEq μ] in
/-- A blocked task that is in no wait queue is in the blocked queue. -/
theorem Settled.mem_blocked (h : Settled s wait q dead added) (hlt : t < s.taskCount)
    (hfree : ∀ m, t ∉ q (.wait m)) (hstate : (s.tasks t).state = .blocked) : t ∈ q .blocked := by
  -- neither idle, nor fresh, nor running
  have hidle : some t ≠ s.idle := by
    obtain ⟨i, hi, -, hi'⟩ := h.inv.idle
    intro heq
    obtain rfl : t = i := Option.some.inj (heq.trans hi)
    rw [hi'] at hstate
    cases hstate
  have hadd : t ∈ added := by
    by_contra hnot
    have hfresh := h.inv.fresh t hlt hnot hidle
    rw [hfresh] at hstate
    cases hstate
  have hout : t ∉ running s := by
    intro hmem
    have hrun := h.state t hmem
    rw [hrun] at hstate
    cases hstate
  obtain ⟨k, hk, hkstate⟩ := h.inv.mem_of_state hadd hout (by simp [hstate])
  rw [hstate] at hkstate
  cases k with
  | blocked => exact hk
  | wait m => exact absurd hk (hfree m)
  | ready | sleep => cases hkstate

/-- `scheduler_unblock` of any task that is in no wait queue: only a
blocked one moves. -/
theorem Settled.unblock (h : Settled s wait q dead added) (hlt : t < s.taskCount)
    (hfree : ∀ m, t ∉ q (.wait m)) :
    ∃ s' q', schedulerUnblock s (some t) = some s'
      ∧ Settled s' wait q' dead added ∧ SameRequest s s'
      ∧ Moved [] ((q .blocked).erase t) s s' q q' := by
  by_cases hstate : (s.tasks t).state = .blocked
  · have hk := h.mem_blocked hlt hfree hstate
    have hout : t ∉ running s := (h.inv.queued .blocked t hk).2.1
    obtain ⟨s', hunblock, hinv, hkept, -, hsame⟩ := h.inv.unblockLocked hk
    refine ⟨s', _, ?_, hinv.settled_of_kept hkept (fun u hu => hsame u ?_) h.state,
      hkept.sameRequest, ⟨((SameWait.refl q).update (by simp)).update (by simp), ?_,
        .stays [t] (Function.update_self ..) (congrArg Sched.currentTask hkept :)⟩⟩
    rotate_right
    · rw [Function.update_of_ne (by simp), Function.update_self]
    · simp only [schedulerUnblock, hstate, ne_eq, not_true_eq_false, if_false, hunblock]
    · rintro rfl
      exact hout hu
  · have hnot : t ∉ q .blocked := fun hmem => hstate (h.inv.queued .blocked t hmem).2.2
    rw [List.erase_of_not_mem hnot]
    exact ⟨s, q, by simp [schedulerUnblock, hstate], h, ⟨rfl, rfl⟩, Moved.same [] q rfl⟩

/-- `scheduler_add_task` puts a new task at the end of the ready queue. -/
theorem Settled.addTask (h : Settled s wait q dead added) (hlt : t < s.taskCount)
    (hnew : t ∉ added) (hidle : some t ≠ s.idle) :
    ∃ s' q', schedulerAddTask s (some t) = some s'
      ∧ Settled s' wait q' dead (t :: added) ∧ SameRequest s s'
      ∧ Moved [] (q .blocked) s s' q q' := by
  have hout : SchedInv (setState s t .ready) wait q (t :: running s) dead (t :: added) :=
    (h.inv.add hlt hnew hidle).congr (setState_sameShape (List.mem_cons_self ..))
  obtain ⟨next, head, hpush, hinv⟩ := hout.readyPush (by simp [setState])
  refine ⟨_, Function.update q .ready (q .ready ++ [t]), hpush, ?_, ⟨rfl, rfl⟩,
    ⟨(SameWait.refl q).update (by simp), Function.update_of_ne (by simp) _ _,
      .stays [t] (Function.update_self ..) rfl⟩⟩
  refine hinv.settled_of_kept (setState_kept.trans relink_kept) (fun u hu => ?_) h.state
  have hut : u ≠ t := by
    rintro rfl
    exact hnew (h.inv.out_added u hu)
  exact (setTask_sameTask hut).trans relink_sameTask

omit [DecidableEq μ] in
/-- `task_create` puts nothing into a queue. -/
theorem Settled.createTask (h : Settled s wait q dead added) (id entry stack : Nat)
    (process : Option ProcessPtr) :
    Settled (taskCreate s id entry stack process) wait q dead added := by
  refine ⟨h.inv.taskCreate id entry stack process, fun t ht => ?_⟩
  have hlt := (h.inv.added_lt t (h.inv.out_added t ht)).1
  have hne : t ≠ s.taskCount := Nat.ne_of_lt hlt
  have hold : (taskCreate s id entry stack process).tasks t = s.tasks t :=
    Function.update_of_ne hne _ _
  rw [hold]
  exact h.state t ht

/-- The timer interrupt wakes sleepers, and at the end of a slice requeues
the running task. -/
theorem Settled.timer (h : Settled s wait q dead added) (hpend : s.pendingTask = none)
    (trampoline rsp : Nat) :
    ∃ resume s' q', timerInterrupt trampoline s rsp = some (resume, s')
      ∧ Settled s' wait q' dead added ∧ Moved (running s) (q .blocked) s s' q q'
      ∧ s'.pendingTask = none ∧ s'.preemptionRequested = false := by
  have hticked : Settled (tickSystem s) wait q dead added :=
    h.congr ⟨rfl, fun _ _ => rfl, rfl, rfl, rfl, rfl, rfl⟩ rfl
  obtain ⟨s₁, htick, hset₁, hwoken⟩ := hticked.tick
  have hpre : Settled (schedulerPreempt s₁) wait _ dead added :=
    hset₁.congr schedulerPreempt_sameShape schedulerPreempt_current.1
  have hpending : (schedulerPreempt s₁).pendingTask = none := by
    rw [schedulerPreempt_current.2, hwoken.kept.sameRequest.pendingTask]
    exact hpend
  obtain ⟨resume, s', q', hexit, hset, hmoved, hp, hr⟩ := hpre.isrExit hpending trampoline rsp
  have hcur : (schedulerPreempt s₁).currentTask = s.currentTask :=
    schedulerPreempt_current.1.trans (congrArg Sched.currentTask hwoken.kept :)
  have hshape : SameShape [] s₁ (schedulerPreempt s₁) := schedulerPreempt_sameShape
  have hidle : (schedulerPreempt s₁).idle = s.idle :=
    hshape.idle.trans (congrArg Sched.idle hwoken.kept :)
  have hrun : running (schedulerPreempt s₁) = running s := by
    unfold running
    rw [hcur, hidle]
  have hblocked : afterWake (tickSystem s) q [] (q .sleep) .blocked = q .blocked := by
    rw [afterWake, Function.update_of_ne (by simp), Function.update_of_ne (by simp)]
  rw [hrun, hblocked] at hmoved
  refine ⟨resume, s', q', ?_, hset, hmoved.after _
    (((SameWait.refl q).update (by simp)).update (by simp)) (Function.update_self ..) hcur hidle,
    hp, hr⟩
  simp only [timerInterrupt, htick]
  exact hexit

/-- The task that an operation puts to the end of the ready queue when
another becomes current. -/
def SchedOp.back (s : Sched) : SchedOp → List TaskPtr
  | .yield _ | .timer _ => running s
  | _ => []

/-- The blocked queue after an operation. -/
def SchedOp.blocked (s : Sched) (blocked : List TaskPtr) : SchedOp → List TaskPtr
  | .blockCurrent _ => blocked ++ running s
  | .unblock t => blocked.erase t
  | _ => blocked

/-- Every operation comes back and settles the machine; no one is buried
twice. -/
theorem Settled.step {y : SchedSys} (h : Settled y.sched wait q dead y.added) (trampoline : Nat)
    (hpend : y.sched.pendingTask = none) (hreqd : y.sched.preemptionRequested = false)
    {op : SchedOp} (hop : op.Allowed y)
    (hfree : ∀ t, op = .unblock t → ∀ m, t ∉ q (.wait m)) :
    ∃ y' q' dead', sysStep trampoline y op = some y'
      ∧ Settled y'.sched wait q' dead' y'.added ∧ y'.sched.pendingTask = none
      ∧ y'.sched.preemptionRequested = false
      ∧ Moved (op.back y.sched) (op.blocked y.sched (q .blocked)) y.sched y'.sched q q'
      ∧ dead ⊆ dead' := by
  -- what an operation that leaves the requests alone has to bring
  have hkeep : ∀ {s' : Sched} {q' : QueueId μ → List TaskPtr} {dead' added' : List TaskPtr}
      {back blocked : List TaskPtr}, Settled s' wait q' dead' added' → SameRequest y.sched s' →
      Moved back blocked y.sched s' q q' → dead ⊆ dead' →
        Settled s' wait q' dead' added' ∧ s'.pendingTask = none
          ∧ s'.preemptionRequested = false ∧ Moved back blocked y.sched s' q q' ∧ dead ⊆ dead' :=
    fun hset hreq hmoved hsub => ⟨hset, hreq.1.trans hpend, hreq.2.trans hreqd, hmoved, hsub⟩
  have hrefl : dead ⊆ dead := List.Subset.refl dead
  cases op with
  | createTask id entry stack process =>
      exact ⟨_, q, dead, rfl, hkeep (h.createTask id entry stack process) ⟨rfl, rfl⟩
        (Moved.same [] q rfl) hrefl⟩
  | addTask t =>
      obtain ⟨hlt, hnew, hidle⟩ := hop
      obtain ⟨s', q', hstep, hset, hreq, hwait⟩ := h.addTask hlt hnew hidle
      exact ⟨⟨s', t :: y.added⟩, q', dead, by simp [sysStep, schedStep, hstep],
        hkeep hset hreq hwait hrefl⟩
  | yield regs =>
      obtain ⟨_, s', q', hstep, hset, hreq, hwait, -⟩ := h.yield regs
      exact ⟨⟨s', y.added⟩, q', dead, by simp [sysStep, schedStep, hstep],
        hkeep hset hreq hwait hrefl⟩
  | blockCurrent regs =>
      obtain ⟨_, s', q', hstep, hset, hreq, hwait, -⟩ := h.blockCurrent regs
      exact ⟨⟨s', y.added⟩, q', dead, by simp [sysStep, schedStep, hstep],
        hkeep hset hreq hwait hrefl⟩
  | unblock t =>
      obtain ⟨s', q', hstep, hset, hreq, hwait⟩ := h.unblock hop (hfree t rfl)
      exact ⟨⟨s', y.added⟩, q', dead, by simp [sysStep, schedStep, hstep],
        hkeep hset hreq hwait hrefl⟩
  | sleep ticks regs =>
      obtain ⟨_, s', q', hstep, hset, hreq, hwait, -⟩ := h.sleep ticks regs
      exact ⟨⟨s', y.added⟩, q', dead, by simp [sysStep, schedStep, hstep],
        hkeep hset hreq hwait hrefl⟩
  | exit regs =>
      obtain ⟨hsome, hidle⟩ := hop
      obtain ⟨t, hcur⟩ := Option.ne_none_iff_exists'.mp hsome
      obtain ⟨_, s', q', hstep, hset, hreq, hwait⟩ := h.exit hcur (hcur ▸ hidle) regs
      exact ⟨⟨s', y.added⟩, q', t :: dead, by simp [sysStep, schedStep, hstep],
        hkeep hset hreq hwait (List.subset_cons_self t dead)⟩
  | timer rsp =>
      obtain ⟨_, s', q', hstep, hset, hwait, hp, hr⟩ := h.timer hpend trampoline rsp
      exact ⟨{ sched := s', added := y.added }, q', dead,
        by simp [sysStep, schedStep, hstep], hset, hp, hr, hwait, hrefl⟩

end ZenithOS.Scheduler
