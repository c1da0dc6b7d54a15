/-
How long a task sleeps.

# The promise

After `scheduler_sleep` with `n` at tick `t`, the task is in the sleep
queue until the first timer interrupt that makes the tick `t + n` or
more, and not after it (`SleepsUntil`), whatever is called meanwhile, as
long as `system_ticks` does not wrap around.

# The code

No call but the timer takes a task out of the sleep queue or changes its
`wake_tick`, and none but `scheduler_sleep` puts one in (`SameSleep`). The
timer compares `wake_tick` with the tick. But `wake_tick` is the sum in 64
bits: when `t + n` does not fit, it lies in the past, and the next timer
interrupt wakes the task.
-/
import ZenithOS.Scheduler.Proofs.Owners
import ZenithOS.Scheduler.Unblock

namespace ZenithOS.Scheduler

open Lib Mm Proc

variable {s s' s'' s₁ : Sched} {t u : TaskPtr} {regs : CpuContext} {resume : Resume}
  {trampoline rsp : Nat}

-- =============================================================== one task

/-- Whether task `t` is asleep, until when, and what time it is. -/
structure SameSleep (t : TaskPtr) (s s' : Sched) : Prop where
  asleep : (s'.tasks t).state = .sleeping ↔ (s.tasks t).state = .sleeping
  wakeTick : (s'.tasks t).wakeTick = (s.tasks t).wakeTick
  ticks : s'.systemTicks = s.systemTicks

/-- Sleep that stays twice stays. -/
theorem SameSleep.trans (h : SameSleep t s s') (h' : SameSleep t s' s'') : SameSleep t s s'' :=
  ⟨h'.asleep.trans h.asleep, h'.wakeTick.trans h.wakeTick, h'.ticks.trans h.ticks⟩

/-- The task is as it was. -/
theorem SameSleep.of_task (htask : s'.tasks t = s.tasks t)
    (hticks : s'.systemTicks = s.systemTicks) : SameSleep t s s' :=
  ⟨by rw [htask], by rw [htask], hticks⟩

theorem SameSleep.refl (t : TaskPtr) (s : Sched) : SameSleep t s s := .of_task rfl rfl

/-- The state after a move, where the rest is kept. -/
theorem Kept.sameSleep (h : Kept s s')
    (hstate : (s'.tasks t).state = .sleeping ↔ (s.tasks t).state = .sleeping) :
    SameSleep t s s' :=
  ⟨hstate, (congrArg (fun c : Sched => (c.tasks t).wakeTick) h :),
    (congrArg Sched.systemTicks h :)⟩

/-- A task that is not asleep gets another such state. -/
theorem setState_sameSleep {state : TaskState} (hold : (s.tasks u).state ≠ .sleeping)
    (hnew : state ≠ .sleeping) : SameSleep t s (setState s u state) := by
  apply setState_kept.sameSleep
  by_cases htu : t = u
  · rw [htu]
    simp [setState, hold, hnew]
  · simp [setState, htu]

theorem schedulerResetResumeState_sameSleep :
    SameSleep t s (schedulerResetResumeState s u) := by
  apply schedulerResetResumeState_kept.sameSleep
  by_cases htu : t = u
  · rw [htu]
    simp [schedulerResetResumeState]
  · simp [schedulerResetResumeState, htu]

-- ============================================================= the queues

/-- Whoever is switched to next is not asleep. -/
def NextAwake (s : Sched) : Prop :=
  ∀ u, s.readyQueue = some u ∨ s.idle = some u → (s.tasks u).state ≠ .sleeping

theorem NextAwake.congr (h : NextAwake s) (hsame : ∀ t, SameSleep t s s')
    (hhead : s'.readyQueue = s.readyQueue) (hidle : s'.idle = s.idle) : NextAwake s' := by
  intro u hu
  rw [hhead, hidle] at hu
  rw [Ne, (hsame u).asleep]
  exact h u hu

/-- The next task does not sleep. -/
theorem NextAwake.next (h : NextAwake s) (hnext : schedulerGetNextTask s = some u) :
    (s.tasks u).state ≠ .sleeping := by
  unfold schedulerGetNextTask at hnext
  cases hready : s.readyQueue with
  | none =>
      rw [hready] at hnext
      exact h u (.inr hnext)
  | some v =>
      rw [hready] at hnext
      exact h u (.inl (hready.trans hnext))

/-- A push puts at most the new task in front. -/
theorem readyPush_cases (h : readyPush s u = some s') :
    (∀ t, SameSleep t s s') ∧ s'.idle = s.idle
      ∧ (s'.readyQueue = s.readyQueue ∨ s'.readyQueue = some u) := by
  obtain ⟨⟨s₁, head⟩, hpush, rfl⟩ := Option.map_eq_some_iff.mp h
  obtain ⟨⟨next, head'⟩, hback, heq⟩ := Option.map_eq_some_iff.mp hpush
  cases heq
  refine ⟨fun t => ⟨Iff.rfl, rfl, rfl⟩, rfl, ?_⟩
  unfold pushBack at hback
  cases hhead : s.readyQueue with
  | none =>
      rw [hhead] at hback
      cases hback
      exact .inr rfl
  | some v =>
      rw [hhead] at hback
      obtain ⟨last, -, heq⟩ := Option.map_eq_some_iff.mp hback
      cases heq
      exact .inl rfl

/-- A task that is not asleep comes to the end of the ready queue. -/
theorem NextAwake.readyPush (h : NextAwake s) (hu : (s.tasks u).state ≠ .sleeping)
    (hpush : readyPush s u = some s') : NextAwake s' := by
  obtain ⟨hsame, hidle, hhead⟩ := readyPush_cases hpush
  intro v hv
  rw [Ne, (hsame v).asleep]
  rcases hv with hready | hidle'
  · rcases hhead with hold | hnew
    · exact h v (.inl (hold ▸ hready))
    · obtain rfl : u = v := Option.some.inj (hnew.symm.trans hready)
      exact hu
  · exact h v (.inr (hidle ▸ hidle'))

-- ============================================================= cooperative

theorem switchTo_sameSleep (hu : (s.tasks u).state ≠ .sleeping) :
    SameSleep t s (schedulerSwitchTo s (some u)).2 := by
  have hspace : ∀ s : Sched, (switchAddressSpace s u).systemTicks = s.systemTicks := by
    intro s
    unfold switchAddressSpace pageTableSwitch
    split
    · split_ifs <;> rfl
    · rfl
  have hrunning : SameSleep t s (setState s u .running) := setState_sameSleep hu (by simp)
  rw [schedulerSwitchTo_eq]
  by_cases hidle : some u = s.idle
  · rw [if_pos hidle]
    exact .of_task rfl (hspace s)
  · rw [if_neg hidle]
    exact ⟨hrunning.asleep, hrunning.wakeTick, hspace s⟩

theorem schedulerReadyQueuePop_sameSleep : SameSleep t s (schedulerReadyQueuePop s) := by
  apply schedulerReadyQueuePop_kept.sameSleep
  unfold schedulerReadyQueuePop
  cases s.readyQueue with
  | none => exact Iff.rfl
  | some u =>
      by_cases htu : t = u
      · rw [htu]
        simp
      · simp [htu]

/-- A switch to idle or to the first ready task. -/
theorem schedulerSchedule_sameSleep (h : NextAwake s) :
    SameSleep t s (schedulerSchedule s).2 := by
  unfold schedulerSchedule
  cases hr : schedulerGetNextTask s with
  | none => exact SameSleep.refl t s
  | some next =>
      dsimp only
      split_ifs
      · apply schedulerReadyQueuePop_sameSleep.trans (switchTo_sameSleep ?_)
        rw [Ne, schedulerReadyQueuePop_sameSleep.asleep]
        exact h.next hr
      · exact switchTo_sameSleep (h.next hr)

theorem saveContext_sameSleep (previous : Option TaskPtr) (regs : CpuContext) :
    SameSleep t s (saveContext s previous regs) := by
  cases previous with
  | none => exact .of_task rfl rfl
  | some u =>
      by_cases htu : t = u
      · rw [htu]
        exact ⟨by simp [saveContext], by simp [saveContext], rfl⟩
      · exact .of_task (by simp [saveContext, htu]) rfl

theorem schedulerDispatch_sameSleep (h : NextAwake s) (regs : CpuContext) :
    SameSleep t s (schedulerDispatch s regs).2 := by
  have hschedule := schedulerSchedule_sameSleep (t := t) h
  unfold schedulerDispatch
  cases hr : schedulerSchedule s with
  | mk next s₁ =>
      rw [hr] at hschedule
      have hsaved := hschedule.trans (saveContext_sameSleep s.currentTask regs)
      cases next with
      | none => exact hschedule
      | some next =>
          dsimp only
          split_ifs
          · exact hschedule
          · exact hsaved
          · exact hsaved

/-- A running task goes back to the ready queue. -/
theorem makeReady_sameSleep (h : NextAwake s) (hu : (s.tasks u).state ≠ .sleeping)
    (hpush : readyPush (schedulerResetResumeState (setState s u .ready) u) u = some s') :
    (∀ t, SameSleep t s s') ∧ NextAwake s' := by
  have hready : ∀ t, SameSleep t s (schedulerResetResumeState (setState s u .ready) u) := fun t =>
    (setState_sameSleep hu (by simp)).trans schedulerResetResumeState_sameSleep
  obtain ⟨hsame, -⟩ := readyPush_cases hpush
  refine ⟨fun t => (hready t).trans (hsame t), ?_⟩
  apply (h.congr hready rfl rfl).readyPush ?_ hpush
  rw [Ne, (hready u).asleep]
  exact hu

theorem schedulerYield_sameSleep (h : NextAwake s)
    (hyield : schedulerYield s regs = some (resume, s')) : SameSleep t s s' := by
  obtain ⟨s₁, hrequeue, hdispatch⟩ := Option.map_eq_some_iff.mp hyield
  have hs₁ : (∀ t, SameSleep t s s₁) ∧ NextAwake s₁ := by
    rcases schedulerRequeue_cases hrequeue with rfl | ⟨u, -, hrunning, hpush⟩
    · exact ⟨fun t => SameSleep.refl t _, h⟩
    · exact makeReady_sameSleep h (by rw [hrunning]; simp) hpush
  have hs' := (hs₁.1 t).trans (schedulerDispatch_sameSleep hs₁.2 regs)
  rw [hdispatch] at hs'
  exact hs'

theorem schedulerUnblock_sameSleep (h : NextAwake s)
    (hrun : schedulerUnblock s (some u) = some s') : SameSleep t s s' := by
  rcases schedulerUnblock_cases hrun with ⟨-, rfl⟩ | ⟨hblocked, hlocked⟩
  · exact SameSleep.refl t _
  · obtain ⟨s₁, hremove, hpush⟩ := Option.bind_eq_some_iff.mp hlocked
    obtain ⟨⟨s₂, head⟩, hunlink, rfl⟩ := Option.map_eq_some_iff.mp hremove
    obtain ⟨next, rfl⟩ := taskQueueRemove_links hunlink
    have hremoved : ∀ t, SameSleep t s { setLinks s next with blockedQueue := head } :=
      fun t => ⟨Iff.rfl, rfl, rfl⟩
    have hu : (s.tasks u).state ≠ .sleeping := by
      rw [hblocked]
      simp
    exact (hremoved t).trans ((makeReady_sameSleep (h.congr hremoved rfl rfl)
      (by rw [Ne, (hremoved u).asleep]; exact hu) hpush).1 t)

theorem schedulerBlockCurrentLocked_sameSleep (h : NextAwake s)
    (hcur : ∀ u, s.currentTask = some u → (s.tasks u).state ≠ .sleeping)
    (hrun : schedulerBlockCurrentLocked s regs = some (resume, s')) : SameSleep t s s' := by
  rcases schedulerBlockCurrentLocked_cases hrun with ⟨-, rfl⟩ | ⟨u, s₁, hu, -, hpush, hyield⟩
  · exact SameSleep.refl t _
  · obtain ⟨⟨s₂, head⟩, hback, rfl⟩ := Option.map_eq_some_iff.mp hpush
    obtain ⟨next, rfl⟩ := taskQueuePush_links hback
    have hblocked : ∀ t, SameSleep t s
        { setLinks (setState s u .blocked) next with blockedQueue := head } := fun t =>
      (setState_sameSleep (hcur u hu) (by simp)).trans ⟨Iff.rfl, rfl, rfl⟩
    exact (hblocked t).trans (schedulerYield_sameSleep (h.congr hblocked rfl rfl) hyield)

theorem taskExit_sameSleep (h : NextAwake s)
    (hcur : ∀ u, s.currentTask = some u → (s.tasks u).state ≠ .sleeping)
    (hrun : taskExit s regs = some (resume, s')) : SameSleep t s s' := by
  rcases taskExit_cases hrun with ⟨-, rfl⟩ | ⟨u, hu, hyield⟩
  · exact SameSleep.refl t _
  · have hdead : ∀ t, SameSleep t s (setState s u .terminated) := fun t =>
      setState_sameSleep (hcur u hu) (by simp)
    exact (hdead t).trans (schedulerYield_sameSleep (h.congr hdead rfl rfl) hyield)

/-- The task that calls `scheduler_sleep` falls asleep, and no other. -/
theorem schedulerSleep_sameSleep {n : Nat} (h : NextAwake s) (hcur : s.currentTask = some u)
    (hidle : some u ≠ s.idle) (hhead : s.readyQueue ≠ some u)
    (hrun : schedulerSleep s n regs = some (resume, s')) :
    SameSleep t
      (setTask s u { s.tasks u with
        wakeTick := (s.systemTicks + n) % 2 ^ 64, state := .sleeping }) s' := by
  simp only [schedulerSleep, hcur, if_neg hidle] at hrun
  obtain ⟨s₁, hpush, hyield⟩ := Option.bind_eq_some_iff.mp hrun
  obtain ⟨⟨s₂, head⟩, hback, rfl⟩ := Option.map_eq_some_iff.mp hpush
  obtain ⟨next, rfl⟩ := taskQueuePush_links hback
  refine SameSleep.trans ?_ (schedulerYield_sameSleep ?_ hyield)
  · exact ⟨Iff.rfl, rfl, rfl⟩
  · -- whoever is next is another task
    intro v hv
    have hne : v ≠ u := by
      rintro rfl
      cases hv with
      | inl hready => exact hhead hready
      | inr hidle' => exact hidle hidle'.symm
    have hsame : SameSleep v s (setTask s u { s.tasks u with
        wakeTick := (s.systemTicks + n) % 2 ^ 64, state := .sleeping }) :=
      .of_task (by simp [hne]) rfl
    show ((setTask s u _).tasks v).state ≠ .sleeping
    rw [Ne, hsame.asleep]
    exact h v hv

-- =============================================================== the timer

theorem schedulerSaveInterruptContext_sameSleep :
    SameSleep t s (schedulerSaveInterruptContext s rsp) := by
  unfold schedulerSaveInterruptContext
  split
  · exact SameSleep.refl t s
  · rename_i u hu
    split_ifs
    · exact SameSleep.refl t s
    · by_cases htu : t = u
      · rw [htu]
        exact ⟨by simp, by simp, rfl⟩
      · exact .of_task (by simp [htu]) rfl

/-- What is pending is not asleep. -/
theorem schedulerGetNextInterruptRsp_sameSleep {rsp' : Nat} (h : NextAwake s)
    (hpending : s.pendingTask = none)
    (hrun : schedulerGetNextInterruptRsp trampoline s = some (rsp', s')) :
    (∀ t, SameSleep t s s')
      ∧ ∀ u, s'.pendingTask = some u → (s'.tasks u).state ≠ .sleeping := by
  unfold schedulerGetNextInterruptRsp at hrun
  have hstays : ∀ b, (∀ t, SameSleep t s { s with preemptionRequested := b })
      ∧ ∀ u, s.pendingTask = some u → (s.tasks u).state ≠ .sleeping := by
    refine fun b => ⟨fun t => ⟨Iff.rfl, rfl, rfl⟩, fun u hu => ?_⟩
    rw [hpending] at hu
    cases hu
  split_ifs at hrun
  · cases hrun
    exact ⟨fun t => SameSleep.refl t s, (hstays false).2⟩
  · cases hnext : schedulerGetNextTask s with
    | none =>
        simp only [hnext] at hrun
        cases hrun
        exact hstays false
    | some next =>
        have hrsp : ∀ t, SameSleep t s (nextInterruptRsp trampoline s next).2 := by
          rw [nextInterruptRsp_eq]
          exact fun t => ⟨Iff.rfl, rfl, rfl⟩
        simp only [hnext] at hrun
        split_ifs at hrun
        · cases hrun
          exact hstays false
        · cases hrun
          refine ⟨fun t => ⟨(hrsp t).asleep, (hrsp t).wakeTick, (hrsp t).ticks⟩, ?_⟩
          intro u hu
          rw [nextInterruptRsp_eq] at hu
          rw [hpending] at hu
          cases hu
        · obtain ⟨s₁, hrequeue, heq⟩ := Option.map_eq_some_iff.mp hrun
          cases heq
          have hpopped : ∀ t, SameSleep t s
              (schedulerReadyQueuePop (nextInterruptRsp trampoline s next).2) := fun t =>
            (hrsp t).trans schedulerReadyQueuePop_sameSleep
          have hrequeued : ∀ t, SameSleep t s s₁ := by
            intro t
            refine (hpopped t).trans ?_
            unfold preemptRequeue at hrequeue
            split at hrequeue
            · cases hrequeue
              exact SameSleep.refl t _
            · split_ifs at hrequeue with hrunning
              · exact (setState_sameSleep (by rw [hrunning.2]; simp) (by simp)).trans
                  ((readyPush_cases hrequeue).1 t)
              · cases hrequeue
                exact SameSleep.refl t _
          refine ⟨fun t => ⟨(hrequeued t).asleep, (hrequeued t).wakeTick,
            (hrequeued t).ticks⟩, ?_⟩
          intro u hu
          obtain rfl : next = u := Option.some.inj hu
          exact ((hrequeued next).asleep.not.mpr (h.next hnext) :)

theorem schedulerCommitPendingTask_sameSleep
    (h : ∀ u, s.pendingTask = some u → (s.tasks u).state ≠ .sleeping) :
    SameSleep t s (schedulerCommitPendingTask s) := by
  cases hpending : s.pendingTask with
  | none =>
      unfold schedulerCommitPendingTask
      rw [hpending]
      exact SameSleep.refl t s
  | some u =>
      have hrunning : SameSleep t s (setState s u .running) :=
        setState_sameSleep (h u hpending) (by simp)
      rw [schedulerCommitPendingTask_eq hpending]
      by_cases hidle : some u = s.idle
      · rw [if_pos hidle]
        exact .of_task rfl rfl
      · rw [if_neg hidle]
        exact ⟨hrunning.asleep, hrunning.wakeTick, rfl⟩

theorem isrExit_sameSleep (h : NextAwake s) (hpending : s.pendingTask = none)
    (hrun : isrExit trampoline s rsp = some (resume, s')) : SameSleep t s s' := by
  obtain ⟨⟨rsp', s₁⟩, hget, hrest⟩ := Option.bind_eq_some_iff.mp hrun
  have hsaved : ∀ t, SameSleep t s (schedulerSaveInterruptContext s rsp) := fun t =>
    schedulerSaveInterruptContext_sameSleep
  have hshape : SameShape [] s (schedulerSaveInterruptContext s rsp) :=
    schedulerSaveInterruptContext_sameShape
  have hpending' : (schedulerSaveInterruptContext s rsp).pendingTask = none := by
    unfold schedulerSaveInterruptContext
    split
    · exact hpending
    · split_ifs <;> exact hpending
  obtain ⟨hs₁, hnext⟩ := schedulerGetNextInterruptRsp_sameSleep
    (h.congr hsaved hshape.readyQueue hshape.idle) hpending' hget
  have hs₁' := (hsaved t).trans (hs₁ t)
  dsimp only at hrest
  split_ifs at hrest
  · cases hrest
    exact hs₁'
  · have hcommit := hs₁'.trans (schedulerCommitPendingTask_sameSleep hnext)
    split at hrest
    · cases hrest
      exact hcommit
    · cases hrest
      exact hcommit

-- ============================================================ the machine

section Machine

variable {μ : Type} {wait : μ → Option TaskPtr} {q : QueueId μ → List TaskPtr}
  {out dead added : List TaskPtr}

/-- The head is in the queue. -/
theorem SchedInv.mem_of_head (h : SchedInv s wait q out dead added)
    (hready : s.readyQueue = some u) : u ∈ q .ready := by
  have hlinked : Linked (links s) s.readyQueue (q .ready) := h.queues.linked .ready
  cases hq : q .ready with
  | nil =>
      rw [hq] at hlinked
      rw [show s.readyQueue = none from hlinked] at hready
      cases hready
  | cons v l =>
      rw [hq] at hlinked
      obtain rfl : v = u := Option.some.inj (hlinked.1.symm.trans hready)
      exact List.mem_cons_self

/-- No ready task sleeps. -/
theorem SchedInv.nextAwake (h : SchedInv s wait q out dead added) : NextAwake s := by
  intro u hu
  cases hu with
  | inl hready =>
      rw [(h.queued .ready u (h.mem_of_head hready)).2.2]
      simp [queueState]
  | inr hidle =>
      obtain ⟨i, hi, -, hstate⟩ := h.idle
      obtain rfl : i = u := Option.some.inj (hi.symm.trans hidle)
      rw [hstate]
      simp

/-- Nor is the current task asleep. -/
theorem Settled.current_awake (h : Settled s wait q dead added) (hcur : s.currentTask = some u) :
    (s.tasks u).state ≠ .sleeping := by
  by_cases hidle : some u = s.idle
  · exact h.inv.nextAwake u (.inr hidle.symm)
  · rw [(h.current hcur hidle).2]
    simp

end Machine

variable {y y' : SchedSys} {q : QueueId Empty → List TaskPtr} {dead : List TaskPtr}

/-- No call but the timer wakes a sleeper, and the time is the timer's. -/
theorem Stable.step_sameSleep (h : Stable y q dead) {op : SchedOp} (hop : op.Allowed y)
    (hstep : sysStep trampoline y op = some y') (hnot : op.isTimer = false) :
    y'.sched.systemTicks = y.sched.systemTicks
      ∧ ∀ t ∈ q .sleep, SameSleep t y.sched y'.sched := by
  obtain ⟨s', hs', hy'⟩ := Option.map_eq_some_iff.mp hstep
  have hsched : y'.sched = s' := by
    rw [← hy']
    cases op <;> rfl
  rw [hsched]
  have hinv := h.settled.inv
  have hnext := hinv.nextAwake
  have hawake : ∀ u, y.sched.currentTask = some u → (y.sched.tasks u).state ≠ .sleeping :=
    fun u hu => h.settled.current_awake hu
  -- most calls do the same to all tasks
  have hall : (∀ t, SameSleep t y.sched s') →
      s'.systemTicks = y.sched.systemTicks ∧ ∀ t ∈ q .sleep, SameSleep t y.sched s' :=
    fun hsame => ⟨(hsame 0).ticks, fun t _ => hsame t⟩
  cases op with
  | createTask id entry stack process =>
      cases hs'
      refine ⟨rfl, fun t ht => .of_task ?_ rfl⟩
      exact taskCreate_old (Nat.ne_of_lt (hinv.added_lt t (hinv.queued .sleep t ht).1).1)
  | addTask u =>
      obtain ⟨hlt, hadd, hidle⟩ := hop
      have hfresh : (y.sched.tasks u).state ≠ .sleeping := by
        rw [hinv.fresh u hlt hadd hidle]
        simp
      exact hall fun t => (setState_sameSleep hfresh (by simp)).trans ((readyPush_cases hs').1 t)
  | yield regs =>
      obtain ⟨⟨resume, s₁⟩, hcall, rfl⟩ := Option.map_eq_some_iff.mp hs'
      exact hall fun t => schedulerYield_sameSleep hnext hcall
  | blockCurrent regs =>
      obtain ⟨⟨resume, s₁⟩, hcall, rfl⟩ := Option.map_eq_some_iff.mp hs'
      exact hall fun t => schedulerBlockCurrentLocked_sameSleep hnext hawake hcall
  | unblock u => exact hall fun t => schedulerUnblock_sameSleep hnext hs'
  | sleep n regs =>
      obtain ⟨⟨resume, s₁⟩, hcall, rfl⟩ := Option.map_eq_some_iff.mp hs'
      cases hcur : y.sched.currentTask with
      | none =>
          simp only [schedulerSleep, hcur] at hcall
          cases hcall
          exact hall fun t => SameSleep.refl t y.sched
      | some u =>
          by_cases hidle : some u = y.sched.idle
          · simp only [schedulerSleep, hcur, if_pos hidle] at hcall
            cases hcall
            exact hall fun t => SameSleep.refl t y.sched
          · have hsleep : ∀ t, SameSleep t _ s₁ := fun t =>
              schedulerSleep_sameSleep hnext hcur hidle
                (fun hready => h.settled.not_ready hcur hidle (hinv.mem_of_head hready)) hcall
            refine ⟨(hsleep u).ticks, fun t ht => ?_⟩
            have hne : t ≠ u := by
              rintro rfl
              exact hawake t hcur (hinv.queued .sleep t ht).2.2
            have hother : SameSleep t y.sched (setTask y.sched u { y.sched.tasks u with
                wakeTick := (y.sched.systemTicks + n) % 2 ^ 64, state := .sleeping }) :=
              .of_task (by simp [hne]) rfl
            exact hother.trans (hsleep t)
  | exit regs =>
      obtain ⟨⟨resume, s₁⟩, hcall, rfl⟩ := Option.map_eq_some_iff.mp hs'
      exact hall fun t => taskExit_sameSleep hnext hawake hcall
  | timer rsp => cases hnot

/-- The timer wakes the sleepers that are due at the new tick, and no
others. -/
theorem Stable.timer_sleep (h : Stable y q dead)
    (hstep : sysStep trampoline y (.timer rsp) = some y') :
    y'.sched.systemTicks = (y.sched.systemTicks + 1) % 2 ^ 64
      ∧ ∀ t ∈ q .sleep,
        (y'.sched.tasks t).wakeTick = (y.sched.tasks t).wakeTick
          ∧ ((y'.sched.tasks t).state = .sleeping
            ↔ ¬ (y.sched.tasks t).wakeTick ≤ (y.sched.systemTicks + 1) % 2 ^ 64) := by
  obtain ⟨s', hs', rfl⟩ := Option.map_eq_some_iff.mp hstep
  obtain ⟨⟨resume, s₁⟩, hcall, rfl⟩ := Option.map_eq_some_iff.mp hs'
  obtain ⟨s₂, htick, hexit⟩ := Option.bind_eq_some_iff.mp hcall
  have hticked : Settled (tickSystem y.sched) noWait q dead y.added :=
    h.settled.congr ⟨rfl, fun _ _ => rfl, rfl, rfl, rfl, rfl, rfl⟩ rfl
  obtain ⟨s₃, htick', hset, hwoken⟩ := hticked.tick
  obtain rfl : s₂ = s₃ := Option.some.inj (htick.symm.trans htick')
  have hset' : Settled (schedulerPreempt s₂) noWait _ dead y.added :=
    hset.congr schedulerPreempt_sameShape schedulerPreempt_current.1
  have hpending : (schedulerPreempt s₂).pendingTask = none := by
    rw [schedulerPreempt_current.2, hwoken.kept.sameRequest.pendingTask]
    exact h.pending
  have hpre : ∀ t, SameSleep t s₂ (schedulerPreempt s₂) := by
    intro t
    refine .of_task (congrFun (schedulerPreempt_space s₂).2.1 t) ?_
    unfold schedulerPreempt
    split_ifs <;> rfl
  have hsame : ∀ t, SameSleep t s₂ s₁ := fun t =>
    (hpre t).trans (isrExit_sameSleep hset'.inv.nextAwake hpending hexit)
  have hticks : s₂.systemTicks = (y.sched.systemTicks + 1) % 2 ^ 64 :=
    (congrArg Sched.systemTicks hwoken.kept :)
  refine ⟨(hsame 0).ticks.trans hticks, fun t ht => ?_⟩
  have hwake : (s₂.tasks t).wakeTick = (y.sched.tasks t).wakeTick :=
    (congrArg (fun c : Sched => (c.tasks t).wakeTick) hwoken.kept :)
  refine ⟨(hsame t).wakeTick.trans hwake, (hsame t).asleep.trans ?_⟩
  by_cases hdue : (y.sched.tasks t).wakeTick ≤ (y.sched.systemTicks + 1) % 2 ^ 64
  · have hready : (s₂.tasks t).state = .ready :=
      (congrArg Task.state (hwoken.due t ht (decide_eq_true hdue)) :)
    rw [hready]
    exact iff_of_false (by simp) (not_not.mpr hdue)
  · have hsame := hwoken.other t (.inr (decide_eq_false hdue))
    have hasleep : (y.sched.tasks t).state = .sleeping := (h.settled.inv.queued .sleep t ht).2.2
    rw [hsame.state]
    exact iff_of_true hasleep hdue

/-- The members of the sleep queue. -/
def sleepers (s : Sched) : List TaskPtr := membersFrom (links s) s.taskCount s.sleepQueue

/-- The sleepers are in the sleep queue. -/
theorem Stable.mem_sleepers (h : Stable y q dead) : t ∈ sleepers y.sched ↔ t ∈ q .sleep := by
  have hmembers : sleepers y.sched = q .sleep :=
    (h.settled.inv.queues.linked .sleep).membersFrom (h.settled.inv.length_le .sleep)
  rw [hmembers]

/-- A task that has been added is in the sleep queue when its state says
so. -/
theorem Stable.mem_sleep_iff (h : Stable y q dead) (hadd : t ∈ y.added) :
    t ∈ q .sleep ↔ (y.sched.tasks t).state = .sleeping := by
  constructor
  · intro hmem
    exact (h.settled.inv.queued .sleep t hmem).2.2
  · intro hstate
    rcases h.settled.inv.placed t hadd with hout | ⟨k, hk⟩ | hdead
    · rw [h.settled.state t hout] at hstate
      cases hstate
    · have hqueue := (h.settled.inv.queued k t hk).2.2
      rw [hstate] at hqueue
      cases k with
      | sleep => exact hk
      | ready | blocked => cases hqueue
      | wait m => exact m.elim
    · rw [(h.settled.inv.dead_added t hdead).2.2] at hstate
      cases hstate

-- ================================================================== runs

/-- The timer interrupts of a run. -/
def timers (ops : List SchedOp) : Nat := ops.countP SchedOp.isTimer

/-- From `y` on, until a first timer interrupt has made the tick `wake` or
more, task `t` is in the sleep queue, and after that interrupt it is not;
in all runs in which `system_ticks` does not wrap around. -/
def SleepsUntil (trampoline : Nat) (t : TaskPtr) (wake : Nat) (y : SchedSys) : Prop :=
  ∀ ops y', AllowedRun (sysStep trampoline) (fun y op => op.Allowed y) y ops →
    runOps (sysStep trampoline) y ops = some y' →
    y.sched.systemTicks + timers ops < 2 ^ 64 →
    timers ops = 0 ∨ y'.sched.systemTicks < wake →
      t ∈ sleepers y'.sched ∧
        ∀ rsp y'', sysStep trampoline y' (.timer rsp) = some y'' →
          y'.sched.systemTicks + 1 < 2 ^ 64 → wake ≤ y''.sched.systemTicks →
          t ∉ sleepers y''.sched

/-- Task `t` is asleep until `wake`. -/
def Dozes (t : TaskPtr) (wake : Nat) (y : SchedSys) : Prop :=
  ∃ q dead, Stable y q dead ∧ t ∈ q .sleep ∧ (y.sched.tasks t).wakeTick = wake

variable {wake : Nat} {op : SchedOp}

/-- A call wakes nobody and does not count ticks. -/
theorem Dozes.call (h : Dozes t wake y) (hop : op.Allowed y)
    (hstep : sysStep trampoline y op = some y') (hnot : op.isTimer = false) :
    Dozes t wake y' ∧ y'.sched.systemTicks = y.sched.systemTicks := by
  obtain ⟨q, dead, hstable, hmem, hwake⟩ := h
  obtain ⟨y₁, q', dead', hstep', hstable', -⟩ := hstable.step_moved trampoline hop
  obtain rfl : y' = y₁ := Option.some.inj (hstep.symm.trans hstep')
  obtain ⟨hticks, hsame⟩ := hstable.step_sameSleep hop hstep hnot
  obtain ⟨hadd, -, hstate⟩ := hstable.settled.inv.queued .sleep t hmem
  refine ⟨⟨q', dead', hstable', ?_, (hsame t hmem).wakeTick.trans hwake⟩, hticks⟩
  exact (hstable'.mem_sleep_iff (sysStep_added hstep hadd)).mpr ((hsame t hmem).asleep.mpr hstate)

/-- The timer wakes the task when its tick has come, and not before. -/
theorem Dozes.timer (h : Dozes t wake y) (hstep : sysStep trampoline y (.timer rsp) = some y') :
    y'.sched.systemTicks = (y.sched.systemTicks + 1) % 2 ^ 64
      ∧ ((y.sched.systemTicks + 1) % 2 ^ 64 < wake → Dozes t wake y')
      ∧ (wake ≤ (y.sched.systemTicks + 1) % 2 ^ 64 → t ∉ sleepers y'.sched) := by
  obtain ⟨q, dead, hstable, hmem, hwake⟩ := h
  have hop : SchedOp.Allowed y (.timer rsp) := trivial
  obtain ⟨y₁, q', dead', hstep', hstable', -⟩ := hstable.step_moved trampoline hop
  obtain rfl : y' = y₁ := Option.some.inj (hstep.symm.trans hstep')
  obtain ⟨hticks, htimer⟩ := hstable.timer_sleep hstep
  obtain ⟨hkept, hstate⟩ := htimer t hmem
  have hadd := sysStep_added hstep (hstable.settled.inv.queued .sleep t hmem).1
  rw [hwake] at hkept hstate
  refine ⟨hticks, fun hlt => ⟨q', dead', hstable', ?_, hkept⟩, fun hle => ?_⟩
  · exact (hstable'.mem_sleep_iff hadd).mpr (hstate.mpr (Nat.not_le.mpr hlt))
  · rw [hstable'.mem_sleepers, hstable'.mem_sleep_iff hadd, hstate]
    exact not_not.mpr hle

theorem timers_cons (op : SchedOp) (ops : List SchedOp) :
    timers (op :: ops) = op.isTimer.toNat + timers ops := by
  unfold timers
  cases htimer : op.isTimer with
  | false => simp [htimer]
  | true => simp [htimer, Nat.add_comm]

theorem isTimer_cases (op : SchedOp) : (∃ rsp, op = .timer rsp) ∨ op.isTimer = false := by
  cases op with
  | timer rsp => exact .inl ⟨rsp, rfl⟩
  | createTask | addTask | yield | blockCurrent | unblock | sleep | exit => exact .inr rfl

/-- The tick counts the timer interrupts. -/
theorem Stable.step_ticks (h : Stable y q dead) (hop : op.Allowed y)
    (hstep : sysStep trampoline y op = some y')
    (hroom : y.sched.systemTicks + op.isTimer.toNat < 2 ^ 64) :
    y'.sched.systemTicks = y.sched.systemTicks + op.isTimer.toNat := by
  rcases isTimer_cases op with ⟨rsp, rfl⟩ | hnot
  · rw [(h.timer_sleep hstep).1]
    exact Nat.mod_eq_of_lt hroom
  · rw [(h.step_sameSleep hop hstep hnot).1, hnot]
    rfl

/-- Before a timer interrupt makes the tick `wake`, the task dozes on. -/
theorem Dozes.step (h : Dozes t wake y) (hop : op.Allowed y)
    (hstep : sysStep trampoline y op = some y')
    (hroom : y.sched.systemTicks + op.isTimer.toNat < 2 ^ 64)
    (hearly : op.isTimer.toNat = 0 ∨ y.sched.systemTicks + op.isTimer.toNat < wake) :
    Dozes t wake y' := by
  rcases isTimer_cases op with ⟨rsp, rfl⟩ | hnot
  · obtain ⟨-, hstays, -⟩ := h.timer hstep
    apply hstays
    have hlt := hearly.resolve_left Nat.one_ne_zero
    rwa [← Nat.mod_eq_of_lt hroom] at hlt
  · exact (h.call hop hstep hnot).1

/-- The ticks count the timer interrupts. -/
theorem Stable.run_ticks {ops : List SchedOp} (h : Stable y q dead)
    (hops : AllowedRun (sysStep trampoline) (fun y op => op.Allowed y) y ops)
    (hrun : runOps (sysStep trampoline) y ops = some y')
    (hroom : y.sched.systemTicks + timers ops < 2 ^ 64) :
    y'.sched.systemTicks = y.sched.systemTicks + timers ops := by
  induction ops generalizing y q dead with
  | nil =>
      obtain rfl : y = y' := Option.some.inj hrun
      rfl
  | cons op ops ih =>
      obtain ⟨hop, hrest⟩ := hops
      obtain ⟨y₁, q₁, dead₁, hstep, hstable, -⟩ := h.step_moved trampoline hop
      rw [runOps, hstep] at hrun
      rw [hstep] at hrest
      rw [timers_cons] at hroom ⊢
      have hticks := h.step_ticks hop hstep (by omega)
      rw [ih hstable hrest hrun (by omega), hticks, Nat.add_assoc]

/-- The task sleeps as long as its tick has not come. -/
theorem Dozes.run {ops : List SchedOp} (h : Dozes t wake y)
    (hops : AllowedRun (sysStep trampoline) (fun y op => op.Allowed y) y ops)
    (hrun : runOps (sysStep trampoline) y ops = some y')
    (hroom : y.sched.systemTicks + timers ops < 2 ^ 64)
    (hearly : timers ops = 0 ∨ y.sched.systemTicks + timers ops < wake) : Dozes t wake y' := by
  induction ops generalizing y with
  | nil =>
      obtain rfl : y = y' := Option.some.inj hrun
      exact h
  | cons op ops ih =>
      obtain ⟨hop, hrest⟩ := hops
      obtain ⟨q, dead, hstable, -⟩ := id h
      obtain ⟨y₁, q₁, dead₁, hstep, -⟩ := hstable.step_moved trampoline hop
      rw [runOps, hstep] at hrun
      rw [hstep] at hrest
      rw [timers_cons] at hroom hearly
      have hticks := hstable.step_ticks hop hstep (by omega)
      exact ih (h.step hop hstep (by omega) (by omega)) hrest hrun (by omega) (by omega)

/-- A task that dozes until `wake` is woken by the timer interrupt that
makes the tick `wake`, or by the first one. -/
theorem Dozes.sleepsUntil (h : Dozes t wake y) (trampoline : Nat) :
    SleepsUntil trampoline t wake y := by
  intro ops y' hops hrun hroom hearly
  obtain ⟨q, dead, hstable, -⟩ := id h
  have hticks := hstable.run_ticks hops hrun hroom
  rw [hticks] at hearly
  have hdozes := h.run hops hrun hroom hearly
  obtain ⟨q', dead', hstable', hmem, -⟩ := id hdozes
  refine ⟨hstable'.mem_sleepers.mpr hmem, fun rsp y'' hstep hroom' hwake => ?_⟩
  obtain ⟨hticks', -, hwoken⟩ := hdozes.timer hstep
  exact hwoken (hticks' ▸ hwake)

/-- After `scheduler_sleep` the task dozes until the sum in 64 bits. -/
theorem Stable.sleep_dozes (h : Stable y q dead) (hcur : y.sched.currentTask = some t)
    (hidle : some t ≠ y.sched.idle) (n : Nat)
    (hstep : sysStep trampoline y (.sleep n regs) = some y') :
    Dozes t ((y.sched.systemTicks + n) % 2 ^ 64) y'
      ∧ y'.sched.systemTicks = y.sched.systemTicks := by
  have hop : SchedOp.Allowed y (.sleep n regs) := trivial
  obtain ⟨y₁, q', dead', hstep', hstable', -⟩ := h.step_moved trampoline hop
  obtain rfl : y' = y₁ := Option.some.inj (hstep.symm.trans hstep')
  have hadd := (h.settled.current hcur hidle).1.out_added t List.mem_cons_self
  obtain ⟨s', hs', rfl⟩ := Option.map_eq_some_iff.mp hstep
  obtain ⟨⟨resume, s₁⟩, hcall, rfl⟩ := Option.map_eq_some_iff.mp hs'
  have hsame : SameSleep t _ s₁ := schedulerSleep_sameSleep h.settled.inv.nextAwake hcur hidle
    (fun hready => h.settled.not_ready hcur hidle (h.settled.inv.mem_of_head hready)) hcall
  refine ⟨⟨q', dead', hstable', ?_, ?_⟩, hsame.ticks⟩
  · exact (hstable'.mem_sleep_iff hadd).mpr (hsame.asleep.mpr (by simp))
  · rw [hsame.wakeTick]
    simp

/-- Between timer interrupts nobody is woken, and there is none before a
wrap. -/
theorem Dozes.sleepsUntil_last (h : Dozes t wake y) (trampoline wake' : Nat)
    (hlast : y.sched.systemTicks + 1 = 2 ^ 64) : SleepsUntil trampoline t wake' y := by
  intro ops y' hops hrun hroom _
  obtain ⟨q, dead, hstable, -⟩ := id h
  have hticks := hstable.run_ticks hops hrun hroom
  have hdozes := h.run hops hrun hroom (.inl (by omega))
  obtain ⟨q', dead', hstable', hmem, -⟩ := hdozes
  exact ⟨hstable'.mem_sleepers.mpr hmem, fun rsp y'' _ hroom' _ => by omega⟩

/-- A task that dozes until a tick that has passed is woken by the next
timer interrupt. -/
theorem Dozes.not_sleepsUntil (h : Dozes t wake y) (trampoline : Nat) {wake' : Nat}
    (hroom : y.sched.systemTicks + 1 < 2 ^ 64) (hpast : wake ≤ y.sched.systemTicks + 1)
    (hfuture : y.sched.systemTicks + 1 < wake') : ¬ SleepsUntil trampoline t wake' y := by
  intro hsleeps
  obtain ⟨q, dead, hstable, -⟩ := id h
  have htimer : SchedOp.Allowed y (.timer 0) := trivial
  obtain ⟨y', q', dead', hstep, -⟩ := hstable.step_moved trampoline htimer
  obtain ⟨hticks, -, hwoken⟩ := h.timer hstep
  rw [Nat.mod_eq_of_lt hroom] at hticks hwoken
  have hrun : runOps (sysStep trampoline) y [.timer 0] = some y' := by
    simp only [runOps, hstep]
  have hops : AllowedRun (sysStep trampoline) (fun y op => op.Allowed y) y [.timer 0] := by
    refine ⟨trivial, ?_⟩
    rw [hstep]
    trivial
  exact hwoken hpast (hsleeps [.timer 0] y' hops hrun hroom (.inr (hticks ▸ hfuture))).1

/-- The tick stays within 64 bits. -/
theorem Stable.step_ticks_lt (h : Stable y q dead) (hop : op.Allowed y)
    (hstep : sysStep trampoline y op = some y') (hlt : y.sched.systemTicks < 2 ^ 64) :
    (∃ q' dead', Stable y' q' dead') ∧ y'.sched.systemTicks < 2 ^ 64 := by
  obtain ⟨y₁, q', dead', hstep', hstable', -⟩ := h.step_moved trampoline hop
  obtain rfl : y' = y₁ := Option.some.inj (hstep.symm.trans hstep')
  refine ⟨⟨q', dead', hstable'⟩, ?_⟩
  rcases isTimer_cases op with ⟨rsp, rfl⟩ | hnot
  · rw [(h.timer_sleep hstep).1]
    exact Nat.mod_lt _ (Nat.two_pow_pos 64)
  · rw [(h.step_sameSleep hop hstep hnot).1]
    exact hlt

/-- The call keeps its promise exactly when its sum fits into 64 bits, or
when no timer interrupt can come any more without a wrap. -/
theorem Stable.sleepsUntil_iff (h : Stable y q dead) (hlt : y.sched.systemTicks < 2 ^ 64)
    (hcur : y.sched.currentTask = some t) (hidle : some t ≠ y.sched.idle) {n : Nat}
    (hn : n < 2 ^ 64) (hstep : sysStep trampoline y (.sleep n regs) = some y') :
    SleepsUntil trampoline t (y.sched.systemTicks + n) y'
      ↔ y.sched.systemTicks + n < 2 ^ 64 ∨ y.sched.systemTicks + 1 = 2 ^ 64 := by
  obtain ⟨hdozes, hsame⟩ := h.sleep_dozes hcur hidle n hstep
  constructor
  · intro hsleeps
    by_contra hnot
    rw [not_or] at hnot
    have hwrap : (y.sched.systemTicks + n) % 2 ^ 64 = y.sched.systemTicks + n - 2 ^ 64 := by
      rw [Nat.mod_eq_sub_mod (by omega), Nat.mod_eq_of_lt (by omega)]
    rw [hwrap] at hdozes
    exact hdozes.not_sleepsUntil trampoline (by omega) (by omega) (by omega) hsleeps
  · intro hfits
    cases hfits with
    | inl hfits =>
        rw [Nat.mod_eq_of_lt hfits] at hdozes
        exact hdozes.sleepsUntil trampoline
    | inr hlast => exact hdozes.sleepsUntil_last trampoline _ (hsame ▸ hlast)

/-- In every state the machine reaches and for every number of ticks: the
current task sleeps until the tick of the call plus that number exactly
when the sum fits into 64 bits, or no timer interrupt can come any more
without a wrap. -/
theorem scheduler_sleep_until_iff (trampoline id entry stack : Nat) (boot : Sched)
    (hboot : boot.taskCount = 0) (hticks : boot.systemTicks < 2 ^ 64) (ops : List SchedOp)
    (hops : AllowedRun (sysStep trampoline) (fun y op => op.Allowed y)
      (sysInit boot id entry stack) ops)
    (hrun : runOps (sysStep trampoline) (sysInit boot id entry stack) ops = some y)
    (hcur : y.sched.currentTask = some t) (hidle : some t ≠ y.sched.idle)
    (n : Nat) (hn : n < 2 ^ 64) (regs : CpuContext) :
    ∃ y', sysStep trampoline y (.sleep n regs) = some y'
      ∧ (SleepsUntil trampoline t (y.sched.systemTicks + n) y'
        ↔ y.sched.systemTicks + n < 2 ^ 64 ∨ y.sched.systemTicks + 1 = 2 ^ 64) := by
  obtain ⟨⟨q, dead, hstable⟩, hlt⟩ := run_preserves
    (P := fun y => (∃ q dead, Stable y q dead) ∧ y.sched.systemTicks < 2 ^ 64)
    (fun y op y' hy hop hstep => by
      obtain ⟨⟨q, dead, hstable⟩, hlt⟩ := hy
      exact hstable.step_ticks_lt hop hstep hlt)
    ⟨⟨_, _, stable_init hboot id entry stack⟩, hticks⟩ hops hrun
  have hop : SchedOp.Allowed y (.sleep n regs) := trivial
  obtain ⟨y', q', dead', hstep, -⟩ := hstable.step_moved trampoline hop
  exact ⟨y', hstep, hstable.sleepsUntil_iff hlt hcur hidle hn hstep⟩

/-- One task runs, and it is tick 1. -/
def oneTaskTicked : List SchedOp :=
  [.createTask 2 0x100 0x8000 none, .addTask 1, .yield { rsp := 0x500 }, .timer 0x9000]

/-- Three ticks are slept to their end. -/
theorem scheduler_sleep_until_iff_three :
    ∃ y y', runOps (sysStep 0x42) (sysInit bootSched 1 0x50 0x4000) oneTaskTicked = some y
      ∧ sysStep 0x42 y (.sleep 3 {}) = some y' ∧ SleepsUntil 0x42 1 4 y' := by
  have hfinal : (runOps (sysStep 0x42) (sysInit bootSched 1 0x50 0x4000) oneTaskTicked).map
      (fun y => (y.sched.currentTask, y.sched.idle, y.sched.systemTicks))
      = some (some 1, some 0, 1) := by decide
  obtain ⟨y, hrun, hvalues⟩ := Option.map_eq_some_iff.mp hfinal
  injection hvalues with hcur hvalues
  injection hvalues with hidle hticks
  obtain ⟨y', hstep, hiff⟩ := scheduler_sleep_until_iff 0x42 1 0x50 0x4000 bootSched rfl
    (by decide) oneTaskTicked (by decide) hrun hcur (by rw [hidle]; decide) 3 (by decide) {}
  rw [hticks] at hiff
  exact ⟨y, y', hrun, hstep, hiff.mpr (.inl (by decide))⟩

/-- A sleep of 2^64 - 1 ticks at tick 1 is over at tick 2. -/
theorem scheduler_sleep_ends_early :
    ∃ y y', runOps (sysStep 0x42) (sysInit bootSched 1 0x50 0x4000) oneTaskTicked = some y
      ∧ y.sched.currentTask = some 1
      ∧ sysStep 0x42 y (.sleep (2 ^ 64 - 1) {}) = some y'
      ∧ ¬ SleepsUntil 0x42 1 (y.sched.systemTicks + (2 ^ 64 - 1)) y' := by
  have hfinal : (runOps (sysStep 0x42) (sysInit bootSched 1 0x50 0x4000) oneTaskTicked).map
      (fun y => (y.sched.currentTask, y.sched.systemTicks)) = some (some 1, 1) := by decide
  obtain ⟨y, hrun, hvalues⟩ := Option.map_eq_some_iff.mp hfinal
  injection hvalues with hcur hticks
  have hslept : ((runOps (sysStep 0x42) (sysInit bootSched 1 0x50 0x4000) oneTaskTicked).bind
      fun y => sysStep 0x42 y (.sleep (2 ^ 64 - 1) {})).bind (fun y' =>
        (sysStep 0x42 y' (.timer 0)).map fun y'' =>
          (y'.sched.systemTicks, y''.sched.systemTicks, sleepers y''.sched))
      = some (1, 2, []) := by decide
  rw [hrun, Option.bind_some] at hslept
  obtain ⟨y', hstep, hslept⟩ := Option.bind_eq_some_iff.mp hslept
  obtain ⟨y'', htimer, hvalues⟩ := Option.map_eq_some_iff.mp hslept
  injection hvalues with hticks' hvalues
  injection hvalues with hticks'' hsleepers
  refine ⟨y, y', hrun, hcur, hstep, fun hsleeps => ?_⟩
  have hops : AllowedRun (sysStep 0x42) (fun y op => op.Allowed y) y' [.timer 0] := by
    refine ⟨trivial, ?_⟩
    rw [htimer]
    trivial
  have hmem := (hsleeps [.timer 0] y'' hops (by simp only [runOps, htimer])
    (by rw [hticks']; decide) (.inr (by rw [hticks, hticks'']; decide))).1
  rw [hsleepers] at hmem
  exact List.not_mem_nil hmem

end ZenithOS.Scheduler
