/-
Where the scheduler resumes a task from.

`interrupt_rsp` is written by `scheduler_save_interrupt_context` and
otherwise only reset. So a frame that a task is resumed from is one that
an interrupt has saved (`NoNewFrame`, `Resumes`), and has the flag that
interrupt found (`FramesSet`).
-/
import ZenithOS.Scheduler.InterruptFlag
import ZenithOS.Scheduler.Proofs.Switch

namespace ZenithOS.Scheduler

open Lib Mm Proc

variable {s s₁ s' : Sched} {t : TaskPtr} {regs : CpuContext} {resume : Resume}
  {trampoline : Nat}

-- ================================================================ frames

/-- No task has got another frame, and there are no other tasks. -/
structure NoNewFrame (s s' : Sched) : Prop where
  taskCount : s'.taskCount = s.taskCount
  rsp : ∀ t, (s'.tasks t).interruptRsp = (s.tasks t).interruptRsp
    ∨ (s'.tasks t).interruptRsp = null

theorem NoNewFrame.refl (s : Sched) : NoNewFrame s s := ⟨rfl, fun _ => .inl rfl⟩

/-- No frame twice is no frame. -/
theorem NoNewFrame.trans (h : NoNewFrame s s₁) (h' : NoNewFrame s₁ s') : NoNewFrame s s' := by
  refine ⟨h'.taskCount.trans h.taskCount, fun t => ?_⟩
  rcases h'.rsp t with hsame | hnull
  · rw [hsame]
    exact h.rsp t
  · exact .inr hnull

theorem NoNewFrame.of_tasks (hcount : s'.taskCount = s.taskCount) (h : s'.tasks = s.tasks) :
    NoNewFrame s s' :=
  ⟨hcount, fun t => .inl (by rw [h])⟩

theorem setTask_noNewFrame {task : Task}
    (htask : task.interruptRsp = (s.tasks t).interruptRsp ∨ task.interruptRsp = null) :
    NoNewFrame s (setTask s t task) := by
  refine ⟨rfl, fun u => ?_⟩
  by_cases hut : u = t
  · subst hut
    simpa using htask
  · exact .inl (by simp [Function.update_of_ne hut])

theorem taskQueuePush_noNewFrame {head head' : Option TaskPtr}
    (h : taskQueuePush s head t = some (s', head')) : NoNewFrame s s' := by
  obtain ⟨next, rfl⟩ := taskQueuePush_links h
  exact ⟨rfl, fun _ => .inl rfl⟩

theorem taskQueueRemove_noNewFrame {head head' : Option TaskPtr}
    (h : taskQueueRemove s head t = some (s', head')) : NoNewFrame s s' := by
  obtain ⟨next, rfl⟩ := taskQueueRemove_links h
  exact ⟨rfl, fun _ => .inl rfl⟩

theorem readyPush_noNewFrame (h : readyPush s t = some s') : NoNewFrame s s' := by
  obtain ⟨⟨s₁, head⟩, hpush, rfl⟩ := Option.map_eq_some_iff.mp h
  exact (taskQueuePush_noNewFrame hpush).trans (NoNewFrame.of_tasks rfl rfl)

theorem blockedPush_noNewFrame (h : blockedPush s t = some s') : NoNewFrame s s' := by
  obtain ⟨⟨s₁, head⟩, hpush, rfl⟩ := Option.map_eq_some_iff.mp h
  exact (taskQueuePush_noNewFrame hpush).trans (NoNewFrame.of_tasks rfl rfl)

theorem schedulerSleepQueueAdd_noNewFrame (h : schedulerSleepQueueAdd s t = some s') :
    NoNewFrame s s' := by
  obtain ⟨⟨s₁, head⟩, hpush, rfl⟩ := Option.map_eq_some_iff.mp h
  exact (taskQueuePush_noNewFrame hpush).trans (NoNewFrame.of_tasks rfl rfl)

theorem blockedRemove_noNewFrame (h : blockedRemove s t = some s') : NoNewFrame s s' := by
  obtain ⟨⟨s₁, head⟩, hremove, rfl⟩ := Option.map_eq_some_iff.mp h
  exact (taskQueueRemove_noNewFrame hremove).trans (NoNewFrame.of_tasks rfl rfl)

theorem sleepRemove_noNewFrame (h : sleepRemove s t = some s') : NoNewFrame s s' := by
  obtain ⟨⟨s₁, head⟩, hremove, rfl⟩ := Option.map_eq_some_iff.mp h
  exact (taskQueueRemove_noNewFrame hremove).trans (NoNewFrame.of_tasks rfl rfl)

/-- The end of `scheduler_unblock`, of the wake-up and of the requeue. -/
theorem makeReady_noNewFrame
    (h : readyPush (schedulerResetResumeState (setState s t .ready) t) t = some s') :
    NoNewFrame s s' := by
  have hstate : NoNewFrame s (setState s t .ready) := setTask_noNewFrame (.inl rfl)
  have hreset : NoNewFrame (setState s t .ready)
      (schedulerResetResumeState (setState s t .ready) t) := setTask_noNewFrame (.inr rfl)
  exact (hstate.trans hreset).trans (readyPush_noNewFrame h)

theorem schedulerReadyQueuePop_noNewFrame : NoNewFrame s (schedulerReadyQueuePop s) := by
  unfold schedulerReadyQueuePop
  split
  · exact NoNewFrame.refl s
  · have hhead : ∀ head, NoNewFrame s { s with readyQueue := head } :=
      fun _ => NoNewFrame.of_tasks rfl rfl
    exact (hhead _).trans (setTask_noNewFrame (.inl rfl))

theorem schedulerSwitchTo_noNewFrame : NoNewFrame s (schedulerSwitchTo s (some t)).2 := by
  have hspace : SameShape [] s (switchAddressSpace s t) := switchAddressSpace_sameShape
  have hcount := hspace.taskCount
  rw [schedulerSwitchTo_eq]
  by_cases hidle : some t = s.idle
  · exact NoNewFrame.of_tasks hcount (if_pos hidle)
  · have hrun : NoNewFrame s (setState s t .running) := setTask_noNewFrame (.inl rfl)
    exact hrun.trans (NoNewFrame.of_tasks hcount (if_neg hidle))

theorem saveContext_noNewFrame {previous : Option TaskPtr} :
    NoNewFrame s (saveContext s previous regs) := by
  cases previous with
  | none => exact NoNewFrame.of_tasks rfl rfl
  | some t => exact setTask_noNewFrame (.inl rfl)

-- ================================================== who a call resumes

/-- A call goes back to its caller exactly when it does not switch, and
resumes no frame that was not there before. -/
structure Resumes (s : Sched) (resume : Resume) (s' : Sched) : Prop where
  frames : NoNewFrame s s'
  caller : resume = .caller ↔ s'.currentTask = s.currentTask
  saved : ∀ t rsp, resume = .interrupt t rsp →
    s'.currentTask = some t ∧ (s'.tasks t).interruptRsp ≠ null

/-- A first part that does not switch. -/
theorem Resumes.after (h : Resumes s₁ resume s') (hframes : NoNewFrame s s₁)
    (hcur : s₁.currentTask = s.currentTask) : Resumes s resume s' :=
  ⟨hframes.trans h.frames, hcur ▸ h.caller, h.saved⟩

theorem Resumes.refl (s : Sched) : Resumes s .caller s :=
  ⟨NoNewFrame.refl s, iff_of_true rfl rfl, fun _ _ h => by cases h⟩

theorem saveContext_tasks {previous : Option TaskPtr} (t : TaskPtr) :
    ((saveContext s previous regs).tasks t).interruptRsp = (s.tasks t).interruptRsp := by
  cases previous with
  | none => rfl
  | some u =>
      by_cases htu : t = u
      · subst htu
        simp [saveContext]
      · simp [saveContext, Function.update_of_ne htu]

theorem saveContext_current {previous : Option TaskPtr} :
    (saveContext s previous regs).currentTask = s.currentTask := by
  cases previous <;> rfl

/-- `scheduler_schedule` switches to the task it returns. -/
theorem schedulerSchedule_switches {next : TaskPtr}
    (h : schedulerSchedule s = (some next, s')) :
    NoNewFrame s s' ∧ s'.currentTask = some next := by
  unfold schedulerSchedule at h
  cases hnext : schedulerGetNextTask s with
  | none =>
      rw [hnext] at h
      cases h
  | some n =>
      rw [hnext] at h
      have hpopped : NoNewFrame s
          (if some n ≠ s.idle then schedulerReadyQueuePop s else s) := by
        split_ifs
        · exact schedulerReadyQueuePop_noNewFrame
        · exact NoNewFrame.refl s
      dsimp only at h
      generalize (if some n ≠ s.idle then schedulerReadyQueuePop s else s) = s₁ at h hpopped
      have hs' : (schedulerSwitchTo s₁ (some n)).2 = s' := congrArg Prod.snd h
      have hn : n = next := by
        rw [schedulerSwitchTo_eq] at h
        exact Option.some.inj (congrArg Prod.fst h)
      subst hs' hn
      refine ⟨hpopped.trans schedulerSwitchTo_noNewFrame, ?_⟩
      rw [schedulerSwitchTo_eq]

/-- Without a next task nothing changes. -/
theorem schedulerSchedule_none (h : schedulerSchedule s = (none, s')) : s' = s := by
  unfold schedulerSchedule at h
  cases hnext : schedulerGetNextTask s with
  | none =>
      rw [hnext] at h
      exact (Prod.mk.inj h).2.symm
  | some n =>
      rw [hnext] at h
      dsimp only at h
      rw [schedulerSwitchTo_eq] at h
      cases (Prod.mk.inj h).1

/-- A switch resumes the task that it makes current. -/
theorem schedulerDispatch_resumes (h : schedulerDispatch s regs = (resume, s')) :
    Resumes s resume s' := by
  unfold schedulerDispatch at h
  rcases hsched : schedulerSchedule s with ⟨next, s₁⟩
  rw [hsched] at h
  cases next with
  | none =>
      obtain rfl := schedulerSchedule_none hsched
      obtain ⟨rfl, rfl⟩ := Prod.mk.inj h
      exact Resumes.refl _
  | some next =>
      obtain ⟨hframes, hcur⟩ := schedulerSchedule_switches hsched
      dsimp only at h
      by_cases hsame : some next = s.currentTask
      · rw [if_pos hsame] at h
        obtain ⟨rfl, rfl⟩ := Prod.mk.inj h
        exact ⟨hframes, iff_of_true rfl (hcur.trans hsame), fun _ _ h => by cases h⟩
      · rw [if_neg hsame] at h
        have hsaved : NoNewFrame s (saveContext s₁ s.currentTask regs) :=
          hframes.trans saveContext_noNewFrame
        have hleft : (saveContext s₁ s.currentTask regs).currentTask ≠ s.currentTask := by
          rw [saveContext_current, hcur]
          exact hsame
        by_cases hframe : taskResumeUsesInterruptFrame (s₁.tasks next) = true
        · rw [if_pos hframe] at h
          obtain ⟨rfl, rfl⟩ := Prod.mk.inj h
          refine ⟨hsaved, iff_of_false (by intro heq; cases heq) hleft, fun t rsp heq => ?_⟩
          cases heq
          rw [saveContext_tasks, saveContext_current]
          refine ⟨hcur, ?_⟩
          simp only [taskResumeUsesInterruptFrame, Bool.and_eq_true] at hframe
          exact bne_iff_ne.mp hframe.2
        · rw [if_neg hframe] at h
          obtain ⟨rfl, rfl⟩ := Prod.mk.inj h
          exact ⟨hsaved, iff_of_false (by intro heq; cases heq) hleft, fun _ _ h => by cases h⟩

theorem schedulerRequeue_noNewFrame (h : schedulerRequeue s = some s₁) :
    NoNewFrame s s₁ ∧ s₁.currentTask = s.currentTask := by
  rcases schedulerRequeue_cases h with rfl | ⟨t, -, -, hpush⟩
  · exact ⟨NoNewFrame.refl _, rfl⟩
  · have hkept : Kept s s₁ := setState_kept.trans
      (schedulerResetResumeState_kept.trans (readyPush_kept hpush))
    exact ⟨makeReady_noNewFrame hpush, (congrArg Sched.currentTask hkept :)⟩

/-- `scheduler_yield` resumes its caller or the current task. -/
theorem schedulerYield_resumes (h : schedulerYield s regs = some (resume, s')) :
    Resumes s resume s' := by
  obtain ⟨s₁, hrequeue, hdisp⟩ := Option.map_eq_some_iff.mp h
  obtain ⟨hframes, hcur⟩ := schedulerRequeue_noNewFrame hrequeue
  exact (schedulerDispatch_resumes hdisp).after hframes hcur

/-- So does `scheduler_block_current`. -/
theorem schedulerBlockCurrentLocked_resumes
    (h : schedulerBlockCurrentLocked s regs = some (resume, s')) : Resumes s resume s' := by
  rcases schedulerBlockCurrentLocked_cases h with ⟨rfl, rfl⟩ | ⟨t, s₁, -, -, hpush, hyield⟩
  · exact Resumes.refl _
  · have hstate : NoNewFrame s (setState s t .blocked) := setTask_noNewFrame (.inl rfl)
    have hkept : Kept s s₁ := setState_kept.trans (blockedPush_kept hpush)
    exact (schedulerYield_resumes hyield).after (hstate.trans (blockedPush_noNewFrame hpush))
      (congrArg Sched.currentTask hkept :)

/-- So does `scheduler_sleep`. -/
theorem schedulerSleep_resumes {ticks : Nat}
    (h : schedulerSleep s ticks regs = some (resume, s')) : Resumes s resume s' := by
  rcases schedulerSleep_cases h with ⟨rfl, rfl⟩ | ⟨t, s₁, -, -, hpush, hyield⟩
  · exact Resumes.refl _
  · have hasleep : NoNewFrame s (setTask s t { s.tasks t with
        wakeTick := (s.systemTicks + ticks) % 2 ^ 64, state := .sleeping }) :=
      setTask_noNewFrame (.inl rfl)
    exact (schedulerYield_resumes hyield).after
      (hasleep.trans (schedulerSleepQueueAdd_noNewFrame hpush))
      (congrArg Sched.currentTask (schedulerSleepQueueAdd_kept hpush) :)

/-- So does `task_exit`. -/
theorem taskExit_resumes (h : taskExit s regs = some (resume, s')) : Resumes s resume s' := by
  rcases taskExit_cases h with ⟨rfl, rfl⟩ | ⟨t, -, hyield⟩
  · exact Resumes.refl _
  · exact (schedulerYield_resumes hyield).after (setTask_noNewFrame (.inl rfl)) rfl

/-- So does every blocking call. -/
theorem BlockingCall.run_resumes {c : BlockingCall} (h : c.run s regs = some (resume, s')) :
    Resumes s resume s' := by
  cases c with
  | yield => exact schedulerYield_resumes h
  | sleep ticks => exact schedulerSleep_resumes h
  | blockCurrent => exact schedulerBlockCurrentLocked_resumes h

-- ============================================= calls that do not switch

/-- The frames that the tasks' `interrupt_rsp` lead to have the flag
set. -/
def FramesSet (s : Sched) (frames : TaskPtr → Bool) : Prop :=
  ∀ t, t < s.taskCount → (s.tasks t).interruptRsp ≠ null → frames t = true

/-- The frames that are set stay. -/
theorem NoNewFrame.framesSet {frames : TaskPtr → Bool} (h : NoNewFrame s s')
    (hset : FramesSet s frames) : FramesSet s' frames := by
  intro t hlt hrsp
  rw [h.taskCount] at hlt
  rcases h.rsp t with hsame | hnull
  · rw [hsame] at hrsp
    exact hset t hlt hrsp
  · exact absurd hnull hrsp

/-- A new task has none. -/
theorem taskCreate_framesSet {frames : TaskPtr → Bool} (hset : FramesSet s frames)
    (id entry stack : Nat) (process : Option ProcessPtr) :
    FramesSet (taskCreate s id entry stack process) frames := by
  intro t hlt hrsp
  by_cases hnew : t = s.taskCount
  · subst hnew
    exact absurd (by simp [taskCreate]) hrsp
  · have hold : (taskCreate s id entry stack process).tasks t = s.tasks t :=
      Function.update_of_ne hnew _ _
    have hlt' : t < s.taskCount + 1 := hlt
    rw [hold] at hrsp
    exact hset t (by omega) hrsp

/-- The other calls leave the current task current. -/
theorem schedStep_framesSet {frames : TaskPtr → Bool} {op : SchedOp} (hop : ¬ op.Switches)
    (h : schedStep trampoline s op = some s') (hset : FramesSet s frames) :
    FramesSet s' frames ∧ s'.currentTask = s.currentTask := by
  cases op with
  | createTask id entry stack process =>
      obtain rfl := Option.some.inj h
      exact ⟨taskCreate_framesSet hset id entry stack process, rfl⟩
  | addTask t =>
      have hpush : readyPush (setState s t .ready) t = some s' := h
      have hstate : NoNewFrame s (setState s t .ready) := setTask_noNewFrame (.inl rfl)
      exact ⟨(hstate.trans (readyPush_noNewFrame hpush)).framesSet hset,
        (congrArg Sched.currentTask (readyPush_kept hpush) :)⟩
  | unblock t =>
      rcases schedulerUnblock_cases h with ⟨-, rfl⟩ | ⟨-, hunblock⟩
      · exact ⟨hset, rfl⟩
      · obtain ⟨s₁, hremove, hready⟩ := Option.bind_eq_some_iff.mp hunblock
        have hkept : Kept s s' := (blockedRemove_kept hremove).trans (setState_kept.trans
          (schedulerResetResumeState_kept.trans (readyPush_kept hready)))
        exact ⟨((blockedRemove_noNewFrame hremove).trans
          (makeReady_noNewFrame hready)).framesSet hset, (congrArg Sched.currentTask hkept :)⟩
  | yield _ | blockCurrent _ | sleep _ _ | exit _ | timer _ => exact absurd trivial hop

-- ============================================================== interrupts

theorem wakeTask_noNewFrame (h : wakeTask s t = some s') :
    NoNewFrame s s' ∧ s'.currentTask = s.currentTask := by
  obtain ⟨s₁, hremove, hready⟩ := Option.bind_eq_some_iff.mp h
  have hkept : Kept s s' := (sleepRemove_kept hremove).trans (setState_kept.trans
    (schedulerResetResumeState_kept.trans (readyPush_kept hready)))
  exact ⟨(sleepRemove_noNewFrame hremove).trans (makeReady_noNewFrame hready),
    (congrArg Sched.currentTask hkept :)⟩

theorem checkSleepingFrom_noNewFrame {fuel : Nat} {task : Option TaskPtr}
    (h : checkSleepingFrom fuel task s = some s') :
    NoNewFrame s s' ∧ s'.currentTask = s.currentTask := by
  induction fuel generalizing s task with
  | zero =>
      cases task with
      | none =>
          obtain rfl := Option.some.inj h
          exact ⟨NoNewFrame.refl _, rfl⟩
      | some t => cases h
  | succ fuel ih =>
      cases task with
      | none =>
          obtain rfl := Option.some.inj h
          exact ⟨NoNewFrame.refl _, rfl⟩
      | some t =>
          unfold checkSleepingFrom at h
          by_cases hdue : s.systemTicks ≥ (s.tasks t).wakeTick
          · simp only [if_pos hdue] at h
            obtain ⟨s₁, hwake, hrest⟩ := Option.bind_eq_some_iff.mp h
            obtain ⟨hframes₁, hcur₁⟩ := wakeTask_noNewFrame hwake
            obtain ⟨hframes, hcur⟩ := ih hrest
            exact ⟨hframes₁.trans hframes, hcur.trans hcur₁⟩
          · simp only [if_neg hdue] at h
            exact ih h

/-- The handler of the timer interrupt. -/
theorem schedulerTick_noNewFrame (h : schedulerTick (tickSystem s) = some s₁) :
    NoNewFrame s (schedulerPreempt s₁) ∧ (schedulerPreempt s₁).currentTask = s.currentTask := by
  obtain ⟨hframes, hcur⟩ := checkSleepingFrom_noNewFrame h
  have hpreempt : NoNewFrame s₁ (schedulerPreempt s₁) := by
    unfold schedulerPreempt
    split_ifs
    · exact NoNewFrame.refl s₁
    all_goals exact NoNewFrame.of_tasks rfl rfl
  have hticks : NoNewFrame s (tickSystem s) := NoNewFrame.of_tasks rfl rfl
  exact ⟨(hticks.trans hframes).trans hpreempt, schedulerPreempt_current.1.trans hcur⟩

/-- A saved frame is used as it is. -/
theorem nextInterruptRsp_saved (h : nextFrame s t = .saved) :
    (nextInterruptRsp trampoline s t).1 = (s.tasks t).interruptRsp := by
  unfold nextFrame at h
  unfold nextInterruptRsp
  dsimp only at h ⊢
  have hkernel : (if taskResumeUsesInterruptFrame (s.tasks t) then FrameKind.saved
        else .trampoline) = .saved →
      (if taskResumeUsesInterruptFrame (s.tasks t) then ((s.tasks t).interruptRsp, s)
        else schedulerBuildContextInterruptRsp trampoline s t).1
        = (s.tasks t).interruptRsp := by
    intro heq
    by_cases huses : taskResumeUsesInterruptFrame (s.tasks t) = true
    · rw [if_pos huses]
    · rw [if_neg huses] at heq
      cases heq
  cases hprocess : (s.tasks t).process with
  | none =>
      rw [hprocess] at h
      exact hkernel h
  | some pr =>
      rw [hprocess] at h
      dsimp only at h ⊢
      by_cases huser : (s.processes pr).isUserProcess = true
      · rw [if_pos huser] at h ⊢
        by_cases hstarted : (!(s.processes pr).userStarted) = true
        · rw [if_pos hstarted] at h
          cases h
        · rw [if_neg hstarted]
      · rw [if_neg huser] at h ⊢
        exact hkernel h

theorem preemptRequeue_noNewFrame (h : preemptRequeue s = some s') : NoNewFrame s s' := by
  unfold preemptRequeue at h
  cases hcur : s.currentTask with
  | none =>
      rw [hcur] at h
      obtain rfl := Option.some.inj h
      exact NoNewFrame.refl _
  | some t =>
      rw [hcur] at h
      dsimp only at h
      by_cases hrun : some t ≠ s.idle ∧ (s.tasks t).state = .running
      · rw [if_pos hrun] at h
        have hstate : NoNewFrame s (setState s t .ready) := setTask_noNewFrame (.inl rfl)
        exact hstate.trans (readyPush_noNewFrame h)
      · rw [if_neg hrun] at h
        obtain rfl := Option.some.inj h
        exact NoNewFrame.refl _

/-- `scheduler_get_next_interrupt_rsp`: there is nothing to resume, or the
frame of the pending task. -/
theorem schedulerGetNextInterruptRsp_cases {rsp : Nat}
    (h : schedulerGetNextInterruptRsp trampoline s = some (rsp, s')) :
    NoNewFrame s s' ∧ ((rsp = null ∧ s'.currentTask = s.currentTask)
      ∨ rsp ≠ null ∧ ∃ t, s'.pendingTask = some t ∧ rsp = (nextInterruptRsp trampoline s t).1) := by
  unfold schedulerGetNextInterruptRsp at h
  by_cases hreq : (!s.preemptionRequested) = true
  · rw [if_pos hreq] at h
    obtain ⟨rfl, rfl⟩ := Prod.mk.inj (Option.some.inj h)
    exact ⟨NoNewFrame.refl _, .inl ⟨rfl, rfl⟩⟩
  rw [if_neg hreq] at h
  cases hnext : schedulerGetNextTask s with
  | none =>
      rw [hnext] at h
      obtain ⟨rfl, rfl⟩ := Prod.mk.inj (Option.some.inj h)
      exact ⟨NoNewFrame.of_tasks rfl rfl, .inl ⟨rfl, rfl⟩⟩
  | some next =>
      rw [hnext] at h
      dsimp only at h
      by_cases hidle : some next = s.idle
      · rw [if_pos hidle] at h
        obtain ⟨rfl, rfl⟩ := Prod.mk.inj (Option.some.inj h)
        exact ⟨NoNewFrame.of_tasks rfl rfl, .inl ⟨rfl, rfl⟩⟩
      rw [if_neg hidle] at h
      have hframe := nextInterruptRsp_eq trampoline s next
      by_cases hnull : (nextInterruptRsp trampoline s next).1 = null
      · rw [if_pos hnull] at h
        obtain ⟨rfl, rfl⟩ := Prod.mk.inj (Option.some.inj h)
        exact ⟨NoNewFrame.of_tasks (by rw [hframe]) (by rw [hframe]), .inl ⟨rfl, by rw [hframe]⟩⟩
      · rw [if_neg hnull] at h
        obtain ⟨s₁, hrequeue, heq⟩ := Option.map_eq_some_iff.mp h
        obtain ⟨rfl, rfl⟩ := Prod.mk.inj heq
        have hbuilt : NoNewFrame s (nextInterruptRsp trampoline s next).2 :=
          NoNewFrame.of_tasks (by rw [hframe]) (by rw [hframe])
        refine ⟨?_, .inr ⟨hnull, next, rfl, rfl⟩⟩
        exact ((hbuilt.trans schedulerReadyQueuePop_noNewFrame).trans
          (preemptRequeue_noNewFrame hrequeue)).trans (NoNewFrame.of_tasks rfl rfl)

/-- `common_isr_entry` after the handler: the interrupted stream goes on,
or another task does from its frame. -/
theorem isrExit_cases {rsp : Nat} (h : isrExit trampoline s rsp = some (resume, s')) :
    NoNewFrame (schedulerSaveInterruptContext s rsp) s'
      ∧ ((resume = .caller ∧ s'.currentTask = s.currentTask)
        ∨ ∃ t rsp', resume = .interrupt t rsp' ∧ s'.currentTask = some t ∧ rsp' ≠ null
          ∧ rsp' = (nextInterruptRsp trampoline (schedulerSaveInterruptContext s rsp) t).1) := by
  have hcur := (schedulerSaveInterruptContext_current s rsp).1
  unfold isrExit at h
  dsimp only at h
  generalize schedulerSaveInterruptContext s rsp = s₁ at h hcur ⊢
  obtain ⟨⟨rsp', s₂⟩, hnext, h⟩ := Option.bind_eq_some_iff.mp h
  obtain ⟨hframes, hends⟩ := schedulerGetNextInterruptRsp_cases hnext
  dsimp only at h
  rcases hends with ⟨hnull, hcur₂⟩ | ⟨hnull, t, hpending, hrsp⟩
  · rw [if_pos hnull] at h
    obtain ⟨rfl, rfl⟩ := Prod.mk.inj (Option.some.inj h)
    exact ⟨hframes, .inl ⟨rfl, hcur₂.trans hcur⟩⟩
  · rw [if_neg hnull] at h
    have hcommit : NoNewFrame s₂ (schedulerCommitPendingTask s₂)
        ∧ (schedulerCommitPendingTask s₂).currentTask = some t := by
      rw [schedulerCommitPendingTask_eq hpending]
      refine ⟨?_, rfl⟩
      by_cases hidle : some t = s₂.idle
      · exact NoNewFrame.of_tasks rfl (if_pos hidle)
      · have hrun : NoNewFrame s₂ (setState s₂ t .running) := setTask_noNewFrame (.inl rfl)
        exact hrun.trans (NoNewFrame.of_tasks rfl (if_neg hidle))
    rw [hcommit.2] at h
    obtain ⟨rfl, rfl⟩ := Prod.mk.inj (Option.some.inj h)
    exact ⟨hframes.trans hcommit.1, .inr ⟨t, rsp', rfl, hcommit.2, hnull, hrsp⟩⟩

/-- The frame that an interrupt saves has the flag of the stream it
interrupts. -/
theorem saveFrame_framesSet {frames : TaskPtr → Bool} (hset : FramesSet s frames) (rsp : Nat) :
    FramesSet (schedulerSaveInterruptContext s rsp) (saveFrame s true frames) := by
  intro t hlt hrsp
  unfold schedulerSaveInterruptContext at hlt hrsp
  unfold saveFrame
  cases hcur : s.currentTask with
  | none =>
      rw [hcur] at hlt hrsp
      exact hset t hlt hrsp
  | some u =>
      rw [hcur] at hlt hrsp
      dsimp only at hlt hrsp ⊢
      by_cases hidle : some u = s.idle
      · rw [if_pos hidle] at hlt hrsp ⊢
        exact hset t hlt hrsp
      · rw [if_neg hidle] at hlt hrsp ⊢
        by_cases htu : t = u
        · rw [htu]
          exact Function.update_self ..
        · have hold : (s.tasks t).interruptRsp ≠ null := by
            simpa [Function.update_of_ne htu] using hrsp
          rw [Function.update_of_ne htu]
          exact hset t hlt hold

end ZenithOS.Scheduler
