/-
A task keeps its process.

The scheduler reads `task->process` and never writes it: `task_create`
sets it to `NULL` and its callers set it before the task is added. So
whatever the scheduler does, the tasks there are keep their processes
(`sysStep_owner`).
-/
import ZenithOS.Scheduler.Proofs.AddressSpace

namespace ZenithOS.Scheduler

open Lib Mm Proc

/-- There are the same tasks, each with the process it had. -/
structure SameOwner (s s' : Sched) : Prop where
  process : ∀ t, (s'.tasks t).process = (s.tasks t).process
  taskCount : s'.taskCount = s.taskCount

variable {s s' s'' : Sched} {t : TaskPtr} {regs : CpuContext} {resume : Resume}
  {trampoline : Nat}

theorem SameOwner.refl (s : Sched) : SameOwner s s := ⟨fun _ => rfl, rfl⟩

/-- Owners that stay twice stay. -/
theorem SameOwner.trans (h : SameOwner s s') (h' : SameOwner s' s'') : SameOwner s s'' :=
  ⟨fun t => (h'.process t).trans (h.process t), h'.taskCount.trans h.taskCount⟩

theorem Kept.sameOwner (h : Kept s s') : SameOwner s s' :=
  ⟨h.sameSpace.process, (congrArg Sched.taskCount h :)⟩

theorem setTask_sameOwner {task : Task} (hprocess : task.process = (s.tasks t).process) :
    SameOwner s (setTask s t task) := by
  refine ⟨?_, rfl⟩
  intro u
  by_cases hut : u = t
  · rw [hut, setTask_tasks, Function.update_self, hprocess]
  · rw [setTask_tasks, Function.update_of_ne hut]

-- ============================================================= cooperative

theorem schedulerSwitchTo_owner (s : Sched) (t : TaskPtr) :
    SameOwner s (schedulerSwitchTo s (some t)).2 := by
  rw [schedulerSwitchTo_eq]
  have hspace : SameShape [] s (switchAddressSpace s t) := switchAddressSpace_sameShape
  have hrunning : SameOwner s (setState s t .running) := setState_kept.sameOwner
  refine ⟨?_, hspace.taskCount⟩
  intro u
  show ((if some t = s.idle then s.tasks else _ : TaskPtr → Task) u).process = _
  split_ifs
  · rfl
  · exact hrunning.process u

theorem schedulerSchedule_owner (s : Sched) : SameOwner s (schedulerSchedule s).2 := by
  unfold schedulerSchedule
  cases schedulerGetNextTask s with
  | none => exact SameOwner.refl s
  | some next =>
      dsimp only
      split_ifs
      · exact schedulerReadyQueuePop_kept.sameOwner.trans (schedulerSwitchTo_owner _ next)
      · exact schedulerSwitchTo_owner s next

theorem saveContext_owner (s : Sched) (previous : Option TaskPtr) (regs : CpuContext) :
    SameOwner s (saveContext s previous regs) := by
  cases previous with
  | none => exact ⟨fun _ => rfl, rfl⟩
  | some t => exact setTask_sameOwner rfl

theorem schedulerDispatch_owner (s : Sched) (regs : CpuContext) :
    SameOwner s (schedulerDispatch s regs).2 := by
  have hschedule := schedulerSchedule_owner s
  unfold schedulerDispatch
  cases hr : schedulerSchedule s with
  | mk next s₁ =>
      rw [hr] at hschedule
      have hsaved := hschedule.trans (saveContext_owner s₁ s.currentTask regs)
      cases next with
      | none => exact hschedule
      | some next =>
          dsimp only
          split_ifs
          · exact hschedule
          · exact hsaved
          · exact hsaved

theorem schedulerRequeue_owner (h : schedulerRequeue s = some s') : SameOwner s s' := by
  rcases schedulerRequeue_cases h with rfl | ⟨t, -, -, hpush⟩
  · exact SameOwner.refl _
  · exact (setState_kept.trans (schedulerResetResumeState_kept.trans
      (readyPush_kept hpush))).sameOwner

theorem schedulerYield_owner (h : schedulerYield s regs = some (resume, s')) :
    SameOwner s s' := by
  obtain ⟨s₁, hrequeue, hdispatch⟩ := Option.map_eq_some_iff.mp h
  have hs' := (schedulerRequeue_owner hrequeue).trans (schedulerDispatch_owner s₁ regs)
  rw [hdispatch] at hs'
  exact hs'

theorem schedulerBlockCurrentLocked_owner
    (h : schedulerBlockCurrentLocked s regs = some (resume, s')) : SameOwner s s' := by
  rcases schedulerBlockCurrentLocked_cases h with ⟨-, rfl⟩ | ⟨t, s₁, -, -, hpush, hyield⟩
  · exact SameOwner.refl _
  · exact (setState_kept.trans (blockedPush_kept hpush)).sameOwner.trans
      (schedulerYield_owner hyield)

theorem schedulerSleep_owner {ticks : Nat} (h : schedulerSleep s ticks regs = some (resume, s')) :
    SameOwner s s' := by
  rcases schedulerSleep_cases h with ⟨-, rfl⟩ | ⟨t, s₁, -, -, hpush, hyield⟩
  · exact SameOwner.refl _
  · refine SameOwner.trans ?_ ((schedulerSleepQueueAdd_kept hpush).sameOwner.trans
      (schedulerYield_owner hyield))
    exact setTask_sameOwner rfl

theorem taskExit_owner (h : taskExit s regs = some (resume, s')) : SameOwner s s' := by
  rcases taskExit_cases h with ⟨-, rfl⟩ | ⟨t, -, hyield⟩
  · exact SameOwner.refl _
  · exact setState_kept.sameOwner.trans (schedulerYield_owner hyield)

theorem schedulerUnblock_owner (h : schedulerUnblock s (some t) = some s') : SameOwner s s' := by
  rcases schedulerUnblock_cases h with ⟨-, rfl⟩ | ⟨-, hunblock⟩
  · exact SameOwner.refl _
  · obtain ⟨s₁, hremove, hpush⟩ := Option.bind_eq_some_iff.mp hunblock
    exact ((blockedRemove_kept hremove).trans (setState_kept.trans
      (schedulerResetResumeState_kept.trans (readyPush_kept hpush)))).sameOwner

theorem schedulerAddTask_owner (h : schedulerAddTask s (some t) = some s') : SameOwner s s' :=
  (setState_kept.trans (readyPush_kept h)).sameOwner

-- =============================================================== the timer

theorem checkSleepingFrom_owner {fuel : Nat} {task : Option TaskPtr}
    (h : checkSleepingFrom fuel task s = some s') : SameOwner s s' := by
  induction fuel generalizing task s with
  | zero =>
      cases task with
      | none =>
          rw [checkSleepingFrom] at h
          cases h
          exact SameOwner.refl s'
      | some t => cases h
  | succ fuel ih =>
      cases task with
      | none =>
          rw [checkSleepingFrom] at h
          cases h
          exact SameOwner.refl s'
      | some t =>
          rw [checkSleepingFrom] at h
          dsimp only at h
          split_ifs at h
          · obtain ⟨s₁, hwake, hrest⟩ := Option.bind_eq_some_iff.mp h
            obtain ⟨s₂, hremove, hpush⟩ := Option.bind_eq_some_iff.mp hwake
            refine SameOwner.trans ?_ (ih hrest)
            exact ((sleepRemove_kept hremove).trans (setState_kept.trans
              (schedulerResetResumeState_kept.trans (readyPush_kept hpush)))).sameOwner
          · exact ih h

theorem schedulerCommitPendingTask_owner (s : Sched) :
    SameOwner s (schedulerCommitPendingTask s) := by
  cases hpending : s.pendingTask with
  | none =>
      unfold schedulerCommitPendingTask
      rw [hpending]
      exact SameOwner.refl s
  | some t =>
      have hrunning : SameOwner s (setState s t .running) := setState_kept.sameOwner
      rw [schedulerCommitPendingTask_eq hpending]
      refine ⟨?_, rfl⟩
      intro u
      show ((if some t = s.idle then s.tasks else _ : TaskPtr → Task) u).process = _
      split_ifs
      · rfl
      · exact hrunning.process u

theorem nextInterruptRsp_owner {next : TaskPtr} :
    SameOwner s (nextInterruptRsp trampoline s next).2 := by
  rw [nextInterruptRsp_eq]
  exact ⟨fun _ => rfl, rfl⟩

theorem schedulerGetNextInterruptRsp_owner {rsp : Nat}
    (h : schedulerGetNextInterruptRsp trampoline s = some (rsp, s')) : SameOwner s s' := by
  unfold schedulerGetNextInterruptRsp at h
  split_ifs at h
  · cases h
    exact SameOwner.refl s
  · cases hnext : schedulerGetNextTask s with
    | none =>
        simp only [hnext] at h
        cases h
        exact ⟨fun _ => rfl, rfl⟩
    | some next =>
        have hrsp : SameOwner s (nextInterruptRsp trampoline s next).2 := nextInterruptRsp_owner
        simp only [hnext] at h
        split_ifs at h
        · cases h
          exact ⟨fun _ => rfl, rfl⟩
        · cases h
          exact ⟨hrsp.process, hrsp.taskCount⟩
        · obtain ⟨s₁, hrequeue, heq⟩ := Option.map_eq_some_iff.mp h
          cases heq
          have hs₁ := hrsp.trans (schedulerReadyQueuePop_kept.trans
            (preemptRequeue_kept hrequeue)).sameOwner
          exact ⟨hs₁.process, hs₁.taskCount⟩

theorem schedulerSaveInterruptContext_owner (s : Sched) (rsp : Nat) :
    SameOwner s (schedulerSaveInterruptContext s rsp) := by
  have hshape : SameShape [] s (schedulerSaveInterruptContext s rsp) :=
    schedulerSaveInterruptContext_sameShape
  exact ⟨(schedulerSaveInterruptContext_space s rsp).1.process, hshape.taskCount⟩

theorem schedulerPreempt_owner (s : Sched) : SameOwner s (schedulerPreempt s) := by
  have hshape : SameShape [] s (schedulerPreempt s) := schedulerPreempt_sameShape
  exact ⟨(schedulerPreempt_space s).1.process, hshape.taskCount⟩

theorem isrExit_owner {rsp : Nat} (h : isrExit trampoline s rsp = some (resume, s')) :
    SameOwner s s' := by
  obtain ⟨⟨rsp', s₁⟩, hget, hrest⟩ := Option.bind_eq_some_iff.mp h
  have hs₁ : SameOwner s s₁ :=
    (schedulerSaveInterruptContext_owner s rsp).trans (schedulerGetNextInterruptRsp_owner hget)
  dsimp only at hrest
  split_ifs at hrest
  · cases hrest
    exact hs₁
  · have hcommit := hs₁.trans (schedulerCommitPendingTask_owner s₁)
    split at hrest
    · cases hrest
      exact hcommit
    · cases hrest
      exact hcommit

/-- The timer interrupt gives no task another process. -/
theorem timerInterrupt_owner {rsp : Nat}
    (h : timerInterrupt trampoline s rsp = some (resume, s')) : SameOwner s s' := by
  obtain ⟨s₁, htick, hexit⟩ := Option.bind_eq_some_iff.mp h
  have hticked : SameOwner s (tickSystem s) := ⟨fun _ => rfl, rfl⟩
  have hs₁ := hticked.trans (checkSleepingFrom_owner htick)
  exact (hs₁.trans (schedulerPreempt_owner s₁)).trans (isrExit_owner hexit)

-- ============================================================ the machine

@[simp] theorem taskCreate_taskCount (s : Sched) (id entry stack : Nat)
    (process : Option ProcessPtr) :
    (taskCreate s id entry stack process).taskCount = s.taskCount + 1 := rfl

/-- The new task has the process it is made for. -/
theorem taskCreate_new (s : Sched) (id entry stack : Nat) (process : Option ProcessPtr) :
    ((taskCreate s id entry stack process).tasks s.taskCount).process = process := by
  simp [taskCreate]

/-- Old tasks stay as they are. -/
theorem taskCreate_old {id entry stack : Nat} {process : Option ProcessPtr}
    (ht : t ≠ s.taskCount) : (taskCreate s id entry stack process).tasks t = s.tasks t :=
  Function.update_of_ne ht _ _

/-- No operation but `task_create` writes the process of a task, and that
one only of the new task. -/
theorem sysStep_owner {y y' : SchedSys} {op : SchedOp} (h : sysStep trampoline y op = some y') :
    SameOwner y.sched y'.sched
      ∨ ∃ id entry stack process, op = .createTask id entry stack process
        ∧ y'.sched = taskCreate y.sched id entry stack process := by
  obtain ⟨s', hs', hy'⟩ := Option.map_eq_some_iff.mp h
  have hsched : y'.sched = s' := by
    rw [← hy']
    cases op <;> rfl
  rw [hsched]
  cases op with
  | createTask id entry stack process =>
      cases hs'
      exact .inr ⟨id, entry, stack, process, rfl, rfl⟩
  | addTask t => exact .inl (schedulerAddTask_owner hs')
  | yield regs =>
      obtain ⟨⟨resume, s₁⟩, hcall, rfl⟩ := Option.map_eq_some_iff.mp hs'
      exact .inl (schedulerYield_owner hcall)
  | blockCurrent regs =>
      obtain ⟨⟨resume, s₁⟩, hcall, rfl⟩ := Option.map_eq_some_iff.mp hs'
      exact .inl (schedulerBlockCurrentLocked_owner hcall)
  | unblock t => exact .inl (schedulerUnblock_owner hs')
  | sleep ticks regs =>
      obtain ⟨⟨resume, s₁⟩, hcall, rfl⟩ := Option.map_eq_some_iff.mp hs'
      exact .inl (schedulerSleep_owner hcall)
  | exit regs =>
      obtain ⟨⟨resume, s₁⟩, hcall, rfl⟩ := Option.map_eq_some_iff.mp hs'
      exact .inl (taskExit_owner hcall)
  | timer rsp =>
      obtain ⟨⟨resume, s₁⟩, hcall, rfl⟩ := Option.map_eq_some_iff.mp hs'
      exact .inl (timerInterrupt_owner hcall)

/-- A task that was added has been added. -/
theorem sysStep_added {y y' : SchedSys} {op : SchedOp} (h : sysStep trampoline y op = some y')
    (ht : t ∈ y.added) : t ∈ y'.added := by
  obtain ⟨s', -, rfl⟩ := Option.map_eq_some_iff.mp h
  cases op with
  | addTask u => exact List.mem_cons_of_mem u ht
  | createTask | yield | blockCurrent | unblock | sleep | exit | timer => exact ht

end ZenithOS.Scheduler
