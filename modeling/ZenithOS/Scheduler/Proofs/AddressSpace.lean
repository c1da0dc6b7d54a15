/-
The running task, its address space and its ring-0 stack.

`scheduler_switch_to` loads the root table of the next task's process
and its stack top; `scheduler_commit_pending_task`, the switch at the
end of an interrupt, loads neither. So the two have one effect exactly
when both are loaded already (`commit_eq_switchTo_iff`), and along a run
the running task is in its own space as long as every interrupt that
ends a time slice picks a task for which that is so.
-/
import ZenithOS.Scheduler.Proofs.Partition

namespace ZenithOS.Scheduler

open Lib Mm Proc

-- ========================================================= being in place

/-- The root table of `t`'s process, if it has one, is loaded, and
`rsp0` is the top of `t`'s stack. -/
def InSpace (s : Sched) (t : TaskPtr) : Prop :=
  (∀ pr ∈ (s.tasks t).process,
    s.activePml4Physical = (s.processes pr).pageTablePhysical
    ∧ s.cr3 = (s.processes pr).pageTablePhysical)
  ∧ s.tssRsp0 = kernelStackTop (s.tasks t)

instance (s : Sched) (t : TaskPtr) : Decidable (InSpace s t) :=
  inferInstanceAs (Decidable (_ ∧ _))

/-- The running task is in its own space. CR3 follows
`active_pml4_physical`, and a process has a root table. -/
structure SpaceInv (s : Sched) : Prop where
  cr3_eq : s.cr3 = s.activePml4Physical
  root : ∀ pr, (s.processes pr).pageTablePhysical ≠ 0
  current : ∀ t, s.currentTask = some t → InSpace s t

/-- Nothing `InSpace` reads differs. -/
structure SameSpace (s s' : Sched) : Prop where
  process : ∀ t, (s'.tasks t).process = (s.tasks t).process
  stackTop : ∀ t, kernelStackTop (s'.tasks t) = kernelStackTop (s.tasks t)
  root : ∀ pr, (s'.processes pr).pageTablePhysical = (s.processes pr).pageTablePhysical
  active : s'.activePml4Physical = s.activePml4Physical
  cr3 : s'.cr3 = s.cr3
  rsp0 : s'.tssRsp0 = s.tssRsp0

variable {s s' s'' : Sched} {t : TaskPtr}

/-- Spaces that stay twice stay. -/
theorem SameSpace.trans (h : SameSpace s s') (h' : SameSpace s' s'') :
    SameSpace s s'' :=
  ⟨fun t => (h'.process t).trans (h.process t),
    fun t => (h'.stackTop t).trans (h.stackTop t), fun pr => (h'.root pr).trans (h.root pr),
    h'.active.trans h.active, h'.cr3.trans h.cr3, h'.rsp0.trans h.rsp0⟩

/-- A task stays in its space. -/
theorem SameSpace.inSpace (h : SameSpace s s') (ht : InSpace s t) : InSpace s' t := by
  refine ⟨fun pr hpr => ?_, ?_⟩
  · rw [h.active, h.cr3, h.root]
    exact ht.1 pr (h.process t ▸ hpr)
  · rw [h.rsp0, h.stackTop]
    exact ht.2

/-- With the same current task, the invariant stays. -/
theorem SpaceInv.congr (h : SpaceInv s) (hs : SameSpace s s')
    (hcur : s'.currentTask = s.currentTask) : SpaceInv s' :=
  ⟨by rw [hs.cr3, hs.active, h.cr3_eq], fun pr => hs.root pr ▸ h.root pr,
    fun t ht => hs.inSpace (h.current t (hcur ▸ ht))⟩

theorem Kept.sameSpace (h : Kept s s') : SameSpace s s' := by
  have htask : ∀ t, (core s').tasks t = (core s).tasks t := fun t => by rw [h]
  refine ⟨fun t => (congrArg Task.process (htask t) :),
    fun t => (congrArg kernelStackTop (htask t) :), fun pr => ?_,
    (congrArg Sched.activePml4Physical h :), (congrArg Sched.cr3 h :),
    (congrArg Sched.tssRsp0 h :)⟩
  have hprocesses : s'.processes = s.processes := (congrArg Sched.processes h :)
  rw [hprocesses]

/-- The invariant does not depend on the links. -/
theorem SpaceInv.kept (h : SpaceInv s) (hkept : Kept s s') : SpaceInv s' :=
  h.congr hkept.sameSpace (congrArg Sched.currentTask hkept :)

/-- Writing one task without its process and stack. -/
theorem setTask_sameSpace {task : Task} (hprocess : task.process = (s.tasks t).process)
    (hstack : kernelStackTop task = kernelStackTop (s.tasks t)) :
    SameSpace s (setTask s t task) := by
  refine ⟨fun u => ?_, fun u => ?_, fun _ => rfl, rfl, rfl, rfl⟩ <;>
    by_cases hut : u = t
  · subst hut
    simpa using hprocess
  · simp [Function.update_of_ne hut]
  · subst hut
    simpa using hstack
  · simp [Function.update_of_ne hut]

-- ====================================================== the two switches

/-- `scheduler_switch_to` loads the space of the task it switches to. -/
theorem schedulerSwitchTo_space (hcr3 : s.cr3 = s.activePml4Physical)
    (hroot : ∀ pr, (s.processes pr).pageTablePhysical ≠ 0) :
    SpaceInv (schedulerSwitchTo s (some t)).2 := by
  rw [schedulerSwitchTo_eq]
  have hstack : kernelStackTop ((if some t = s.idle then s.tasks else
      Function.update s.tasks t { s.tasks t with state := .running }) t)
      = kernelStackTop (s.tasks t) := by
    split_ifs <;> simp [kernelStackTop]
  have hproc : ((if some t = s.idle then s.tasks else
      Function.update s.tasks t { s.tasks t with state := .running }) t).process
      = (s.tasks t).process := by
    split_ifs <;> simp
  refine ⟨?_, ?_, fun u hu => ?_⟩
  · unfold switchAddressSpace pageTableSwitch
    split
    · split_ifs <;> first | exact hcr3 | rfl
    · exact hcr3
  · unfold switchAddressSpace pageTableSwitch
    split
    · split_ifs <;> exact hroot
    · exact hroot
  · obtain rfl : t = u := Option.some.inj hu
    refine ⟨fun pr hpr => ?_, hstack.symm⟩
    have hpr' : (s.tasks t).process = some pr := hproc ▸ hpr
    simp only [switchAddressSpace, hpr', pageTableSwitch, if_neg (hroot pr)]
    split_ifs with hactive
    · exact ⟨hactive, hcr3.trans hactive⟩
    · exact ⟨rfl, rfl⟩

/-- The cooperative and the preemptive switch to one task have the same
effect exactly when the task's space is loaded already. -/
theorem commit_eq_switchTo_iff (hcr3 : s.cr3 = s.activePml4Physical)
    (hroot : ∀ pr, (s.processes pr).pageTablePhysical ≠ 0)
    (hpending : s.pendingTask = some t) :
    ((schedulerCommitPendingTask s).cr3 = (schedulerSwitchTo s (some t)).2.cr3
      ∧ (schedulerCommitPendingTask s).activePml4Physical
          = (schedulerSwitchTo s (some t)).2.activePml4Physical
      ∧ (schedulerCommitPendingTask s).tssRsp0 = (schedulerSwitchTo s (some t)).2.tssRsp0
      ∧ (schedulerCommitPendingTask s).currentTask
          = (schedulerSwitchTo s (some t)).2.currentTask
      ∧ (schedulerCommitPendingTask s).tasks = (schedulerSwitchTo s (some t)).2.tasks)
    ↔ InSpace s t := by
  rw [schedulerCommitPendingTask_eq hpending, schedulerSwitchTo_eq]
  simp only [and_true]
  cases hpr : (s.tasks t).process with
  | none => simp [InSpace, switchAddressSpace, hpr]
  | some pr =>
      simp only [InSpace, switchAddressSpace, hpr, pageTableSwitch, if_neg (hroot pr)]
      split_ifs with hactive
      · simp [hactive, hcr3]
      · simp [hactive]

-- ================================================ the cooperative calls

theorem schedulerReadyQueuePop_kept : Kept s (schedulerReadyQueuePop s) := by
  unfold schedulerReadyQueuePop
  split
  · rfl
  · have hhead : ∀ head, Kept s { s with readyQueue := head } := fun _ => rfl
    exact (hhead _).trans (setTask_core rfl)

/-- A switch loads the space of the next task. -/
theorem SpaceInv.dispatch (h : SpaceInv s) (regs : CpuContext) :
    SpaceInv (schedulerDispatch s regs).2 := by
  have hswitch : ∀ next, schedulerGetNextTask s = some next →
      SpaceInv (schedulerSchedule s).2 := by
    intro next hnext
    have hpopped : SpaceInv (if some next ≠ s.idle then schedulerReadyQueuePop s else s) := by
      split_ifs
      · exact h.kept schedulerReadyQueuePop_kept
      · exact h
    simp only [schedulerSchedule, hnext]
    exact schedulerSwitchTo_space hpopped.cr3_eq hpopped.root
  cases hnext : schedulerGetNextTask s with
  | none =>
      simp only [schedulerDispatch, schedulerSchedule, hnext]
      exact h
  | some next =>
      have hsched := hswitch next hnext
      have hfst : (schedulerSchedule s).1 = some next := by
        simp only [schedulerSchedule, hnext, schedulerSwitchTo_eq]
      have hsaved : SpaceInv
          (saveContext (schedulerSchedule s).2 s.currentTask regs) := by
        cases hcur : s.currentTask with
        | none =>
            exact hsched.congr ⟨fun _ => rfl, fun _ => rfl, fun _ => rfl, rfl, rfl, rfl⟩ rfl
        | some u => exact hsched.congr (setTask_sameSpace rfl rfl) rfl
      rw [show schedulerSchedule s = (some next, (schedulerSchedule s).2) from
        Prod.ext hfst rfl] at hsaved hsched
      unfold schedulerDispatch
      rw [show schedulerSchedule s = (some next, (schedulerSchedule s).2) from
        Prod.ext hfst rfl]
      dsimp only
      split_ifs
      · exact hsched
      · exact hsaved
      · exact hsaved

/-- `scheduler_yield` keeps the invariant. -/
theorem SpaceInv.yield (h : SpaceInv s) {regs : CpuContext} {resume : Resume}
    (hyield : schedulerYield s regs = some (resume, s')) : SpaceInv s' := by
  obtain ⟨s₁, hrequeue, hdisp⟩ := Option.map_eq_some_iff.mp hyield
  have hrequeued : SpaceInv s₁ := by
    rcases schedulerRequeue_cases hrequeue with rfl | ⟨t, -, -, hpush⟩
    · exact h
    · exact h.kept (setState_kept.trans
        (schedulerResetResumeState_kept.trans (readyPush_kept hpush)))
  have hs' := hrequeued.dispatch regs
  rw [hdisp] at hs'
  exact hs'

/-- `scheduler_block_current` keeps it. -/
theorem SpaceInv.blockCurrent (h : SpaceInv s) {regs : CpuContext} {resume : Resume}
    (hblock : schedulerBlockCurrentLocked s regs = some (resume, s')) : SpaceInv s' := by
  rcases schedulerBlockCurrentLocked_cases hblock with ⟨-, rfl⟩ | ⟨t, s₁, -, -, hpush, hyield⟩
  · exact h
  · exact (h.kept (setState_kept.trans (blockedPush_kept hpush))).yield hyield

/-- `scheduler_sleep` keeps it. -/
theorem SpaceInv.sleep (h : SpaceInv s) {ticks : Nat} {regs : CpuContext}
    {resume : Resume} (hsleep : schedulerSleep s ticks regs = some (resume, s')) :
    SpaceInv s' := by
  rcases schedulerSleep_cases hsleep with ⟨-, rfl⟩ | ⟨t, s₁, -, -, hpush, hyield⟩
  · exact h
  · have hasleep : SpaceInv (setTask s t { s.tasks t with
        wakeTick := (s.systemTicks + ticks) % 2 ^ 64, state := .sleeping }) :=
      h.congr (setTask_sameSpace rfl rfl) rfl
    exact (hasleep.kept (schedulerSleepQueueAdd_kept hpush)).yield hyield

/-- `task_exit` keeps it. -/
theorem SpaceInv.exit (h : SpaceInv s) {regs : CpuContext} {resume : Resume}
    (hexit : taskExit s regs = some (resume, s')) : SpaceInv s' := by
  rcases taskExit_cases hexit with ⟨-, rfl⟩ | ⟨t, -, hyield⟩
  · exact h
  · exact (h.kept setState_kept).yield hyield

/-- `scheduler_unblock` keeps it. -/
theorem SpaceInv.unblock (h : SpaceInv s)
    (hunblock : schedulerUnblock s (some t) = some s') : SpaceInv s' := by
  rcases schedulerUnblock_cases hunblock with ⟨-, rfl⟩ | ⟨-, hlocked⟩
  · exact h
  · obtain ⟨s₁, hremove, hpush⟩ := Option.bind_eq_some_iff.mp hlocked
    exact h.kept ((blockedRemove_kept hremove).trans (setState_kept.trans
      (schedulerResetResumeState_kept.trans (readyPush_kept hpush))))

/-- `scheduler_add_task` keeps it. -/
theorem SpaceInv.addTask (h : SpaceInv s)
    (hadd : schedulerAddTask s (some t) = some s') : SpaceInv s' :=
  h.kept (setState_kept.trans (readyPush_kept hadd))

-- ===================================================== the timer's switch

/-- The first task of the sleep queue, from `head` on, due at `now`. -/
def firstDueFrom (s : Sched) (now : Nat) : Nat → Option TaskPtr → Option TaskPtr
  | _, none => none
  | 0, some _ => none
  | fuel + 1, some t =>
      if (s.tasks t).wakeTick ≤ now then some t
      else firstDueFrom s now fuel (s.tasks t).next

/-- The task a timer interrupt will find first in the ready queue, as it
finds it: the head of that queue or, when it is empty, the first sleeper
that is due, readied. -/
def firstReady (s : Sched) : Option (TaskPtr × Task) :=
  match s.readyQueue with
  | some t => some (t, s.tasks t)
  | none =>
      (firstDueFrom s (tickSystem s).systemTicks s.taskCount s.sleepQueue).map
        fun t => (t, { s.tasks t with interruptRsp := null, resumeMode := .context })

/-- There is a frame to resume the task from: a saved one, or room to
build one. -/
def resumable (s : Sched) (task : Task) : Bool :=
  let built := task.context.rsp != 0 && interruptFrameBelow task.context.rsp != null
  let user := task.process.any fun pr => (s.processes pr).isUserProcess
  let started := task.process.any fun pr => (s.processes pr).userStarted
  if user then if started then task.interruptRsp != null else built
  else taskResumeUsesInterruptFrame task || built

/-- A timer interrupt that ends a time slice picks a task whose space is
loaded already. -/
def SchedOp.SpaceLoaded (s : Sched) : SchedOp → Prop
  | .timer _ => sliceEnds s → ∀ p ∈ firstReady s,
      resumable s p.2 = true → InSpace s p.1
  | _ => True

instance (s : Sched) : ∀ op : SchedOp, Decidable (op.SpaceLoaded s)
  | .timer _ => inferInstanceAs (Decidable (sliceEnds s → _))
  | .createTask .. | .addTask _ | .yield _ | .blockCurrent _ | .unblock _ | .sleep ..
  | .exit _ => isTrue trivial

/-- The search finds the first task that is due. -/
theorem firstDueFrom_eq {now fuel : Nat} {head : Option TaskPtr} {l : List TaskPtr}
    (hl : Linked (links s) head l) (hfuel : l.length ≤ fuel) :
    firstDueFrom s now fuel head = l.find? fun t => (s.tasks t).wakeTick ≤ now := by
  induction l generalizing head fuel with
  | nil =>
      rw [show head = none from hl]
      cases fuel <;> rfl
  | cons t l ih =>
      obtain ⟨fuel, rfl⟩ : ∃ f, fuel = f + 1 := ⟨fuel - 1, by simp at hfuel; omega⟩
      obtain ⟨rfl, hrest⟩ := hl
      rw [firstDueFrom]
      split_ifs with hdue
      · simp [hdue]
      · rw [List.find?_cons_of_neg (by simpa using hdue)]
        exact ih hrest (by simp at hfuel; omega)

/-- A frame other than `NULL` means the task was resumable. -/
theorem resumable_of_nextInterruptRsp {trampoline : Nat}
    (hnull : (nextInterruptRsp trampoline s t).1 ≠ null) :
    resumable s (s.tasks t) = true := by
  have hbuild : ∀ s : Sched, (schedulerBuildContextInterruptRsp trampoline s t).1 ≠ null →
      (s.tasks t).context.rsp ≠ 0
        ∧ interruptFrameBelow (s.tasks t).context.rsp ≠ null := by
    intro s hs
    by_cases hrsp : (s.tasks t).context.rsp = 0
    · simp [schedulerBuildContextInterruptRsp, hrsp] at hs
    · exact ⟨hrsp, by simpa [schedulerBuildContextInterruptRsp, hrsp] using hs⟩
  unfold nextInterruptRsp at hnull
  dsimp only at hnull
  unfold resumable
  cases hpr : (s.tasks t).process with
  | none =>
      simp only [hpr] at hnull
      split_ifs at hnull with huses
      · simp [huses]
      · obtain ⟨hrsp, hframe⟩ := hbuild s hnull
        simp [hrsp, hframe]
  | some pr =>
      simp only [hpr] at hnull
      cases huser : (s.processes pr).isUserProcess with
      | false =>
          simp only [huser, Bool.false_eq_true, if_false] at hnull
          split_ifs at hnull with huses
          · simp [huser, huses]
          · obtain ⟨hrsp, hframe⟩ := hbuild s hnull
            simp [huser, hrsp, hframe]
      | true =>
          cases hstarted : (s.processes pr).userStarted with
          | true => simpa [huser, hstarted] using hnull
          | false =>
              have hnull' : (schedulerBuildContextInterruptRsp trampoline
                  (setUserStarted s pr) t).1 ≠ null := by
                simpa [huser, hstarted] using hnull
              obtain ⟨hrsp, hframe⟩ := hbuild _ hnull'
              simp only [setUserStarted] at hrsp hframe
              simp [huser, hstarted, hrsp, hframe]

/-- What the choice of a resume point reads of a task. -/
def ResumeSame (task task' : Task) : Prop :=
  task'.process = task.process ∧ task'.context = task.context
    ∧ task'.interruptRsp = task.interruptRsp ∧ task'.resumeMode = task.resumeMode

/-- Whether a task can be resumed depends on what it resumes from. -/
theorem ResumeSame.resumable_eq {task task' : Task} (h : ResumeSame task task')
    (hprocesses : s'.processes = s.processes) :
    resumable s' task' = resumable s task := by
  obtain ⟨h₁, h₂, h₃, h₄⟩ := h
  simp only [resumable, taskResumeUsesInterruptFrame, h₁, h₂, h₃, h₄, hprocesses]

variable {y : SchedSys} {q : QueueId Empty → List TaskPtr} {dead : List TaskPtr}

/-- After the wake-up loop, the head of the ready queue is the task
`firstReady` saw coming. -/
theorem Stable.firstReady_of_tick (h : Stable y q dead) {s₁ : Sched}
    (hset : Settled s₁ noWait
      (afterWake (tickSystem y.sched) q [] (q .sleep)) dead y.added)
    (hwoken : Woken (q .sleep) (tickSystem y.sched) s₁)
    (hhead : s₁.readyQueue = some t) :
    t ∉ running y.sched
      ∧ ∃ task, firstReady y.sched = some (t, task) ∧ ResumeSame task (s₁.tasks t) := by
  have hinv := h.settled.inv
  have hlinked : Linked (links y.sched) y.sched.readyQueue (q .ready) :=
    hinv.queues.linked .ready
  have hlinked₁ : Linked (links s₁) s₁.readyQueue _ := hset.inv.queues.linked .ready
  simp only [afterWake, Function.update_self] at hlinked₁
  cases hq : q .ready with
  | cons u l =>
      -- the head stays the head, and no sleeper is it
      rw [hq] at hlinked hlinked₁
      obtain rfl : u = t := by
        have hu : s₁.readyQueue = some u := hlinked₁.1
        exact Option.some.inj (hu.symm.trans hhead)
      have hmem : u ∈ q .ready := by simp [hq]
      have hawake : u ∉ q .sleep := fun hsleep =>
        absurd (hinv.queues.disjoint hmem hsleep) (by simp)
      refine ⟨(hinv.queued .ready u hmem).2.1, y.sched.tasks u, ?_, ?_⟩
      · have hu : y.sched.readyQueue = some u := hlinked.1
        simp [firstReady, hu]
      · rw [hwoken.other u (.inl hawake)]
        exact ⟨rfl, rfl, rfl, rfl⟩
  | nil =>
      rw [hq] at hlinked hlinked₁
      rw [List.nil_append] at hlinked₁
      have hnone : y.sched.readyQueue = none := hlinked
      have hfirst : (q .sleep).find? (due (tickSystem y.sched)) = some t := by
        rw [← List.head?_filter]
        cases hf : (q .sleep).filter (due (tickSystem y.sched)) with
        | nil =>
            rw [hf] at hlinked₁
            rw [show s₁.readyQueue = none from hlinked₁] at hhead
            cases hhead
        | cons u l =>
            rw [hf] at hlinked₁
            have hu : s₁.readyQueue = some u := hlinked₁.1
            rw [List.head?_cons, ← hu, hhead]
      have hmem : t ∈ q .sleep := List.mem_of_find?_eq_some hfirst
      have hdue := List.find?_some hfirst
      refine ⟨(hinv.queued .sleep t hmem).2.1, { y.sched.tasks t with
        interruptRsp := null, resumeMode := .context }, ?_, ?_⟩
      · have hwalk : firstDueFrom y.sched (tickSystem y.sched).systemTicks
            y.sched.taskCount y.sched.sleepQueue = some t :=
          (firstDueFrom_eq (hinv.queues.linked .sleep) (hinv.length_le .sleep)).trans hfirst
        simp [firstReady, hnone, hwalk]
      · rw [hwoken.due t hmem hdue]
        exact ⟨rfl, rfl, rfl, rfl⟩

/-- `scheduler_preempt` switches no space. -/
theorem schedulerPreempt_space (s : Sched) :
    SameSpace s (schedulerPreempt s) ∧ (schedulerPreempt s).tasks = s.tasks
      ∧ (schedulerPreempt s).processes = s.processes := by
  unfold schedulerPreempt
  split_ifs <;> exact ⟨⟨fun _ => rfl, fun _ => rfl, fun _ => rfl, rfl, rfl, rfl⟩, rfl, rfl⟩

/-- Saving a frame switches no space. -/
theorem schedulerSaveInterruptContext_space (s : Sched) (rsp : Nat) :
    SameSpace s (schedulerSaveInterruptContext s rsp)
      ∧ (schedulerSaveInterruptContext s rsp).processes = s.processes
      ∧ ∀ u, s.currentTask ≠ some u →
          (schedulerSaveInterruptContext s rsp).tasks u = s.tasks u := by
  have hsame : SameSpace s s := ⟨fun _ => rfl, fun _ => rfl, fun _ => rfl, rfl, rfl, rfl⟩
  unfold schedulerSaveInterruptContext
  cases hcur : s.currentTask with
  | none => exact ⟨hsame, rfl, fun _ _ => rfl⟩
  | some t =>
      dsimp only
      split_ifs
      · exact ⟨hsame, rfl, fun _ _ => rfl⟩
      · refine ⟨setTask_sameSpace rfl rfl, rfl, fun u hu => ?_⟩
        exact Function.update_of_ne (by rintro rfl; exact hu rfl) _ _

/-- Choosing a frame switches no space. -/
theorem nextInterruptRsp_space {trampoline : Nat} {next : TaskPtr} :
    SameSpace s (nextInterruptRsp trampoline s next).2 := by
  have hbuild : ∀ s : Sched, (schedulerBuildContextInterruptRsp trampoline s next).2.processes
      = s.processes := by
    intro s
    by_cases hrsp : (s.tasks next).context.rsp = 0
    · simp [schedulerBuildContextInterruptRsp, hrsp]
    · simp only [schedulerBuildContextInterruptRsp, if_neg hrsp]
  have hroot : ∀ pr, ((nextInterruptRsp trampoline s next).2.processes pr).pageTablePhysical
      = (s.processes pr).pageTablePhysical := by
    intro pr
    unfold nextInterruptRsp
    dsimp only
    split
    · rename_i pr' _
      split_ifs
      · rw [hbuild]
        by_cases heq : pr = pr'
        · simp [setUserStarted, heq]
        · simp [setUserStarted, Function.update_of_ne heq]
      · rfl
      · rfl
      · rw [hbuild]
    · split_ifs
      · rfl
      · rw [hbuild]
  refine ⟨fun _ => ?_, fun _ => ?_, hroot, ?_, ?_, ?_⟩ <;> rw [nextInterruptRsp_eq]

theorem preemptRequeue_kept (h : preemptRequeue s = some s') : Kept s s' := by
  unfold preemptRequeue at h
  split at h
  · exact Option.some.inj h ▸ rfl
  · split_ifs at h
    · exact setState_kept.trans (readyPush_kept h)
    · exact Option.some.inj h ▸ rfl

/-- A commit loads nothing, so the task committed to must be in place. -/
theorem commit_space (h : SpaceInv s) (hpending : s.pendingTask = some t)
    (hin : InSpace s t) : SpaceInv (schedulerCommitPendingTask s) := by
  have hsame : SameSpace s (schedulerCommitPendingTask s)
      ∧ (schedulerCommitPendingTask s).currentTask = some t := by
    rw [schedulerCommitPendingTask_eq hpending]
    have hset : SameSpace s (setState s t .running) := setTask_sameSpace rfl rfl
    refine ⟨?_, rfl⟩
    split_ifs
    · exact ⟨fun _ => rfl, fun _ => rfl, fun _ => rfl, rfl, rfl, rfl⟩
    · exact ⟨hset.process, hset.stackTop, hset.root, rfl, rfl, rfl⟩
  refine ⟨by rw [hsame.1.cr3, hsame.1.active, h.cr3_eq],
    fun pr => hsame.1.root pr ▸ h.root pr, fun u hu => ?_⟩
  obtain rfl : t = u := Option.some.inj (hsame.2.symm.trans hu)
  exact hsame.1.inSpace hin

/-- `scheduler_get_next_interrupt_rsp` leaves every space alone; when it
asks for a switch, the head of the ready queue is pending. -/
theorem schedulerGetNextInterruptRsp_space {trampoline rsp : Nat}
    (hget : schedulerGetNextInterruptRsp trampoline s = some (rsp, s')) :
    SameSpace s s' ∧ s'.currentTask = s.currentTask
      ∧ (rsp ≠ null → s.preemptionRequested = true ∧ ∃ t, s.readyQueue = some t
        ∧ s'.pendingTask = some t ∧ (nextInterruptRsp trampoline s t).1 ≠ null) := by
  have hdrop : ∀ s : Sched, SameSpace s { s with preemptionRequested := false } :=
    fun _ => ⟨fun _ => rfl, fun _ => rfl, fun _ => rfl, rfl, rfl, rfl⟩
  have hnocall : ∀ {s₁ : Sched}, some (null, s₁) = some (rsp, s') → null = rsp ∧ s₁ = s' :=
    fun heq => Prod.mk.inj (Option.some.inj heq)
  unfold schedulerGetNextInterruptRsp at hget
  split_ifs at hget with hreq
  · obtain ⟨rfl, rfl⟩ := hnocall hget
    exact ⟨⟨fun _ => rfl, fun _ => rfl, fun _ => rfl, rfl, rfl, rfl⟩, rfl,
      fun hne => absurd rfl hne⟩
  · cases hnext : schedulerGetNextTask s with
    | none =>
        simp only [hnext] at hget
        obtain ⟨rfl, rfl⟩ := hnocall hget
        exact ⟨hdrop s, rfl, fun hne => absurd rfl hne⟩
    | some t =>
        simp only [hnext] at hget
        split_ifs at hget with hidle hnull
        · obtain ⟨rfl, rfl⟩ := hnocall hget
          exact ⟨hdrop s, rfl, fun hne => absurd rfl hne⟩
        · obtain ⟨rfl, rfl⟩ := hnocall hget
          exact ⟨nextInterruptRsp_space.trans (hdrop _), by rw [nextInterruptRsp_eq],
            fun hne => absurd rfl hne⟩
        · obtain ⟨s₂, hrequeue, heq⟩ := Option.map_eq_some_iff.mp hget
          obtain ⟨rfl, rfl⟩ := Prod.mk.inj heq
          have hkept : Kept (nextInterruptRsp trampoline s t).2 s₂ :=
            schedulerReadyQueuePop_kept.trans (preemptRequeue_kept hrequeue)
          have hcur : s₂.currentTask = s.currentTask := by
            rw [show s₂.currentTask = (nextInterruptRsp trampoline s t).2.currentTask from
              (congrArg Sched.currentTask hkept :), nextInterruptRsp_eq]
          have hhead : s.readyQueue = some t := by
            unfold schedulerGetNextTask at hnext
            split at hnext
            · rename_i u hu
              rw [hu, hnext]
            · exact absurd hnext.symm hidle
          refine ⟨(nextInterruptRsp_space.trans hkept.sameSpace).trans
            ⟨fun _ => rfl, fun _ => rfl, fun _ => rfl, rfl, rfl, rfl⟩, hcur, fun _ => ?_⟩
          exact ⟨by simpa using hreq, t, hhead, rfl, hnull⟩

/-- The timer interrupt under its condition. -/
theorem Stable.timer_space (h : Stable y q dead) (hspace : SpaceInv y.sched)
    {trampoline rsp : Nat} {resume : Resume}
    (hloaded : (SchedOp.timer rsp).SpaceLoaded y.sched)
    (htimer : timerInterrupt trampoline y.sched rsp = some (resume, s')) :
    SpaceInv s' := by
  have hticked : Settled (tickSystem y.sched) noWait q dead y.added :=
    h.settled.congr ⟨rfl, fun _ _ => rfl, rfl, rfl, rfl, rfl, rfl⟩ rfl
  obtain ⟨s₁, htick, hset₁, hwoken⟩ := hticked.tick
  have hexit : isrExit trampoline (schedulerPreempt s₁) rsp = some (resume, s') := by
    simpa only [timerInterrupt, htick, Option.bind_eq_bind, Option.bind_some] using htimer
  -- up to the choice of the next task nothing is loaded and none switched
  have hsame₀ : SameSpace y.sched (tickSystem y.sched) :=
    ⟨fun _ => rfl, fun _ => rfl, fun _ => rfl, rfl, rfl, rfl⟩
  have hsame₁ : SameSpace y.sched s₁ := hsame₀.trans hwoken.kept.sameSpace
  have hspace₁ : SpaceInv s₁ := (hspace.congr hsame₀ rfl).kept hwoken.kept
  obtain ⟨hsame₂, htasks₂, hprocs₂⟩ := schedulerPreempt_space s₁
  obtain ⟨hsame₃, hprocs₃, htasks₃⟩ :=
    schedulerSaveInterruptContext_space (schedulerPreempt s₁) rsp
  have hcur₃ := schedulerSaveInterruptContext_current (schedulerPreempt s₁) rsp
  have hspace₃ : SpaceInv (schedulerSaveInterruptContext (schedulerPreempt s₁) rsp) :=
    hspace₁.congr (hsame₂.trans hsame₃) (hcur₃.1.trans schedulerPreempt_current.1)
  have hshape : SameShape [] s₁ (schedulerSaveInterruptContext (schedulerPreempt s₁) rsp) :=
    schedulerPreempt_sameShape.trans schedulerSaveInterruptContext_sameShape
  obtain ⟨⟨rsp', s₄⟩, hget, hrest⟩ := Option.bind_eq_some_iff.mp hexit
  obtain ⟨hsame₄, hcur₄, hswitch⟩ := schedulerGetNextInterruptRsp_space hget
  have hspace₄ := hspace₃.congr hsame₄ hcur₄
  dsimp only at hrest
  split_ifs at hrest with hnull
  · obtain ⟨-, rfl⟩ := Prod.mk.inj (Option.some.inj hrest)
    exact hspace₄
  · obtain ⟨hreq, t, hhead, hpending, hframe⟩ := hswitch hnull
    -- the request was raised by this interrupt, so the condition applies
    have hreq₁ : s₁.preemptionRequested = false :=
      hwoken.kept.sameRequest.preemptionRequested.trans h.request
    have hends₁ : sliceEnds s₁ :=
      schedulerPreempt_request hreq₁ (hcur₃.2.preemptionRequested ▸ hreq)
    have hends : sliceEnds y.sched := by
      have hkept := hwoken.kept
      have hc : s₁.currentTask = y.sched.currentTask := (congrArg Sched.currentTask hkept :)
      have hi : s₁.idle = y.sched.idle := (congrArg Sched.idle hkept :)
      have hp : s₁.preemptionTicks = y.sched.preemptionTicks :=
        (congrArg Sched.preemptionTicks hkept :)
      rw [sliceEnds, hc, hi, hp] at hends₁
      exact hends₁
    obtain ⟨hidle, task, hfirst, hres⟩ :=
      h.firstReady_of_tick hset₁ hwoken (hshape.readyQueue.symm.trans hhead)
    have hother : (schedulerPreempt s₁).currentTask ≠ some t := by
      intro heq
      rw [schedulerPreempt_current.1] at heq
      apply hidle
      rw [← (show running s₁ = running y.sched from hwoken.kept.running_eq), running,
        if_neg (fun hi => hends₁.2.1 hi), heq]
      exact List.mem_singleton.mpr rfl
    have hresumable : resumable y.sched task = true := by
      have hprocs₁ : s₁.processes = y.sched.processes :=
        (congrArg Sched.processes hwoken.kept :)
      rw [← hres.resumable_eq hprocs₁]
      have hr := resumable_of_nextInterruptRsp hframe
      rw [htasks₃ t hother, htasks₂] at hr
      rw [← hr]
      exact (ResumeSame.resumable_eq ⟨rfl, rfl, rfl, rfl⟩
        (hprocs₃.trans hprocs₂)).symm
    have hin : InSpace s₄ t :=
      (((hsame₁.trans hsame₂).trans hsame₃).trans hsame₄).inSpace
        (hloaded hends (t, task) hfirst hresumable)
    have hcommit := commit_space hspace₄ hpending hin
    split at hrest
    · obtain ⟨-, rfl⟩ := Prod.mk.inj (Option.some.inj hrest)
      exact hcommit
    · obtain ⟨-, rfl⟩ := Prod.mk.inj (Option.some.inj hrest)
      exact hcommit

-- ============================================================= whole runs

/-- What a run must keep to: the callers' promises, and every interrupt
that ends a time slice picking a task whose space is loaded. -/
def SpaceAllowed (y : SchedSys) (op : SchedOp) : Prop :=
  op.Allowed y ∧ op.SpaceLoaded y.sched

instance (y : SchedSys) (op : SchedOp) : Decidable (SpaceAllowed y op) :=
  inferInstanceAs (Decidable (_ ∧ _))

/-- Every allowed step keeps the invariant. -/
theorem Stable.step_space (h : Stable y q dead) (hspace : SpaceInv y.sched)
    {trampoline : Nat} {op : SchedOp} (hop : SpaceAllowed y op) :
    ∃ y' q' dead', sysStep trampoline y op = some y' ∧ Stable y' q' dead'
      ∧ SpaceInv y'.sched := by
  obtain ⟨y', q', dead', hstep, hstable, -⟩ := h.step hop.1
  refine ⟨y', q', dead', hstep, hstable, ?_⟩
  obtain ⟨s', hs', hy'⟩ := Option.map_eq_some_iff.mp hstep
  have hsched : y'.sched = s' := by
    rw [← hy']
    cases op <;> rfl
  rw [hsched]
  cases op with
  | createTask id entry stack process =>
      obtain rfl := Option.some.inj hs'
      refine ⟨hspace.cr3_eq, hspace.root, fun t ht => ?_⟩
      -- the current task is older than the new one
      have hlt : t < y.sched.taskCount := by
        by_cases hidle : some t = y.sched.idle
        · obtain ⟨i, hi, hlt, -⟩ := h.settled.inv.idle
          exact Option.some.inj (hidle.trans hi) ▸ hlt
        · have hinv := (h.settled.current ht hidle).1
          exact (hinv.added_lt t (hinv.out_added t (List.mem_singleton.mpr rfl))).1
      have hold : (taskCreate y.sched id entry stack process).tasks t = y.sched.tasks t :=
        Function.update_of_ne (Nat.ne_of_lt hlt) _ _
      have hin := hspace.current t ht
      unfold InSpace at hin ⊢
      rw [hold]
      exact hin
  | addTask t => exact hspace.addTask hs'
  | yield regs =>
      obtain ⟨⟨resume, s₁⟩, hcall, rfl⟩ := Option.map_eq_some_iff.mp hs'
      exact hspace.yield hcall
  | blockCurrent regs =>
      obtain ⟨⟨resume, s₁⟩, hcall, rfl⟩ := Option.map_eq_some_iff.mp hs'
      exact hspace.blockCurrent hcall
  | unblock t => exact hspace.unblock hs'
  | sleep ticks regs =>
      obtain ⟨⟨resume, s₁⟩, hcall, rfl⟩ := Option.map_eq_some_iff.mp hs'
      exact hspace.sleep hcall
  | exit regs =>
      obtain ⟨⟨resume, s₁⟩, hcall, rfl⟩ := Option.map_eq_some_iff.mp hs'
      exact hspace.exit hcall
  | timer rsp =>
      obtain ⟨⟨resume, s₁⟩, hcall, rfl⟩ := Option.map_eq_some_iff.mp hs'
      exact h.timer_space hspace hop.2 hcall

/-- In every run from `scheduler_init` whose slice-ending interrupts pick
tasks whose space is loaded, the running task is in its own space; and
the preemptive switch does what the cooperative one does exactly under
that condition. -/
theorem sched_own_space (trampoline id entry stack : Nat) (boot : Sched)
    (hboot : boot.taskCount = 0) (hcr3 : boot.cr3 = boot.activePml4Physical)
    (hroot : ∀ pr, (boot.processes pr).pageTablePhysical ≠ 0) (ops : List SchedOp)
    (hops : AllowedRun (sysStep trampoline) SpaceAllowed (sysInit boot id entry stack)
      ops) :
    ∃ y, runOps (sysStep trampoline) (sysInit boot id entry stack) ops = some y
      ∧ (∀ t, y.sched.currentTask = some t → InSpace y.sched t)
      ∧ ∀ t, (let s := { y.sched with pendingTask := some t }
          (schedulerCommitPendingTask s).cr3 = (schedulerSwitchTo s (some t)).2.cr3
          ∧ (schedulerCommitPendingTask s).activePml4Physical
              = (schedulerSwitchTo s (some t)).2.activePml4Physical
          ∧ (schedulerCommitPendingTask s).tssRsp0
              = (schedulerSwitchTo s (some t)).2.tssRsp0
          ∧ (schedulerCommitPendingTask s).currentTask
              = (schedulerSwitchTo s (some t)).2.currentTask
          ∧ (schedulerCommitPendingTask s).tasks = (schedulerSwitchTo s (some t)).2.tasks)
        ↔ InSpace y.sched t := by
  have hinit : SpaceInv (sysInit boot id entry stack).sched :=
    ⟨hcr3, hroot, fun t ht => by simp [sysInit, schedulerInit] at ht⟩
  have hstep : ∀ y op, (∃ q dead, Stable y q dead ∧ SpaceInv y.sched) → SpaceAllowed y op →
      ∃ y', sysStep trampoline y op = some y'
        ∧ ∃ q dead, Stable y' q dead ∧ SpaceInv y'.sched := by
    intro y op hy hop
    obtain ⟨q, dead, hstable, hspace⟩ := hy
    obtain ⟨y', q', dead', hstep, hstable', hspace'⟩ := hstable.step_space hspace hop
    exact ⟨y', hstep, q', dead', hstable', hspace'⟩
  obtain ⟨y, hrun, q, dead, -, hspace⟩ :=
    run_total hstep ⟨_, _, stable_init hboot id entry stack, hinit⟩ hops
  refine ⟨y, hrun, hspace.current, fun t => ?_⟩
  exact commit_eq_switchTo_iff (s := { y.sched with pendingTask := some t })
    hspace.cr3_eq hspace.root rfl

/-- Two processes with root tables of their own. -/
def twoProcessBoot : Sched :=
  { bootSched with
    processes := fun pr => { pid := pr, pageTablePhysical := 0x2000 + 0x1000 * pr } }

/-- A task of each process, the first running, and a whole time slice. -/
def twoProcessOps : List SchedOp :=
  [.createTask 2 0x100 0x8000 (some 0), .createTask 3 0x200 0x10000 (some 1),
    .addTask 1, .addTask 2, .yield { rsp := 0x500 }]
  ++ List.replicate 10 (.timer 0xa000)

/-- The timer moves the processor to the second process's task with the
first one's tables and stack still loaded. -/
theorem preemption_keeps_old_space :
    AllowedRun (sysStep 0x42) (fun y op => op.Allowed y)
        (sysInit twoProcessBoot 1 0x50 0x4000) twoProcessOps
      ∧ ∃ y, runOps (sysStep 0x42) (sysInit twoProcessBoot 1 0x50 0x4000)
          twoProcessOps = some y
        ∧ y.sched.currentTask = some 2 ∧ y.sched.cr3 = 0x2000
        ∧ y.sched.tssRsp0 = 0xc000 ∧ ¬ InSpace y.sched 2 := by
  refine ⟨by decide, ?_⟩
  have hview : (runOps (sysStep 0x42) (sysInit twoProcessBoot 1 0x50 0x4000)
      twoProcessOps).map (fun y => (y.sched.currentTask, y.sched.cr3,
        y.sched.tssRsp0, kernelStackTop (y.sched.tasks 2)))
      = some (some 2, 0x2000, 0xc000, 0x14000) := by decide
  obtain ⟨y, hrun, hy⟩ := Option.map_eq_some_iff.mp hview
  obtain ⟨hcur, hcr3, hrsp0, hstack⟩ :
      y.sched.currentTask = some 2 ∧ y.sched.cr3 = 0x2000 ∧ y.sched.tssRsp0 = 0xc000
        ∧ kernelStackTop (y.sched.tasks 2) = 0x14000 := by simpa using hy
  refine ⟨y, hrun, hcur, hcr3, hrsp0, fun hin => ?_⟩
  have hdiff := hin.2
  rw [hrsp0, hstack] at hdiff
  exact absurd hdiff (by decide)

/-- The two tasks yield to each other, with timer interrupts between. -/
def yieldedOps : List SchedOp :=
  [.createTask 2 0x100 0x8000 (some 0), .createTask 3 0x200 0x10000 (some 1),
    .addTask 1, .addTask 2, .yield { rsp := 0x500 }]
  ++ List.replicate 4 (.timer 0xa000) ++ [.yield { rsp := 0xa100 }]
  ++ List.replicate 4 (.timer 0x12000) ++ [.yield { rsp := 0x12100 }]
  ++ List.replicate 4 (.timer 0xa000) ++ [.yield { rsp := 0xa200 }]

/-- The second task runs in the second process's space. -/
theorem sched_own_space_two_processes :
    ∃ y, runOps (sysStep 0x42) (sysInit twoProcessBoot 1 0x50 0x4000) yieldedOps = some y
      ∧ y.sched.currentTask = some 2 ∧ y.sched.cr3 = 0x3000 ∧ InSpace y.sched 2 := by
  obtain ⟨y, hrun, hspace, -⟩ := sched_own_space 0x42 1 0x50 0x4000 twoProcessBoot rfl rfl
    (fun pr => by simp [twoProcessBoot]) yieldedOps (by decide)
  have hview : (runOps (sysStep 0x42) (sysInit twoProcessBoot 1 0x50 0x4000) yieldedOps).map
      (fun y => (y.sched.currentTask, y.sched.cr3)) = some (some 2, 0x3000) := by
    decide
  rw [hrun, Option.map_some] at hview
  injection hview with hview
  injection hview with hcur hcr3
  exact ⟨y, hrun, hcur, hcr3, hspace 2 hcur⟩

end ZenithOS.Scheduler
