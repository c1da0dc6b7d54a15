/-
The code's account of where a suspended task's state is.

`resume_mode` and `interrupt_rsp` are written by every interrupt and reset
by every call that makes a task ready. They are right for the ready tasks
as long as a task that is blocked or asleep has been left in its
`context`: then the reset is right too (`TaskSaved`).

# At rest

Every call first moves tasks about, then perhaps switches. What a move
does to the tasks that do not run is `AtRest`, and one lemma carries the
account over it (`AtRest.savesInv`).
-/
import ZenithOS.Scheduler.Proofs.Switch
import ZenithOS.Sync.Resume

namespace ZenithOS.Sync

open Lib Mm Proc Scheduler

variable {s s₁ s' : Sched} {saves : TaskPtr → Option Source} {t : TaskPtr}

-- =============================================================== the account

/-- Where the code takes a task's state to be. -/
def source (task : Task) : Source :=
  if taskResumeUsesInterruptFrame task then .frame task.interruptRsp
  else .context task.context

/-- The account of a task that does not run. -/
def TaskSaved (saved : Option Source) (task : Task) : Prop :=
  match task.state with
  | .ready => saved = some (source task)
  | .blocked | .sleeping => saved = some (.context task.context)
  | .idle => saved = some (.context task.context) ∧ task.resumeMode = .context
  | .running | .terminated => True

/-- The account of all of them, in a machine of kernel tasks. -/
structure SavesInv (s : Sched) (saves : TaskPtr → Option Source) : Prop where
  kernel : ∀ t, t < s.taskCount → KernelTask s (s.tasks t).process
  idle : ∀ i, s.idle = some i → (s.tasks i).resumeMode = .context
  saved : ∀ t, t < s.taskCount → some t ≠ s.currentTask → TaskSaved (saves t) (s.tasks t)

-- ================================================================== at rest

/-- The fields that the account reads. -/
structure SameSave (task task' : Task) : Prop where
  context : task'.context = task.context
  interruptRsp : task'.interruptRsp = task.interruptRsp
  resumeMode : task'.resumeMode = task.resumeMode

/-- A blocked or sleeping task has been made ready. -/
structure MadeReady (task task' : Task) : Prop where
  slept : task.state = .blocked ∨ task.state = .sleeping
  state : task'.state = .ready
  context : task'.context = task.context
  resumeMode : task'.resumeMode = .context

/-- What a move does to a task that does not run. -/
def Rests (task task' : Task) : Prop :=
  (task'.state = task.state ∧ SameSave task task') ∨ MadeReady task task'

/-- No switch, and the tasks that do not run are moved about. -/
structure AtRest (s s' : Sched) : Prop where
  current : s'.currentTask = s.currentTask
  idle : s'.idle = s.idle
  taskCount : s'.taskCount = s.taskCount
  processes : s'.processes = s.processes
  process : ∀ t, (s'.tasks t).process = (s.tasks t).process
  idleMode : ∀ i, s.idle = some i → (s.tasks i).resumeMode = .context →
    (s'.tasks i).resumeMode = .context
  tasks : ∀ t, some t ≠ s.currentTask → Rests (s.tasks t) (s'.tasks t)

theorem SameSave.refl (task : Task) : SameSave task task := ⟨rfl, rfl, rfl⟩

theorem SameSave.trans {task task₁ task' : Task} (h : SameSave task task₁)
    (h' : SameSave task₁ task') : SameSave task task' :=
  ⟨h'.context.trans h.context, h'.interruptRsp.trans h.interruptRsp,
    h'.resumeMode.trans h.resumeMode⟩

/-- The task resumes from the same place. -/
theorem SameSave.source_eq {task task' : Task} (h : SameSave task task') :
    source task' = source task := by
  unfold source taskResumeUsesInterruptFrame
  rw [h.context, h.interruptRsp, h.resumeMode]

theorem Rests.refl (task : Task) : Rests task task := .inl ⟨rfl, SameSave.refl task⟩

theorem Rests.trans {task task₁ task' : Task} (h : Rests task task₁) (h' : Rests task₁ task') :
    Rests task task' := by
  rcases h with ⟨hstate, hsave⟩ | hready
  · rcases h' with ⟨hstate', hsave'⟩ | hready'
    · exact .inl ⟨hstate'.trans hstate, hsave.trans hsave'⟩
    · exact .inr ⟨hstate ▸ hready'.slept, hready'.state, hready'.context.trans hsave.context,
        hready'.resumeMode⟩
  · rcases h' with ⟨hstate', hsave'⟩ | hready'
    · exact .inr ⟨hready.slept, hstate'.trans hready.state,
        hsave'.context.trans hready.context, hsave'.resumeMode.trans hready.resumeMode⟩
    · rcases hready'.slept with hslept | hslept <;> rw [hready.state] at hslept <;> cases hslept

/-- A blocked task has its state in its context, and the reset says so. -/
theorem TaskSaved.rests {saved : Option Source} {task task' : Task} (h : TaskSaved saved task)
    (hrests : Rests task task') : TaskSaved saved task' := by
  rcases hrests with ⟨hstate, hsave⟩ | hready
  · unfold TaskSaved at h ⊢
    rw [hstate, hsave.source_eq, hsave.context, hsave.resumeMode]
    exact h
  · have hnot : taskResumeUsesInterruptFrame task' = false := by
      simp [taskResumeUsesInterruptFrame, hready.resumeMode]
    have hslept : saved = some (.context task.context) := by
      unfold TaskSaved at h
      rcases hready.slept with hstate | hstate
      · rw [hstate] at h
        exact h
      · rw [hstate] at h
        exact h
    unfold TaskSaved source
    rw [hready.state, hnot, hready.context]
    exact hslept

theorem AtRest.refl (s : Sched) : AtRest s s :=
  ⟨rfl, rfl, rfl, rfl, fun _ => rfl, fun _ _ h => h, fun _ _ => Rests.refl _⟩

theorem AtRest.trans (h : AtRest s s₁) (h' : AtRest s₁ s') : AtRest s s' := by
  refine ⟨h'.current.trans h.current, h'.idle.trans h.idle, h'.taskCount.trans h.taskCount,
    h'.processes.trans h.processes, fun t => (h'.process t).trans (h.process t), ?_, ?_⟩
  · intro i hi hmode
    exact h'.idleMode i (h.idle.trans hi) (h.idleMode i hi hmode)
  · intro t ht
    exact (h.tasks t ht).trans (h'.tasks t (h.current ▸ ht))

/-- Moves keep the account. -/
theorem AtRest.savesInv (h : AtRest s s') (hinv : SavesInv s saves) : SavesInv s' saves := by
  refine ⟨fun t hlt => ?_, fun i hi => ?_, fun t hlt ht => ?_⟩
  · intro pr hpr
    rw [h.processes]
    exact hinv.kernel t (h.taskCount ▸ hlt) pr (h.process t ▸ hpr)
  · rw [h.idle] at hi
    exact h.idleMode i hi (hinv.idle i hi)
  · rw [h.current] at ht
    exact (hinv.saved t (h.taskCount ▸ hlt) ht).rests (h.tasks t ht)

-- ================================================================= the moves

/-- Links, queue heads and counters are in no account. -/
structure Relinked (s s' : Sched) : Prop where
  tasks : ∃ next : TaskPtr → Option TaskPtr,
    s'.tasks = fun t => { s.tasks t with next := next t }
  current : s'.currentTask = s.currentTask
  idle : s'.idle = s.idle
  taskCount : s'.taskCount = s.taskCount
  processes : s'.processes = s.processes

theorem Relinked.refl (s : Sched) : Relinked s s := ⟨⟨links s, rfl⟩, rfl, rfl, rfl, rfl⟩

/-- Only links change. -/
theorem Relinked.task (h : Relinked s s') (t : TaskPtr) :
    s'.tasks t = { s.tasks t with next := (s'.tasks t).next } := by
  obtain ⟨next, htasks⟩ := h.tasks
  rw [htasks]

theorem Relinked.sameSave (h : Relinked s s') (t : TaskPtr) :
    SameSave (s.tasks t) (s'.tasks t) := by
  rw [h.task t]
  exact ⟨rfl, rfl, rfl⟩

theorem Relinked.state (h : Relinked s s') (t : TaskPtr) :
    (s'.tasks t).state = (s.tasks t).state := by
  rw [h.task t]

theorem Relinked.process (h : Relinked s s') (t : TaskPtr) :
    (s'.tasks t).process = (s.tasks t).process := by
  rw [h.task t]

/-- Links are nothing to a task at rest. -/
theorem Relinked.atRest (h : Relinked s s') : AtRest s s' := by
  refine ⟨h.current, h.idle, h.taskCount, h.processes, h.process, fun i _ hmode => ?_,
    fun t _ => .inl ⟨h.state t, h.sameSave t⟩⟩
  rw [(h.sameSave i).resumeMode]
  exact hmode

theorem AtRest.of_tasks (htasks : s'.tasks = s.tasks) (hcur : s'.currentTask = s.currentTask)
    (hidle : s'.idle = s.idle) (hcount : s'.taskCount = s.taskCount)
    (hprocesses : s'.processes = s.processes) : AtRest s s' :=
  Relinked.atRest ⟨⟨links s, htasks⟩, hcur, hidle, hcount, hprocesses⟩

/-- The running task, which is not idle, may be written at will. -/
theorem setTask_current_atRest {task : Task} (hcur : s.currentTask = some t)
    (hidle : some t ≠ s.idle) (hprocess : task.process = (s.tasks t).process) :
    AtRest s (setTask s t task) := by
  have hother : ∀ u, u ≠ t → (setTask s t task).tasks u = s.tasks u :=
    fun u hu => Function.update_of_ne hu _ _
  refine ⟨rfl, rfl, rfl, rfl, fun u => ?_, fun i hi hmode => ?_, fun u hu => ?_⟩
  · by_cases hut : u = t
    · subst hut
      simpa using hprocess
    · rw [hother u hut]
  · rw [hother i fun heq => hidle (heq ▸ hi.symm)]
    exact hmode
  · rw [hother u fun heq => hu (heq ▸ hcur.symm)]
    exact Rests.refl _

theorem taskQueuePush_relinked {head head' : Option TaskPtr}
    (h : taskQueuePush s head t = some (s', head')) : Relinked s s' := by
  obtain ⟨next, rfl⟩ := taskQueuePush_links h
  exact ⟨⟨next, rfl⟩, rfl, rfl, rfl, rfl⟩

theorem taskQueueRemove_relinked {head head' : Option TaskPtr}
    (h : taskQueueRemove s head t = some (s', head')) : Relinked s s' := by
  obtain ⟨next, rfl⟩ := taskQueueRemove_links h
  exact ⟨⟨next, rfl⟩, rfl, rfl, rfl, rfl⟩

theorem readyPush_relinked (h : readyPush s t = some s') : Relinked s s' := by
  obtain ⟨⟨s₁, head⟩, hpush, rfl⟩ := Option.map_eq_some_iff.mp h
  obtain ⟨next, rfl⟩ := taskQueuePush_links hpush
  exact ⟨⟨next, rfl⟩, rfl, rfl, rfl, rfl⟩

theorem blockedPush_relinked (h : blockedPush s t = some s') : Relinked s s' := by
  obtain ⟨⟨s₁, head⟩, hpush, rfl⟩ := Option.map_eq_some_iff.mp h
  obtain ⟨next, rfl⟩ := taskQueuePush_links hpush
  exact ⟨⟨next, rfl⟩, rfl, rfl, rfl, rfl⟩

theorem schedulerSleepQueueAdd_relinked (h : schedulerSleepQueueAdd s t = some s') :
    Relinked s s' := by
  obtain ⟨⟨s₁, head⟩, hpush, rfl⟩ := Option.map_eq_some_iff.mp h
  obtain ⟨next, rfl⟩ := taskQueuePush_links hpush
  exact ⟨⟨next, rfl⟩, rfl, rfl, rfl, rfl⟩

theorem blockedRemove_relinked (h : blockedRemove s t = some s') : Relinked s s' := by
  obtain ⟨⟨s₁, head⟩, hremove, rfl⟩ := Option.map_eq_some_iff.mp h
  obtain ⟨next, rfl⟩ := taskQueueRemove_links hremove
  exact ⟨⟨next, rfl⟩, rfl, rfl, rfl, rfl⟩

theorem schedulerReadyQueuePop_relinked : Relinked s (schedulerReadyQueuePop s) := by
  unfold schedulerReadyQueuePop
  cases hhead : s.readyQueue with
  | none => exact Relinked.refl s
  | some t =>
      refine ⟨⟨Function.update (links s) t none, ?_⟩, rfl, rfl, rfl, rfl⟩
      funext u
      by_cases hut : u = t
      · subst hut
        simp
      · simp [Function.update_of_ne hut, links]

/-- Waking and unblocking. -/
theorem makeReady_atRest
    (hslept : (s.tasks t).state = .blocked ∨ (s.tasks t).state = .sleeping)
    (h : readyPush (schedulerResetResumeState (setState s t .ready) t) t = some s') :
    AtRest s s' := by
  refine AtRest.trans ?_ (readyPush_relinked h).atRest
  have hself : (schedulerResetResumeState (setState s t .ready) t).tasks t
      = { s.tasks t with state := .ready, interruptRsp := null, resumeMode := .context } := by
    simp [schedulerResetResumeState, setState]
  have hother : ∀ u, u ≠ t →
      (schedulerResetResumeState (setState s t .ready) t).tasks u = s.tasks u := by
    intro u hu
    simp [schedulerResetResumeState, setState, Function.update_of_ne hu]
  refine ⟨rfl, rfl, rfl, rfl, fun u => ?_, fun i _ hmode => ?_, fun u _ => ?_⟩
  · by_cases hut : u = t
    · rw [hut, hself]
    · rw [hother u hut]
  · by_cases hit : i = t
    · rw [hit, hself]
    · rw [hother i hit]
      exact hmode
  · by_cases hut : u = t
    · rw [hut, hself]
      exact .inr ⟨hslept, rfl, rfl, rfl⟩
    · rw [hother u hut]
      exact Rests.refl _

/-- The wake-up loop. -/
theorem woken_atRest {rest : List TaskPtr} (h : Woken rest s s')
    (hsleep : ∀ t ∈ rest, (s.tasks t).state = .sleeping) : AtRest s s' := by
  have hkept := h.kept
  -- each task is readied or keeps all but its link
  have htask : ∀ t, (t ∈ rest ∧ Readied s s' t) ∨ SameTask s s' t := by
    intro t
    by_cases hmem : t ∈ rest
    · cases hdue : due s t with
      | true => exact .inl ⟨hmem, h.due t hmem hdue⟩
      | false => exact .inr (h.other t (.inr hdue))
    · exact .inr (h.other t (.inl hmem))
  refine ⟨(congrArg Sched.currentTask hkept :), (congrArg Sched.idle hkept :),
    (congrArg Sched.taskCount hkept :), (congrArg Sched.processes hkept :),
    fun t => (congrArg (fun c : Sched => (c.tasks t).process) hkept :), ?_, ?_⟩
  · intro i _ hmode
    rcases htask i with ⟨-, hready⟩ | hsame
    · rw [hready]
    · rw [hsame]
      exact hmode
  · intro t _
    rcases htask t with ⟨hmem, hready⟩ | hsame
    · rw [hready]
      exact .inr ⟨.inr (hsleep t hmem), rfl, rfl, rfl⟩
    · rw [hsame]
      exact .inl ⟨rfl, rfl, rfl, rfl⟩

/-- A blocked task is woken. -/
theorem schedulerUnblockLocked_atRest (hstate : (s.tasks t).state = .blocked)
    (h : schedulerUnblockLocked s t = some s') : AtRest s s' := by
  obtain ⟨s₁, hremove, hready⟩ := Option.bind_eq_some_iff.mp h
  have hrelinked := blockedRemove_relinked hremove
  exact hrelinked.atRest.trans
    (makeReady_atRest (.inl ((hrelinked.state t).trans hstate)) hready)

/-- `scheduler_unblock` in one go. -/
theorem schedulerUnblock_atRest (h : schedulerUnblock s (some t) = some s') : AtRest s s' := by
  rcases schedulerUnblock_cases h with ⟨-, rfl⟩ | ⟨hstate, hlocked⟩
  · exact AtRest.refl _
  · exact schedulerUnblockLocked_atRest hstate hlocked

/-- `mutex_unlock` leaves the tasks at rest. -/
theorem mutexUnlock_atRest {mutex mutex' : Mutex} (h : mutexUnlock s mutex = some (mutex', s')) :
    AtRest s s' := by
  unfold mutexUnlock at h
  cases hcur : s.currentTask with
  | none =>
      rw [hcur] at h
      obtain ⟨-, rfl⟩ := Prod.mk.inj (Option.some.inj h)
      exact AtRest.refl _
  | some current =>
      rw [hcur] at h
      dsimp only at h
      by_cases hown : mutex.owner ≠ some current
      · rw [if_pos hown] at h
        obtain ⟨-, rfl⟩ := Prod.mk.inj (Option.some.inj h)
        exact AtRest.refl _
      · rw [if_neg hown] at h
        cases hqueue : mutex.waitQueue with
        | none =>
            rw [hqueue] at h
            obtain ⟨-, rfl⟩ := Prod.mk.inj (Option.some.inj h)
            exact AtRest.refl _
        | some next =>
            rw [hqueue] at h
            obtain ⟨⟨s₁, head⟩, hremove, h⟩ := Option.bind_eq_some_iff.mp h
            obtain ⟨s₂, hunblock, h⟩ := Option.bind_eq_some_iff.mp h
            obtain ⟨-, rfl⟩ := Prod.mk.inj (Option.some.inj h)
            exact (taskQueueRemove_relinked hremove).atRest.trans (schedulerUnblock_atRest hunblock)

/-- A new task has its state in the context it was made with. -/
theorem taskCreate_savesInv (h : SavesInv s saves) (id entry stack : Nat)
    {process : Option ProcessPtr} (hprocess : KernelTask s process)
    (hidle : ∀ i, s.idle = some i → i < s.taskCount) :
    SavesInv (taskCreate s id entry stack process) (Function.update saves s.taskCount
      (some (.context ((taskCreate s id entry stack process).tasks s.taskCount).context))) := by
  have hold : ∀ t, t ≠ s.taskCount →
      (taskCreate s id entry stack process).tasks t = s.tasks t :=
    fun t ht => Function.update_of_ne ht _ _
  have hnew : (taskCreate s id entry stack process).tasks s.taskCount
      = { id := id, entry := entry, kernelStack := stack, kernelStackSize := kernelStackSize
          process := process, context := { rsp := stack + kernelStackSize - 16 } } := by
    simp [taskCreate]
  refine ⟨fun t hlt => ?_, fun i hi => ?_, fun t hlt ht => ?_⟩
  · have hlt' : t < s.taskCount + 1 := hlt
    by_cases htn : t = s.taskCount
    · rw [htn, hnew]
      exact hprocess
    · rw [hold t htn]
      exact h.kernel t (by omega)
  · have hi' : s.idle = some i := hi
    have hlt := hidle i hi'
    rw [hold i (Nat.ne_of_lt hlt)]
    exact h.idle i hi'
  · have hlt' : t < s.taskCount + 1 := hlt
    by_cases htn : t = s.taskCount
    · rw [htn, Function.update_self, hnew]
      rfl
    · rw [Function.update_of_ne htn, hold t htn]
      exact h.saved t (by omega) ht

end ZenithOS.Sync
