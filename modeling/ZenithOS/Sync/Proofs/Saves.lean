/-
The account of the saves over the scheduler's switches: the dispatch of
`scheduler_yield` and the exit of a timer interrupt.

Either leaves the previous task where the account says, resumes the next
one from where it was left, and otherwise only moves tasks about.
-/
import ZenithOS.Scheduler.Proofs.Calls
import ZenithOS.Scheduler.Proofs.Frames
import ZenithOS.Sync.Proofs.AtRest

namespace ZenithOS.Sync

open Lib Mm Proc Scheduler

variable {μ : Type} [DecidableEq μ] {s s₁ s' : Sched} {saves : TaskPtr → Option Source}
  {t : TaskPtr} {regs : CpuContext} {resume : Resume} {wait : μ → Option TaskPtr}
  {q : QueueId μ → List TaskPtr} {out dead added : List TaskPtr} {trampoline : Nat}

-- ============================================================== the switches

/-- What a call leaves that resumes as `resumption` says, the previous
task's state being at `source`. -/
structure Switched (saves : TaskPtr → Option Source) (previous : Option TaskPtr)
    (source : Source) (resumption : Option (TaskPtr × Source)) (s' : Sched) : Prop where
  inv : SavesInv s' (match resumption with
    | none => saves
    | some _ => saved saves previous (some source))
  last : ∀ t src, resumption = some (t, src) → saves t = some src

/-- The call goes back to its caller. -/
theorem Switched.back (h : SavesInv s' saves) {previous : Option TaskPtr} {src : Source} :
    Switched saves previous src none s' :=
  ⟨h, fun _ _ heq => by cases heq⟩

/-- What `scheduler_schedule` writes in a task that it does not run. -/
structure Scheduled (s s' : Sched) (next : TaskPtr) : Prop where
  current : s'.currentTask = some next
  idle : s'.idle = s.idle
  taskCount : s'.taskCount = s.taskCount
  processes : s'.processes = s.processes
  process : ∀ t, (s'.tasks t).process = (s.tasks t).process
  save : ∀ t, SameSave (s.tasks t) (s'.tasks t)
  state : ∀ t, t ≠ next → (s'.tasks t).state = (s.tasks t).state

theorem schedulerSwitchTo_scheduled :
    Scheduled s (schedulerSwitchTo s (some t)).2 t := by
  have hspace : SameShape [] s (switchAddressSpace s t) := switchAddressSpace_sameShape
  have hprocesses : (switchAddressSpace s t).processes = s.processes := by
    unfold switchAddressSpace pageTableSwitch
    split
    · split_ifs <;> rfl
    · rfl
  rw [schedulerSwitchTo_eq]
  refine ⟨rfl, hspace.idle, hspace.taskCount, hprocesses, fun u => ?_, fun u => ?_,
    fun u hu => ?_⟩
  · dsimp only
    split_ifs
    · rfl
    · by_cases hut : u = t
      · rw [hut, Function.update_self]
      · rw [Function.update_of_ne hut]
  · dsimp only
    split_ifs
    · exact SameSave.refl _
    · by_cases hut : u = t
      · rw [hut, Function.update_self]
        exact ⟨rfl, rfl, rfl⟩
      · rw [Function.update_of_ne hut]
        exact SameSave.refl _
  · dsimp only
    split_ifs
    · rfl
    · rw [Function.update_of_ne hu]

theorem Scheduled.after_relinked {next : TaskPtr} (h : Scheduled s₁ s' next)
    (hrelinked : Relinked s s₁) : Scheduled s s' next :=
  ⟨h.current, h.idle.trans hrelinked.idle, h.taskCount.trans hrelinked.taskCount,
    h.processes.trans hrelinked.processes,
    fun t => (h.process t).trans (hrelinked.process t),
    fun t => (hrelinked.sameSave t).trans (h.save t),
    fun t ht => (h.state t ht).trans (hrelinked.state t)⟩

/-- `scheduler_schedule` with every task queued. -/
theorem schedulerSchedule_scheduled (h : SchedInv s wait q [] dead added) :
    ∃ next s', schedulerSchedule s = (some next, s') ∧ Scheduled s s' next
      ∧ next < s.taskCount
      ∧ ((s.tasks next).state = .ready ∨ (s.tasks next).state = .idle) := by
  rcases h.schedule_cases with ⟨i, -, hidle, heq⟩ | ⟨t, l, hq, -, -, heq⟩
  · obtain ⟨i', hi', hlt, hstate⟩ := h.idle
    obtain rfl : i = i' := Option.some.inj (hidle.symm.trans hi')
    refine ⟨i, _, ?_, schedulerSwitchTo_scheduled, hlt, .inr hstate⟩
    rw [heq, schedulerSwitchTo_eq]
  · obtain ⟨hadd, -, hstate⟩ := h.queued .ready t (by simp [hq])
    refine ⟨t, _, ?_, schedulerSwitchTo_scheduled.after_relinked schedulerReadyQueuePop_relinked,
      (h.added_lt t hadd).1, .inl hstate⟩
    rw [heq, schedulerSwitchTo_eq]

/-- The account where the next task is current. -/
theorem Scheduled.savesInv {next : TaskPtr} (h : Scheduled s s' next) (hs : SavesInv s saves)
    (hcur : s.currentTask = some next) : SavesInv s' saves := by
  refine ⟨fun t hlt pr hpr => ?_, fun i hi => ?_, fun t hlt ht => ?_⟩
  · rw [h.processes]
    exact hs.kernel t (h.taskCount ▸ hlt) pr (h.process t ▸ hpr)
  · rw [(h.save i).resumeMode]
    exact hs.idle i (h.idle ▸ hi)
  · rw [h.current] at ht
    have htn : t ≠ next := fun heq => ht (heq ▸ rfl)
    refine (hs.saved t (h.taskCount ▸ hlt) ?_).rests (.inl ⟨h.state t htn, h.save t⟩)
    rw [hcur]
    exact ht

/-- The account after the previous task has been saved in its context. -/
theorem Scheduled.savesInv_saved {next : TaskPtr} (h : Scheduled s s' next)
    (hs : SavesInv s saves) (hleft : some next ≠ s.currentTask)
    (hprev : ∀ p, s.currentTask = some p →
      TaskSaved (some (.context regs)) { s.tasks p with context := regs }) :
    SavesInv (saveContext s' s.currentTask regs)
      (saved saves s.currentTask (some (.context regs))) := by
  cases hcur : s.currentTask with
  | none =>
      refine ⟨fun t hlt pr hpr => ?_, fun i hi => ?_, fun t hlt ht => ?_⟩
      · exact h.processes ▸ hs.kernel t (h.taskCount ▸ hlt) pr (h.process t ▸ hpr)
      · exact (h.save i).resumeMode.trans (hs.idle i (h.idle ▸ hi))
      · have ht' : some t ≠ s'.currentTask := ht
        rw [h.current] at ht'
        have htn : t ≠ next := fun heq => ht' (heq ▸ rfl)
        refine (hs.saved t (h.taskCount ▸ hlt) ?_).rests (.inl ⟨h.state t htn, h.save t⟩)
        rw [hcur]
        exact (Option.some_ne_none t)
  | some p =>
      have hother : ∀ t, t ≠ p →
          (saveContext s' (some p) regs).tasks t = s'.tasks t :=
        fun t ht => Function.update_of_ne ht _ _
      have hself : (saveContext s' (some p) regs).tasks p
          = { s'.tasks p with context := regs } :=
        Function.update_self ..
      have hpn : p ≠ next := fun heq => hleft (by rw [hcur, heq])
      refine ⟨fun t hlt pr hpr => ?_, fun i hi => ?_, fun t hlt ht => ?_⟩
      · have hprocess : ((saveContext s' (some p) regs).tasks t).process
            = (s'.tasks t).process := by
          by_cases htp : t = p
          · rw [htp, hself]
          · rw [hother t htp]
        rw [hprocess, h.process t] at hpr
        exact h.processes ▸ hs.kernel t (h.taskCount ▸ hlt) pr hpr
      · have hmode : ((saveContext s' (some p) regs).tasks i).resumeMode
            = (s'.tasks i).resumeMode := by
          by_cases hip : i = p
          · rw [hip, hself]
          · rw [hother i hip]
        rw [hmode, (h.save i).resumeMode]
        exact hs.idle i (h.idle ▸ hi)
      · have ht' : some t ≠ s'.currentTask := ht
        rw [h.current] at ht'
        have htn : t ≠ next := fun heq => ht' (heq ▸ rfl)
        by_cases htp : t = p
        · rw [htp, hself]
          have hsaved : TaskSaved (some (.context regs)) { s'.tasks p with context := regs } :=
            (hprev p hcur).rests (.inl ⟨h.state p hpn, rfl, (h.save p).interruptRsp,
              (h.save p).resumeMode⟩)
          simpa [saved] using hsaved
        · rw [hother t htp]
          have hold : saved saves (some p) (some (.context regs)) t = saves t :=
            Function.update_of_ne htp _ _
          rw [hold]
          refine (hs.saved t (h.taskCount ▸ hlt) ?_).rests (.inl ⟨h.state t htn, h.save t⟩)
          rw [hcur]
          exact fun heq => htp (Option.some.inj heq)

/-- A ready task, or idle, has its state where the code looks for it. -/
theorem TaskSaved.source_eq {src : Option Source} {task : Task} (h : TaskSaved src task)
    (hstate : task.state = .ready ∨ task.state = .idle) : src = some (source task) := by
  unfold TaskSaved at h
  rcases hstate with hready | hidle
  · rw [hready] at h
    exact h
  · rw [hidle] at h
    obtain ⟨hcontext, hmode⟩ := h
    simp [source, taskResumeUsesInterruptFrame, hmode, hcontext]

/-- The second half of `scheduler_yield`. -/
theorem schedulerDispatch_switched (h : SchedInv s wait q [] dead added)
    (hs : SavesInv s saves)
    (hprev : ∀ p, s.currentTask = some p →
      TaskSaved (some (.context regs)) { s.tasks p with context := regs })
    (hdisp : schedulerDispatch s regs = (resume, s')) :
    Switched saves s.currentTask (.context regs) (resumedFrom resume) s' := by
  obtain ⟨next, s₁, hsched, hnext, hlt, hstate⟩ := schedulerSchedule_scheduled h
  unfold schedulerDispatch at hdisp
  rw [hsched] at hdisp
  dsimp only at hdisp
  by_cases hsame : some next = s.currentTask
  · rw [if_pos hsame] at hdisp
    obtain ⟨rfl, rfl⟩ := Prod.mk.inj hdisp
    exact Switched.back (hnext.savesInv hs hsame.symm)
  · rw [if_neg hsame] at hdisp
    have hinv := hnext.savesInv_saved hs hsame hprev
    have hlast : saves next = some (source (s₁.tasks next)) := by
      rw [(hnext.save next).source_eq]
      exact (hs.saved next hlt hsame).source_eq hstate
    by_cases hframe : taskResumeUsesInterruptFrame (s₁.tasks next) = true
    · rw [if_pos hframe] at hdisp
      obtain ⟨rfl, rfl⟩ := Prod.mk.inj hdisp
      refine ⟨hinv, fun t src heq => ?_⟩
      cases heq
      rw [hlast, source, if_pos hframe]
    · rw [if_neg hframe] at hdisp
      obtain ⟨rfl, rfl⟩ := Prod.mk.inj hdisp
      refine ⟨hinv, fun t src heq => ?_⟩
      cases heq
      rw [hlast, source, if_neg hframe]

-- ============================================================== the calls

/-- Moves before the switch. -/
theorem Switched.after {previous : Option TaskPtr} {src : Source}
    {resumption : Option (TaskPtr × Source)} (h : Switched saves s₁.currentTask src resumption s')
    (hcur : s₁.currentTask = previous) : Switched saves previous src resumption s' :=
  hcur ▸ h

/-- `scheduler_yield` by a task that is not running: it stays where it is
queued, if anywhere. -/
theorem yieldAway_switched (h : SchedInv s wait q [] dead added) (hs : SavesInv s saves)
    (hcur : s.currentTask = some t)
    (hstate : (s.tasks t).state = .blocked ∨ (s.tasks t).state = .sleeping
      ∨ (s.tasks t).state = .terminated)
    (hrun : schedulerYield s regs = some (resume, s')) :
    Switched saves (some t) (.context regs) (resumedFrom resume) s' := by
  have hnot : (s.tasks t).state ≠ .running := by
    intro heq
    rw [heq] at hstate
    rcases hstate with heq | heq | heq <;> cases heq
  rw [schedulerYield_queued fun u hu => ?_] at hrun
  rotate_left
  · obtain rfl : t = u := Option.some.inj (hcur.symm.trans hu)
    exact .inr hnot
  refine (schedulerDispatch_switched h hs (fun p hp => ?_) (Option.some.inj hrun)).after hcur
  obtain rfl : t = p := Option.some.inj (hcur.symm.trans hp)
  unfold TaskSaved
  dsimp only
  rcases hstate with heq | heq | heq
  · rw [heq]
  · rw [heq]
  · rw [heq]
    trivial

theorem schedulerYield_switched (h : Settled s wait q dead added) (hs : SavesInv s saves)
    (hrun : schedulerYield s regs = some (resume, s')) :
    Switched saves s.currentTask (.context regs) (resumedFrom resume) s' := by
  by_cases hidle : s.currentTask = s.idle ∨ s.currentTask = none
  · -- idle and the boot stream are not requeued
    have hout : running s = [] := by
      rcases hidle with hidle | hnone
      · exact if_pos hidle
      · exact running_none hnone
    have hinv := h.inv
    rw [hout] at hinv
    obtain ⟨i, hi, -, hstate⟩ := hinv.idle
    have hcur : ∀ t, s.currentTask = some t → t = i := by
      intro t ht
      rcases hidle with hidle | hnone
      · exact Option.some.inj (ht.symm.trans (hidle.trans hi))
      · rw [hnone] at ht
        cases ht
    rw [schedulerYield_queued fun t ht => .inl (by rw [hcur t ht, hi])] at hrun
    refine schedulerDispatch_switched hinv hs (fun p hp => ?_) (Option.some.inj hrun)
    rw [hcur p hp]
    unfold TaskSaved
    dsimp only
    rw [hstate]
    exact ⟨rfl, hs.idle i hi⟩
  · rw [not_or] at hidle
    obtain ⟨t, hcur⟩ := Option.ne_none_iff_exists'.mp hidle.2
    have hti : some t ≠ s.idle := fun heq => hidle.1 (hcur.trans heq)
    obtain ⟨hinv, hstate⟩ := h.current hcur hti
    obtain ⟨s₁, hrequeue, hinv₁, hs₁⟩ := hinv.requeue hcur hstate
    obtain ⟨s₂, hrequeue', hdisp⟩ := Option.map_eq_some_iff.mp hrun
    obtain rfl := Option.some.inj (hrequeue.symm.trans hrequeue')
    have hself : (s₁.tasks t).state = .ready ∧ (s₁.tasks t).resumeMode = .context := by
      rw [hs₁, relink_state]
      constructor <;> simp [relink, setLinks, schedulerResetResumeState, setState]
    have hpush : readyPush (schedulerResetResumeState (setState s t .ready) t) t = some s₁ := by
      rw [← hrequeue]
      simp [schedulerRequeue, hcur, hti, hstate]
    have hrest : AtRest s s₁ := by
      have hset : AtRest s (setState s t .ready) := setTask_current_atRest hcur hti rfl
      have hreset : AtRest (setState s t .ready)
          (schedulerResetResumeState (setState s t .ready) t) :=
        setTask_current_atRest hcur hti rfl
      exact (hset.trans hreset).trans (readyPush_relinked hpush).atRest
    refine (schedulerDispatch_switched hinv₁ (hrest.savesInv hs) (fun p hp => ?_) hdisp).after
      hrest.current
    rw [hrest.current, hcur] at hp
    obtain rfl := Option.some.inj hp
    unfold TaskSaved
    dsimp only
    rw [hself.1]
    simp [source, taskResumeUsesInterruptFrame, hself.2]

theorem schedulerBlockCurrentLocked_switched (h : Settled s wait q dead added)
    (hs : SavesInv s saves)
    (hrun : schedulerBlockCurrentLocked s regs = some (resume, s')) :
    Switched saves s.currentTask (.context regs) (resumedFrom resume) s' := by
  rcases schedulerBlockCurrentLocked_cases hrun with
    ⟨rfl, rfl⟩ | ⟨t, s₁, hcur, hidle, hpush, hyield⟩
  · exact Switched.back hs
  · obtain ⟨hinv, -⟩ := h.current hcur hidle
    have hblocked : SchedInv (setState s t .blocked) wait q [t] dead added :=
      hinv.congr (setState_sameShape (List.mem_cons_self ..))
    obtain ⟨next, head, hpush', hinv₁⟩ := hblocked.blockedPush (by simp [setState])
    obtain rfl := Option.some.inj (hpush'.symm.trans hpush)
    have hset : AtRest s (setState s t .blocked) := setTask_current_atRest hcur hidle rfl
    have hrest := hset.trans (blockedPush_relinked hpush).atRest
    rw [hcur]
    exact yieldAway_switched hinv₁ (hrest.savesInv hs) (hrest.current.trans hcur)
      (.inl (by simp [relink_state, setState])) hyield

theorem schedulerSleep_switched {ticks : Nat} (h : Settled s wait q dead added)
    (hs : SavesInv s saves) (hrun : schedulerSleep s ticks regs = some (resume, s')) :
    Switched saves s.currentTask (.context regs) (resumedFrom resume) s' := by
  rcases schedulerSleep_cases hrun with ⟨rfl, rfl⟩ | ⟨t, s₁, hcur, hidle, hpush, hyield⟩
  · exact Switched.back hs
  · obtain ⟨hinv, -⟩ := h.current hcur hidle
    have hasleep : SchedInv (setTask s t { s.tasks t with
        wakeTick := (s.systemTicks + ticks) % 2 ^ 64, state := .sleeping })
        wait q [t] dead added :=
      hinv.congr (setTask_sameShape rfl (.inl (List.mem_cons_self ..)))
    obtain ⟨next, head, hpush', hinv₁⟩ := hasleep.sleepQueueAdd (by simp)
    obtain rfl := Option.some.inj (hpush'.symm.trans hpush)
    have hset : AtRest s (setTask s t { s.tasks t with
        wakeTick := (s.systemTicks + ticks) % 2 ^ 64, state := .sleeping }) :=
      setTask_current_atRest hcur hidle rfl
    have hrest := hset.trans (schedulerSleepQueueAdd_relinked hpush).atRest
    rw [hcur]
    exact yieldAway_switched hinv₁ (hrest.savesInv hs) (hrest.current.trans hcur)
      (.inr (.inl (by simp [relink_state]))) hyield

theorem taskExit_switched (h : Settled s wait q dead added) (hs : SavesInv s saves)
    (hcur : s.currentTask = some t) (hidle : some t ≠ s.idle)
    (hrun : taskExit s regs = some (resume, s')) :
    Switched saves s.currentTask (.context regs) (resumedFrom resume) s' := by
  unfold taskExit at hrun
  rw [hcur] at hrun
  dsimp only at hrun
  obtain ⟨hinv, -⟩ := h.current hcur hidle
  have hdead : SchedInv (setState s t .terminated) wait q [t] dead added :=
    hinv.congr (setState_sameShape (List.mem_cons_self ..))
  have hset : AtRest s (setState s t .terminated) := setTask_current_atRest hcur hidle rfl
  rw [hcur]
  exact yieldAway_switched (hdead.bury (by simp [setState])) (hset.savesInv hs) hcur
    (.inr (.inr (by simp [setState]))) hrun

-- =============================================================== interrupts

theorem schedulerPreempt_atRest : AtRest s (schedulerPreempt s) := by
  unfold schedulerPreempt
  split_ifs
  · exact AtRest.refl s
  all_goals exact AtRest.of_tasks rfl rfl rfl rfl rfl

theorem schedulerSaveInterruptContext_atRest (s : Sched) (rsp : Nat) :
    AtRest s (schedulerSaveInterruptContext s rsp) := by
  unfold schedulerSaveInterruptContext
  cases hcur : s.currentTask with
  | none => exact AtRest.refl s
  | some t =>
      dsimp only
      by_cases hidle : some t = s.idle
      · rw [if_pos hidle]
        exact AtRest.refl s
      · rw [if_neg hidle]
        exact setTask_current_atRest hcur hidle rfl

/-- Up to the exit path a timer interrupt moves tasks about. -/
theorem timer_start (h : SchedInv s wait q out dead added)
    (hreq : s.preemptionRequested = false) :
    ∃ s₁, schedulerTick (tickSystem s) = some s₁
      ∧ SchedInv s₁ wait (afterWake (tickSystem s) q [] (q .sleep)) out dead added
      ∧ Woken (q .sleep) (tickSystem s) s₁ ∧ AtRest s (schedulerPreempt s₁)
      ∧ ((schedulerPreempt s₁).preemptionRequested = true → sliceEnds s) := by
  have hticked : SchedInv (tickSystem s) wait q out dead added :=
    h.congr ⟨rfl, fun _ _ => rfl, rfl, rfl, rfl, rfl, rfl⟩
  obtain ⟨s₁, htick, hinv, hwoken⟩ := hticked.tick
  have hkept := hwoken.kept
  have hticks : AtRest s (tickSystem s) := AtRest.of_tasks rfl rfl rfl rfl rfl
  have hwakes : AtRest (tickSystem s) s₁ :=
    woken_atRest hwoken fun t ht => (h.queued .sleep t ht).2.2
  refine ⟨s₁, htick, hinv, hwoken, (hticks.trans hwakes).trans schedulerPreempt_atRest,
    fun hrequest => ?_⟩
  have hends := schedulerPreempt_request (hkept.sameRequest.preemptionRequested.trans hreq)
    hrequest
  have hc : s₁.currentTask = s.currentTask := (congrArg Sched.currentTask hkept :)
  have hi : s₁.idle = s.idle := (congrArg Sched.idle hkept :)
  have hp : s₁.preemptionTicks = s.preemptionTicks := (congrArg Sched.preemptionTicks hkept :)
  unfold sliceEnds at hends ⊢
  rw [hc, hi, hp] at hends
  exact hends

/-- For a kernel task the frame is the saved one or a trampoline. -/
theorem nextInterruptRsp_kernel (h : KernelTask s (s.tasks t).process) :
    nextInterruptRsp trampoline s t
      = if taskResumeUsesInterruptFrame (s.tasks t) then ((s.tasks t).interruptRsp, s)
        else schedulerBuildContextInterruptRsp trampoline s t := by
  unfold nextInterruptRsp
  dsimp only
  cases hprocess : (s.tasks t).process with
  | none => rfl
  | some pr =>
      have huser : (s.processes pr).isUserProcess = false := h pr hprocess
      dsimp only
      rw [huser]
      exact if_neg Bool.false_ne_true

theorem nextFrame_kernel (h : KernelTask s (s.tasks t).process) :
    nextFrame s t
      = if taskResumeUsesInterruptFrame (s.tasks t) then .saved else .trampoline := by
  unfold nextFrame
  dsimp only
  cases hprocess : (s.tasks t).process with
  | none => rfl
  | some pr =>
      have huser : (s.processes pr).isUserProcess = false := h pr hprocess
      dsimp only
      rw [huser]
      exact if_neg Bool.false_ne_true

theorem nextInterruptRsp_relinked (trampoline : Nat) (h : KernelTask s (s.tasks t).process) :
    Relinked s (nextInterruptRsp trampoline s t).2 := by
  rw [nextInterruptRsp_kernel h]
  split_ifs
  · exact Relinked.refl s
  · unfold schedulerBuildContextInterruptRsp
    dsimp only
    split_ifs
    · exact Relinked.refl s
    · exact ⟨⟨links s, rfl⟩, rfl, rfl, rfl, rfl⟩

/-- What a preemption writes in the tasks: the previous one is ready. -/
structure Requeued (s s' : Sched) : Prop where
  current : s'.currentTask = s.currentTask
  idle : s'.idle = s.idle
  taskCount : s'.taskCount = s.taskCount
  processes : s'.processes = s.processes
  process : ∀ t, (s'.tasks t).process = (s.tasks t).process
  save : ∀ t, SameSave (s.tasks t) (s'.tasks t)
  state : ∀ t, some t ≠ s.currentTask → (s'.tasks t).state = (s.tasks t).state
  previous : ∀ t, s.currentTask = some t → some t ≠ s.idle → (s'.tasks t).state = .ready

theorem Requeued.after_relinked (h : Requeued s₁ s') (hrelinked : Relinked s s₁) :
    Requeued s s' :=
  ⟨h.current.trans hrelinked.current, h.idle.trans hrelinked.idle,
    h.taskCount.trans hrelinked.taskCount, h.processes.trans hrelinked.processes,
    fun t => (h.process t).trans (hrelinked.process t),
    fun t => (hrelinked.sameSave t).trans (h.save t),
    fun t ht => (h.state t (hrelinked.current ▸ ht)).trans (hrelinked.state t),
    fun t ht hidle => h.previous t (hrelinked.current.trans ht)
      (by rw [hrelinked.idle]; exact hidle)⟩

theorem preemptRequeue_requeued (h : preemptRequeue s = some s')
    (hstate : ∀ t, s.currentTask = some t → some t ≠ s.idle → (s.tasks t).state = .running) :
    Requeued s s' := by
  unfold preemptRequeue at h
  cases hcur : s.currentTask with
  | none =>
      rw [hcur] at h
      obtain rfl := Option.some.inj h
      exact ⟨rfl, rfl, rfl, rfl, fun _ => rfl, fun _ => SameSave.refl _, fun _ _ => rfl,
        fun t ht => by rw [hcur] at ht; cases ht⟩
  | some p =>
      rw [hcur] at h
      dsimp only at h
      by_cases hidle : some p = s.idle
      · rw [if_neg fun hand => hand.1 hidle] at h
        obtain rfl := Option.some.inj h
        refine ⟨rfl, rfl, rfl, rfl, fun _ => rfl, fun _ => SameSave.refl _, fun _ _ => rfl,
          fun t ht hnot => ?_⟩
        rw [hcur] at ht
        exact absurd hidle (ht ▸ hnot)
      · rw [if_pos ⟨hidle, hstate p hcur hidle⟩] at h
        have hpush := readyPush_relinked h
        have hother : ∀ t, t ≠ p → (setState s p .ready).tasks t = s.tasks t :=
          fun t ht => Function.update_of_ne ht _ _
        have hself : (setState s p .ready).tasks p = { s.tasks p with state := .ready } :=
          Function.update_self ..
        have hsave : ∀ t, SameSave (s.tasks t) ((setState s p .ready).tasks t)
            ∧ ((setState s p .ready).tasks t).process = (s.tasks t).process := by
          intro t
          by_cases htp : t = p
          · rw [htp, hself]
            exact ⟨⟨rfl, rfl, rfl⟩, rfl⟩
          · rw [hother t htp]
            exact ⟨SameSave.refl _, rfl⟩
        refine ⟨hpush.current, hpush.idle, hpush.taskCount, hpush.processes,
          fun t => (hpush.process t).trans (hsave t).2,
          fun t => (hsave t).1.trans (hpush.sameSave t), fun t ht => ?_, fun t ht _ => ?_⟩
        · rw [hpush.state t, hother t fun heq => ht (heq ▸ hcur.symm)]
        · rw [hcur] at ht
          rw [hpush.state t, ← Option.some.inj ht, hself]

/-- `scheduler_get_next_interrupt_rsp`: nothing to resume, or the first
ready task, with the previous one requeued. -/
theorem getNextInterruptRsp_requeued {rsp : Nat} (h : Settled s wait q dead added)
    (hs : SavesInv s saves)
    (hget : schedulerGetNextInterruptRsp trampoline s = some (rsp, s')) :
    (rsp = null ∧ AtRest s s')
      ∨ (rsp ≠ null ∧ s.preemptionRequested = true ∧ ∃ next, next < s.taskCount
        ∧ (s.tasks next).state = .ready ∧ some next ≠ s.currentTask
        ∧ s'.pendingTask = some next ∧ rsp = (nextInterruptRsp trampoline s next).1
        ∧ Requeued s s') := by
  unfold schedulerGetNextInterruptRsp at hget
  by_cases hreq : s.preemptionRequested = true
  rotate_left
  · rw [if_pos (by simpa using hreq)] at hget
    obtain ⟨rfl, rfl⟩ := Prod.mk.inj (Option.some.inj hget)
    exact .inl ⟨rfl, AtRest.refl _⟩
  rw [if_neg (by simp [hreq])] at hget
  have hdrop : ∀ s : Sched, Relinked s { s with preemptionRequested := false } :=
    fun s => ⟨⟨links s, rfl⟩, rfl, rfl, rfl, rfl⟩
  cases hnext : schedulerGetNextTask s with
  | none =>
      rw [hnext] at hget
      obtain ⟨rfl, rfl⟩ := Prod.mk.inj (Option.some.inj hget)
      exact .inl ⟨rfl, (hdrop s).atRest⟩
  | some next =>
      rw [hnext] at hget
      dsimp only at hget
      by_cases hidle : some next = s.idle
      · rw [if_pos hidle] at hget
        obtain ⟨rfl, rfl⟩ := Prod.mk.inj (Option.some.inj hget)
        exact .inl ⟨rfl, (hdrop s).atRest⟩
      rw [if_neg hidle] at hget
      -- the next task is the first of the ready queue
      have hmem : next ∈ q .ready := by
        cases hq : q .ready with
        | nil =>
            rw [schedulerGetNextTask, h.inv.readyQueue_none hq] at hnext
            exact absurd hnext.symm hidle
        | cons u l =>
            rw [schedulerGetNextTask, (h.inv.readyQueuePop hq).1] at hnext
            rw [← Option.some.inj hnext]
            exact List.mem_cons_self ..
      obtain ⟨hadd, hout, hready⟩ := h.inv.queued .ready next hmem
      have hlt := (h.inv.added_lt next hadd).1
      have hother : some next ≠ s.currentTask := by
        intro heq
        rw [running_task heq.symm hidle] at hout
        exact hout (List.mem_cons_self ..)
      have hbuilt := nextInterruptRsp_relinked trampoline (hs.kernel next hlt)
      by_cases hnull : (nextInterruptRsp trampoline s next).1 = null
      · rw [if_pos hnull] at hget
        obtain ⟨rfl, rfl⟩ := Prod.mk.inj (Option.some.inj hget)
        exact .inl ⟨rfl, hbuilt.atRest.trans (hdrop _).atRest⟩
      · rw [if_neg hnull] at hget
        obtain ⟨s₂, hrequeue, heq⟩ := Option.map_eq_some_iff.mp hget
        obtain ⟨rfl, rfl⟩ := Prod.mk.inj heq
        have hpop := schedulerReadyQueuePop_relinked
          (s := (nextInterruptRsp trampoline s next).2)
        have hrequeued : Requeued (schedulerReadyQueuePop (nextInterruptRsp trampoline s next).2)
            s₂ := by
          refine preemptRequeue_requeued hrequeue fun t ht hnot => ?_
          rw [hpop.current, hbuilt.current] at ht
          rw [hpop.idle, hbuilt.idle] at hnot
          rw [hpop.state t, hbuilt.state t]
          exact (h.current ht hnot).2
        have hall := (hrequeued.after_relinked hpop).after_relinked hbuilt
        exact .inr ⟨hnull, hreq, next, hlt, hready, hother, rfl, rfl, hall.current, hall.idle,
          hall.taskCount, hall.processes, hall.process, hall.save, hall.state, hall.previous⟩

theorem schedulerCommitPendingTask_scheduled (hpending : s.pendingTask = some t) :
    Scheduled s (schedulerCommitPendingTask s) t := by
  rw [schedulerCommitPendingTask_eq hpending]
  by_cases hidle : some t = s.idle
  · rw [if_pos hidle]
    exact ⟨rfl, rfl, rfl, rfl, fun _ => rfl, fun _ => SameSave.refl _, fun _ _ => rfl⟩
  · rw [if_neg hidle]
    refine ⟨rfl, rfl, rfl, rfl, fun u => ?_, fun u => ?_, fun u hu => ?_⟩
    · by_cases hut : u = t
      · subst hut
        simp
      · simp [Function.update_of_ne hut]
    · by_cases hut : u = t
      · subst hut
        constructor <;> simp
      · dsimp only
        rw [Function.update_of_ne hut]
        exact SameSave.refl _
    · dsimp only
      rw [Function.update_of_ne hu]

/-- The account after a preemption: the previous task's is its frame. -/
theorem Requeued.savesInv {next p : TaskPtr} {rsp : Nat} (h : Requeued s s₁)
    (hnext : Scheduled s₁ s' next) (hs : SavesInv s saves) (hcur : s.currentTask = some p)
    (hidle : some p ≠ s.idle) (hframe : source (s.tasks p) = .frame rsp) :
    SavesInv s' (saved saves (some p) (some (.frame rsp))) := by
  have hsave : ∀ t, SameSave (s.tasks t) (s'.tasks t) :=
    fun t => (h.save t).trans (hnext.save t)
  have hcount : s'.taskCount = s.taskCount := hnext.taskCount.trans h.taskCount
  refine ⟨fun t hlt pr hpr => ?_, fun i hi => ?_, fun t hlt ht => ?_⟩
  · rw [hnext.processes, h.processes]
    rw [hnext.process t, h.process t] at hpr
    exact hs.kernel t (hcount ▸ hlt) pr hpr
  · rw [(hsave i).resumeMode]
    exact hs.idle i (by rw [← h.idle, ← hnext.idle]; exact hi)
  · rw [hnext.current] at ht
    have htn : t ≠ next := fun heq => ht (heq ▸ rfl)
    by_cases htp : t = p
    · have hready : (s'.tasks p).state = .ready :=
        (hnext.state p (htp ▸ htn)).trans (h.previous p hcur hidle)
      have hnew : saved saves (some p) (some (.frame rsp)) p = some (.frame rsp) :=
        Function.update_self ..
      rw [htp, hnew]
      unfold TaskSaved
      rw [hready]
      dsimp only
      rw [(hsave p).source_eq, hframe]
    · have hother : some t ≠ s.currentTask := fun heq =>
        htp (Option.some.inj (heq.trans hcur))
      have hold : saved saves (some p) (some (.frame rsp)) t = saves t :=
        Function.update_of_ne htp _ _
      rw [hold]
      exact (hs.saved t (hcount ▸ hlt) hother).rests
        (.inl ⟨(hnext.state t htn).trans (h.state t hother), hsave t⟩)

/-- Whom a timer interrupt resumes, from the end of its exit path. -/
theorem timerResumption_eq {rsp : Nat} (htick : schedulerTick (tickSystem s) = some s₁)
    (hexit : isrExit trampoline (schedulerPreempt s₁) rsp = some (resume, s')) :
    timerResumption trampoline s rsp
      = exitResumption (schedulerSaveInterruptContext (schedulerPreempt s₁) rsp) resume := by
  unfold timerResumption
  rw [htick, Option.bind_eq_bind, Option.bind_some]
  dsimp only
  rw [hexit, Option.bind_eq_bind, Option.bind_some]

/-- An interrupt leaves its frame with the running task. -/
theorem schedulerSaveInterruptContext_source {rsp : Nat} (hcur : s.currentTask = some t)
    (hidle : some t ≠ s.idle) (hrsp : rsp ≠ null) :
    source ((schedulerSaveInterruptContext s rsp).tasks t) = .frame rsp := by
  have hself : (schedulerSaveInterruptContext s rsp).tasks t
      = { s.tasks t with interruptRsp := rsp, resumeMode := .interrupt } := by
    simp [schedulerSaveInterruptContext, hcur, hidle]
  rw [hself]
  simp [source, taskResumeUsesInterruptFrame, hrsp]

/-- An interrupt that does not end a time slice. -/
theorem timerInterrupt_back {rsp : Nat} (h : SchedInv s wait q out dead added)
    (hreq : s.preemptionRequested = false) (hends : ¬ sliceEnds s)
    (hrun : timerInterrupt trampoline s rsp = some (resume, s')) :
    AtRest s s' ∧ timerResumption trampoline s rsp = none
      ∧ SchedInv s' wait (afterWake (tickSystem s) q [] (q .sleep)) out dead added
      ∧ SameRequest s s' := by
  obtain ⟨s₁, htick, hinv, hwoken, hrest, hrequest⟩ := timer_start h hreq
  have hexit : isrExit trampoline (schedulerPreempt s₁) rsp = some (resume, s') := by
    unfold timerInterrupt at hrun
    rw [htick] at hrun
    exact hrun
  have hnone : (schedulerPreempt s₁).preemptionRequested = false := by
    cases hset : (schedulerPreempt s₁).preemptionRequested with
    | true => exact absurd (hrequest hset) hends
    | false => rfl
  have hsaved := (schedulerSaveInterruptContext_current (schedulerPreempt s₁) rsp).2
  have hback : isrExit trampoline (schedulerPreempt s₁) rsp
      = some (.caller, schedulerSaveInterruptContext (schedulerPreempt s₁) rsp) := by
    unfold isrExit
    dsimp only
    rw [schedulerGetNextInterruptRsp, hsaved.preemptionRequested, hnone]
    rfl
  obtain ⟨hr, hs'⟩ := Prod.mk.inj (Option.some.inj (hback.symm.trans hexit))
  refine ⟨?_, ?_, ?_, ?_⟩
  · rw [← hs']
    exact hrest.trans (schedulerSaveInterruptContext_atRest _ rsp)
  · rw [timerResumption_eq htick hexit, ← hr]
    rfl
  · rw [← hs']
    exact hinv.congr
      (schedulerPreempt_sameShape.trans schedulerSaveInterruptContext_sameShape)
  · have hpend : (schedulerPreempt s₁).pendingTask = s.pendingTask :=
      schedulerPreempt_current.2.trans (hwoken.kept.sameRequest.pendingTask)
    rw [← hs']
    exact ⟨hsaved.pendingTask.trans hpend,
      (hsaved.preemptionRequested.trans hnone).trans hreq.symm⟩

theorem timerInterrupt_switched {rsp : Nat} (h : Settled s wait q dead added)
    (hs : SavesInv s saves) (hreq : s.preemptionRequested = false) (hrsp : rsp ≠ null)
    (hrun : timerInterrupt trampoline s rsp = some (resume, s')) :
    Switched saves s.currentTask (.frame rsp) (timerResumption trampoline s rsp) s' := by
  obtain ⟨s₁, htick, -, hwoken, hrest, hrequest⟩ := timer_start h.inv hreq
  have hexit : isrExit trampoline (schedulerPreempt s₁) rsp = some (resume, s') := by
    unfold timerInterrupt at hrun
    rw [htick] at hrun
    exact hrun
  rw [timerResumption_eq htick hexit]
  -- the machine when the exit path chooses
  have hticked : Settled (tickSystem s) wait q dead added :=
    h.congr ⟨rfl, fun _ _ => rfl, rfl, rfl, rfl, rfl, rfl⟩ rfl
  obtain ⟨s₁', htick', hset₁, -⟩ := hticked.tick
  obtain rfl := Option.some.inj (htick'.symm.trans htick)
  have hset₂ : Settled (schedulerPreempt s₁') wait _ dead added :=
    hset₁.congr schedulerPreempt_sameShape schedulerPreempt_current.1
  have hsaved := schedulerSaveInterruptContext_current (schedulerPreempt s₁') rsp
  have hset₃ : Settled (schedulerSaveInterruptContext (schedulerPreempt s₁') rsp) wait _ dead
      added :=
    hset₂.congr schedulerSaveInterruptContext_sameShape hsaved.1
  have hrest₃ := hrest.trans (schedulerSaveInterruptContext_atRest (schedulerPreempt s₁') rsp)
  have hs₃ := hrest₃.savesInv hs
  unfold isrExit at hexit
  dsimp only at hexit
  obtain ⟨⟨rsp', s₄⟩, hget, hexit⟩ := Option.bind_eq_some_iff.mp hexit
  dsimp only at hexit
  rcases getNextInterruptRsp_requeued hset₃ hs₃ hget with
    ⟨hnull, hrest₄⟩ | ⟨hnull, hrequested, next, hlt, hready, hother, hpending, hframe, hrequeued⟩
  · rw [if_pos hnull] at hexit
    obtain ⟨rfl, rfl⟩ := Prod.mk.inj (Option.some.inj hexit)
    exact Switched.back (hrest₄.savesInv hs₃)
  · rw [if_neg hnull] at hexit
    have hcommit := schedulerCommitPendingTask_scheduled hpending
    rw [hcommit.current] at hexit
    obtain ⟨rfl, rfl⟩ := Prod.mk.inj (Option.some.inj hexit)
    -- a slice has ended, so a task that is not idle ran
    obtain ⟨hsome, hidle, -⟩ := hrequest (hsaved.2.preemptionRequested ▸ hrequested)
    obtain ⟨p, hcur⟩ := Option.ne_none_iff_exists'.mp hsome
    have hpidle : some p ≠ s.idle := fun heq => hidle (hcur.trans heq)
    have hsource := schedulerSaveInterruptContext_source (hrest.current.trans hcur)
      (by rw [hrest.idle]; exact hpidle) hrsp
    have hlast := (hs₃.saved next hlt hother).source_eq (.inl hready)
    have hkernel := nextFrame_kernel (hs₃.kernel next hlt)
    unfold exitResumption
    dsimp only
    by_cases huses : taskResumeUsesInterruptFrame
        ((schedulerSaveInterruptContext (schedulerPreempt s₁') rsp).tasks next) = true
    · rw [if_pos huses] at hkernel
      rw [hkernel, hcur]
      refine ⟨hrequeued.savesInv hcommit hs₃ (hrest₃.current.trans hcur)
        (by rw [hrest₃.idle]; exact hpidle) hsource, fun t src heq => ?_⟩
      cases heq
      rw [hlast, source, if_pos huses, hframe, nextInterruptRsp_saved hkernel]
    · rw [if_neg huses] at hkernel
      rw [hkernel, hcur]
      refine ⟨hrequeued.savesInv hcommit hs₃ (hrest₃.current.trans hcur)
        (by rw [hrest₃.idle]; exact hpidle) hsource, fun t src heq => ?_⟩
      cases heq
      rw [hlast, source, if_neg huses]

-- ========================================================== one operation

/-- What an operation of the scheduler does to the account, and that it
resumes no one from elsewhere. -/
structure OpSaves (trampoline : Nat) (s : Sched) (saves : TaskPtr → Option Source)
    (op : SchedOp) (s' : Sched) : Prop where
  inv : SavesInv s' (savesAfter trampoline s saves op)
  last : ∀ t src, resumption trampoline s op = some (t, src) → saves t = some src

/-- Operations that switch. -/
theorem Switched.opSaves {op : SchedOp} {src : Source} {r : Option (TaskPtr × Source)}
    (h : Switched saves s.currentTask src r s') (hresumption : resumption trampoline s op = r)
    (hafter : savesAfter trampoline s saves op
      = match resumption trampoline s op with
        | none => saves
        | some _ => saved saves s.currentTask (some src)) :
    OpSaves trampoline s saves op s' := by
  refine ⟨?_, fun t src hres => h.last t src (hresumption ▸ hres)⟩
  rw [hafter, hresumption]
  exact h.inv

/-- Operations that only move tasks about. -/
theorem AtRest.opSaves {op : SchedOp} (h : AtRest s s') (hs : SavesInv s saves)
    (hresumption : resumption trampoline s op = none)
    (hafter : savesAfter trampoline s saves op = saves) :
    OpSaves trampoline s saves op s' := by
  refine ⟨?_, fun t src hres => ?_⟩
  · rw [hafter]
    exact h.savesInv hs
  · rw [hresumption] at hres
    cases hres

/-- Every operation of a stream that is not queued in `mutex_lock`. -/
theorem settled_opSaves (h : Settled s wait q dead added) (hs : SavesInv s saves)
    (hreq : s.preemptionRequested = false) {op : SchedOp} {p : Point}
    (hop : op.Allowed ⟨s, added⟩) (hadmits : p.Admits op) (hkernel : MadeOfKernelTasks s op)
    (hstep : schedStep trampoline s op = some s') : OpSaves trampoline s saves op s' := by
  cases op with
  | createTask id entry stack process =>
      obtain rfl := Option.some.inj hstep
      refine ⟨taskCreate_savesInv hs id entry stack hkernel fun i hi => ?_,
        fun t src hres => by cases hres⟩
      obtain ⟨i', hi', hlt, -⟩ := h.inv.idle
      obtain rfl : i = i' := Option.some.inj (hi.symm.trans hi')
      exact hlt
  | addTask t =>
      obtain ⟨hlt, hnew, hidle⟩ := hop
      have hpush : readyPush (setState s t .ready) t = some s' := hstep
      -- a task that has not been added is ready and not current
      have hstate := h.inv.fresh t hlt hnew hidle
      have hready : Relinked s (setState s t .ready) := by
        refine ⟨⟨links s, ?_⟩, rfl, rfl, rfl, rfl⟩
        funext u
        by_cases hut : u = t
        · subst hut
          simp [setState, links, ← hstate]
        · simp [setState, links, Function.update_of_ne hut]
      exact (hready.atRest.trans (readyPush_relinked hpush).atRest).opSaves hs rfl rfl
  | unblock t => cases p <;> cases hadmits
  | yield regs =>
      obtain ⟨⟨resume, s₁⟩, hyield, rfl⟩ := Option.map_eq_some_iff.mp hstep
      apply (schedulerYield_switched h hs hyield).opSaves
      · rw [resumption, hyield]
        rfl
      · rfl
  | blockCurrent regs =>
      obtain ⟨⟨resume, s₁⟩, hblock, rfl⟩ := Option.map_eq_some_iff.mp hstep
      apply (schedulerBlockCurrentLocked_switched h hs hblock).opSaves
      · rw [resumption, hblock]
        rfl
      · rfl
  | sleep ticks regs =>
      obtain ⟨⟨resume, s₁⟩, hsleep, rfl⟩ := Option.map_eq_some_iff.mp hstep
      apply (schedulerSleep_switched h hs hsleep).opSaves
      · rw [resumption, hsleep]
        rfl
      · rfl
  | exit regs =>
      obtain ⟨hsome, hidle⟩ := hop
      obtain ⟨t, hcur⟩ := Option.ne_none_iff_exists'.mp hsome
      obtain ⟨⟨resume, s₁⟩, hexit, rfl⟩ := Option.map_eq_some_iff.mp hstep
      apply (taskExit_switched h hs hcur (fun heq => hidle (hcur.trans heq)) hexit).opSaves
      · rw [resumption, hexit]
        rfl
      · rfl
  | timer rsp =>
      obtain ⟨⟨resume, s₁⟩, htimer, rfl⟩ := Option.map_eq_some_iff.mp hstep
      have hrsp : rsp ≠ null := by cases p <;> exact hadmits
      apply (timerInterrupt_switched h hs hreq hrsp htimer).opSaves
      · rfl
      · rfl

end ZenithOS.Sync
