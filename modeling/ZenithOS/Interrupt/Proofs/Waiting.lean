/-
A ready task does not wait for ever.

The ready queue is served in order, so who is in it gets nearer whenever
somebody else comes into service; what is left to show is that this goes
on happening. The task in service leaves it by a call, or the timer takes
it away when its slice is over.

# The measure

A task with `i` others before it waits for the rest of the slice that is
being used and for `i` whole ones. An interrupt of the timer uses up one
tick of a slice, and a change of the task in service the rest of one
(`Spent`).

# Frames

`scheduler_get_next_interrupt_rsp` gives up when it has no frame for the
next task, and then nobody is preempted. For a kernel task there is one
unless the stack pointer of its context is `NULL` or so small that the
frame would be at `NULL`, so this is about the contexts that are saved.
-/
import ZenithOS.Interrupt.Proofs.Preemption
import ZenithOS.Scheduler.Proofs.Order
import ZenithOS.Scheduler.Proofs.Owners
import ZenithOS.Sync.Proofs.Resume

namespace ZenithOS.Interrupt

open Lib Mm Scheduler Sync

variable {trampoline : Nat} {s s' : Sched} {y y' : SchedSys} {op : SchedOp} {t u : TaskPtr}
  {regs : CpuContext} {resume : Resume} {saves : TaskPtr → Option Source}
  {q : QueueId Empty → List TaskPtr} {dead added : List TaskPtr}

/-- A frame fits below the stack pointer of a context. -/
def FrameFits (context : CpuContext) : Prop :=
  interruptFrameSize < context.rsp ∧ context.rsp < 2 ^ 64

instance (context : CpuContext) : Decidable (FrameFits context) :=
  inferInstanceAs (Decidable (_ ∧ _))

/-- What is left of a task can be resumed by an interrupt: tasks are
kernel tasks, on stacks in the address space. -/
def Resumable (s : Sched) : SchedOp → Prop
  | .createTask _ _ stack process => KernelTask s process ∧ stack + kernelStackSize < 2 ^ 64
  | .yield regs | .blockCurrent regs | .sleep _ regs | .exit regs => FrameFits regs
  | .timer rsp => rsp ≠ null
  | .addTask _ | .unblock _ => True

instance Resumable.decidable (s : Sched) : ∀ op, Decidable (Resumable s op)
  | .createTask .. => inferInstanceAs (Decidable (_ ∧ _))
  | .yield _ | .blockCurrent _ | .sleep .. | .exit _ => inferInstanceAs (Decidable (_ ∧ _))
  | .timer _ => inferInstanceAs (Decidable (_ ≠ _))
  | .addTask _ | .unblock _ => isTrue trivial

/-- The task in service uses its turn: it gives it up, or the timer counts
a tick of it. Where nobody or idle is in service only a yield moves on. -/
def TurnUsed (s : Sched) : SchedOp → Prop
  | .yield _ | .exit _ => True
  | .timer _ | .blockCurrent _ | .sleep .. => s.currentTask ≠ none ∧ s.currentTask ≠ s.idle
  | .createTask .. | .addTask _ | .unblock _ => False

instance TurnUsed.decidable (s : Sched) : ∀ op, Decidable (TurnUsed s op)
  | .yield _ | .exit _ => isTrue trivial
  | .timer _ | .blockCurrent _ | .sleep .. => inferInstanceAs (Decidable (_ ∧ _))
  | .createTask .. | .addTask _ | .unblock _ => isFalse id

-- ================================================================ frames

/-- The account of the saves names contexts that a frame fits below. -/
def SavesFit (s : Sched) (saves : TaskPtr → Option Source) : Prop :=
  ∀ t, t < s.taskCount → ∀ context, saves t = some (.context context) → FrameFits context

/-- A ready task has a frame to be resumed from. -/
theorem NextReady.frame (h : NextReady s saves t u) (hfit : SavesFit s saves) :
    (nextInterruptRsp trampoline s u).1 ≠ null := by
  have hnull : null = 0 := rfl
  have hsaved := h.saved
  rw [nextInterruptRsp_kernel h.kernel]
  unfold source at hsaved
  split_ifs at hsaved ⊢ with huses
  · unfold taskResumeUsesInterruptFrame at huses
    simp only [Bool.and_eq_true, bne_iff_ne] at huses
    exact huses.2
  · obtain ⟨hsize, hword⟩ := hfit u h.lt _ hsaved
    unfold schedulerBuildContextInterruptRsp
    dsimp only
    rw [if_neg (by omega)]
    unfold interruptFrameBelow interruptFrameSize at *
    dsimp only
    omega

/-- What an operation leaves of the task it switches away from. -/
theorem suspension_fits (hop : Resumable s op) {context : CpuContext}
    (h : suspension op = some (.context context)) : FrameFits context := by
  cases op with
  | yield regs | blockCurrent regs | sleep ticks regs | exit regs =>
      obtain rfl := Source.context.inj (Option.some.inj h)
      exact hop
  | timer rsp => cases h
  | createTask | addTask | unblock => cases h

/-- What is saved leaves room for a frame. -/
theorem saved_fits (hfit : SavesFit s saves) (hop : Resumable s op)
    (hcount : s'.taskCount = s.taskCount) (previous : Option TaskPtr) :
    SavesFit s' (saved saves previous (suspension op)) := by
  intro t hlt context hsaved
  rw [hcount] at hlt
  cases previous with
  | none => exact hfit t hlt context hsaved
  | some p =>
      by_cases htp : t = p
      · rw [htp, saved, Function.update_self] at hsaved
        exact suspension_fits hop hsaved
      · rw [saved, Function.update_of_ne htp] at hsaved
        exact hfit t hlt context hsaved

/-- After every operation each saved context has room for a frame. -/
theorem savesAfter_fits (hfit : SavesFit s saves) (hop : Resumable s op)
    (hcount : s'.taskCount = s.taskCount)
    (hafter : savesAfter trampoline s saves op
      = match resumption trampoline s op with
        | none => saves
        | some _ => saved saves s.currentTask (suspension op)) :
    SavesFit s' (savesAfter trampoline s saves op) := by
  rw [hafter]
  cases resumption trampoline s op with
  | none =>
      intro t hlt
      exact hfit t (hcount ▸ hlt)
  | some r => exact saved_fits hfit hop hcount s.currentTask

/-- An operation keeps the account, and its contexts fit. -/
theorem stable_saves (h : Stable y q dead) (hs : SavesInv y.sched saves)
    (hfit : SavesFit y.sched saves) (hop : op.Allowed y) (hresumable : Resumable y.sched op)
    (hstep : sysStep trampoline y op = some y') :
    ∃ saves', SavesInv y'.sched saves' ∧ SavesFit y'.sched saves' := by
  have howner := sysStep_owner hstep
  obtain ⟨s', hs', hy'⟩ := Option.map_eq_some_iff.mp hstep
  have hsched : y'.sched = s' := by
    rw [← hy']
    cases op <;> rfl
  rw [hsched] at howner ⊢
  have hcount : (∀ id entry stack process, op ≠ .createTask id entry stack process) →
      s'.taskCount = y.sched.taskCount := by
    intro hother
    rcases howner with hsame | ⟨id, entry, stack, process, heq, -⟩
    · exact hsame.taskCount
    · exact absurd heq (hother id entry stack process)
  have hsettled : ∀ p : Point, p.Admits op → MadeOfKernelTasks y.sched op →
      OpSaves trampoline y.sched saves op s' :=
    fun p hadmits hkernel =>
      settled_opSaves h.settled hs h.request hop hadmits hkernel hs'
  cases op with
  | createTask id entry stack process =>
      refine ⟨_, (hsettled .none trivial hresumable.1).inv, ?_⟩
      obtain rfl := Option.some.inj hs'
      intro t hlt context hsaved
      have hlt' : t < y.sched.taskCount + 1 := hlt
      unfold savesAfter at hsaved
      dsimp only at hsaved
      by_cases ht : t = y.sched.taskCount
      · rw [ht, Function.update_self] at hsaved
        obtain rfl := Source.context.inj (Option.some.inj hsaved)
        have hnew : ((taskCreate y.sched id entry stack process).tasks
            y.sched.taskCount).context.rsp = stack + kernelStackSize - 16 := by
          simp [taskCreate]
        have hspace := hresumable.2
        unfold FrameFits
        rw [hnew]
        unfold kernelStackSize interruptFrameSize at *
        omega
      · rw [Function.update_of_ne ht] at hsaved
        exact hfit t (by omega) context hsaved
  | unblock t =>
      refine ⟨saves, (schedulerUnblock_atRest hs').savesInv hs, ?_⟩
      intro u hlt
      exact hfit u (hcount (by simp) ▸ hlt)
  | addTask t =>
      exact ⟨_, (hsettled .none trivial trivial).inv,
        savesAfter_fits hfit hresumable (hcount (by simp)) rfl⟩
  | yield regs | blockCurrent regs | sleep ticks regs | exit regs =>
      exact ⟨_, (hsettled .none trivial trivial).inv,
        savesAfter_fits hfit hresumable (hcount (by simp)) rfl⟩
  | timer rsp =>
      exact ⟨_, (hsettled .none hresumable trivial).inv,
        savesAfter_fits hfit hresumable (hcount (by simp)) rfl⟩

-- ================================================================ slices

/-- Another task comes into service, with a slice of its own, or the same
goes on and is `n` ticks further in its slice. -/
def Spent (n : Nat) (s s' : Sched) : Prop :=
  s'.currentTask ≠ s.currentTask ∧ s'.preemptionTicks = 0
    ∨ s'.currentTask = s.currentTask ∧ s'.preemptionTicks = s.preemptionTicks + n
      ∧ s'.preemptionTicks < schedulerTimeSlice

/-- Where nothing is switched no turn is used. -/
theorem kept_spent (h : Kept s s') (hticks : s.preemptionTicks < schedulerTimeSlice) :
    Spent 0 s s' := by
  have hsame : s'.preemptionTicks = s.preemptionTicks := (congrArg Sched.preemptionTicks h :)
  exact .inr ⟨(congrArg Sched.currentTask h :), hsame, hsame ▸ hticks⟩

/-- `scheduler_schedule` starts a slice. -/
theorem schedulerSchedule_ticks (hidle : s.idle ≠ none) :
    ∃ next s', schedulerSchedule s = (some next, s') ∧ s'.preemptionTicks = 0 := by
  have hswitch : ∀ (s : Sched) (t : TaskPtr),
      ∃ s', schedulerSwitchTo s (some t) = (some t, s') ∧ s'.preemptionTicks = 0 :=
    fun s t => ⟨_, schedulerSwitchTo_eq s t, rfl⟩
  unfold schedulerSchedule
  cases hnext : schedulerGetNextTask s with
  | none =>
      unfold schedulerGetNextTask at hnext
      split at hnext
      · cases hnext
      · exact absurd hnext hidle
  | some next =>
      obtain ⟨s₁, hs₁, hticks⟩ := hswitch
        (if some next ≠ s.idle then schedulerReadyQueuePop s else s) next
      exact ⟨next, s₁, hs₁, hticks⟩

/-- Saving a context spends no tick. -/
theorem saveContext_ticks (s : Sched) (previous : Option TaskPtr) (regs : CpuContext) :
    (saveContext s previous regs).preemptionTicks = s.preemptionTicks := by
  cases previous <;> rfl

/-- A task that yields gives its slice up. -/
theorem schedulerYield_ticks (hidle : s.idle ≠ none)
    (h : schedulerYield s regs = some (resume, s')) : s'.preemptionTicks = 0 := by
  obtain ⟨s₁, hrequeue, hdispatch⟩ := Option.map_eq_some_iff.mp h
  have hidle₁ : s₁.idle ≠ none := by
    rcases schedulerRequeue_cases hrequeue with rfl | ⟨t, -, -, hpush⟩
    · exact hidle
    · have hkept := setState_kept.trans
        (schedulerResetResumeState_kept.trans (readyPush_kept hpush))
      have hsame : s₁.idle = s.idle := (congrArg Sched.idle hkept :)
      rw [hsame]
      exact hidle
  obtain ⟨next, s₂, hschedule, hticks⟩ := schedulerSchedule_ticks hidle₁
  unfold schedulerDispatch at hdispatch
  rw [hschedule] at hdispatch
  dsimp only at hdispatch
  split_ifs at hdispatch
  · rw [← (Prod.mk.inj hdispatch).2, hticks]
  · rw [← (Prod.mk.inj hdispatch).2, saveContext_ticks, hticks]
  · rw [← (Prod.mk.inj hdispatch).2, saveContext_ticks, hticks]

/-- What `scheduler_preempt` makes of a tick. -/
theorem schedulerPreempt_cases (s : Sched) :
    (s.currentTask = none ∨ s.currentTask = s.idle) ∧ schedulerPreempt s = s
      ∨ (s.currentTask ≠ none ∧ s.currentTask ≠ s.idle)
        ∧ (s.preemptionTicks + 1 < schedulerTimeSlice
            ∧ schedulerPreempt s = { s with preemptionTicks := s.preemptionTicks + 1 }
          ∨ s.readyQueue = none ∧ schedulerPreempt s = { s with preemptionTicks := 0 }
          ∨ s.readyQueue ≠ none
            ∧ schedulerPreempt s
              = { s with preemptionTicks := 0, preemptionRequested := true }) := by
  unfold schedulerPreempt
  split_ifs with hnone hticks hready
  · exact .inl ⟨hnone, rfl⟩
  · exact .inr ⟨not_or.mp hnone, .inl ⟨hticks, rfl⟩⟩
  · exact .inr ⟨not_or.mp hnone, .inr (.inl ⟨hready, rfl⟩)⟩
  · exact .inr ⟨not_or.mp hnone, .inr (.inr ⟨hready, rfl⟩)⟩

/-- Saving a frame spends no tick. -/
theorem schedulerSaveInterruptContext_ticks (s : Sched) (rsp : Nat) :
    (schedulerSaveInterruptContext s rsp).preemptionTicks = s.preemptionTicks := by
  unfold schedulerSaveInterruptContext
  split
  · rfl
  · split_ifs <;> rfl

/-- Without a request an interrupt goes back to where it came from. -/
theorem isrExit_back {rsp : Nat} (hrequest : s.preemptionRequested = false)
    (h : isrExit trampoline s rsp = some (resume, s')) :
    s'.currentTask = s.currentTask ∧ s'.preemptionTicks = s.preemptionTicks := by
  have hsave := schedulerSaveInterruptContext_current s rsp
  obtain ⟨rsp', s₁, hget, hcases⟩ := isrExit_cases h
  unfold schedulerGetNextInterruptRsp at hget
  rw [hsave.2.preemptionRequested, hrequest] at hget
  obtain ⟨rfl, rfl⟩ := Prod.mk.inj (Option.some.inj hget)
  obtain ⟨-, -, rfl⟩ := hcases.resolve_right fun hswitch => hswitch.1 rfl
  exact ⟨hsave.1, schedulerSaveInterruptContext_ticks s rsp⟩

/-- With one, and a frame for the next task, it goes on to that task. -/
theorem isrExit_onward {rsp : Nat} (hrequest : s.preemptionRequested = true)
    (hnext : schedulerGetNextTask (schedulerSaveInterruptContext s rsp) = some u)
    (hidle : some u ≠ (schedulerSaveInterruptContext s rsp).idle)
    (hframe : (nextInterruptRsp trampoline (schedulerSaveInterruptContext s rsp) u).1 ≠ null)
    (h : isrExit trampoline s rsp = some (resume, s')) :
    s'.currentTask = some u ∧ s'.preemptionTicks = 0 := by
  have hsave := schedulerSaveInterruptContext_current s rsp
  obtain ⟨rsp', s₁, hget, hcases⟩ := isrExit_cases h
  unfold schedulerGetNextInterruptRsp at hget
  rw [hsave.2.preemptionRequested, hrequest, hnext] at hget
  dsimp only at hget
  rw [if_neg (by decide), if_neg hidle, if_neg hframe] at hget
  obtain ⟨s₂, -, heq⟩ := Option.map_eq_some_iff.mp hget
  obtain ⟨rfl, rfl⟩ := Prod.mk.inj heq
  obtain ⟨-, -, rfl⟩ := hcases.resolve_left fun hback => hframe hback.1
  rw [schedulerCommitPendingTask_eq rfl]
  exact ⟨rfl, rfl⟩

/-- A call that the task in service may give the processor up by. -/
theorem left_spent (hticks : s.preemptionTicks < schedulerTimeSlice)
    (hstays : s'.currentTask = s.currentTask ↔ s.currentTask = none ∨ s.currentTask = s.idle)
    (h : s' = s ∨ (s.currentTask ≠ none ∧ s.currentTask ≠ s.idle) ∧ s'.preemptionTicks = 0) :
    Spent (if s.currentTask ≠ none ∧ s.currentTask ≠ s.idle then 1 else 0) s s' := by
  by_cases hturn : s.currentTask ≠ none ∧ s.currentTask ≠ s.idle
  · have hleft : s'.currentTask ≠ s.currentTask :=
      fun heq => (hstays.mp heq).elim hturn.1 hturn.2
    rcases h with rfl | ⟨-, hstart⟩
    · exact absurd rfl hleft
    · exact .inl ⟨hleft, hstart⟩
  · rcases h with rfl | ⟨hne, -⟩
    · rw [if_neg hturn]
      exact .inr ⟨rfl, rfl, hticks⟩
    · exact absurd hne hturn

-- ============================================================== operations

variable (h : Stable y q dead) (hs : SavesInv y.sched saves) (hfit : SavesFit y.sched saves)
  (hticks : y.sched.preemptionTicks < schedulerTimeSlice)

include h

/-- There is an idle task. -/
theorem stable_idle : y.sched.idle ≠ none := by
  obtain ⟨i, hi, -⟩ := h.settled.inv.idle
  rw [hi]
  exact Option.some_ne_none i

include hs hfit hticks in
/-- A timer interrupt counts a tick, or ends the slice and goes on to the
next task when there is one. -/
theorem timer_spent {rsp : Nat} (hrun : timerInterrupt trampoline y.sched rsp = some (resume, s')) :
    Spent (if TurnUsed y.sched (.timer rsp) then 1 else 0) y.sched s'
      ∨ q .ready = [] ∧ s'.preemptionTicks = 0 := by
  obtain ⟨s₁, htick, -, hwoken, hrest, -⟩ := timer_start h.settled.inv h.request
  have hticked : Settled (tickSystem y.sched) noWait q dead y.added :=
    h.settled.congr ⟨rfl, fun _ _ => rfl, rfl, rfl, rfl, rfl, rfl⟩ rfl
  obtain ⟨s₁', htick', hset, -⟩ := hticked.tick
  obtain rfl := Option.some.inj (htick'.symm.trans htick)
  have hexit : isrExit trampoline (schedulerPreempt s₁') rsp = some (resume, s') := by
    unfold timerInterrupt at hrun
    rw [htick] at hrun
    exact hrun
  have hcur : s₁'.currentTask = y.sched.currentTask :=
    (congrArg Sched.currentTask hwoken.kept :)
  have hidle : s₁'.idle = y.sched.idle := (congrArg Sched.idle hwoken.kept :)
  have hsame : s₁'.preemptionTicks = y.sched.preemptionTicks :=
    (congrArg Sched.preemptionTicks hwoken.kept :)
  have hrequest : s₁'.preemptionRequested = false :=
    hwoken.kept.sameRequest.preemptionRequested.trans h.request
  rcases schedulerPreempt_cases s₁' with
    ⟨hnone, hpreempt⟩ | ⟨hsome, ⟨hslice, hpreempt⟩ | ⟨hempty, hpreempt⟩ | ⟨hqueue, hpreempt⟩⟩
  · rw [hpreempt] at hexit
    obtain ⟨hback, hleft⟩ := isrExit_back hrequest hexit
    rw [hcur, hidle] at hnone
    have hnot : ¬ TurnUsed y.sched (.timer rsp) := by
      rintro ⟨hne, hni⟩
      exact hnone.elim hne hni
    rw [if_neg hnot]
    exact .inl (.inr ⟨hback.trans hcur, hleft.trans hsame, by rw [hleft, hsame]; exact hticks⟩)
  · obtain ⟨hback, hleft⟩ := isrExit_back (by rw [hpreempt]; exact hrequest) hexit
    rw [hpreempt] at hback hleft
    dsimp only at hback hleft
    rw [hcur, hidle] at hsome
    rw [hsame] at hleft hslice
    have hturn : TurnUsed y.sched (.timer rsp) := hsome
    rw [if_pos hturn]
    exact .inl (.inr ⟨hback.trans hcur, hleft, by rw [hleft]; exact hslice⟩)
  · -- the slice is over, and there is nobody else
    obtain ⟨-, hleft⟩ := isrExit_back (by rw [hpreempt]; exact hrequest) hexit
    rw [hpreempt] at hleft
    refine .inr ⟨?_, hleft⟩
    cases hq : q .ready with
    | nil => rfl
    | cons u rest =>
        have hhead : afterWake (tickSystem y.sched) q [] (q .sleep) .ready
            = u :: (rest ++ (q .sleep).filter (due (tickSystem y.sched))) := by
          rw [afterWake, Function.update_self, hq]
          rfl
        rw [(hset.inv.readyQueuePop hhead).1] at hempty
        cases hempty
  · -- the slice is over, and the head of the ready queue is next
    obtain ⟨t, ht⟩ := Option.ne_none_iff_exists'.mp (hcur ▸ hsome.1)
    have hset₂ : Settled (schedulerPreempt s₁') noWait _ dead y.added :=
      hset.congr schedulerPreempt_sameShape schedulerPreempt_current.1
    have hsave := schedulerSaveInterruptContext_current (schedulerPreempt s₁') rsp
    have hset₃ : Settled (schedulerSaveInterruptContext (schedulerPreempt s₁') rsp) noWait _ dead
        y.added :=
      hset₂.congr schedulerSaveInterruptContext_sameShape hsave.1
    have hrest₃ := hrest.trans (schedulerSaveInterruptContext_atRest (schedulerPreempt s₁') rsp)
    obtain ⟨u, rest, hhead⟩ : ∃ u rest,
        afterWake (tickSystem y.sched) q [] (q .sleep) .ready = u :: rest := by
      apply List.exists_cons_of_ne_nil
      exact fun hnil => hqueue (hset.inv.readyQueue_none hnil)
    have hnext : schedulerGetNextTask (schedulerSaveInterruptContext (schedulerPreempt s₁') rsp)
        = some u := by
      rw [schedulerGetNextTask, (hset₃.inv.readyQueuePop hhead).1]
    have hadd := (hset₃.inv.queued .ready u (hhead ▸ List.mem_cons_self ..)).1
    have hother := (hset₃.inv.added_lt u hadd).2
    have hu := settled_nextReady hset₃ (hrest₃.savesInv hs) (hrest₃.current.trans ht) hnext hother
    have hframe : (nextInterruptRsp trampoline
        (schedulerSaveInterruptContext (schedulerPreempt s₁') rsp) u).1 ≠ null := by
      apply hu.frame
      intro v hlt
      exact hfit v (hrest₃.taskCount ▸ hlt)
    obtain ⟨hcur', hticks'⟩ :=
      isrExit_onward (by rw [hpreempt]) hnext hother hframe hexit
    refine .inl (.inl ⟨?_, hticks'⟩)
    rw [hcur', ht]
    exact fun heq => hu.other (Option.some.inj heq)

include hs hfit hticks in
/-- Every operation that uses the turn of the task in service brings the
next one nearer. -/
theorem stable_spent (hop : op.Allowed y) (hstep : sysStep trampoline y op = some y') :
    Spent (if TurnUsed y.sched op then 1 else 0) y.sched y'.sched
      ∨ q .ready = [] ∧ y'.sched.preemptionTicks = 0 := by
  obtain ⟨y'', q', dead', hstep', hstable', hsub⟩ := h.step hop
  obtain rfl := Option.some.inj (hstep'.symm.trans hstep)
  obtain ⟨s', hs', hy'⟩ := Option.map_eq_some_iff.mp hstep
  have hsched : y''.sched = s' := by
    rw [← hy']
    cases op <;> rfl
  have hidle := stable_idle h
  rw [hsched]
  cases op with
  | createTask id entry stack process =>
      obtain rfl := Option.some.inj hs'
      exact .inl (.inr ⟨rfl, rfl, hticks⟩)
  | addTask t =>
      exact .inl (kept_spent (setState_kept.trans (readyPush_kept hs')) hticks)
  | unblock t =>
      rcases schedulerUnblock_cases hs' with ⟨-, rfl⟩ | ⟨-, hunblock⟩
      · exact .inl (.inr ⟨rfl, rfl, hticks⟩)
      · obtain ⟨s₁, hremove, hpush⟩ := Option.bind_eq_some_iff.mp hunblock
        exact .inl (kept_spent ((blockedRemove_kept hremove).trans (setState_kept.trans
          (schedulerResetResumeState_kept.trans (readyPush_kept hpush)))) hticks)
  | yield regs =>
      obtain ⟨⟨resume, s₁⟩, hyield, rfl⟩ := Option.map_eq_some_iff.mp hs'
      obtain ⟨_, s₂, _, hyield', -, -, -, hstays⟩ := h.settled.yield regs
      obtain ⟨-, rfl⟩ := Prod.mk.inj (Option.some.inj (hyield'.symm.trans hyield))
      have hstart := schedulerYield_ticks hidle hyield
      cases hq : q .ready with
      | nil => exact .inr ⟨rfl, hstart⟩
      | cons u rest =>
          refine .inl (.inl ⟨?_, hstart⟩)
          intro heq
          have hempty := (hstays.mp heq).1
          rw [(h.settled.inv.readyQueuePop hq).1] at hempty
          cases hempty
  | blockCurrent regs =>
      obtain ⟨⟨resume, s₁⟩, hblock, rfl⟩ := Option.map_eq_some_iff.mp hs'
      obtain ⟨_, s₂, _, hblock', -, -, -, hstays⟩ := h.settled.blockCurrent regs
      obtain ⟨-, rfl⟩ := Prod.mk.inj (Option.some.inj (hblock'.symm.trans hblock))
      refine .inl (left_spent hticks hstays ?_)
      rcases schedulerBlockCurrentLocked_cases hblock with
        ⟨-, hsame⟩ | ⟨t, s₁, hcur, hti, hpush, hyield⟩
      · exact .inl hsame
      · have hkept : Kept y.sched s₁ := setState_kept.trans (blockedPush_kept hpush)
        have hsame : s₁.idle = y.sched.idle := (congrArg Sched.idle hkept :)
        rw [hcur]
        exact .inr ⟨⟨Option.some_ne_none t, hti⟩, schedulerYield_ticks (hsame ▸ hidle) hyield⟩
  | sleep n regs =>
      obtain ⟨⟨resume, s₁⟩, hsleep, rfl⟩ := Option.map_eq_some_iff.mp hs'
      obtain ⟨_, s₂, _, hsleep', -, -, -, hstays⟩ := h.settled.sleep n regs
      obtain ⟨-, rfl⟩ := Prod.mk.inj (Option.some.inj (hsleep'.symm.trans hsleep))
      refine .inl (left_spent hticks hstays ?_)
      rcases schedulerSleep_cases hsleep with ⟨-, hsame⟩ | ⟨t, s₁, hcur, hti, hpush, hyield⟩
      · exact .inl hsame
      · have hsame : s₁.idle = y.sched.idle :=
          (congrArg Sched.idle (schedulerSleepQueueAdd_kept hpush) :)
        rw [hcur]
        exact .inr ⟨⟨Option.some_ne_none t, hti⟩, schedulerYield_ticks (hsame ▸ hidle) hyield⟩
  | exit regs =>
      obtain ⟨⟨resume, s₁⟩, hexit, rfl⟩ := Option.map_eq_some_iff.mp hs'
      obtain ⟨t, ht⟩ := Option.ne_none_iff_exists'.mp hop.1
      obtain ⟨_, s₂, q₂, hexit', hset, hreq, -⟩ := h.settled.exit ht (ht ▸ hop.2) regs
      obtain ⟨-, rfl⟩ := Prod.mk.inj (Option.some.inj (hexit'.symm.trans hexit))
      have hdead : Stable ⟨s₂, y.added⟩ q₂ (t :: dead) :=
        ⟨hset, hreq.pendingTask.trans h.pending, hreq.preemptionRequested.trans h.request⟩
      rcases taskExit_cases hexit with ⟨-, hsame⟩ | ⟨u, -, hyield⟩
      · exact absurd (hsame ▸ ht) (hdead.dead_not_current (List.mem_cons_self ..))
      · have hsame : (setState y.sched u .terminated).idle = y.sched.idle := rfl
        refine .inl (.inl ⟨?_, schedulerYield_ticks (hsame ▸ hidle) hyield⟩)
        rw [ht]
        exact hdead.dead_not_current (List.mem_cons_self ..)
  | timer rsp =>
      obtain ⟨⟨resume, s₁⟩, htimer, rfl⟩ := Option.map_eq_some_iff.mp hs'
      exact timer_spent h hs hfit hticks htimer

-- ============================================================== the queue

omit h

/-- Between two operations of a machine of kernel tasks. -/
structure Steady (y : SchedSys) (q : QueueId Empty → List TaskPtr) : Prop where
  stable : ∃ dead, Stable y q dead
  account : ∃ saves, SavesInv y.sched saves ∧ SavesFit y.sched saves
  ticks : y.sched.preemptionTicks < schedulerTimeSlice

/-- It holds after `scheduler_init`. -/
theorem steady_init {boot : Sched} (hboot : boot.taskCount = 0) (id entry : Nat) {stack : Nat}
    (hstack : stack + kernelStackSize < 2 ^ 64) :
    Steady (sysInit boot id entry stack) fun _ => [] := by
  refine ⟨⟨[], stable_init hboot id entry stack⟩,
    ⟨_, (resumeInv_init (μ := Empty) hboot id entry stack).saves, ?_⟩, Nat.succ_pos 9⟩
  intro t hlt context hsaved
  have hlt' : t < boot.taskCount + 1 := hlt
  obtain rfl : t = 0 := by omega
  obtain rfl := Source.context.inj (Option.some.inj hsaved)
  have hidle : ((mutexSysInit Empty boot id entry stack).sched.tasks 0).context.rsp
      = stack + kernelStackSize - 16 := by
    simp [mutexSysInit, schedulerInit, taskCreate, hboot]
  unfold FrameFits
  rw [hidle]
  unfold kernelStackSize interruptFrameSize at *
  omega

/-- An operation serves the ready queue in order, and only a used turn
spends ticks. -/
theorem Steady.step (trampoline : Nat) (h : Steady y q)
    (hop : op.Allowed y ∧ Resumable y.sched op) :
    ∃ y' q', sysStep trampoline y op = some y' ∧ Steady y' q'
      ∧ Serves y.sched.idle (op.back y.sched) y.sched.currentTask y'.sched.currentTask (q .ready)
        (q' .ready)
      ∧ (Spent (if TurnUsed y.sched op then 1 else 0) y.sched y'.sched
        ∨ q .ready = [] ∧ y'.sched.preemptionTicks = 0) := by
  obtain ⟨⟨dead, hstable⟩, ⟨saves, hsaves, hfit⟩, hticks⟩ := h
  obtain ⟨y', q', dead', hstep, hstable', -, hmoved⟩ := hstable.step_moved trampoline hop.1
  have hspent := stable_spent hstable hsaves hfit hticks hop.1 hstep
  have hstart : 0 < schedulerTimeSlice := by decide
  have hticks' : y'.sched.preemptionTicks < schedulerTimeSlice := by
    rcases hspent with (⟨-, hzero⟩ | ⟨-, -, hless⟩) | ⟨-, hzero⟩
    · rw [hzero]
      exact hstart
    · exact hless
    · rw [hzero]
      exact hstart
  exact ⟨y', q', hstep, ⟨⟨dead', hstable'⟩, stable_saves hstable hsaves hfit hop.1 hop.2 hstep,
    hticks'⟩, hmoved.ready, hspent⟩

/-- `t` is in the ready queue, `n` turns from being in service. -/
def Waits (t : TaskPtr) (n : Nat) (y : SchedSys) : Prop :=
  ∃ q, Steady y q ∧ ∃ i, (q .ready)[i]? = some t
    ∧ n + y.sched.preemptionTicks + 1 = (i + 1) * schedulerTimeSlice

/-- A used turn brings the task one tick closer, and no other operation
takes it away. -/
theorem Waits.step {n : Nat} (h : Waits t n y) (hop : op.Allowed y ∧ Resumable y.sched op) :
    ∃ y', sysStep trampoline y op = some y' ∧ (y'.sched.currentTask = some t
      ∨ ∃ k, k + (if TurnUsed y.sched op then 1 else 0) ≤ n ∧ Waits t k y') := by
  obtain ⟨q, hsteady, i, hi, hn⟩ := h
  obtain ⟨y', q', hstep, hsteady', hserves, hspent⟩ := hsteady.step trampoline hop
  obtain ⟨dead, hstable⟩ := hsteady.stable
  have hticks := hsteady.ticks
  replace hspent := hspent.resolve_right (by
    rintro ⟨hnil, -⟩
    rw [hnil] at hi
    cases hi)
  have hslice : schedulerTimeSlice = 10 := rfl
  have hturn : (if TurnUsed y.sched op then 1 else 0) ≤ 1 := by split_ifs <;> decide
  refine ⟨y', hstep, ?_⟩
  generalize (if TurnUsed y.sched op then 1 else 0) = used at hspent hturn ⊢
  rw [hslice] at hn hticks
  rcases hserves.place hi fun u hu => hstable.ready_waiting hu with
    ⟨hsame, hi'⟩ | ⟨hother, hserved | ⟨k, rfl, hk⟩⟩
  · -- the same task goes on
    obtain ⟨-, hleft, hless⟩ := hspent.resolve_left fun hne => hne.1 hsame
    rw [hslice] at hless
    refine .inr ⟨n - used, by omega, q', hsteady', i, hi', ?_⟩
    rw [hslice]
    omega
  · exact .inl hserved
  · -- the next one is in service
    obtain ⟨-, hstart⟩ := hspent.resolve_right fun heq => hother heq.1
    refine .inr ⟨(k + 1) * 10 - 1, by omega, q', hsteady', k, hk, ?_⟩
    rw [hslice]
    omega

/-- In every run of kernel tasks, the task with `i` others before it in
the ready queue is in service before `i + 1` time slices of turns have
been used, counted from the start of the slice that is being used. -/
theorem ready_task_served (trampoline id entry : Nat) {stack : Nat} {boot : Sched}
    (hboot : boot.taskCount = 0) (hstack : stack + kernelStackSize < 2 ^ 64) {ops : List SchedOp}
    (hops : AllowedRun (sysStep trampoline) (fun y op => op.Allowed y ∧ Resumable y.sched op)
      (sysInit boot id entry stack) ops) :
    ∃ y ready, runOps (sysStep trampoline) (sysInit boot id entry stack) ops = some y
      ∧ Linked (links y.sched) y.sched.readyQueue ready
      ∧ ∀ i t, ready[i]? = some t → ∀ ops',
        AllowedRun (sysStep trampoline) (fun y op => op.Allowed y ∧ Resumable y.sched op) y ops' →
        (i + 1) * schedulerTimeSlice
          ≤ countRun (sysStep trampoline) (fun y => TurnUsed y.sched) y ops'
            + y.sched.preemptionTicks →
        ∃ ops₁ ops₂ z, ops' = ops₁ ++ ops₂ ∧ runOps (sysStep trampoline) y ops₁ = some z
          ∧ z.sched.currentTask = some t := by
  obtain ⟨y, hrun, q, hsteady⟩ := run_total (P := fun y => ∃ q, Steady y q)
    (fun y op hinv hop => by
      obtain ⟨q, hsteady⟩ := hinv
      obtain ⟨y', q', hstep, hsteady', -⟩ := hsteady.step trampoline hop
      exact ⟨y', hstep, q', hsteady'⟩)
    ⟨_, steady_init hboot id entry hstack⟩ hops
  obtain ⟨dead, hstable⟩ := hsteady.stable
  refine ⟨y, q .ready, hrun, hstable.settled.inv.queues.linked .ready, ?_⟩
  intro i t hi ops' hops' hcount
  have hticks := hsteady.ticks
  have hslice : schedulerTimeSlice = 10 := rfl
  have hwaits : Waits t ((i + 1) * schedulerTimeSlice - 1 - y.sched.preemptionTicks) y := by
    refine ⟨q, hsteady, i, hi, ?_⟩
    rw [hslice] at hticks ⊢
    omega
  have hstep : ∀ n y op, Waits t n y → op.Allowed y ∧ Resumable y.sched op →
      ∃ y', sysStep trampoline y op = some y' ∧ (y'.sched.currentTask = some t
        ∨ ∃ k, k + (if TurnUsed y.sched op then 1 else 0) ≤ n ∧ Waits t k y') :=
    fun n y op h hop => h.step hop
  apply run_reaches hstep hwaits hops'
  rw [hslice] at hticks hcount ⊢
  omega

/-- Three tasks are added and the first is in service; it is preempted,
and so is the second. -/
def twoSlicesOps : List SchedOp := List.replicate 20 (.timer 0xa000)

/-- The third task, behind another one. -/
theorem ready_task_served_third :
    ∃ y, runOps (sysStep 0x42) (sysInit bootSched 1 0x50 0x4000)
        (threeTaskOps ++ [.yield { rsp := 0x5000 }]) = some y
      ∧ ∃ ops₁ ops₂ z, twoSlicesOps = ops₁ ++ ops₂
        ∧ runOps (sysStep 0x42) y ops₁ = some z ∧ z.sched.currentTask = some 3 := by
  obtain ⟨y, ready, hrun, hlinked, hserved⟩ :=
    ready_task_served 0x42 1 0x50 (show bootSched.taskCount = 0 from rfl)
      (show 0x4000 + kernelStackSize < 2 ^ 64 by decide)
      (show AllowedRun (sysStep 0x42) (fun y op => op.Allowed y ∧ Resumable y.sched op)
        (sysInit bootSched 1 0x50 0x4000) (threeTaskOps ++ [.yield { rsp := 0x5000 }]) by decide)
  have hvalues : (runOps (sysStep 0x42) (sysInit bootSched 1 0x50 0x4000)
      (threeTaskOps ++ [.yield { rsp := 0x5000 }])).map
      (fun y => (y.sched.readyQueue, links y.sched 2, links y.sched 3,
        decide (AllowedRun (sysStep 0x42) (fun y op => op.Allowed y ∧ Resumable y.sched op) y
          twoSlicesOps),
        countRun (sysStep 0x42) (fun y => TurnUsed y.sched) y twoSlicesOps))
      = some (some 2, some 3, none, true, 20) := by decide
  rw [hrun, Option.map_some] at hvalues
  injection hvalues with hvalues
  injection hvalues with hhead hvalues
  injection hvalues with htwo hvalues
  injection hvalues with hthree hvalues
  injection hvalues with hallowed hcount
  have hready : ready = [2, 3] := by
    apply hlinked.unique
    exact ⟨hhead, htwo, hthree⟩
  refine ⟨y, hrun, hserved 1 3 (by rw [hready]; rfl) _ (of_decide_eq_true hallowed) ?_⟩
  rw [hcount]
  exact Nat.le_add_right 20 y.sched.preemptionTicks

end ZenithOS.Interrupt
