/-
Preemption is invisible to the tasks.

An interrupt returns to the program it interrupted, or to that of the
task it switches to; and that is the one the task was interrupted with,
all registers and flags included, whatever ran in between
(`Holds.step`). So along every run what the processor has is what the
current task would have on a processor of its own.
-/
import ZenithOS.Interrupt.Run
import ZenithOS.Interrupt.Proofs.Isr
import ZenithOS.Scheduler.Proofs.AddressSpace
import ZenithOS.Scheduler.Proofs.Context
import ZenithOS.Sync.Proofs.Saves

namespace ZenithOS.Interrupt

open Lib Lib.X86 Mm Scheduler Sync

variable {calls : Extern → Sched × Cpu → Sched × Cpu} {depth trampoline vector error : Nat}
  {k : X86.Context} {s s' s₁ : Sched} {m m' : Mem} {t u : TaskPtr} {context : InterruptContext}
  {q : QueueId Empty → List TaskPtr} {dead added : List TaskPtr} {areas : StackAreas}
  {saves : TaskPtr → Option Source}

-- ====================================================== reading a frame

/-- A frame is read from its own bytes. -/
theorem loadInterruptContext_congr {a : Nat}
    (h : ∀ x, a ≤ x → x < a + interruptFrameSize → m' x = m x) :
    (loadInterruptContext m' a).program = (loadInterruptContext m a).program := by
  have hword : ∀ o, o + 8 ≤ 176 → loadWord m' (a + o) = loadWord m (a + o) := by
    intro o ho
    apply loadWord_congr
    intro x hlo hhi
    exact h x (by omega) (by unfold interruptFrameSize; omega)
  have hregs : ∀ r, r ≠ .rsp →
      loadWord m' (a + registerOffset r) = loadWord m (a + registerOffset r) := by
    intro r hr
    have hidx := registersFields_idxOf hr
    apply hword
    unfold registerOffset
    omega
  simp only [InterruptContext.program, loadInterruptContext]
  rw [hword 136 (by decide), hword 144 (by decide), hword 152 (by decide), hword 168 (by decide)]
  congr 1
  funext r
  by_cases hr : r = .rsp
  · rw [if_pos hr, if_pos hr, hword 160 (by decide)]
  · rw [if_neg hr, if_neg hr, hregs r hr]

/-- What a task starts from when its frame is one made for it: the
trampoline, with the task's context in `rdi`. -/
def trampolineProgram (trampoline : Nat) (t : TaskPtr) : X86.Context where
  regs r := if r = .rdi then taskContextAddress t % 2 ^ 64 else 0
  rip := trampoline % 2 ^ 64
  cs := kernelCodeSelector
  rflags := kernelTrampolineRflags
  ss := 0

/-- A task starts with a valid program. -/
theorem trampolineProgram_valid (trampoline : Nat) (t : TaskPtr) :
    (trampolineProgram trampoline t).Valid := by
  have hcs : kernelCodeSelector < 2 ^ 16 := by decide
  have hrflags : kernelTrampolineRflags < 2 ^ 64 := by decide
  have hload : Loadable kernelCodeSelector 0 := by decide
  refine ⟨?_, Nat.mod_lt _ (by decide), hcs, hrflags, Nat.two_pow_pos 16, hload⟩
  intro r
  simp only [trampolineProgram]
  split_ifs
  · exact Nat.mod_lt _ (by decide)
  · decide

/-- The frame `scheduler_build_context_interrupt_rsp` makes. -/
theorem kernelFrame_program (m : Mem) (frame trampoline : Nat) (t : TaskPtr) :
    (loadInterruptContext (Asm.kernelFrame m frame (taskContextAddress t) trampoline)
      frame).program = trampolineProgram trampoline t := by
  obtain ⟨hrdi, hrip, hcs, hrflags⟩ :=
    Asm.kernelFrame_words m frame (taskContextAddress t) trampoline
  -- every other word is zero
  have hzero : ∀ o, o + 8 ≤ 176 → o + 8 ≤ 64 ∨ 72 ≤ o ∧ o + 8 ≤ 136 ∨ 160 ≤ o →
      loadWord (Asm.kernelFrame m frame (taskContextAddress t) trampoline) (frame + o) = 0 := by
    intro o ho hother
    unfold Asm.kernelFrame
    rw [loadWord_storeWord_of_disjoint (by omega), loadWord_storeWord_of_disjoint (by omega),
      loadWord_storeWord_of_disjoint (by omega), loadWord_storeWord_of_disjoint (by omega),
      loadWord_fill_zero (by omega) (by unfold interruptFrameSize; omega)]
  simp only [InterruptContext.program, loadInterruptContext]
  rw [hrip, hcs, hrflags, hzero 168 (by decide) (by decide)]
  ext1
  · funext r
    simp only [trampolineProgram]
    cases r with
    | rdi => exact hrdi
    | rsp => exact hzero 160 (by decide) (by decide)
    | _ => exact hzero _ (by decide) (by decide)
  · rfl
  · rfl
  · rfl
  · rfl

-- ==================================================== the next task's frame

/-- Saving a frame's place writes to no stack. -/
theorem schedulerSaveInterruptContext_stack (s : Sched) (rsp : Nat) :
    (schedulerSaveInterruptContext s rsp).stack = s.stack := by
  unfold schedulerSaveInterruptContext
  split
  · rfl
  · split_ifs <;> rfl

/-- A commit writes to no stack. -/
theorem schedulerCommitPendingTask_stack (s : Sched) :
    (schedulerCommitPendingTask s).stack = s.stack := by
  unfold schedulerCommitPendingTask
  split
  · rfl
  · dsimp only
    split_ifs <;> rfl

/-- The memory is written for the frame of the next task only. -/
theorem schedulerGetNextInterruptRsp_stack {rsp : Nat}
    (h : schedulerGetNextInterruptRsp trampoline s = some (rsp, s')) :
    rsp = null ∧ s'.stack = s.stack
      ∨ ∃ u, schedulerGetNextTask s = some u ∧ some u ≠ s.idle
        ∧ rsp = (nextInterruptRsp trampoline s u).1
        ∧ s'.stack = (nextInterruptRsp trampoline s u).2.stack
        ∧ (rsp ≠ null → s'.pendingTask = some u) := by
  unfold schedulerGetNextInterruptRsp at h
  split_ifs at h
  · obtain ⟨rfl, rfl⟩ := Prod.mk.inj (Option.some.inj h)
    exact .inl ⟨rfl, rfl⟩
  · cases hn : schedulerGetNextTask s with
    | none =>
        rw [hn] at h
        obtain ⟨rfl, rfl⟩ := Prod.mk.inj (Option.some.inj h)
        exact .inl ⟨rfl, rfl⟩
    | some u =>
        rw [hn] at h
        dsimp only at h
        split_ifs at h with hidle hnull
        · obtain ⟨rfl, rfl⟩ := Prod.mk.inj (Option.some.inj h)
          exact .inl ⟨rfl, rfl⟩
        · obtain ⟨rfl, rfl⟩ := Prod.mk.inj (Option.some.inj h)
          exact .inr ⟨u, rfl, hidle, hnull.symm, rfl, fun hne => absurd rfl hne⟩
        · obtain ⟨s₁, hrequeue, heq⟩ := Option.map_eq_some_iff.mp h
          obtain ⟨rfl, rfl⟩ := Prod.mk.inj heq
          have hkept : s₁.stack = (nextInterruptRsp trampoline s u).2.stack :=
            (congrArg Sched.stack (preemptRequeue_kept hrequeue) :).trans
              (congrArg Sched.stack schedulerReadyQueuePop_kept :)
          exact .inr ⟨u, rfl, hidle, rfl, hkept, fun _ => rfl⟩

-- ============================================================ isr_dispatch

/-- `isr_dispatch` moves tasks about, and asks for a preemption only of a
task that is not idle. -/
theorem isrDispatch_settled (h : Settled s noWait q dead added)
    (hpending : s.pendingTask = none) (hrequest : s.preemptionRequested = false)
    (hnumber : context.interruptNumber = vector) (hvector : vector < isrVectorCount)
    (hhandled : vector = exceptionPageFault ∨ irqBaseVector ≤ vector) :
    ∃ s₁ q₁, isrDispatch context s = some s₁ ∧ Settled s₁ noWait q₁ dead added
      ∧ s₁.pendingTask = none ∧ AtRest s s₁ ∧ s₁.stack = s.stack
      ∧ (s₁.preemptionRequested = true → s.currentTask ≠ none ∧ s.currentTask ≠ s.idle) := by
  have hstays : isrDispatch context s = some s → ∃ s₁ q₁, isrDispatch context s = some s₁
      ∧ Settled s₁ noWait q₁ dead added ∧ s₁.pendingTask = none ∧ AtRest s s₁
      ∧ s₁.stack = s.stack
      ∧ (s₁.preemptionRequested = true → s.currentTask ≠ none ∧ s.currentTask ≠ s.idle) := by
    intro hsame
    refine ⟨s, q, hsame, h, hpending, AtRest.refl s, rfl, ?_⟩
    intro hset
    rw [hrequest] at hset
    cases hset
  unfold isrVectorCount at hvector
  unfold irqBaseVector at hhandled
  rcases hhandled with hfault | hirq
  · apply hstays
    unfold isrDispatch
    rw [hnumber, hfault]
    rfl
  · have hdispatch : isrDispatch context s
        = irqDispatch irqHandlers (fun _ s => s) vector s := by
      unfold isrDispatch
      rw [hnumber, if_neg (by omega)]
    have hline : ∀ handler, irqHandlers (vector - 32) = some handler →
        irqDispatch irqHandlers (fun _ s => s) vector s = handler s := by
      intro handler hhandler
      unfold irqDispatch irqBaseVector irqCount
      rw [if_neg (by omega)]
      dsimp only
      rw [hhandler, Option.map_id_fun', id]
    by_cases htimer : vector - 32 = irqTimerLine
    · -- the timer
      obtain ⟨s₁, htick, -, hwoken, hrest, hends⟩ := timer_start h.inv hrequest
      have hticked : Settled (tickSystem s) noWait q dead added :=
        h.congr ⟨rfl, fun _ _ => rfl, rfl, rfl, rfl, rfl, rfl⟩ rfl
      obtain ⟨s₁', htick', hset, -⟩ := hticked.tick
      obtain rfl := Option.some.inj (htick'.symm.trans htick)
      have hset' : Settled (schedulerPreempt s₁') noWait _ dead added :=
        hset.congr schedulerPreempt_sameShape schedulerPreempt_current.1
      refine ⟨schedulerPreempt s₁', _, ?_, hset', ?_, hrest, ?_, ?_⟩
      · have hhandler : irqHandlers (vector - 32) = some pitIrqHandler := by
          rw [htimer]
          rfl
        rw [hdispatch, hline pitIrqHandler hhandler, pitIrqHandler, htick, Option.map_some]
      · exact schedulerPreempt_current.2.trans
          (hwoken.kept.sameRequest.pendingTask.trans hpending)
      · have hstack : s₁'.stack = s.stack := (congrArg Sched.stack hwoken.kept :)
        rw [← hstack]
        unfold schedulerPreempt
        split_ifs <;> rfl
      · intro hset
        exact ⟨(hends hset).1, (hends hset).2.1⟩
    · apply hstays
      rw [hdispatch]
      unfold irqDispatch irqHandlers irqBaseVector irqCount
      rw [if_neg (by omega)]
      dsimp only
      rw [if_neg htimer, Option.map_id_fun', id]
      split_ifs <;> rfl

-- ================================================================ the exit

/-- The next task, when there is one to resume: it is ready, so the
account of its state is right. -/
structure NextReady (s : Sched) (saves : TaskPtr → Option Source) (t u : TaskPtr) : Prop where
  lt : u < s.taskCount
  other : u ≠ t
  saved : saves u = some (source (s.tasks u))
  kernel : Sync.KernelTask s (s.tasks u).process

/-- The first ready task. -/
theorem settled_nextReady (h : Settled s noWait q dead added) (hs : SavesInv s saves)
    (hcur : s.currentTask = some t) (hnext : schedulerGetNextTask s = some u)
    (hidle : some u ≠ s.idle) : NextReady s saves t u := by
  have hmem : u ∈ q .ready := by
    cases hq : q .ready with
    | nil =>
        rw [schedulerGetNextTask, h.inv.readyQueue_none hq] at hnext
        exact absurd hnext.symm hidle
    | cons v l =>
        rw [schedulerGetNextTask, (h.inv.readyQueuePop hq).1] at hnext
        rw [← Option.some.inj hnext]
        exact List.mem_cons_self ..
  obtain ⟨hadd, hout, hready⟩ := h.inv.queued .ready u hmem
  have hlt := (h.inv.added_lt u hadd).1
  have hother : some u ≠ s.currentTask := by
    intro heq
    rw [running_task heq.symm hidle] at hout
    exact hout (List.mem_cons_self ..)
  refine ⟨hlt, ?_, (hs.saved u hlt hother).source_eq (.inl hready), hs.kernel u hlt⟩
  intro heq
  exact hother (by rw [hcur, heq])

/-- The exit of an interrupt that `t` was running at, after the frame has
been saved: back to `t`, with no memory written unless the next task has
no frame, or on to the next task from its frame. -/
theorem isrExit_switched (trampoline : Nat) {frame : Nat} (h : Settled s noWait q dead added)
    (hs : SavesInv s saves) (hpending : s.pendingTask = none) (hcur : s.currentTask = some t)
    (hidle : s.preemptionRequested = true → s.currentTask ≠ s.idle) (hframe : frame ≠ null) :
    ∃ resume s' s₂, isrExit trampoline s frame = some (resume, s')
      ∧ s₂ = schedulerSaveInterruptContext s frame
      ∧ (∃ q', Stable ⟨s', added⟩ q' dead) ∧ s'.taskCount = s.taskCount
      ∧ (resume = .caller ∧ SavesInv s' saves ∧ s'.currentTask = some t
          ∧ (s'.stack = s.stack
            ∨ ∃ u, NextReady s₂ saves t u ∧ (nextInterruptRsp trampoline s₂ u).1 = null)
        ∨ ∃ u, NextReady s₂ saves t u ∧ resume = .interrupt u (nextInterruptRsp trampoline s₂ u).1
          ∧ s'.stack = (nextInterruptRsp trampoline s₂ u).2.stack ∧ s'.currentTask = some u
          ∧ SavesInv s' (saved saves (some t) (some (.frame frame)))) := by
  obtain ⟨resume, s', q', hexit, hset', -, hpending', hrequest'⟩ :=
    h.isrExit hpending trampoline frame
  have hsave := schedulerSaveInterruptContext_current s frame
  have hset₂ : Settled (schedulerSaveInterruptContext s frame) noWait q dead added :=
    h.congr schedulerSaveInterruptContext_sameShape hsave.1
  have hrest₂ := schedulerSaveInterruptContext_atRest s frame
  have hs₂ := hrest₂.savesInv hs
  have hcur₂ := hsave.1.trans hcur
  obtain ⟨rsp, s₃, hnext, hcases⟩ := isrExit_cases hexit
  have hnextReady : ∀ u, schedulerGetNextTask (schedulerSaveInterruptContext s frame) = some u →
      some u ≠ (schedulerSaveInterruptContext s frame).idle →
      NextReady (schedulerSaveInterruptContext s frame) saves t u :=
    fun u hu hi => settled_nextReady hset₂ hs₂ hcur₂ hu hi
  have hstable : ∃ q', Stable ⟨s', added⟩ q' dead := ⟨q', hset', hpending', hrequest'⟩
  have hstack := schedulerGetNextInterruptRsp_stack hnext
  rcases getNextInterruptRsp_requeued hset₂ hs₂ hnext with
    ⟨hnull, hrest⟩ | ⟨hnull, hrequested, next, -, -, -, hpend, hrsp, hrequeued⟩
  · obtain ⟨-, hresume, rfl⟩ := hcases.resolve_right fun hswitch => hswitch.1 hnull
    refine ⟨resume, s', _, hexit, rfl, hstable, hrest.taskCount.trans hrest₂.taskCount,
      .inl ⟨hresume, hrest.savesInv hs₂, hrest.current.trans hcur₂, ?_⟩⟩
    rcases hstack with ⟨-, hsame⟩ | ⟨u, hu, hi, hnone, -, -⟩
    · exact .inl (hsame.trans (schedulerSaveInterruptContext_stack s frame))
    · exact .inr ⟨u, hnextReady u hu hi, hnone.symm.trans hnull⟩
  · obtain ⟨-, ⟨u, hpend', hresume⟩, rfl⟩ := hcases.resolve_left fun hback => hnull hback.1
    obtain rfl : next = u := Option.some.inj (hpend.symm.trans hpend')
    have hcommit := schedulerCommitPendingTask_scheduled hpend
    rcases hstack with ⟨hnone, -⟩ | ⟨u, hu, hi, hrsp', hstack, hpend'⟩
    · exact absurd hnone hnull
    obtain rfl : next = u := Option.some.inj (hpend.symm.trans (hpend' hnull))
    have htidle : some t ≠ s.idle := by
      rw [← hcur]
      exact hidle (hsave.2.preemptionRequested ▸ hrequested)
    refine ⟨resume, _, _, hexit, rfl, hstable,
      (hcommit.taskCount.trans hrequeued.taskCount).trans hrest₂.taskCount,
      .inr ⟨next, hnextReady next hu hi, ?_, ?_, hcommit.current, ?_⟩⟩
    · rw [hresume, hrsp']
    · rw [schedulerCommitPendingTask_stack, hstack]
    · exact hrequeued.savesInv hcommit hs₂ hcur₂ (by rw [hrest₂.idle]; exact htidle)
        (schedulerSaveInterruptContext_source hcur htidle hframe)

-- ============================================================= the tasks

/-- The program of a task that does not run is where the account says:
in a frame on its stack, or about to be started by the trampoline. -/
def Held (areas : StackAreas) (trampoline : Nat) (m : Mem) (t : TaskPtr) (k : X86.Context) :
    Source → Prop
  | .frame f =>
      areas.lo t ≤ f ∧ f + interruptFrameSize ≤ areas.hi t
        ∧ (loadInterruptContext m f).program = k
  | .context c =>
      areas.lo t + interruptFrameSize ≤ c.rsp ∧ c.rsp ≤ areas.hi t
        ∧ k = trampolineProgram trampoline t
  | .userEntry => False

/-- What a task's stack says is read on that stack. -/
theorem Held.congr {src : Source} (h : Held areas trampoline m t k src)
    (hsame : ∀ x, areas.On t x → m' x = m x) : Held areas trampoline m' t k src := by
  cases src with
  | frame f =>
      obtain ⟨hlo, hhi, hprogram⟩ := h
      refine ⟨hlo, hhi, ?_⟩
      rw [← hprogram]
      exact loadInterruptContext_congr fun x hx hx' => hsame x ⟨by omega, by omega⟩
  | context c => exact h
  | userEntry => exact h

/-- The frame the next task is resumed from: it is on the task's stack
and has its program, and making it writes nothing else. -/
theorem Held.next (trampoline : Nat) (hu : NextReady s saves t u)
    (hheld : ∀ src, saves u = some src → Held areas trampoline s.stack u k src) :
    (nextInterruptRsp trampoline s u).1 ≠ null
      ∧ areas.lo u ≤ (nextInterruptRsp trampoline s u).1
      ∧ (nextInterruptRsp trampoline s u).1 + interruptFrameSize ≤ areas.hi u
      ∧ (loadInterruptContext (nextInterruptRsp trampoline s u).2.stack
          (nextInterruptRsp trampoline s u).1).program = k
      ∧ ∀ x, ¬ areas.On u x → (nextInterruptRsp trampoline s u).2.stack x = s.stack x := by
  have hpositive := areas.positive u
  have hfits := areas.fits u
  have hnull : null = 0 := rfl
  have hsize : interruptFrameSize = 176 := rfl
  have hsource := hheld _ hu.saved
  rw [nextInterruptRsp_kernel hu.kernel]
  unfold source at hsource
  split_ifs at hsource ⊢ with hframe
  · obtain ⟨hlo, hhi, hprogram⟩ := hsource
    exact ⟨by dsimp only; omega, hlo, hhi, hprogram, fun _ _ => rfl⟩
  · obtain ⟨hlo, hhi, hprogram⟩ := hsource
    have hbelow : interruptFrameBelow (s.tasks u).context.rsp
        = (s.tasks u).context.rsp - interruptFrameSize := by
      unfold interruptFrameBelow
      omega
    rw [Asm.build_kernelFrame hu.kernel (by omega), hbelow]
    refine ⟨by dsimp only; omega, by dsimp only; omega, by dsimp only; omega, ?_, ?_⟩
    · rw [hprogram]
      exact kernelFrame_program ..
    · intro x hx
      apply Asm.kernelFrame_outside
      unfold StackAreas.On at hx
      omega

/-- Between two steps: the processor runs the current task's program, and
the others' are held. -/
structure Holds (areas : StackAreas) (trampoline : Nat) (added dead : List TaskPtr)
    (y : Shared) : Prop where
  stable : ∃ q, Stable ⟨y.core.sched, added⟩ q dead
  account : ∃ saves, SavesInv y.core.sched saves
    ∧ ∀ t, t < y.core.sched.taskCount → y.core.sched.currentTask ≠ some t →
      ∀ src, saves t = some src →
        Held areas trampoline y.core.sched.stack t (y.programs t) src
  current : ∃ t, y.core.sched.currentTask = some t ∧ t < y.core.sched.taskCount
    ∧ y.core.program = y.programs t
  valid : ∀ t, (y.programs t).Valid ∧ (y.programs t).cs % 4 = 0

variable {y y' : Shared} {op : CoreOp} {program : X86.Context} {mem : Mem}

/-- The invariants of the scheduler do not depend on the memory. -/
theorem stable_withStack (h : Stable ⟨s, added⟩ q dead) (m : Mem) :
    Stable ⟨{ s with stack := m }, added⟩ q dead :=
  ⟨h.settled.congr ⟨rfl, fun _ _ => rfl, rfl, rfl, rfl, rfl, rfl⟩ rfl, h.pending, h.request⟩

/-- What a task writes to its stack is nothing to the scheduler. -/
theorem atRest_withStack (s : Sched) (m : Mem) : AtRest s { s with stack := m } :=
  AtRest.of_tasks rfl rfl rfl rfl rfl

/-- The running task works: it leaves the others' stacks alone. -/
theorem Holds.work (h : Holds areas trampoline added dead y)
    (hop : (CoreOp.work program mem).Allowed areas depth y) (isrTable : Nat → Nat) :
    ∃ y', sharedStep calls isrTable y (.work program mem) = some y'
      ∧ Holds areas trampoline added dead y' := by
  obtain ⟨hvalid, hring, hothers⟩ := hop
  obtain ⟨q, hstable⟩ := h.stable
  obtain ⟨saves, hsaves, hheld⟩ := h.account
  obtain ⟨t, hcur, hlt, -⟩ := h.current
  refine ⟨_, rfl, ⟨q, stable_withStack hstable mem⟩,
    ⟨saves, (atRest_withStack _ mem).savesInv hsaves, ?_⟩, ⟨t, hcur, hlt, ?_⟩, ?_⟩
  · intro u hu hother src hsrc
    have hut : u ≠ t := fun heq => hother (heq ▸ hcur)
    have hprograms : programsAfter y.core.sched.currentTask y.programs (.work program mem) u
        = y.programs u := by
      simp only [programsAfter, hcur]
      exact Function.update_of_ne hut ..
    show Held areas trampoline mem u
      (programsAfter y.core.sched.currentTask y.programs (.work program mem) u) src
    rw [hprograms]
    exact (hheld u hu hother src hsrc).congr (hothers u hother)
  · show program = programsAfter y.core.sched.currentTask y.programs (.work program mem) t
    simp only [programsAfter, hcur, Function.update_self]
  · intro u
    show (programsAfter y.core.sched.currentTask y.programs (.work program mem) u).Valid
      ∧ (programsAfter y.core.sched.currentTask y.programs (.work program mem) u).cs % 4 = 0
    simp only [programsAfter, hcur]
    by_cases hut : u = t
    · rw [hut, Function.update_self]
      exact ⟨hvalid, hring⟩
    · rw [Function.update_of_ne hut]
      exact h.valid u

/-- Where an interrupt of a ring 0 program puts the frame: on the task's
stack, with the stack of the C functions below. -/
theorem deliveryStack_room (rsp0 : Nat) (hring : k.cs % 4 = 0)
    (hlo : areas.lo t + interruptRoom depth ≤ k.regs .rsp) (hhi : k.regs .rsp ≤ areas.hi t) :
    areas.lo t + depth + interruptFrameSize ≤ deliveryStack rsp0 k
      ∧ deliveryStack rsp0 k ≤ areas.hi t := by
  have hsize : interruptFrameSize = 176 := rfl
  unfold deliveryStack
  unfold interruptRoom at hlo
  rw [if_pos hring]
  omega

/-- An interrupt comes back, to the program of whoever is current then. -/
theorem Holds.interrupt (h : Holds areas trampoline added dead y)
    (hcalls : CompiledKernel depth trampoline calls) (isrTable : Nat → Nat)
    (hop : (CoreOp.interrupt vector error).Allowed areas depth y) :
    ∃ y', sharedStep calls isrTable y (.interrupt vector error) = some y'
      ∧ Holds areas trampoline added dead y' := by
  obtain ⟨hvector, hhandled, hroom⟩ := hop
  obtain ⟨q, hstable⟩ := h.stable
  obtain ⟨saves, hsaves, hheld⟩ := h.account
  obtain ⟨t, hcur, hlt, hprogram⟩ := h.current
  obtain ⟨hvalid, hring⟩ := h.valid t
  obtain ⟨hlo, hhi⟩ := hroom t hcur
  rw [hprogram] at hlo hhi
  have hpositive := areas.positive t
  have hfits := areas.fits t
  have hnull : null = 0 := rfl
  have hsize : interruptFrameSize = 176 := rfl
  obtain ⟨s, hs⟩ : ∃ s, s = y.core.sched := ⟨_, rfl⟩
  obtain ⟨k, hk⟩ : ∃ k, k = y.programs t := ⟨_, rfl⟩
  rw [← hs] at hstable hsaves hheld hcur hlt
  rw [← hk] at hvalid hring hlo hhi hprogram
  obtain ⟨hbase, htop⟩ := deliveryStack_room s.tssRsp0 hring hlo hhi
  obtain ⟨frame, hframe⟩ : ∃ frame, frame = deliveryStack s.tssRsp0 k - interruptFrameSize :=
    ⟨_, rfl⟩
  obtain ⟨m₁, hm₁⟩ : ∃ m₁, m₁ = framed vector error k (deliveryStack s.tssRsp0 k) s.stack :=
    ⟨_, rfl⟩
  have hframed : (loadInterruptContext m₁ frame).program = k := by
    rw [hm₁, hframe]
    exact framed_program hvalid (by omega) (by omega)
  have hm₁_other : ∀ x, ¬ areas.On t x → m₁ x = s.stack x := by
    intro x hx
    unfold StackAreas.On at hx
    rw [hm₁]
    exact framed_outside (by omega) (by omega) (by omega)
  -- isr_dispatch
  have hnumber : (loadInterruptContext m₁ frame).interruptNumber = vector := by
    rw [hm₁, hframe]
    exact framed_interruptNumber hvector (by omega) (by omega)
  have hstable₁ := stable_withStack hstable m₁
  obtain ⟨s₁, q₁, hdispatch, hset₁, hpending₁, hrest₁, hstack₁, hrequest₁⟩ :=
    isrDispatch_settled hstable₁.settled hstable₁.pending hstable₁.request hnumber hvector
      (hhandled.imp_right And.left)
  replace hrest₁ := (atRest_withStack s m₁).trans hrest₁
  -- the exit
  have hcur₁ : s₁.currentTask = some t := hrest₁.current.trans hcur
  have hidle₁ : s₁.preemptionRequested = true → s₁.currentTask ≠ s₁.idle := by
    intro hset
    rw [hrest₁.current, hrest₁.idle]
    exact (hrequest₁ hset).2
  obtain ⟨resume, s', s₂, hexit, hs₂, ⟨q', hstable'⟩, hcount, hcases⟩ :=
    isrExit_switched trampoline hset₁ (hrest₁.savesInv hsaves) hpending₁ hcur₁
      hidle₁ (show frame ≠ null by omega)
  have hstack₂ : s₂.stack = m₁ := by
    rw [hs₂, schedulerSaveInterruptContext_stack, hstack₁]
  have hcount₂ : s₂.taskCount = s.taskCount := by
    rw [hs₂]
    exact (schedulerSaveInterruptContext_atRest s₁ frame).taskCount.trans hrest₁.taskCount
  -- the next task's frame is its own
  have hnext : ∀ u, NextReady s₂ saves t u → _ := fun u hu =>
    Held.next trampoline (k := y.programs u) hu fun src hsrc => by
      rw [hstack₂]
      refine (hheld u (hcount₂ ▸ hu.lt) ?_ src hsrc).congr ?_
      · rw [hcur]
        exact fun heq => hu.other (Option.some.inj heq).symm
      · intro x hx
        apply hm₁_other
        have hapart := areas.apart t u hu.other.symm
        unfold StackAreas.On at hx ⊢
        omega
  -- what is left to show: whose frame it is, and that the others' are kept
  have hfinish : ∀ u saves', s'.currentTask = some u → u < s.taskCount →
      SavesInv s' saves' → areas.lo u ≤ resumeFrame frame resume →
      resumeFrame frame resume + interruptFrameSize ≤ areas.hi u →
      (∀ m, Agree (frame - depth) frame s'.stack m →
        (loadInterruptContext m (resumeFrame frame resume)).program = y.programs u
          ∧ ∀ v, v < s.taskCount → v ≠ u → ∀ src, saves' v = some src →
            Held areas trampoline m v (y.programs v) src) →
      ∃ y', sharedStep calls isrTable y (.interrupt vector error) = some y'
        ∧ Holds areas trampoline added dead y' := by
    intro u saves' hcur' hltu hsaves' hlou hhiu hmem
    have hfitsu := areas.fits u
    obtain ⟨s'', hoff, hrun⟩ := interrupt_eq hcalls isrTable vector error hframe (by omega)
      (by omega) (by rw [← hm₁]; exact hdispatch) hexit (by omega)
    obtain ⟨hprogram', hheld'⟩ := hmem s''.stack hoff.2
    rw [hprogram', if_pos (h.valid u).1.loadable] at hrun
    have hsame : s'' = { s' with stack := s''.stack } := hoff.1
    refine ⟨{ core := { program := y.programs u, sched := s'' }, programs := y.programs }, ?_,
      ⟨q', ?_⟩, ⟨saves', ?_, ?_⟩, ⟨u, ?_, ?_, rfl⟩, h.valid⟩
    · unfold sharedStep coreStep
      rw [hprogram, ← hs]
      dsimp only
      rw [hrun]
      rfl
    · dsimp only
      rw [hsame]
      exact stable_withStack hstable' _
    · dsimp only
      rw [hsame]
      exact (atRest_withStack s' _).savesInv hsaves'
    · intro v hv hother src hsrc
      dsimp only at hv hother ⊢
      rw [hsame] at hv hother
      apply hheld' v _ _ src hsrc
      · rw [← hrest₁.taskCount, ← hcount]
        exact hv
      · intro heq
        exact hother (heq ▸ hcur')
    · dsimp only
      rw [hsame]
      exact hcur'
    · dsimp only
      rw [hsame]
      show u < s'.taskCount
      rw [hcount, hrest₁.taskCount]
      exact hltu
  -- off the stacks of the two tasks nothing is written
  have hkept : ∀ v src, v < s.taskCount → v ≠ t → saves v = some src → ∀ m,
      (∀ x, areas.On v x → m x = m₁ x) → Held areas trampoline m v (y.programs v) src := by
    intro v src hv hvt hsrc m hm
    have hother : s.currentTask ≠ some v := by
      rw [hcur]
      exact fun heq => hvt (Option.some.inj heq).symm
    have hapart := areas.apart t v hvt.symm
    refine (hheld v hv hother src hsrc).congr fun x hx => (hm x hx).trans (hm₁_other x ?_)
    unfold StackAreas.On at hx ⊢
    omega
  rcases hcases with ⟨rfl, hsaves', hcur', hstack'⟩ | ⟨u, hu, rfl, hstack', hcur', hsaves'⟩
  · -- back
    have hsame : s'.stack = m₁ := by
      rcases hstack' with hsame | ⟨u, hu, hnone⟩
      · exact hsame.trans hstack₁
      · exact absurd hnone (hnext u hu).1
    apply hfinish t saves hcur' hlt hsaves'
    · show areas.lo t ≤ frame
      omega
    · show frame + interruptFrameSize ≤ areas.hi t
      omega
    · intro m hm
      rw [hsame] at hm
      refine ⟨?_, ?_⟩
      · rw [← hk, ← hframed]
        exact loadInterruptContext_congr fun x hx hx' => hm x (.inr hx)
      · intro v hv hvt src hsrc
        apply hkept v src hv hvt hsrc
        intro x hx
        apply hm
        have hapart := areas.apart t v hvt.symm
        unfold StackAreas.On at hx
        omega
  · -- on to the next task
    obtain ⟨-, hlou, hhiu, hprogramu, hmade⟩ := hnext u hu
    have hapart := areas.apart t u hu.other.symm
    have hltu : u < s.taskCount := hcount₂ ▸ hu.lt
    rw [hstack₂] at hmade
    apply hfinish u _ hcur' hltu hsaves' hlou hhiu
    intro m hm
    rw [hstack'] at hm
    have hm' : ∀ v, v ≠ t → ∀ x, areas.On v x →
        m x = (nextInterruptRsp trampoline s₂ u).2.stack x := by
      intro v hvt x hx
      apply hm
      have hapartv := areas.apart t v hvt.symm
      unfold StackAreas.On at hx
      omega
    refine ⟨?_, ?_⟩
    · rw [← hprogramu]
      apply loadInterruptContext_congr
      intro x hx hx'
      apply hm' u hu.other x
      unfold StackAreas.On
      simp only [resumeFrame] at hx hx'
      omega
    · intro v hv hvu src hsrc
      by_cases hvt : v = t
      · -- the task that was interrupted: its frame is the one just pushed
        subst hvt
        have hnew : src = .frame frame := by
          simp only [saved, Function.update_self] at hsrc
          exact (Option.some.inj hsrc).symm
        subst hnew
        refine ⟨by omega, by omega, ?_⟩
        rw [← hk, ← hframed]
        apply loadInterruptContext_congr
        intro x hx hx'
        rw [hm x (.inr hx)]
        apply hmade
        unfold StackAreas.On
        omega
      · have hold : saves v = some src := by
          simpa only [saved, Function.update_of_ne hvt] using hsrc
        apply hkept v src hv hvt hold
        intro x hx
        rw [hm' v hvt x hx]
        apply hmade
        have hapartv := areas.apart u v hvu.symm
        unfold StackAreas.On at hx ⊢
        omega

/-- Every step keeps it. -/
theorem Holds.step (h : Holds areas trampoline added dead y)
    (hcalls : CompiledKernel depth trampoline calls) (isrTable : Nat → Nat)
    (hop : op.Allowed areas depth y) :
    ∃ y', sharedStep calls isrTable y op = some y' ∧ Holds areas trampoline added dead y' := by
  cases op with
  | work program mem => exact h.work hop isrTable
  | interrupt vector error => exact h.interrupt hcalls isrTable hop

-- ================================================================ the runs

/-- The tasks that do not run have been left, or made, with nothing but
their context, and a frame fits below each stack pointer. -/
structure Starts (areas : StackAreas) (trampoline : Nat) (y : Shared) : Prop where
  kernel : ∀ t, t < y.core.sched.taskCount →
    Sync.KernelTask y.core.sched (y.core.sched.tasks t).process
  idle : ∀ i, y.core.sched.idle = some i → (y.core.sched.tasks i).resumeMode = .context
  suspended : ∀ t, t < y.core.sched.taskCount → y.core.sched.currentTask ≠ some t →
    (y.core.sched.tasks t).resumeMode = .context
      ∧ areas.lo t + interruptFrameSize ≤ (y.core.sched.tasks t).context.rsp
      ∧ (y.core.sched.tasks t).context.rsp ≤ areas.hi t
      ∧ y.programs t = trampolineProgram trampoline t
  current : ∃ t, y.core.sched.currentTask = some t ∧ t < y.core.sched.taskCount
    ∧ y.core.program = y.programs t
  valid : ∀ t, (y.programs t).Valid ∧ (y.programs t).cs % 4 = 0

/-- It holds at the start. -/
theorem Starts.holds (h : Starts areas trampoline y)
    (hstable : ∃ q, Stable ⟨y.core.sched, added⟩ q dead) :
    Holds areas trampoline added dead y := by
  refine ⟨hstable, ⟨fun t => some (.context (y.core.sched.tasks t).context),
    ⟨h.kernel, h.idle, ?_⟩, ?_⟩, h.current, h.valid⟩
  · intro t hlt hother
    have hmode := (h.suspended t hlt fun heq => hother heq.symm).1
    have hsource : source (y.core.sched.tasks t) = .context (y.core.sched.tasks t).context := by
      simp [source, taskResumeUsesInterruptFrame, hmode]
    unfold TaskSaved
    split
    · rw [hsource]
    · rfl
    · rfl
    · exact ⟨rfl, hmode⟩
    · trivial
    · trivial
  · intro t hlt hother src hsrc
    obtain ⟨-, hlo, hhi, hprogram⟩ := h.suspended t hlt hother
    obtain rfl := Option.some.inj hsrc
    exact ⟨hlo, hhi, hprogram⟩

/-- However the tasks work and interrupts arrive, every interrupt comes
back, the processor has the program of the current task as that task
alone has left it, and the frame of every preempted task that is ready
has that task's. -/
theorem preemption_keeps_programs (hcalls : CompiledKernel depth trampoline calls)
    (isrTable : Nat → Nat) (areas : StackAreas) {boot : Sched} (hboot : boot.taskCount = 0)
    (id entry stack : Nat) {ops : List SchedOp} {sys : SchedSys}
    (hops : AllowedRun (sysStep trampoline) (fun y op => op.Allowed y)
      (sysInit boot id entry stack) ops)
    (hrun : runOps (sysStep trampoline) (sysInit boot id entry stack) ops = some sys)
    (y : Shared) (hsys : y.core.sched = sys.sched) (hstart : Starts areas trampoline y)
    (steps : List CoreOp)
    (hsteps : AllowedRun (sharedStep calls isrTable) (fun y op => op.Allowed areas depth y) y
      steps) :
    ∃ y', runOps (sharedStep calls isrTable) y steps = some y'
      ∧ ∃ t, y'.core.sched.currentTask = some t ∧ y'.core.program = y'.programs t
        ∧ ∀ u, u < y'.core.sched.taskCount → u ≠ t →
          (y'.core.sched.tasks u).state = .ready →
          taskResumeUsesInterruptFrame (y'.core.sched.tasks u) = true →
          (loadInterruptContext y'.core.sched.stack
            (y'.core.sched.tasks u).interruptRsp).program = y'.programs u := by
  obtain ⟨sys', hrun', q, dead, hstable, -⟩ := (stable_init hboot id entry stack).run hops
  obtain rfl := Option.some.inj (hrun'.symm.trans hrun)
  have hholds : Holds areas trampoline sys'.added dead y :=
    hstart.holds ⟨q, by rw [hsys]; exact hstable⟩
  obtain ⟨y', hy', hholds'⟩ := run_total
    (P := Holds areas trampoline sys'.added dead)
    (fun y op h hop => h.step hcalls isrTable hop) hholds hsteps
  obtain ⟨t, hcur, hlt, hprogram⟩ := hholds'.current
  obtain ⟨saves, hsaves, hheld⟩ := hholds'.account
  refine ⟨y', hy', t, hcur, hprogram, ?_⟩
  intro u hlt hut hready huses
  have hother : some u ≠ y'.core.sched.currentTask := by
    rw [hcur]
    exact fun heq => hut (Option.some.inj heq)
  have hsaved := (hsaves.saved u hlt hother).source_eq (.inl hready)
  rw [source, if_pos huses] at hsaved
  exact (hheld u hlt (fun heq => hother heq.symm) _ hsaved).2.2

/-- The first of two tasks is at the end of its time slice. -/
def sliceOverOps : List SchedOp :=
  [.createTask 2 0x100 0x8000 none, .createTask 3 0x200 0x10000 none, .addTask 1, .addTask 2,
    .yield { rsp := 0x500 }] ++ List.replicate 9 (.timer 0xb000)

/-- A task that has used up its time slice, with another one ready. -/
def sliceOver : SchedSys :=
  (runOps (sysStep 0x42) (sysInit bootSched 1 0x50 0x4000) sliceOverOps).getD
    (sysInit bootSched 1 0x50 0x4000)

/-- The run that leads there. -/
theorem sliceOver_run : runOps (sysStep 0x42) (sysInit bootSched 1 0x50 0x4000) sliceOverOps
    = some sliceOver := by
  have hsome : (runOps (sysStep 0x42) (sysInit bootSched 1 0x50 0x4000) sliceOverOps).isSome
      = true := by decide
  obtain ⟨sys, hsys⟩ := Option.isSome_iff_exists.mp hsome
  rw [sliceOver, hsys]
  rfl

theorem sliceOver_allowed : AllowedRun (sysStep 0x42) (fun y op => op.Allowed y)
    (sysInit bootSched 1 0x50 0x4000) sliceOverOps := by decide

/-- The stacks of idle and the two tasks. -/
def threeStacks : StackAreas where
  lo t := if t = 0 then 0x4000 else if t = 1 then 0x8000 else if t = 2 then 0x10000 else 1
  hi t := if t = 0 then 0x8000 else if t = 1 then 0xc000 else if t = 2 then 0x14000 else 0
  positive t := by split_ifs <;> decide
  fits t := by split_ifs <;> decide
  apart t u htu := by split_ifs <;> simp_all

/-- A kernel program with every register in use. -/
def busyProgram : X86.Context where
  regs r := if r = .rsp then 0xa123 else 0x1111
  rip := 0x100
  cs := kernelCodeSelector
  rflags := 0x246
  ss := 0x10

/-- The program is valid. -/
theorem busyProgram_valid : busyProgram.Valid := by
  refine ⟨?_, by decide, by decide, by decide, by decide, by decide⟩
  intro r
  simp only [busyProgram]
  split_ifs <;> decide

/-- The two tasks, the first of them running. -/
def busyShared : Shared where
  core := { program := busyProgram, sched := sliceOver.sched }
  programs t := if t = 1 then busyProgram else trampolineProgram 0x42 t

/-- The running task moves on and its time slice ends. -/
theorem preemption_keeps_programs_two_tasks :
    ∃ y', runOps (sharedStep (plainCalls 0x42) fun _ => 0) busyShared
        [.work { busyProgram with rip := 0x104 } sliceOver.sched.stack, .interrupt 32 0] = some y'
      ∧ ∃ t, y'.core.sched.currentTask = some t ∧ y'.core.program = y'.programs t := by
  have hcount : sliceOver.sched.taskCount = 3 := by decide
  have hcur : sliceOver.sched.currentTask = some 1 := by decide
  have hidle : sliceOver.sched.idle = some 0 := by decide
  have hother : ∀ t < 3, t ≠ 1 → (sliceOver.sched.tasks t).process = none
      ∧ (sliceOver.sched.tasks t).resumeMode = .context
      ∧ threeStacks.lo t + interruptFrameSize ≤ (sliceOver.sched.tasks t).context.rsp
      ∧ (sliceOver.sched.tasks t).context.rsp ≤ threeStacks.hi t := by decide
  have hprogram : busyShared.programs 1 = busyProgram := rfl
  have hring : kernelCodeSelector % 4 = 0 := by decide
  have hstart : Starts threeStacks 0x42 busyShared := by
    refine ⟨?_, ?_, ?_, ⟨1, hcur, by rw [busyShared, hcount]; decide, rfl⟩, ?_⟩
    · intro t hlt pr hpr
      have hnone : (sliceOver.sched.tasks t).process = none := by
        by_cases ht : t = 1
        · rw [ht]
          decide
        · exact (hother t (hcount ▸ hlt) ht).1
      exact absurd (hnone.symm.trans hpr) (Option.some_ne_none pr).symm
    · intro i hi
      obtain rfl := Option.some.inj (hidle.symm.trans hi)
      exact (hother 0 (by decide) (by decide)).2.1
    · intro t hlt ht
      have hne : t ≠ 1 := fun heq => ht (heq ▸ hcur)
      obtain ⟨-, hmode, hlo, hhi⟩ := hother t (hcount ▸ hlt) hne
      exact ⟨hmode, hlo, hhi, if_neg hne⟩
    · intro t
      by_cases ht : t = 1
      · rw [ht, hprogram]
        exact ⟨busyProgram_valid, rfl⟩
      · have hmade : busyShared.programs t = trampolineProgram 0x42 t := if_neg ht
        rw [hmade]
        exact ⟨trampolineProgram_valid .., hring⟩
  have hworked : ({ busyProgram with rip := 0x104 } : X86.Context).Valid :=
    ⟨busyProgram_valid.regs, by decide, by decide, by decide, by decide, by decide⟩
  have hsteps : AllowedRun (sharedStep (plainCalls 0x42) fun _ => 0)
      (fun y op => op.Allowed threeStacks 64 y) busyShared
      [.work { busyProgram with rip := 0x104 } sliceOver.sched.stack, .interrupt 32 0] := by
    refine ⟨⟨hworked, rfl, fun _ _ _ _ => rfl⟩, ⟨by decide, .inr ⟨by decide, by decide⟩, ?_⟩, ?_⟩
    · intro t ht
      obtain rfl := Option.some.inj (hcur.symm.trans ht)
      decide
    · split <;> trivial
  obtain ⟨y', hy', t, hcur', hprogram', -⟩ :=
    preemption_keeps_programs (plainCalls_compiled 64 0x42) (fun _ => 0) threeStacks
      (show bootSched.taskCount = 0 from rfl) 1 0x50 0x4000 sliceOver_allowed sliceOver_run
      busyShared rfl hstart _ hsteps
  exact ⟨y', hy', t, hcur', hprogram'⟩

-- ======================================================== from any ring

/-- In every state of the scheduler, an interrupt of a program in any
ring that does not ask for a preemption returns to that program, every
register and flag as it was, and has written below its stack only. -/
theorem interrupt_transparent (hcalls : CompiledKernel depth trampoline calls)
    (isrTable : Nat → Nat) (error : Nat) {boot : Sched} (hboot : boot.taskCount = 0)
    (id entry stack : Nat) {ops : List SchedOp} {sys : SchedSys}
    (hops : AllowedRun (sysStep trampoline) (fun y op => op.Allowed y)
      (sysInit boot id entry stack) ops)
    (hrun : runOps (sysStep trampoline) (sysInit boot id entry stack) ops = some sys)
    (hk : k.Valid) (hvector : vector < isrVectorCount)
    (hhandled : vector = exceptionPageFault ∨ irqBaseVector ≤ vector)
    (hsp : sp = deliveryStack sys.sched.tssRsp0 k) (hword : sp < 2 ^ 64)
    (hroom : interruptFrameSize + depth < sp) :
    ∃ s₁, isrDispatch
        (loadInterruptContext (framed vector error k sp sys.sched.stack) (sp - interruptFrameSize))
        { sys.sched with stack := framed vector error k sp sys.sched.stack } = some s₁
      ∧ (s₁.preemptionRequested = false →
        ∃ s', interrupt calls isrTable vector error k sys.sched = some (k, s')
          ∧ s'.currentTask = sys.sched.currentTask
          ∧ ∀ x, x < sp - interruptFrameSize - depth ∨ sp ≤ x →
            s'.stack x = sys.sched.stack x) := by
  subst hsp
  obtain ⟨sys', hrun', q, dead, hstable, -⟩ := (stable_init hboot id entry stack).run hops
  obtain rfl := Option.some.inj (hrun'.symm.trans hrun)
  obtain ⟨m, hm⟩ : ∃ m, m = framed vector error k (deliveryStack sys'.sched.tssRsp0 k)
      sys'.sched.stack := ⟨_, rfl⟩
  obtain ⟨frame, hframe⟩ : ∃ frame, frame
      = deliveryStack sys'.sched.tssRsp0 k - interruptFrameSize := ⟨_, rfl⟩
  have hread : (loadInterruptContext m frame).program = k := by
    rw [hm, hframe]
    exact framed_program hk hword (by omega)
  have hnumber : (loadInterruptContext m frame).interruptNumber = vector := by
    rw [hm, hframe]
    exact framed_interruptNumber hvector hword (by omega)
  have hstable' := stable_withStack hstable m
  obtain ⟨s₁, -, hdispatch, -, -, hrest, hstack, -⟩ :=
    isrDispatch_settled hstable'.settled hstable'.pending hstable'.request hnumber hvector hhandled
  rw [← hm, ← hframe]
  refine ⟨s₁, hdispatch, ?_⟩
  intro hno
  have hexit : isrExit trampoline s₁ frame
      = some (.caller, schedulerSaveInterruptContext s₁ frame) := by
    have hsame : (schedulerSaveInterruptContext s₁ frame).preemptionRequested = false :=
      (schedulerSaveInterruptContext_current s₁ frame).2.preemptionRequested.trans hno
    simp only [isrExit, schedulerGetNextInterruptRsp, hsame]
    rfl
  have hend : resumeFrame frame .caller + interruptFrameSize < 2 ^ 64 := by
    show frame + interruptFrameSize < 2 ^ 64
    omega
  obtain ⟨s', hoff, hreturn⟩ := interrupt_eq hcalls isrTable vector error hframe hword hroom.le
    (by rw [← hm]; exact hdispatch) hexit hend
  have hkept : (schedulerSaveInterruptContext s₁ frame).stack = m :=
    (schedulerSaveInterruptContext_stack s₁ frame).trans hstack
  obtain ⟨hsame, hagree⟩ := hoff
  rw [hkept] at hagree
  have hprogram : (loadInterruptContext s'.stack frame).program = k := by
    rw [← hread]
    exact loadInterruptContext_congr fun x hx hx' => hagree x (.inr hx)
  have hk' : (loadInterruptContext s'.stack (resumeFrame frame .caller)).program = k := hprogram
  rw [hk', if_pos hk.loadable] at hreturn
  refine ⟨s', hreturn, ?_, ?_⟩
  · rw [hsame]
    exact (schedulerSaveInterruptContext_current s₁ frame).1.trans hrest.current
  · intro x hx
    rw [hagree x (by omega), hm]
    exact framed_outside hword (by omega) (by omega)

/-- A program in ring 3. -/
def userProgram : X86.Context := { busyProgram with cs := 0x1b, ss := 0x23 }

theorem userProgram_valid : userProgram.Valid :=
  ⟨busyProgram_valid.regs, by decide, by decide, by decide, by decide, by decide⟩

/-- A user program's page fault. -/
theorem interrupt_transparent_user_fault :
    ∃ s', interrupt (plainCalls 0x42) (fun _ => 0) exceptionPageFault 6 userProgram sliceOver.sched
      = some (userProgram, s') := by
  have hsp : 0xc000 = deliveryStack sliceOver.sched.tssRsp0 userProgram := by decide
  obtain ⟨s₁, hdispatch, hreturn⟩ := interrupt_transparent (plainCalls_compiled 64 0x42)
    (fun _ => 0) 6 (show bootSched.taskCount = 0 from rfl) 1 0x50 0x4000 sliceOver_allowed
    sliceOver_run userProgram_valid (by decide) (.inl rfl) hsp (by decide) (by decide)
  have hsame : s₁.preemptionRequested = false := by
    unfold isrDispatch at hdispatch
    rw [framed_interruptNumber (by decide) (by decide) (by decide)] at hdispatch
    rw [← Option.some.inj hdispatch]
    decide
  obtain ⟨s', hs', -⟩ := hreturn hsame
  exact ⟨s', hs'⟩

end ZenithOS.Interrupt
