/-
What the interrupt flag is when a blocking call returns.

`interrupt_restore` only ever sets the flag, and every way to resume a
stream that has switched away sets it: `context_switch` and
`context_resume_from_interrupt` end with `sti`, and a saved frame is one
of an interrupt, which is taken with the flag set. So a stream that calls
with the flag clear gets it back clear only if there was no switch
(`blocking_call_flag_iff`).
-/
import ZenithOS.Scheduler.Proofs.Frames
import ZenithOS.Scheduler.Proofs.Partition

namespace ZenithOS.Scheduler

open Lib Mm Proc

variable {s s₁ s' : Sched} {t : TaskPtr} {regs : CpuContext} {resume : Resume}
  {trampoline : Nat}

-- ============================================================== the calls

/-- A call whose stream does not run: one made with the flag clear has
switched, and no local will set the flag. -/
def Call.Suspended (call : Call) : Prop :=
  call.entry = false → call.stays = false ∧ true ∉ call.locals

/-- The open call of the stream that runs, with the flag: one made with
the flag set gets it back from a local if it is not set already. -/
structure Call.Running (flag : Bool) (call : Call) : Prop where
  set : call.entry = true → flag = true ∨ true ∈ call.locals
  clear : call.entry = false → true ∉ call.locals ∧ (flag = true ↔ call.stays = false)

/-- Every resume sets the flag. -/
theorem Call.Suspended.resumed {call : Call} (h : call.Suspended) : call.Running true :=
  ⟨fun _ => .inl rfl, fun hentry => ⟨(h hentry).2, iff_of_true rfl (h hentry).1⟩⟩

/-- Only a stream that has the flag set is interrupted. -/
theorem Call.Running.interrupted {call : Call} (h : call.Running true) : call.Suspended :=
  fun hentry => ⟨(h.clear hentry).2.mp rfl, (h.clear hentry).1⟩

/-- `interrupt_restore` with the innermost local. -/
theorem Call.Running.restore {flag entry stays irqWasEnabled : Bool} {locals : List Bool}
    (h : Call.Running flag ⟨entry, stays, irqWasEnabled :: locals⟩) :
    Call.Running (if irqWasEnabled then true else flag) ⟨entry, stays, locals⟩ := by
  refine ⟨fun hentry => ?_, fun hentry => ?_⟩
  · cases irqWasEnabled with
    | true => exact .inl rfl
    | false =>
        rcases h.set hentry with hflag | hmem
        · exact .inl hflag
        · exact .inr (by simpa using hmem)
  · obtain ⟨hnot, hiff⟩ := h.clear hentry
    cases irqWasEnabled with
    | true => exact absurd (List.mem_cons_self ..) hnot
    | false => exact ⟨fun hmem => hnot (List.mem_cons_of_mem _ hmem), hiff⟩

/-- With nothing left to restore, the flag is the one of the entry if that
was set or there was no switch. -/
theorem Call.Running.returns {flag : Bool} {call : Call} (h : call.Running flag)
    (hlocals : call.locals = []) :
    flag = call.entry ↔ call.entry = true ∨ call.stays = true := by
  cases hentry : call.entry with
  | true =>
      rcases h.set hentry with hflag | hmem
      · simp [hflag]
      · rw [hlocals] at hmem
        cases hmem
  | false =>
      have hiff := (h.clear hentry).2
      cases hstays : call.stays <;> cases flag <;> simp_all

/-- A call that switches away. -/
theorem BlockingCall.enter_suspended (c : BlockingCall) (s : Sched) (flag : Bool) :
    Call.Suspended ⟨flag, false, (c.enter s flag).2⟩ := by
  intro hentry
  dsimp only at hentry
  subst hentry
  refine ⟨rfl, ?_⟩
  cases c with
  | yield => simp [enter]
  | sleep ticks | blockCurrent =>
      unfold enter
      dsimp only
      split_ifs <;> simp

/-- A call that comes back to its caller. -/
theorem BlockingCall.enter_running (c : BlockingCall) (s : Sched) (flag : Bool) :
    Call.Running (c.enter s flag).1 ⟨flag, true, (c.enter s flag).2⟩ := by
  cases c with
  | yield => cases flag <;> constructor <;> simp [enter]
  | sleep ticks | blockCurrent =>
      unfold enter
      dsimp only
      split_ifs <;> cases flag <;> constructor <;> simp

-- ========================================================= the invariant

variable {y : SchedSys} {q : QueueId Empty → List TaskPtr} {dead : List TaskPtr}

/-- The current task exists. -/
theorem Stable.current_lt (h : Stable y q dead) (hcur : y.sched.currentTask = some t) :
    t < y.sched.taskCount := by
  have hinv := h.settled.inv
  by_cases hidle : some t = y.sched.idle
  · obtain ⟨i, hi, hlt, -⟩ := hinv.idle
    obtain rfl : t = i := Option.some.inj (hidle.trans hi)
    exact hlt
  · have hmem : t ∈ running y.sched := by
      rw [running_task hcur hidle]
      exact List.mem_cons_self ..
    exact (hinv.added_lt t (hinv.out_added t hmem)).1

/-- A call that leaves the requests alone keeps the machine stable. -/
theorem Stable.of_settled {q' : QueueId Empty → List TaskPtr} {dead' : List TaskPtr}
    (h : Stable y q dead) (hset : Settled s' noWait q' dead' y.added)
    (hreq : SameRequest y.sched s') : Stable { y with sched := s' } q' dead' :=
  ⟨hset, hreq.pendingTask.trans h.pending, hreq.preemptionRequested.trans h.request⟩

/-- A blocking call comes back to its caller as `Stays` says. -/
theorem Stable.blockingCall (h : Stable y q dead) {c : BlockingCall}
    (hrun : c.run y.sched regs = some (resume, s')) :
    (∃ q' dead', Stable { y with sched := s' } q' dead')
      ∧ (resume = .caller ↔ c.Stays y.sched) := by
  have hcaller := (c.run_resumes hrun).caller
  cases c with
  | yield =>
      obtain ⟨_, s₁, q', hyield, hset, hreq, -, hstays⟩ := h.settled.yield regs
      obtain ⟨rfl, rfl⟩ := Prod.mk.inj (Option.some.inj (hyield.symm.trans hrun))
      exact ⟨⟨q', dead, h.of_settled hset hreq⟩, hcaller.trans hstays⟩
  | sleep ticks =>
      obtain ⟨_, s₁, q', hsleep, hset, hreq, -, hstays⟩ := h.settled.sleep ticks regs
      obtain ⟨rfl, rfl⟩ := Prod.mk.inj (Option.some.inj (hsleep.symm.trans hrun))
      exact ⟨⟨q', dead, h.of_settled hset hreq⟩, hcaller.trans hstays⟩
  | blockCurrent =>
      obtain ⟨_, s₁, q', hblock, hset, hreq, -, hstays⟩ := h.settled.blockCurrent regs
      obtain ⟨rfl, rfl⟩ := Prod.mk.inj (Option.some.inj (hblock.symm.trans hrun))
      exact ⟨⟨q', dead, h.of_settled hset hreq⟩, hcaller.trans hstays⟩

/-- The machine between two steps. -/
structure FlagInv (y : FlagSys) : Prop where
  stable : ∃ q dead, Stable y.sys q dead
  frames : FramesSet y.sys.sched y.frames
  running : ∀ call, y.calls y.sys.sched.currentTask = some call → call.Running y.flag
  suspended : ∀ c, c ≠ y.sys.sched.currentTask → ∀ call, y.calls c = some call → call.Suspended

variable {f f' : FlagSys}

/-- After a switch the stream that runs has the flag set or is in no
call. -/
theorem FlagInv.of_suspended (hstable : ∃ q dead, Stable f.sys q dead)
    (hframes : FramesSet f.sys.sched f.frames)
    (hcalls : ∀ c call, f.calls c = some call → call.Suspended)
    (hflag : f.flag = true ∨ f.calls f.sys.sched.currentTask = none) : FlagInv f := by
  refine ⟨hstable, hframes, fun call hcall => ?_, fun c _ => hcalls c⟩
  rcases hflag with hset | hnone
  · rw [hset]
    exact (hcalls _ call hcall).resumed
  · rw [hnone] at hcall
    cases hcall

/-- A stream that is in no call or has the flag set can be left. -/
theorem FlagInv.all_suspended (h : FlagInv f)
    (hflag : f.flag = true ∨ f.calls f.sys.sched.currentTask = none) :
    ∀ c call, f.calls c = some call → call.Suspended := by
  intro c call hcall
  by_cases hc : c = f.sys.sched.currentTask
  · subst hc
    rcases hflag with hset | hnone
    · have hrunning := h.running call hcall
      rw [hset] at hrunning
      exact hrunning.interrupted
    · rw [hnone] at hcall
      cases hcall
  · exact h.suspended c hc call hcall

/-- Only the open call of the stream that runs, and the flag, change. -/
theorem FlagInv.setCall (h : FlagInv f) {flag : Bool} {call : Option Call}
    (hcall : ∀ call', call = some call' → call'.Running flag) :
    FlagInv { f with
      flag := flag, calls := Function.update f.calls f.sys.sched.currentTask call } := by
  refine ⟨h.stable, h.frames, fun call' hcur => ?_, fun c hc call' hother => ?_⟩
  · dsimp only at hcur
    rw [Function.update_self] at hcur
    exact hcall call' hcur
  · dsimp only at hother
    rw [Function.update_of_ne hc] at hother
    exact h.suspended c hc call' hother

/-- Whoever `scheduler_yield` resumes has the flag set. -/
theorem Resumes.flagAfter_eq {frames : TaskPtr → Bool} {flag : Bool}
    (h : Resumes s resume s') (hset : FramesSet s' frames)
    (hlt : ∀ t, s'.currentTask = some t → t < s'.taskCount) (hswitch : resume ≠ .caller) :
    flagAfter frames flag resume = true := by
  cases resume with
  | caller => exact absurd rfl hswitch
  | context t context => rfl
  | interrupt t rsp =>
      obtain ⟨hcur, hrsp⟩ := h.saved t rsp rfl
      exact hset t (hlt t hcur) hrsp

/-- A blocking call keeps the invariant. -/
theorem FlagInv.call (h : FlagInv f) (c : BlockingCall) (regs : CpuContext)
    (hstep : flagStep trampoline f (.call c regs) = some f') : FlagInv f' := by
  by_cases hout : f.calls f.sys.sched.currentTask = none
  · simp only [flagStep, if_pos hout] at hstep
    obtain ⟨⟨resume, s'⟩, hrun, rfl⟩ := Option.map_eq_some_iff.mp hstep
    have hresumes := c.run_resumes hrun
    obtain ⟨q, dead, hstable⟩ := h.stable
    obtain ⟨hstable', hstays⟩ := hstable.blockingCall hrun
    have hframes : FramesSet s' f.frames := hresumes.frames.framesSet h.frames
    by_cases hcaller : resume = .caller
    · have hcur := hresumes.caller.mp hcaller
      have hin : decide (c.Stays f.sys.sched) = true := decide_eq_true (hstays.mp hcaller)
      subst hcaller
      dsimp only
      rw [hin]
      refine ⟨hstable', hframes, ?_, ?_⟩
      · dsimp only
        rw [hcur]
        intro call hcall
        rw [Function.update_self] at hcall
        obtain rfl := Option.some.inj hcall
        exact c.enter_running _ _
      · dsimp only
        rw [hcur]
        intro d hd call hcall
        rw [Function.update_of_ne hd] at hcall
        exact h.suspended d hd call hcall
    · have hin : decide (c.Stays f.sys.sched) = false :=
        decide_eq_false fun hin => hcaller (hstays.mpr hin)
      dsimp only
      rw [hin]
      refine FlagInv.of_suspended hstable' hframes (fun d call hcall => ?_) (.inl ?_)
      · dsimp only at hcall
        by_cases hd : d = f.sys.sched.currentTask
        · rw [hd, Function.update_self] at hcall
          obtain rfl := Option.some.inj hcall
          exact c.enter_suspended _ _
        · rw [Function.update_of_ne hd] at hcall
          exact h.suspended d hd call hcall
      · obtain ⟨q', dead', hsettled⟩ := hstable'
        exact hresumes.flagAfter_eq hframes (fun t ht => hsettled.current_lt ht) hcaller
  · simp only [flagStep, if_neg hout] at hstep
    cases hstep

/-- `task_exit` keeps it. -/
theorem FlagInv.exit (h : FlagInv f) {regs : CpuContext}
    (hop : (SchedOp.exit regs).Allowed f.sys)
    (hstep : flagStep trampoline f (.exit regs) = some f') : FlagInv f' := by
  by_cases hout : f.calls f.sys.sched.currentTask = none
  · simp only [flagStep, if_pos hout] at hstep
    obtain ⟨⟨resume, s'⟩, hexit, rfl⟩ := Option.map_eq_some_iff.mp hstep
    have hresumes := taskExit_resumes hexit
    obtain ⟨q, dead, hstable⟩ := h.stable
    obtain ⟨hsome, hidle⟩ := hop
    obtain ⟨t, hcur⟩ := Option.ne_none_iff_exists'.mp hsome
    obtain ⟨_, _, q', hexit', hset, hreq, -⟩ := hstable.settled.exit hcur (hcur ▸ hidle) regs
    obtain ⟨hr, hs⟩ := Prod.mk.inj (Option.some.inj (hexit'.symm.trans hexit))
    rw [hs] at hset hreq
    have hstable' : Stable { f.sys with sched := s' } q' (t :: dead) :=
      hstable.of_settled hset hreq
    have hframes : FramesSet s' f.frames := hresumes.frames.framesSet h.frames
    refine FlagInv.of_suspended ⟨q', t :: dead, hstable'⟩ hframes
      (h.all_suspended (.inr hout)) ?_
    by_cases hcaller : resume = .caller
    · right
      dsimp only
      rw [hresumes.caller.mp hcaller]
      exact hout
    · exact .inl (hresumes.flagAfter_eq hframes (fun t ht => hstable'.current_lt ht) hcaller)
  · simp only [flagStep, if_neg hout] at hstep
    cases hstep

/-- A call that cannot switch keeps it. -/
theorem FlagInv.sched (h : FlagInv f) {op : SchedOp} (hop : op.Allowed f.sys)
    (hswitch : ¬ op.Switches) (hstep : flagStep trampoline f (.sched op) = some f') :
    FlagInv f' := by
  obtain ⟨y, hsys, rfl⟩ := Option.map_eq_some_iff.mp hstep
  obtain ⟨q, dead, hstable⟩ := h.stable
  obtain ⟨y', q', dead', hsys', hstable', -⟩ :
      ∃ y' q' dead', sysStep trampoline f.sys op = some y' ∧ Stable y' q' dead' ∧ dead ⊆ dead' :=
    hstable.step hop
  obtain rfl := Option.some.inj (hsys'.symm.trans hsys)
  obtain ⟨s', hsched, hy⟩ := Option.map_eq_some_iff.mp hsys
  obtain ⟨hframes, hcur⟩ := schedStep_framesSet hswitch hsched h.frames
  have hs' : y'.sched = s' := by
    rw [← hy]
    cases op <;> rfl
  rw [← hs'] at hframes hcur
  refine ⟨⟨q', dead', hstable'⟩, hframes, ?_, ?_⟩
  · dsimp only
    rw [hcur]
    exact h.running
  · dsimp only
    rw [hcur]
    exact h.suspended

/-- What the stream that runs after an interrupt finds. -/
theorem FlagInv.interruptReturn {next : TaskPtr → FrameKind}
    (hstable : ∃ q dead, Stable f.sys q dead) (hframes : FramesSet f.sys.sched f.frames)
    (hcalls : ∀ c call, f.calls c = some call → call.Suspended) (hflag : f.flag = true)
    (hnext : ∀ t rsp, resume = .interrupt t rsp → f.sys.sched.currentTask = some t
      ∧ (next t = .saved → f.frames t = true)) :
    FlagInv (interruptReturn f next resume) := by
  cases resume with
  | caller => exact FlagInv.of_suspended hstable hframes hcalls (.inl hflag)
  | context t context => exact FlagInv.of_suspended hstable hframes hcalls (.inl rfl)
  | interrupt t rsp =>
      obtain ⟨hcur, hsaved⟩ := hnext t rsp rfl
      unfold Scheduler.interruptReturn
      dsimp only
      cases hkind : next t with
      | saved => exact FlagInv.of_suspended hstable hframes hcalls (.inl (hsaved hkind))
      | trampoline => exact FlagInv.of_suspended hstable hframes hcalls (.inl rfl)
      | user rflags =>
          refine FlagInv.of_suspended hstable hframes (fun c call hcall => ?_) (.inr ?_)
          · dsimp only at hcall
            by_cases hc : c = some t
            · rw [hc, Function.update_self] at hcall
              cases hcall
            · rw [Function.update_of_ne hc] at hcall
              exact hcalls c call hcall
          · dsimp only
            rw [hcur, Function.update_self]

/-- The timer interrupt keeps it. -/
theorem FlagInv.timer (h : FlagInv f) {rsp : Nat}
    (hstep : flagStep trampoline f (.timer rsp) = some f') : FlagInv f' := by
  by_cases hflag : f.flag = true
  · simp only [flagStep, if_pos hflag] at hstep
    obtain ⟨s₁, htick, hstep⟩ := Option.bind_eq_some_iff.mp hstep
    obtain ⟨⟨resume, s'⟩, hexit, hstep⟩ := Option.bind_eq_some_iff.mp hstep
    obtain rfl := Option.some.inj hstep
    dsimp only at hexit ⊢
    -- the machine is the one after `timerInterrupt`
    have hinterrupt : timerInterrupt trampoline f.sys.sched rsp = some (resume, s') := by
      unfold timerInterrupt
      rw [htick]
      exact hexit
    obtain ⟨q, dead, hstable⟩ := h.stable
    obtain ⟨_, s₂, q', hinterrupt', hset, -, hpending, hrequest⟩ :=
      hstable.settled.timer hstable.pending trampoline rsp
    obtain ⟨rfl, rfl⟩ := Prod.mk.inj (Option.some.inj (hinterrupt'.symm.trans hinterrupt))
    have hstable' : Stable { f.sys with sched := s₂ } q' dead := ⟨hset, hpending, hrequest⟩
    -- the frames after the save, and after the exit
    have hpreempted : FramesSet (schedulerPreempt s₁) f.frames :=
      (schedulerTick_noNewFrame htick).1.framesSet h.frames
    have hsaved := saveFrame_framesSet hpreempted rsp
    obtain ⟨hframes, hends⟩ := isrExit_cases hexit
    rw [hflag]
    refine FlagInv.interruptReturn ⟨q', dead, hstable'⟩ (hframes.framesSet hsaved)
      (h.all_suspended (.inl hflag)) rfl fun t rsp' hresume => ?_
    rcases hends with ⟨hcaller, -⟩ | ⟨u, rsp'', hresume', hcur, hnull, hrsp⟩
    · rw [hcaller] at hresume
      cases hresume
    · rw [hresume'] at hresume
      cases hresume
      refine ⟨hcur, fun hkind => ?_⟩
      rw [nextInterruptRsp_saved hkind] at hrsp
      have hlt := hstable'.current_lt hcur
      dsimp only at hlt
      rw [hframes.taskCount] at hlt
      exact hsaved t hlt (hrsp ▸ hnull)
  · simp only [flagStep, if_neg hflag] at hstep
    cases hstep

/-- Every step keeps the invariant. -/
theorem FlagInv.step (h : FlagInv f) {op : FlagOp} (hop : op.Allowed f)
    (hstep : flagStep trampoline f op = some f') : FlagInv f' := by
  cases op with
  | sched op => exact h.sched hop.1 hop.2 hstep
  | call c regs => exact h.call c regs hstep
  | exit regs => exact h.exit hop hstep
  | timer rsp => exact h.timer hstep
  | setFlag enabled =>
      by_cases hout : f.calls f.sys.sched.currentTask = none
      · simp only [flagStep, if_pos hout] at hstep
        obtain rfl := Option.some.inj hstep
        refine FlagInv.mk h.stable h.frames (fun call hcall => ?_) h.suspended
        dsimp only at hcall
        rw [hout] at hcall
        cases hcall
      · simp only [flagStep, if_neg hout] at hstep
        cases hstep
  | restore =>
      unfold flagStep at hstep
      dsimp only at hstep
      split at hstep
      · rename_i entry stays irqWasEnabled locals hcall
        obtain rfl := Option.some.inj hstep
        refine h.setCall fun call' hcall' => ?_
        obtain rfl := Option.some.inj hcall'
        exact (h.running _ hcall).restore
      · cases hstep
  | ret =>
      unfold flagStep at hstep
      dsimp only at hstep
      split at hstep
      · obtain rfl := Option.some.inj hstep
        exact h.setCall fun call' hcall' => by cases hcall'
      · cases hstep

/-- It holds after `scheduler_init`. -/
theorem flagInv_init {boot : Sched} (hboot : boot.taskCount = 0) (id entry stack : Nat)
    (flag : Bool) (frames : TaskPtr → Bool) :
    FlagInv (flagInit (sysInit boot id entry stack) flag frames) := by
  refine FlagInv.of_suspended ⟨_, _, stable_init hboot id entry stack⟩
    (fun t hlt hrsp => ?_) (fun c call hcall => ?_) (.inr rfl)
  rotate_left
  · cases hcall
  have hlt' : t < boot.taskCount + 1 := hlt
  obtain rfl : t = boot.taskCount := by omega
  exact absurd (by simp [flagInit, sysInit, schedulerInit, taskCreate]) hrsp

/-- In every run, a blocking call returns with the flag it was made with
exactly when that was set or the call did not switch, whoever ran in
between and however the caller was resumed. -/
theorem blocking_call_flag_iff (trampoline id entry stack : Nat) (boot : Sched)
    (hboot : boot.taskCount = 0) (flag : Bool) (frames : TaskPtr → Bool) (ops : List FlagOp)
    (hops : AllowedRun (flagStep trampoline) (fun f op => op.Allowed f)
      (flagInit (sysInit boot id entry stack) flag frames) ops)
    {f f' : FlagSys}
    (hrun : runOps (flagStep trampoline)
      (flagInit (sysInit boot id entry stack) flag frames) ops = some f)
    (hret : flagStep trampoline f .ret = some f') :
    ∃ call, f.calls f.sys.sched.currentTask = some call
      ∧ (f'.flag = call.entry ↔ call.entry = true ∨ call.stays = true) := by
  have hinv : FlagInv f := run_preserves (fun _ _ _ h hop hstep => h.step hop hstep)
    (flagInv_init hboot id entry stack flag frames) hops hrun
  unfold flagStep at hret
  dsimp only at hret
  split at hret
  · rename_i entry' stays hcall
    obtain rfl := Option.some.inj hret
    exact ⟨_, hcall, (hinv.running _ hcall).returns rfl⟩
  · cases hret

/-- The boot stream starts the first of two tasks. -/
def twoTaskFlagOps : List FlagOp :=
  [.sched (.createTask 2 0x100 0x8000 none), .sched (.createTask 3 0x200 0x10000 none),
    .sched (.addTask 1), .sched (.addTask 2), .call .yield { rsp := 0x500 }]

/-- The first task sleeps, and the other is preempted for it. -/
def sleepPreempted : List FlagOp :=
  twoTaskFlagOps ++ [.call (.sleep 1) { rsp := 0xb000 }]
    ++ List.replicate 10 (.timer 0x13000) ++ [.restore, .timer 0xa000, .restore]

/-- The first task wakes, and its call returns. -/
theorem blocking_call_flag_iff_sleep_preempted :
    ∃ f f', runOps (flagStep 0x42) (flagInit (sysInit bootSched 1 0x50 0x4000) true
        fun _ => false) sleepPreempted = some f
      ∧ flagStep 0x42 f .ret = some f'
      ∧ f.sys.sched.currentTask = some 1
      ∧ f.calls (some 1) = some { entry := true, stays := false, locals := [] }
      ∧ ∃ call, f.calls f.sys.sched.currentTask = some call
        ∧ (f'.flag = call.entry ↔ call.entry = true ∨ call.stays = true) := by
  have hvalues : ((runOps (flagStep 0x42) (flagInit (sysInit bootSched 1 0x50 0x4000) true
        fun _ => false) sleepPreempted).bind fun f => (flagStep 0x42 f .ret).map fun f' =>
          (f.sys.sched.currentTask, f.calls (some 1)))
      = some (some 1, some { entry := true, stays := false, locals := [] }) := by
    decide +kernel
  obtain ⟨f, hrun, hvalues⟩ := Option.bind_eq_some_iff.mp hvalues
  obtain ⟨f', hret, hvalues⟩ := Option.map_eq_some_iff.mp hvalues
  obtain ⟨hcur, hcall⟩ := Prod.mk.inj hvalues
  exact ⟨f, f', hrun, hret, hcur, hcall, blocking_call_flag_iff 0x42 1 0x50 0x4000 bootSched rfl
    true (fun _ => false) sleepPreempted (by decide +kernel) hrun hret⟩

/-- The first task clears the flag and yields to the other, which yields
back. -/
def yieldDisabled : List FlagOp :=
  twoTaskFlagOps ++ [.setFlag false, .call .yield { rsp := 0xb000 },
    .call .yield { rsp := 0x13000 }, .restore]

/-- Its call returns with the flag set. -/
theorem yield_disabled_returns_enabled :
    ∃ f f' call, AllowedRun (flagStep 0x42) (fun f op => op.Allowed f)
        (flagInit (sysInit bootSched 1 0x50 0x4000) true fun _ => false) yieldDisabled
      ∧ runOps (flagStep 0x42) (flagInit (sysInit bootSched 1 0x50 0x4000) true
        fun _ => false) yieldDisabled = some f
      ∧ flagStep 0x42 f .ret = some f'
      ∧ f.sys.sched.currentTask = some 1 ∧ f.calls (some 1) = some call
      ∧ call.entry = false ∧ f'.flag = true ∧ f'.flag ≠ call.entry := by
  have hvalues : ((runOps (flagStep 0x42) (flagInit (sysInit bootSched 1 0x50 0x4000) true
        fun _ => false) yieldDisabled).bind fun f => (flagStep 0x42 f .ret).map fun f' =>
          (f.sys.sched.currentTask, f.calls (some 1), f'.flag))
      = some (some 1, some { entry := false, stays := false, locals := [] }, true) := by
    decide +kernel
  obtain ⟨f, hrun, hvalues⟩ := Option.bind_eq_some_iff.mp hvalues
  obtain ⟨f', hret, hvalues⟩ := Option.map_eq_some_iff.mp hvalues
  obtain ⟨hcur, hvalues⟩ := Prod.mk.inj hvalues
  obtain ⟨hcall, hflag⟩ := Prod.mk.inj hvalues
  refine ⟨f, f', _, by decide +kernel, hrun, hret, hcur, hcall, rfl, hflag, ?_⟩
  rw [hflag]
  decide

end ZenithOS.Scheduler
