/-
A resumed task goes on from its last save.

The scheduler's own operations keep the account of the saves. It breaks
when a task is switched away from between marking itself `BLOCKED` and
yielding, since it is woken as one left in its context, and when
`scheduler_unblock` goes on with a task that is not blocked any more. In
runs without either it holds (`resume_from_last_save`).
-/
import ZenithOS.Scheduler.Proofs.Partition
import ZenithOS.Sync.Proofs.Mutex
import ZenithOS.Sync.Proofs.Saves

namespace ZenithOS.Sync

open Lib Mm Proc Scheduler

variable {μ : Type} [DecidableEq μ] {q : QueueId μ → List TaskPtr} {dead : List TaskPtr}
  {t : TaskPtr} {trampoline : Nat}

-- ========================================================= the invariant

/-- The machine between two steps: the mutex protocol's invariant, or what
is left of it while the running task is queued. -/
structure ResumeInv (y : ResumeSys μ) (q : QueueId μ → List TaskPtr) (dead : List TaskPtr) :
    Prop where
  settled : y.point y.current ≠ .queued → MutexInv y.sys q dead
  queued : y.point y.current = .queued → ∃ t, QueuedInv y.sys q dead t
  points : ∀ c, y.point c = .queued → c = y.current
  tested : ∀ c t, y.point c = .unblocking t → t ∈ y.sys.added
  saves : SavesInv y.sys.sched y.saves

variable {y y' : ResumeSys μ}

omit [DecidableEq μ] in
/-- Where nobody is queued. -/
theorem ResumeInv.of_settled (hinv : MutexInv y.sys q dead)
    (hpoints : ∀ c, y.point c ≠ .queued)
    (htested : ∀ c t, y.point c = .unblocking t → t ∈ y.sys.added)
    (hsaves : SavesInv y.sys.sched y.saves) : ResumeInv y q dead :=
  ⟨fun _ => hinv, fun heq => absurd heq (hpoints _), fun c heq => absurd heq (hpoints c),
    htested, hsaves⟩

omit [DecidableEq μ] in
theorem ResumeInv.no_one_queued (h : ResumeInv y q dead) (hpoint : y.point y.current ≠ .queued)
    (c : Option TaskPtr) : y.point c ≠ .queued :=
  fun heq => hpoint (h.points c heq ▸ heq)

omit [DecidableEq μ] in
/-- The yield of `mutex_lock` leaves no one queued and makes no test. -/
theorem pointAfter_cases (y : ResumeSys μ) (op : SchedOp) (c : Option TaskPtr) :
    pointAfter y op c = y.point c ∨ pointAfter y op c = .none := by
  cases op with
  | yield regs =>
      by_cases hc : c = y.current
      · exact .inr (by rw [hc]; exact Function.update_self ..)
      · exact .inl (Function.update_of_ne hc _ _)
  | createTask id entry stack process => exact .inl rfl
  | addTask t => exact .inl rfl
  | blockCurrent regs => exact .inl rfl
  | unblock t => exact .inl rfl
  | sleep ticks regs => exact .inl rfl
  | exit regs => exact .inl rfl
  | timer rsp => exact .inl rfl

/-- A scheduler operation of a stream that is not queued in
`mutex_lock`. -/
theorem ResumeInv.schedSettled (h : ResumeInv y q dead) {op : SchedOp}
    (hpoint : y.point y.current ≠ .queued) (hop : (ResumeOp.sched op).Allowed y)
    (hstep : resumeStep trampoline y (.sched op) = some y') :
    (∃ q' dead', ResumeInv y' q' dead')
      ∧ ∀ t src, resumption trampoline y.sys.sched op = some (t, src) → y.saves t = some src := by
  obtain ⟨hallowed, hadmits, hkernel⟩ := hop
  have hinv := h.settled hpoint
  have hset : Settled (SchedSys.mk y.sys.sched y.sys.added).sched (waitHeads y.sys) q dead
      (SchedSys.mk y.sys.sched y.sys.added).added := hinv.settled
  obtain ⟨z, q', dead', hrun, hset', hp, hr, hmoved, -⟩ :=
    hset.step trampoline hinv.pending hinv.request hallowed fun t ht m => by
      subst ht
      cases hpt : y.point y.current <;> rw [hpt] at hadmits <;> cases hadmits
  obtain ⟨sys, hmutex, rfl⟩ := Option.map_eq_some_iff.mp hstep
  obtain ⟨z', hrun', rfl⟩ := Option.map_eq_some_iff.mp hmutex
  obtain rfl := Option.some.inj (hrun.symm.trans hrun')
  obtain ⟨s', hsched, hz⟩ := Option.map_eq_some_iff.mp hrun
  have hz' : z.sched = s' ∧ ∀ t ∈ y.sys.added, t ∈ z.added := by
    rw [← hz]
    cases op with
    | addTask u => exact ⟨rfl, fun t ht => List.mem_cons_of_mem u ht⟩
    | createTask id entry stack process => exact ⟨rfl, fun t ht => ht⟩
    | yield regs => exact ⟨rfl, fun t ht => ht⟩
    | blockCurrent regs => exact ⟨rfl, fun t ht => ht⟩
    | unblock u => exact ⟨rfl, fun t ht => ht⟩
    | sleep ticks regs => exact ⟨rfl, fun t ht => ht⟩
    | exit regs => exact ⟨rfl, fun t ht => ht⟩
    | timer rsp => exact ⟨rfl, fun t ht => ht⟩
  have hsaves := settled_opSaves hinv.settled h.saves hinv.request hallowed hadmits hkernel hsched
  refine ⟨⟨q', dead', ResumeInv.of_settled (hinv.withSched hset' hp hr hmoved.wait)
    (fun c => ?_) (fun c t hc => ?_) ?_⟩, hsaves.last⟩
  · rcases pointAfter_cases y op c with heq | heq
    · dsimp only
      rw [heq]
      exact h.no_one_queued hpoint c
    · dsimp only
      rw [heq]
      exact Point.noConfusion
  · dsimp only at hc
    rcases pointAfter_cases y op c with heq | heq
    · rw [heq] at hc
      exact hz'.2 t (h.tested c t hc)
    · rw [heq] at hc
      cases hc
  · dsimp only
    rw [hz'.1]
    exact hsaves.inv

/-- A scheduler operation of a task that is queued: its yield, or an
interrupt that does not end its time slice. -/
theorem ResumeInv.schedQueued (h : ResumeInv y q dead) {op : SchedOp}
    (hpoint : y.point y.current = .queued) (hop : (ResumeOp.sched op).Allowed y)
    (hkeeps : (ResumeOp.sched op).Keeps y)
    (hstep : resumeStep trampoline y (.sched op) = some y') :
    (∃ q' dead', ResumeInv y' q' dead')
      ∧ ∀ t src, resumption trampoline y.sys.sched op = some (t, src) → y.saves t = some src := by
  obtain ⟨hallowed, hadmits, hkernel⟩ := hop
  obtain ⟨t, hqueued⟩ := h.queued hpoint
  have hcur : y.current = some t := hqueued.current
  obtain ⟨sys, hmutex, rfl⟩ := Option.map_eq_some_iff.mp hstep
  obtain ⟨z, hrun, rfl⟩ := Option.map_eq_some_iff.mp hmutex
  obtain ⟨s', hsched, rfl⟩ := Option.map_eq_some_iff.mp hrun
  rw [hpoint] at hadmits
  cases op with
  | yield regs =>
      obtain ⟨⟨resume, s₁⟩, hyield, rfl⟩ := Option.map_eq_some_iff.mp hsched
      obtain ⟨_, s₂, q', hyield', hinv⟩ := hqueued.yield regs
      have hs₂ : s₂ = s₁ := (Prod.mk.inj (Option.some.inj (hyield'.symm.trans hyield))).2
      rw [hs₂] at hinv
      have hswitched := yieldAway_switched hqueued.inv h.saves hqueued.current
        (.inl hqueued.blocked) hyield
      rw [← hqueued.current] at hswitched
      have hsaves : OpSaves trampoline y.sys.sched y.saves (.yield regs) s₁ := by
        apply hswitched.opSaves
        · rw [resumption, hyield]
          rfl
        · rfl
      refine ⟨⟨q', dead, ResumeInv.of_settled hinv (fun c => ?_) (fun c u hc => ?_) hsaves.inv⟩,
        hsaves.last⟩
      · by_cases hc : c = y.current
        · have hnone : pointAfter y (.yield regs) c = .none := by
            rw [hc]
            exact Function.update_self ..
          dsimp only
          rw [hnone]
          exact Point.noConfusion
        · have hsame : pointAfter y (.yield regs) c = y.point c := Function.update_of_ne hc _ _
          dsimp only
          rw [hsame]
          exact fun heq => hc (h.points c heq)
      · dsimp only at hc
        rcases pointAfter_cases y (.yield regs) c with heq | heq
        · rw [heq] at hc
          exact h.tested c u hc
        · rw [heq] at hc
          cases hc
  | timer rsp =>
      obtain ⟨⟨resume, s₁⟩, htimer, rfl⟩ := Option.map_eq_some_iff.mp hsched
      obtain ⟨hrest, hnone, hinv, hreq⟩ :=
        timerInterrupt_back hqueued.inv hqueued.request (hkeeps hpoint) htimer
      have hsaves : OpSaves trampoline y.sys.sched y.saves (.timer rsp) s₁ := by
        have hresumption : resumption trampoline y.sys.sched (.timer rsp) = none := hnone
        apply hrest.opSaves h.saves hresumption
        unfold savesAfter
        dsimp only
        rw [hresumption]
      have hwait : ∀ m, afterWake (tickSystem y.sys.sched) q [] (q .sleep) (.wait m)
          = q (.wait m) := by
        intro m
        rw [afterWake, Function.update_of_ne (by simp), Function.update_of_ne (by simp)]
      refine ⟨⟨afterWake (tickSystem y.sys.sched) q [] (q .sleep), dead, fun hne => ?_,
        fun _ => ⟨t, ?_⟩, fun c hc => ?_, h.tested, hsaves.inv⟩, hsaves.last⟩
      · refine absurd ?_ hne
        have hsame : s₁.currentTask = y.current := hrest.current
        show y.point s₁.currentTask = .queued
        rw [hsame]
        exact hpoint
      · exact ⟨hinv, hrest.current.trans hqueued.current, hqueued.waits,
          hreq.pendingTask.trans hqueued.pending,
          hreq.preemptionRequested.trans hqueued.request,
          fun m => (hwait m).trans (hqueued.waiting m), hqueued.locked, hqueued.held,
          hqueued.owner⟩
      · exact (h.points c hc).trans hrest.current.symm
  | createTask id entry stack process => cases hadmits
  | addTask u => cases hadmits
  | blockCurrent regs => cases hadmits
  | unblock u => cases hadmits
  | sleep ticks regs => cases hadmits
  | exit regs => cases hadmits

/-- The guarded part of a pass: it returns, or the task is queued. -/
theorem ResumeInv.lock (h : ResumeInv y q dead) {m : μ} (hop : (ResumeOp.lock m).Allowed y)
    (hstep : resumeStep trampoline y (.lock m) = some y') : ∃ q', ResumeInv y' q' dead := by
  obtain ⟨hidle, hpoint⟩ := hop
  have hnot : y.point y.current ≠ .queued := by
    rw [hpoint]
    exact Point.noConfusion
  have hinv := h.settled hnot
  unfold resumeStep at hstep
  cases hcur : y.sys.sched.currentTask with
  | none =>
      have hnone : y.current = none := hcur
      dsimp only at hstep
      rw [hnone] at hstep
      obtain rfl := Option.some.inj hstep
      exact ⟨q, h⟩
  | some t =>
      have hsome : y.current = some t := hcur
      have hti : some t ≠ y.sys.sched.idle := hcur ▸ hidle
      dsimp only at hstep
      rw [hsome] at hstep
      obtain ⟨r, hguarded, rfl⟩ := Option.map_eq_some_iff.mp hstep
      unfold mutexLockGuarded at hguarded
      by_cases hown : (y.sys.mutexes m).owner = some t
      · rw [if_pos hown] at hguarded
        obtain rfl := Option.some.inj hguarded
        have hsame : MutexInv (lockPassed y.sys m (.returned, y.sys.mutexes m, y.sys.sched)) q
            dead := by
          rw [lockPassed_same]
          exact hinv
        exact ⟨q, ResumeInv.of_settled hsame (h.no_one_queued hnot) h.tested h.saves⟩
      rw [if_neg hown] at hguarded
      cases hlocked : (y.sys.mutexes m).locked with
      | false =>
          rw [hlocked] at hguarded
          obtain rfl := Option.some.inj hguarded
          have htaken := hinv.take (m := m) hcur hti
          exact ⟨q, ResumeInv.of_settled htaken (h.no_one_queued hnot) h.tested h.saves⟩
      | true =>
          obtain ⟨s₁, head, q', hpush, hqueued⟩ := hinv.queue hcur hti hown hlocked
          rw [if_neg (by simp [hlocked]), hpush] at hguarded
          obtain rfl := Option.some.inj hguarded
          have hset : AtRest y.sys.sched (setState y.sys.sched t .blocked) :=
            setTask_current_atRest hcur hti rfl
          have hrest := hset.trans (taskQueuePush_relinked hpush).atRest
          have hcur₁ : s₁.currentTask = some t := hqueued.current
          refine ⟨q', fun hne => ?_, fun _ => ⟨t, hqueued⟩, fun c hc => ?_, fun c u hc => ?_,
            hrest.savesInv h.saves⟩
          · refine absurd ?_ hne
            show Function.update y.point (some t) .queued s₁.currentTask = .queued
            rw [hcur₁, Function.update_self]
          · show c = s₁.currentTask
            rw [hcur₁]
            by_contra hne
            have hold : Function.update y.point (some t) Point.queued c = y.point c :=
              Function.update_of_ne hne _ _
            exact h.no_one_queued hnot c (hold ▸ hc)
          · have hc' : Function.update y.point (some t) Point.queued c = .unblocking u := hc
            by_cases hct : c = some t
            · rw [hct, Function.update_self] at hc'
              cases hc'
            · rw [Function.update_of_ne hct] at hc'
              exact h.tested c u hc'

theorem ResumeInv.unlock (h : ResumeInv y q dead) {m : μ} (hop : (ResumeOp.unlock m).Allowed y)
    (hstep : resumeStep trampoline y (.unlock m) = some y') : ∃ q', ResumeInv y' q' dead := by
  have hpoint : y.point y.current = .none := hop
  have hnot : y.point y.current ≠ .queued := by
    rw [hpoint]
    exact Point.noConfusion
  obtain ⟨sys, hmutex, rfl⟩ := Option.map_eq_some_iff.mp hstep
  obtain ⟨⟨mx, s'⟩, hunlock, rfl⟩ := Option.map_eq_some_iff.mp hmutex
  obtain ⟨mx', s₂, q', hunlock', hinv⟩ := (h.settled hnot).unlock m
  obtain ⟨hm, hs⟩ := Prod.mk.inj (Option.some.inj (hunlock'.symm.trans hunlock))
  rw [hm, hs] at hinv
  exact ⟨q', ResumeInv.of_settled hinv (h.no_one_queued hnot) h.tested
    ((mutexUnlock_atRest hunlock).savesInv h.saves)⟩

/-- A task that the test finds blocked has been added: it is in
`blocked_queue`, or waits for a mutex. -/
theorem ResumeInv.test (h : ResumeInv y q dead) (hop : (ResumeOp.test (μ := μ) t).Allowed y)
    (hstep : resumeStep trampoline y (.test t) = some y') : ResumeInv y' q dead := by
  obtain ⟨hlt, hpoint⟩ := hop
  have hnot : y.point y.current ≠ .queued := by
    rw [hpoint]
    exact Point.noConfusion
  have hinv := h.settled hnot
  unfold resumeStep at hstep
  dsimp only at hstep
  by_cases hstate : (y.sys.sched.tasks t).state = .blocked
  · rw [if_neg (not_not.mpr hstate)] at hstep
    obtain rfl := Option.some.inj hstep
    have hadded : t ∈ y.sys.added := by
      by_cases hwaits : ∃ m, t ∈ q (.wait m)
      · obtain ⟨m, hm⟩ := hwaits
        exact (hinv.settled.inv.queued (.wait m) t hm).1
      · have hmem : t ∈ q .blocked :=
          hinv.settled.mem_blocked hlt (fun m hm => hwaits ⟨m, hm⟩) hstate
        exact (hinv.settled.inv.queued .blocked t hmem).1
    refine ResumeInv.of_settled hinv (fun c => ?_) (fun c u hc => ?_) h.saves
    · dsimp only
      by_cases hc : c = y.current
      · rw [hc, Function.update_self]
        exact Point.noConfusion
      · rw [Function.update_of_ne hc]
        exact h.no_one_queued hnot c
    · dsimp only at hc
      by_cases hcc : c = y.current
      · rw [hcc, Function.update_self] at hc
        cases hc
        exact hadded
      · rw [Function.update_of_ne hcc] at hc
        exact h.tested c u hc
  · rw [if_pos hstate] at hstep
    obtain rfl := Option.some.inj hstep
    exact h

/-- The rest of `scheduler_unblock`, with the task still blocked. -/
theorem ResumeInv.relink (h : ResumeInv y q dead) (hkeeps : (ResumeOp.relink (μ := μ)).Keeps y)
    (hstep : resumeStep trampoline y .relink = some y') : ∃ q', ResumeInv y' q' dead := by
  unfold resumeStep at hstep
  dsimp only at hstep
  cases hpoint : y.point y.current with
  | none =>
      rw [hpoint] at hstep
      cases hstep
  | queued =>
      rw [hpoint] at hstep
      cases hstep
  | unblocking t =>
      rw [hpoint] at hstep
      obtain ⟨s', hlocked, rfl⟩ := Option.map_eq_some_iff.mp hstep
      have hnot : y.point y.current ≠ .queued := by
        rw [hpoint]
        exact Point.noConfusion
      have hinv := h.settled hnot
      have hblocked : (y.sys.sched.tasks t).state = .blocked
          ∧ ∀ m, t ∉ y.sys.waiting m := by
        unfold ResumeOp.Keeps at hkeeps
        dsimp only at hkeeps
        rw [hpoint] at hkeeps
        exact hkeeps
      have hlt := (hinv.settled.inv.added_lt t (h.tested _ t hpoint)).1
      obtain ⟨s₂, q', hunblock, hset, hreq, hmoved⟩ := hinv.settled.unblock hlt
        fun m hm => hblocked.2 m ((hinv.waiting m) ▸ hm)
      have hs₂ : s₂ = s' := by
        have hboth : schedulerUnblock y.sys.sched (some t) = some s' := by
          rw [schedulerUnblock, if_neg (not_not.mpr hblocked.1)]
          exact hlocked
        exact Option.some.inj (hunblock.symm.trans hboth)
      rw [hs₂] at hset hreq hmoved
      refine ⟨q', ResumeInv.of_settled (hinv.withSched hset (hreq.pendingTask.trans hinv.pending)
        (hreq.preemptionRequested.trans hinv.request) hmoved.wait) (fun c => ?_)
        (fun c u hc => ?_) ((schedulerUnblockLocked_atRest hblocked.1 hlocked).savesInv h.saves)⟩
      · dsimp only
        by_cases hc : c = y.current
        · rw [hc, Function.update_self]
          exact Point.noConfusion
        · rw [Function.update_of_ne hc]
          exact h.no_one_queued hnot c
      · dsimp only at hc
        by_cases hcc : c = y.current
        · rw [hcc, Function.update_self] at hc
          cases hc
        · rw [Function.update_of_ne hcc] at hc
          exact h.tested c u hc

/-- Every step that keeps to the condition keeps the invariant. -/
theorem ResumeInv.step (h : ResumeInv y q dead) {op : ResumeOp μ} (hop : op.Allowed y)
    (hkeeps : op.Keeps y) (hstep : resumeStep trampoline y op = some y') :
    ∃ q' dead', ResumeInv y' q' dead' := by
  cases op with
  | sched op =>
      by_cases hpoint : y.point y.current = .queued
      · exact (h.schedQueued hpoint hop hkeeps hstep).1
      · exact (h.schedSettled hpoint hop hstep).1
  | lock m =>
      obtain ⟨q', hinv⟩ := h.lock hop hstep
      exact ⟨q', dead, hinv⟩
  | unlock m =>
      obtain ⟨q', hinv⟩ := h.unlock hop hstep
      exact ⟨q', dead, hinv⟩
  | test t => exact ⟨q, dead, h.test hop hstep⟩
  | relink =>
      obtain ⟨q', hinv⟩ := h.relink hkeeps hstep
      exact ⟨q', dead, hinv⟩

omit [DecidableEq μ] in
theorem resumeInv_init {boot : Sched} (hboot : boot.taskCount = 0) (id entry stack : Nat) :
    ResumeInv (resumeInit μ boot id entry stack) (fun _ => []) [] := by
  have hinv : MutexInv (mutexSysInit μ boot id entry stack) (fun _ => []) [] :=
    mutexInv_init hboot id entry stack
  have hidle : (schedulerInit boot id entry stack).tasks 0
      = { id := id, entry := entry, kernelStack := stack, kernelStackSize := kernelStackSize
          state := .idle, context := { rsp := stack + kernelStackSize - 16 } } := by
    simp [schedulerInit, taskCreate, hboot]
  have hzero : ∀ t, t < (schedulerInit boot id entry stack).taskCount → t = 0 := by
    intro t hlt
    have hlt' : t < boot.taskCount + 1 := hlt
    omega
  refine ResumeInv.of_settled hinv (fun _ => Point.noConfusion) (fun _ _ hc => by cases hc)
    ⟨fun t hlt => ?_, fun i hi => ?_, fun t hlt _ => ?_⟩
  · show KernelTask _ ((schedulerInit boot id entry stack).tasks t).process
    rw [hzero t hlt, hidle]
    intro pr hpr
    cases hpr
  · have hi' : some boot.taskCount = some i := hi
    obtain rfl := Option.some.inj hi'
    show ((schedulerInit boot id entry stack).tasks boot.taskCount).resumeMode = .context
    rw [hboot, hidle]
  · show TaskSaved (some (.context ((schedulerInit boot id entry stack).tasks t).context))
      ((schedulerInit boot id entry stack).tasks t)
    rw [hzero t hlt, hidle]
    exact ⟨rfl, rfl⟩

/-- In every run of kernel tasks in which no task is switched away from
between its entry into a wait queue and its yield, and `scheduler_unblock`
goes on only with tasks that are still blocked, a task that an operation
resumes goes on from where it was last left. -/
theorem resume_from_last_save (trampoline id entry stack : Nat) (boot : Sched)
    (hboot : boot.taskCount = 0) (ops : List (ResumeOp μ))
    (hops : AllowedRun (resumeStep trampoline) (fun y op => op.Allowed y ∧ op.Keeps y)
      (resumeInit μ boot id entry stack) ops)
    {y : ResumeSys μ}
    (hrun : runOps (resumeStep trampoline) (resumeInit μ boot id entry stack) ops = some y)
    {op : SchedOp} (hop : (ResumeOp.sched op).Allowed y) (hkeeps : (ResumeOp.sched op).Keeps y)
    {y' : ResumeSys μ} (hstep : resumeStep trampoline y (.sched op) = some y') :
    ∀ t src, resumption trampoline y.sys.sched op = some (t, src) → y.saves t = some src := by
  obtain ⟨q, dead, hinv⟩ := run_preserves (P := fun y => ∃ q dead, ResumeInv y q dead)
    (fun y op y' ⟨q, dead, h⟩ hop hstep => h.step hop.1 hop.2 hstep)
    ⟨_, _, resumeInv_init hboot id entry stack⟩ hops hrun
  by_cases hpoint : y.point y.current = .queued
  · exact (hinv.schedQueued hpoint hop hkeeps hstep).2
  · exact (hinv.schedSettled hpoint hop hstep).2

/-- Two tasks: the first takes a mutex and yields to the other, which is
queued for it. -/
def twoTasksQueued : List (ResumeOp Unit) :=
  [.sched (.createTask 2 0x100 0x8000 none), .sched (.createTask 3 0x200 0x10000 none),
    .sched (.addTask 1), .sched (.addTask 2), .sched (.yield { rsp := 0x500 }), .lock (),
    .sched (.yield { rsp := 0xb000 }), .lock ()]

/-- The other is interrupted before it yields, and again when it has been
woken. -/
def queuedThenWoken : List (ResumeOp Unit) :=
  twoTasksQueued ++ [.sched (.timer 0x13000), .sched (.yield { rsp := 0x13100 }), .unlock ()]
    ++ List.replicate 9 (.sched (.timer 0xa000))

/-- A waiter is woken and resumes from its context. -/
theorem resume_from_last_save_woken :
    ∃ y, runOps (resumeStep 0x42) (resumeInit Unit bootSched 1 0x50 0x4000) queuedThenWoken
        = some y
      ∧ resumption 0x42 y.sys.sched (.timer 0xa000) = some (2, .context { rsp := 0x13100 })
      ∧ y.saves 2 = some (.context { rsp := 0x13100 }) := by
  have hvalues : ((runOps (resumeStep 0x42) (resumeInit Unit bootSched 1 0x50 0x4000)
        queuedThenWoken).bind fun y => (resumeStep 0x42 y (.sched (.timer 0xa000))).map fun _ =>
          (resumption 0x42 y.sys.sched (.timer 0xa000),
            decide ((ResumeOp.sched (μ := Unit) (.timer 0xa000)).Allowed y),
            decide ((ResumeOp.sched (μ := Unit) (.timer 0xa000)).Keeps y)))
      = some (some (2, .context { rsp := 0x13100 }), true, true) := by
    decide +kernel
  obtain ⟨y, hrun, hvalues⟩ := Option.bind_eq_some_iff.mp hvalues
  obtain ⟨y', hstep, hvalues⟩ := Option.map_eq_some_iff.mp hvalues
  obtain ⟨hresumed, hvalues⟩ := Prod.mk.inj hvalues
  obtain ⟨hallowed, hkeeps⟩ := Prod.mk.inj hvalues
  exact ⟨y, hrun, hresumed, resume_from_last_save 0x42 1 0x50 0x4000 bootSched rfl
    queuedThenWoken (by decide +kernel) hrun (of_decide_eq_true hallowed)
    (of_decide_eq_true hkeeps) hstep 2 _ hresumed⟩

/-- The other is switched away from before it yields, and then woken. -/
def queuedThenPreempted : List (ResumeOp Unit) :=
  twoTasksQueued ++ List.replicate 10 (.sched (.timer 0x13000)) ++ [.unlock ()]

/-- It was left in the frame at `0x13000`, and goes on from the context
that `task_create` made. -/
theorem queued_resumes_from_older_save :
    ∃ y, AllowedRun (resumeStep 0x42) (fun y op => op.Allowed y)
        (resumeInit Unit bootSched 1 0x50 0x4000) queuedThenPreempted
      ∧ runOps (resumeStep 0x42) (resumeInit Unit bootSched 1 0x50 0x4000) queuedThenPreempted
        = some y
      ∧ (ResumeOp.sched (.yield { rsp := 0xb000 })).Allowed y
      ∧ ∃ src, resumption 0x42 y.sys.sched (.yield { rsp := 0xb000 }) = some (2, src)
        ∧ y.saves 2 = some (.frame 0x13000) ∧ y.saves 2 ≠ some src := by
  have hvalues : (runOps (resumeStep 0x42) (resumeInit Unit bootSched 1 0x50 0x4000)
        queuedThenPreempted).map (fun y =>
          (resumption 0x42 y.sys.sched (.yield { rsp := 0xb000 }), y.saves 2,
            decide ((ResumeOp.sched (μ := Unit) (.yield { rsp := 0xb000 })).Allowed y)))
      = some (some (2, .context { rsp := 0x10000 + kernelStackSize - 16 }),
        some (.frame 0x13000), true) := by
    decide +kernel
  obtain ⟨y, hrun, hvalues⟩ := Option.map_eq_some_iff.mp hvalues
  obtain ⟨hresumed, hvalues⟩ := Prod.mk.inj hvalues
  obtain ⟨hsaved, hallowed⟩ := Prod.mk.inj hvalues
  refine ⟨y, by decide +kernel, hrun, of_decide_eq_true hallowed, _, hresumed, hsaved, ?_⟩
  rw [hsaved]
  intro heq
  cases heq

end ZenithOS.Sync
