/-
The mutex protocol.

`MutexInv` is the invariant of a run: the scheduler's queues and the
wait queues of all mutexes are threaded through `task->next` without
meeting (`Settled`, with one wait queue for each mutex), the wait queue
of a mutex is the record of those who wait, and a mutex is locked exactly
when it has an owner, which does not wait for it.

A hand-over leaves `locked` set and names an owner that is not running
yet. That owner finds itself in the next pass of its loop, so a pass
returns only with the lock taken.
-/
import ZenithOS.Scheduler.Proofs.Calls
import ZenithOS.Scheduler.Proofs.Partition
import ZenithOS.Sync.Mutex

namespace ZenithOS.Sync

open Lib Mm Scheduler

variable {μ : Type} [DecidableEq μ] {y y' : MutexSys μ} {q : QueueId μ → List TaskPtr}
  {dead : List TaskPtr} {m : μ} {t : TaskPtr}

/-- The heads of the wait queues. -/
def waitHeads (y : MutexSys μ) : μ → Option TaskPtr := fun m => (y.mutexes m).waitQueue

/-- The invariant of a run (module doc). -/
structure MutexInv (y : MutexSys μ) (q : QueueId μ → List TaskPtr) (dead : List TaskPtr) :
    Prop where
  settled : Settled y.sched (waitHeads y) q dead y.added
  pending : y.sched.pendingTask = none
  request : y.sched.preemptionRequested = false
  waiting : ∀ m, q (.wait m) = y.waiting m
  locked : ∀ m, (y.mutexes m).locked = (y.mutexes m).owner.isSome
  held : ∀ m, y.waiting m ≠ [] → (y.mutexes m).owner ≠ none
  owner : ∀ m t, (y.mutexes m).owner = some t → t ∉ y.waiting m

theorem update_waitHeads (y : MutexSys μ) (m : μ) (head : Option TaskPtr) (m' : μ) :
    Function.update (waitHeads y) m head m'
      = if (QueueId.wait m : QueueId μ) = .wait m' then head else waitHeads y m' := by
  by_cases hm : m' = m
  · subst hm
    simp
  · rw [Function.update_of_ne hm, if_neg fun heq => hm (QueueId.wait.inj heq).symm]

omit [DecidableEq μ] in
/-- A machine that differs in the scheduler alone. -/
theorem MutexInv.withSched (h : MutexInv y q dead) {s : Sched} {added dead' : List TaskPtr}
    {q' : QueueId μ → List TaskPtr} (hset : Settled s (waitHeads y) q' dead' added)
    (hp : s.pendingTask = none) (hr : s.preemptionRequested = false)
    (hwait : SameWait q q') :
    MutexInv { y with sched := s, added := added } q' dead' :=
  ⟨hset, hp, hr, fun m => (hwait m).trans (h.waiting m), h.locked, h.held, h.owner⟩

-- ================================================================ one pass

omit [DecidableEq μ] in
/-- The current task is not a waiter. -/
theorem MutexInv.current_not_waiting (h : MutexInv y q dead)
    (hcur : y.sched.currentTask = some t) (hidle : some t ≠ y.sched.idle) (m : μ) :
    t ∉ y.waiting m := by
  intro hmem
  obtain ⟨hinv, -⟩ := h.settled.current hcur hidle
  rw [← h.waiting m] at hmem
  exact (hinv.queued (.wait m) t hmem).2.1 (List.mem_cons_self ..)

/-- A pass that takes a free mutex. -/
theorem MutexInv.take (h : MutexInv y q dead) (hcur : y.sched.currentTask = some t)
    (hidle : some t ≠ y.sched.idle) :
    MutexInv (lockPassed y m (.returned, { y.mutexes m with locked := true, owner := some t },
      y.sched)) q dead := by
  have hheads : waitHeads (lockPassed y m
      (.returned, { y.mutexes m with locked := true, owner := some t }, y.sched))
      = waitHeads y := by
    funext m'
    by_cases hm : m' = m
    · subst hm
      simp [waitHeads, lockPassed]
    · simp [waitHeads, lockPassed, Function.update_of_ne hm]
  refine ⟨?_, h.pending, h.request, h.waiting, ?_, ?_, ?_⟩
  · rw [hheads]
    exact h.settled
  · intro m'
    by_cases hm : m' = m
    · subst hm
      simp [lockPassed]
    · simpa [lockPassed, Function.update_of_ne hm] using h.locked m'
  · intro m' hne
    by_cases hm : m' = m
    · subst hm
      simp [lockPassed]
    · simpa [lockPassed, Function.update_of_ne hm] using h.held m' hne
  · intro m' u hu
    by_cases hm : m' = m
    · subst hm
      have hut : t = u := by simpa [lockPassed] using hu
      rw [← hut]
      exact h.current_not_waiting hcur hidle m'
    · exact h.owner m' u (by simpa [lockPassed, Function.update_of_ne hm] using hu)

/-- A pass that finds the mutex as it was. -/
theorem lockPassed_same (y : MutexSys μ) (m : μ) :
    lockPassed y m (.returned, y.mutexes m, y.sched) = y := by
  simp [lockPassed]

/-- The task `t` is blocked and at the end of the wait queue of `m`. -/
def queuedOn (y : MutexSys μ) (m : μ) (t : TaskPtr) (s : Sched) (head : Option TaskPtr) :
    MutexSys μ :=
  { y with
    sched := s
    mutexes := Function.update y.mutexes m { y.mutexes m with waitQueue := head }
    waiting := Function.update y.waiting m (y.waiting m ++ [t]) }

/-- Between a task's entry into a wait queue and its yield it is current
and queued. -/
structure QueuedInv (y : MutexSys μ) (q : QueueId μ → List TaskPtr) (dead : List TaskPtr)
    (t : TaskPtr) : Prop where
  inv : SchedInv y.sched (waitHeads y) q [] dead y.added
  current : y.sched.currentTask = some t
  waits : ∃ m, t ∈ y.waiting m
  pending : y.sched.pendingTask = none
  request : y.sched.preemptionRequested = false
  waiting : ∀ m, q (.wait m) = y.waiting m
  locked : ∀ m, (y.mutexes m).locked = (y.mutexes m).owner.isSome
  held : ∀ m, y.waiting m ≠ [] → (y.mutexes m).owner ≠ none
  owner : ∀ m t, (y.mutexes m).owner = some t → t ∉ y.waiting m

omit [DecidableEq μ] in
/-- A queued task is blocked. -/
theorem QueuedInv.blocked (h : QueuedInv y q dead t) :
    (y.sched.tasks t).state = .blocked := by
  obtain ⟨m, hmem⟩ := h.waits
  rw [← h.waiting m] at hmem
  exact (h.inv.queued (.wait m) t hmem).2.2

/-- The guarded part of a pass that finds the mutex taken. -/
theorem MutexInv.queue (h : MutexInv y q dead) (hcur : y.sched.currentTask = some t)
    (hidle : some t ≠ y.sched.idle) (hown : (y.mutexes m).owner ≠ some t)
    (hlocked : (y.mutexes m).locked = true) :
    ∃ s₁ head q', taskQueuePush (setState y.sched t .blocked) (y.mutexes m).waitQueue t
        = some (s₁, head)
      ∧ QueuedInv (queuedOn y m t s₁ head) q' dead t := by
  obtain ⟨hinv, -⟩ := h.settled.current hcur hidle
  have hblocked : SchedInv (setState y.sched t .blocked) (waitHeads y) q [t] dead y.added :=
    hinv.congr (setState_sameShape (List.mem_cons_self ..))
  obtain ⟨next, head, hpush, hpushed⟩ :=
    hblocked.push (k := .wait m) (by simp [setState, queueState])
  have hqueued := hpushed _ (update_waitHeads y m head)
  have hpush' : taskQueuePush (setState y.sched t .blocked) (y.mutexes m).waitQueue t
      = some (relink (setState y.sched t .blocked) next (QueueId.wait m) head, head) := by
    have hback : pushBack (links (setState y.sched t .blocked))
        (setState y.sched t .blocked).taskCount (y.mutexes m).waitQueue t
        = some (next, head) := hpush
    rw [taskQueuePush, hback]
    rfl
  have hheads : waitHeads (queuedOn y m t
      (relink (setState y.sched t .blocked) next (QueueId.wait m) head) head)
      = Function.update (waitHeads y) m head := by
    funext m'
    by_cases hm : m' = m
    · subst hm
      simp [waitHeads, queuedOn]
    · simp [waitHeads, queuedOn, Function.update_of_ne hm]
  refine ⟨_, head, Function.update q (.wait m) (q (.wait m) ++ [t]), hpush', ?_, hcur,
    ⟨m, by simp [queuedOn]⟩, h.pending, h.request, ?_, ?_, ?_, ?_⟩
  · rw [hheads]
    exact hqueued
  · intro m'
    by_cases hm : m' = m
    · subst hm
      simp [queuedOn, h.waiting]
    · have hne : (QueueId.wait m' : QueueId μ) ≠ .wait m := fun heq => hm (QueueId.wait.inj heq)
      simp [queuedOn, Function.update_of_ne hm, Function.update_of_ne hne, h.waiting]
  · intro m'
    by_cases hm : m' = m
    · subst hm
      simpa [queuedOn] using h.locked m'
    · simpa [queuedOn, Function.update_of_ne hm] using h.locked m'
  · intro m' hne
    by_cases hm : m' = m
    · subst hm
      have hsome := h.locked m'
      rw [hlocked] at hsome
      simpa [queuedOn] using Option.isSome_iff_ne_none.mp hsome.symm
    · simpa [queuedOn, Function.update_of_ne hm] using
        h.held m' (by simpa [queuedOn, Function.update_of_ne hm] using hne)
  · intro m' u hu
    by_cases hm : m' = m
    · subst hm
      have hu' : (y.mutexes m').owner = some u := by simpa [queuedOn] using hu
      have hut : u ≠ t := by
        rintro rfl
        exact hown hu'
      have hold := h.owner m' u hu'
      simpa [queuedOn, hut] using hold
    · simpa [queuedOn, Function.update_of_ne hm] using
        h.owner m' u (by simpa [queuedOn, Function.update_of_ne hm] using hu)

/-- The yield of a queued task. -/
theorem QueuedInv.yield (h : QueuedInv y q dead t) (regs : CpuContext) :
    ∃ resume s' q', schedulerYield y.sched regs = some (resume, s')
      ∧ MutexInv { y with sched := s' } q' dead := by
  obtain ⟨resume, s', q', hyield, hset, hreq, hmoved, -⟩ := h.inv.yieldAway (s := y.sched)
    h.current (by rw [h.blocked]; simp) ⟨rfl, rfl⟩ regs
  exact ⟨resume, s', q', hyield, hset, hreq.1.trans h.pending, hreq.2.trans h.request,
    fun m => (hmoved.wait m).trans (h.waiting m), h.locked, h.held, h.owner⟩

/-- A pass that blocks. -/
theorem MutexInv.block (h : MutexInv y q dead) (hcur : y.sched.currentTask = some t)
    (hidle : some t ≠ y.sched.idle) (hown : (y.mutexes m).owner ≠ some t)
    (hlocked : (y.mutexes m).locked = true) (regs : CpuContext) :
    ∃ resume mx s' q', mutexLockPass y.sched (y.mutexes m) t regs
        = some (.yielded resume, mx, s')
      ∧ MutexInv (lockPassed y m (.yielded resume, mx, s')) q' dead := by
  obtain ⟨s₁, head, q₁, hpush, hqueued⟩ := h.queue hcur hidle hown hlocked
  obtain ⟨resume, s', q', hyield, hinv⟩ := hqueued.yield regs
  have hrun : mutexLockPass y.sched (y.mutexes m) t regs
      = some (.yielded resume, { y.mutexes m with waitQueue := head }, s') := by
    have hyield' : schedulerYield s₁ regs = some (resume, s') := hyield
    rw [mutexLockPass, if_neg hown, if_neg (by simp [hlocked]), hpush]
    show (schedulerYield s₁ regs).bind _ = _
    rw [hyield']
    rfl
  refine ⟨resume, _, s', q', hrun, ?_⟩
  unfold lockPassed
  rw [hcur]
  exact hinv

/-- A pass of the loop: it returns with the lock, or the task joins the
waiters. -/
theorem MutexInv.pass (h : MutexInv y q dead) (hcur : y.sched.currentTask = some t)
    (hidle : some t ≠ y.sched.idle) (m : μ) (regs : CpuContext) :
    ∃ outcome mx s' q', mutexLockPass y.sched (y.mutexes m) t regs = some (outcome, mx, s')
      ∧ MutexInv (lockPassed y m (outcome, mx, s')) q' dead
      ∧ (outcome = .returned → mx.owner = some t) := by
  by_cases hown : (y.mutexes m).owner = some t
  · refine ⟨.returned, y.mutexes m, y.sched, q, ?_, ?_, fun _ => hown⟩
    · rw [mutexLockPass, if_pos hown]
    · rw [lockPassed_same]
      exact h
  · cases hlocked : (y.mutexes m).locked with
    | false =>
        refine ⟨.returned, _, y.sched, q, ?_, h.take hcur hidle, fun _ => rfl⟩
        rw [mutexLockPass, if_neg hown, hlocked]
        rfl
    | true =>
        obtain ⟨resume, mx, s', q', hrun, hinv⟩ := h.block hcur hidle hown hlocked regs
        exact ⟨.yielded resume, mx, s', q', hrun, hinv, by simp⟩

-- ================================================================= unlocking

/-- `scheduler_unblock` of a task just taken out of a wait queue: it is
not in `blocked_queue`, and goes to the ready queue. -/
theorem unblock_out {s : Sched} {wait : μ → Option TaskPtr} {out added : List TaskPtr}
    (h : SchedInv s wait q (t :: out) dead added) (hstate : (s.tasks t).state = .blocked) :
    ∃ s', schedulerUnblock s (some t) = some s'
      ∧ SchedInv s' wait (Function.update q .ready (q .ready ++ [t])) out dead added
      ∧ Kept s s' ∧ ∀ u ≠ t, SameTask s s' u := by
  have hfree : t ∉ q .blocked := fun hmem =>
    (h.queued .blocked t hmem).2.1 (List.mem_cons_self ..)
  have hremove : blockedRemove s t = some s := by
    have habsent : unlink (links s) s.taskCount s.blockedQueue t
        = some (links s, s.blockedQueue) := h.queues.unlink_absent hfree (h.length_le .blocked)
    rw [blockedRemove, taskQueueRemove, habsent]
    rfl
  obtain ⟨s', hpush, hinv, hs'⟩ := h.makeReady
  refine ⟨s', ?_, hinv, ?_, ?_⟩
  · rw [schedulerUnblock, if_neg (not_not.mpr hstate), schedulerUnblockLocked, hremove]
    exact hpush
  · rw [hs']
    exact setState_kept.trans (schedulerResetResumeState_kept.trans relink_kept)
  · intro u hu
    rw [hs']
    exact (setTask_sameTask hu).trans ((setTask_sameTask hu).trans relink_sameTask)

/-- `mutex_unlock` by the owner with nobody waiting. -/
theorem MutexInv.release (h : MutexInv y q dead) (hwait : y.waiting m = []) :
    MutexInv (unlocked y m ({ y.mutexes m with locked := false, owner := none }, y.sched))
      q dead := by
  have hheads : waitHeads (unlocked y m
      ({ y.mutexes m with locked := false, owner := none }, y.sched)) = waitHeads y := by
    funext m'
    by_cases hm : m' = m
    · subst hm
      simp [waitHeads, unlocked]
    · simp [waitHeads, unlocked, Function.update_of_ne hm]
  have hwaiting : (unlocked y m
      ({ y.mutexes m with locked := false, owner := none }, y.sched)).waiting = y.waiting := by
    funext m'
    by_cases hm : m' = m
    · subst hm
      simp [unlocked, hwait]
    · simp [unlocked]
  refine ⟨?_, h.pending, h.request, ?_, ?_, ?_, ?_⟩
  · rw [hheads]
    exact h.settled
  · rw [hwaiting]
    exact h.waiting
  · intro m'
    by_cases hm : m' = m
    · subst hm
      simp [unlocked]
    · simpa [unlocked, Function.update_of_ne hm] using h.locked m'
  · rw [hwaiting]
    intro m' hne
    by_cases hm : m' = m
    · subst hm
      exact absurd hwait hne
    · simpa [unlocked, Function.update_of_ne hm] using h.held m' hne
  · rw [hwaiting]
    intro m' u hu
    by_cases hm : m' = m
    · subst hm
      simp [unlocked] at hu
    · exact h.owner m' u (by simpa [unlocked, Function.update_of_ne hm] using hu)

/-- `mutex_unlock` by the owner with `t` the first waiter: `t` is the
owner. -/
theorem MutexInv.handOver (h : MutexInv y q dead) {rest : List TaskPtr}
    (hwait : y.waiting m = t :: rest) :
    ∃ head s₁ s' q', taskQueueRemove y.sched (y.mutexes m).waitQueue t = some (s₁, head)
      ∧ schedulerUnblock s₁ (some t) = some s'
      ∧ MutexInv (unlocked y m
          ({ y.mutexes m with waitQueue := head, owner := some t }, s')) q' dead
      ∧ (unlocked y m
          ({ y.mutexes m with waitQueue := head, owner := some t }, s')).waiting m = rest := by
  have hq : q (.wait m) = t :: rest := (h.waiting m).trans hwait
  have hnodup : (t :: rest).Nodup := hq ▸ (h.settled.inv.queues.linked (.wait m)).nodup
  have hrest : t ∉ rest := (List.nodup_cons.mp hnodup).1
  have htmem : t ∈ q (.wait m) := by simp [hq]
  have htstate := (h.settled.inv.queued (.wait m) t htmem).2.2
  have htout := (h.settled.inv.queued (.wait m) t htmem).2.1
  obtain ⟨next, head, hunlink, hremoved⟩ := h.settled.inv.remove htmem
  have hout := hremoved _ (update_waitHeads y m head)
  rw [hq, List.erase_cons_head] at hout
  obtain ⟨s', hunblock, hinv, hkept, hsame⟩ :=
    unblock_out hout (by rw [relink_state]; exact htstate)
  have hkept' : Kept y.sched s' := relink_kept.trans hkept
  have hset : Settled s' (Function.update (waitHeads y) m head) _ dead y.added :=
    hinv.settled_of_kept hkept'
      (fun u hu => relink_sameTask.trans (hsame u fun heq => htout (heq ▸ hu))) h.settled.state
  have hfilter : rest.filter (fun u => decide (some u ≠ some t)) = rest := by
    refine List.filter_eq_self.mpr fun u hu => ?_
    have hut : u ≠ t := by
      rintro rfl
      exact hrest hu
    simpa using hut
  have hleft : (unlocked y m
      ({ y.mutexes m with waitQueue := head, owner := some t }, s')).waiting m = rest := by
    show Function.update y.waiting m ((y.waiting m).filter _) m = rest
    rw [Function.update_self, hwait, List.filter_cons_of_neg (by simp)]
    exact hfilter
  refine ⟨head, _, s', Function.update (Function.update q (.wait m) rest) .ready
    (Function.update q (.wait m) rest .ready ++ [t]), ?_, hunblock,
    ⟨?_, ?_, ?_, ?_, ?_, ?_, ?_⟩, hleft⟩
  · have hunlink' : unlink (links y.sched) y.sched.taskCount (y.mutexes m).waitQueue t
        = some (next, head) := hunlink
    rw [taskQueueRemove, hunlink']
    rfl
  · have hheads : waitHeads (unlocked y m
        ({ y.mutexes m with waitQueue := head, owner := some t }, s'))
        = Function.update (waitHeads y) m head := by
      funext m'
      by_cases hm : m' = m
      · subst hm
        simp [waitHeads, unlocked]
      · simp [waitHeads, unlocked, Function.update_of_ne hm]
    rw [hheads]
    exact hset
  · exact hkept'.sameRequest.1.trans h.pending
  · exact hkept'.sameRequest.2.trans h.request
  · intro m'
    by_cases hm : m' = m
    · subst hm
      rw [hleft]
      simp
    · have hne : (QueueId.wait m' : QueueId μ) ≠ .wait m := fun heq => hm (QueueId.wait.inj heq)
      simp [unlocked, Function.update_of_ne hm, Function.update_of_ne hne, h.waiting]
  · intro m'
    by_cases hm : m' = m
    · subst hm
      have hheld := h.held m' (by simp [hwait])
      have hlocked := h.locked m'
      rw [Option.isSome_iff_ne_none.mpr hheld] at hlocked
      simpa [unlocked] using hlocked
    · simpa [unlocked, Function.update_of_ne hm] using h.locked m'
  · intro m' hne
    by_cases hm : m' = m
    · subst hm
      simp [unlocked]
    · simpa [unlocked, Function.update_of_ne hm] using
        h.held m' (by simpa [unlocked, Function.update_of_ne hm] using hne)
  · intro m' u hu
    by_cases hm : m' = m
    · subst hm
      have hut : t = u := by simpa [unlocked] using hu
      rw [hleft, ← hut]
      exact hrest
    · simpa [unlocked, Function.update_of_ne hm] using
        h.owner m' u (by simpa [unlocked, Function.update_of_ne hm] using hu)

/-- `mutex_unlock` by a task that is not the owner. -/
theorem mutexUnlock_not_owner {s : Sched} {mx : Mutex} (hcur : s.currentTask = some t)
    (hown : mx.owner ≠ some t) : mutexUnlock s mx = some (mx, s) := by
  simp only [mutexUnlock, hcur, if_pos hown]

/-- An unlock that does nothing. -/
theorem MutexInv.unlocked_same (h : MutexInv y q dead) (m : μ) :
    unlocked y m (y.mutexes m, y.sched) = y := by
  have hfilter : (y.waiting m).filter (fun t => decide (some t ≠ (y.mutexes m).owner))
      = y.waiting m := by
    refine List.filter_eq_self.mpr fun u hu => ?_
    have hne : some u ≠ (y.mutexes m).owner := fun heq => h.owner m u heq.symm hu
    simpa using hne
  simp only [unlocked, hfilter, Function.update_eq_self]

/-- `mutex_unlock` by the owner: to the first waiter, or to nobody. -/
theorem MutexInv.unlockOwner (h : MutexInv y q dead) (hcur : y.sched.currentTask = some t)
    (hown : (y.mutexes m).owner = some t) :
    ∃ mx s' q', mutexUnlock y.sched (y.mutexes m) = some (mx, s')
      ∧ MutexInv (unlocked y m (mx, s')) q' dead ∧ mx.owner = (y.waiting m).head?
      ∧ (unlocked y m (mx, s')).waiting m = (y.waiting m).tail := by
  have hlinked := h.settled.inv.queues.linked (.wait m)
  rw [h.waiting m] at hlinked
  cases hwait : y.waiting m with
  | nil =>
      rw [hwait] at hlinked
      have hnone : (y.mutexes m).waitQueue = none := hlinked
      refine ⟨_, y.sched, q, ?_, h.release hwait, rfl, by simp [unlocked, hwait]⟩
      simp only [mutexUnlock, hcur, hown, hnone, ne_eq, not_true_eq_false, if_false]
  | cons u rest =>
      rw [hwait] at hlinked
      have hsome : (y.mutexes m).waitQueue = some u := hlinked.1
      obtain ⟨head, s₁, s', q', hremove, hunblock, hinv, hleft⟩ := h.handOver hwait
      refine ⟨_, s', q', ?_, hinv, rfl, hleft⟩
      rw [hsome] at hremove
      simp only [mutexUnlock, hcur, hown, hsome, ne_eq, not_true_eq_false, if_false]
      rw [hremove]
      show (schedulerUnblock s₁ (some u)).bind _ = _
      rw [hunblock]
      rfl

/-- `mutex_unlock` keeps the invariant. -/
theorem MutexInv.unlock (h : MutexInv y q dead) (m : μ) :
    ∃ mx s' q', mutexUnlock y.sched (y.mutexes m) = some (mx, s')
      ∧ MutexInv (unlocked y m (mx, s')) q' dead := by
  cases hcur : y.sched.currentTask with
  | none =>
      refine ⟨y.mutexes m, y.sched, q, ?_, ?_⟩
      · simp only [mutexUnlock, hcur]
      · rw [h.unlocked_same]
        exact h
  | some t =>
      by_cases hown : (y.mutexes m).owner = some t
      · obtain ⟨mx, s', q', hrun, hinv, -⟩ := h.unlockOwner hcur hown
        exact ⟨mx, s', q', hrun, hinv⟩
      · refine ⟨y.mutexes m, y.sched, q, mutexUnlock_not_owner hcur hown, ?_⟩
        rw [h.unlocked_same]
        exact h

-- ==================================================================== runs

/-- `mutex_lock` from its entry: it returns with the lock, or the task
joins the waiters. -/
theorem MutexInv.lock (h : MutexInv y q dead) (hidle : y.sched.currentTask ≠ y.sched.idle)
    (m : μ) (regs : CpuContext) :
    ∃ outcome mx s' q', mutexLock y.sched (y.mutexes m) regs = some (outcome, mx, s')
      ∧ MutexInv (lockPassed y m (outcome, mx, s')) q' dead
      ∧ (outcome = .returned → ∀ t, y.sched.currentTask = some t → mx.owner = some t) := by
  have hsame : MutexInv (lockPassed y m (.returned, y.mutexes m, y.sched)) q dead := by
    rw [lockPassed_same]
    exact h
  cases hcur : y.sched.currentTask with
  | none => exact ⟨.returned, y.mutexes m, y.sched, q, by simp only [mutexLock, hcur], hsame,
      by simp⟩
  | some t =>
      have hidle' : some t ≠ y.sched.idle := hcur ▸ hidle
      by_cases hown : (y.mutexes m).owner = some t
      · refine ⟨.returned, y.mutexes m, y.sched, q, ?_, hsame, ?_⟩
        · simp only [mutexLock, hcur, if_pos hown]
        · intro _ u hu
          rw [hown, hu]
      · obtain ⟨outcome, mx, s', q', hrun, hinv, hret⟩ := h.pass hcur hidle' m regs
        refine ⟨outcome, mx, s', q', ?_, hinv, ?_⟩
        · simp only [mutexLock, hcur, if_neg hown, hrun]
        · intro hout u hu
          rw [hret hout, hu]

/-- Every step keeps the invariant. -/
theorem MutexInv.step (h : MutexInv y q dead) (trampoline : Nat) {op : MutexOp μ}
    (hop : op.Allowed y) :
    ∃ y' q' dead', mutexStep trampoline y op = some y' ∧ MutexInv y' q' dead' := by
  cases op with
  | lock m regs =>
      obtain ⟨outcome, mx, s', q', hrun, hinv, -⟩ := h.lock hop m regs
      exact ⟨_, q', dead, by rw [mutexStep, hrun, Option.map_some], hinv⟩
  | relock m regs =>
      cases hcur : y.sched.currentTask with
      | none => exact ⟨y, q, dead, by simp only [mutexStep, hcur], h⟩
      | some t =>
          obtain ⟨outcome, mx, s', q', hrun, hinv, -⟩ := h.pass hcur (hcur ▸ hop) m regs
          exact ⟨_, q', dead, by simp only [mutexStep, hcur, hrun, Option.map_some], hinv⟩
  | unlock m =>
      obtain ⟨mx, s', q', hrun, hinv⟩ := h.unlock m
      exact ⟨_, q', dead, by rw [mutexStep, hrun, Option.map_some], hinv⟩
  | sched op =>
      obtain ⟨hallowed, hfree⟩ := hop
      have hset : Settled (SchedSys.mk y.sched y.added).sched (waitHeads y) q dead
          (SchedSys.mk y.sched y.added).added := h.settled
      obtain ⟨z, q', dead', hrun, hset', hp, hr, hwait, -⟩ :=
        hset.step trampoline h.pending h.request hallowed fun t ht m => by
          rw [h.waiting m]
          exact hfree t (by simp [ht, unblocks]) m
      exact ⟨_, q', dead', by rw [mutexStep, hrun, Option.map_some],
        h.withSched hset' hp hr hwait.wait⟩

omit [DecidableEq μ] in
theorem mutexInv_init {boot : Sched} (hboot : boot.taskCount = 0) (id entry stack : Nat) :
    MutexInv (mutexSysInit μ boot id entry stack) (fun _ => []) [] :=
  ⟨settled_init hboot id entry stack, rfl, rfl, fun _ => rfl, fun _ => rfl,
    fun _ hne => absurd rfl hne, fun _ _ _ => List.not_mem_nil⟩

/-- What the protocol promises of the mutex `m`. -/
structure MutexOk (y : MutexSys μ) (m : μ) : Prop where
  locked_iff : (y.mutexes m).locked = true ↔ (y.mutexes m).owner ≠ none
  locked_of_wait : (y.mutexes m).waitQueue ≠ none → (y.mutexes m).locked = true
  queue : Linked (links y.sched) (y.mutexes m).waitQueue (y.waiting m)
  nodup : (y.waiting m).Nodup
  blocked : ∀ t ∈ y.waiting m, (y.sched.tasks t).state = .blocked
  owner : ∀ t, (y.mutexes m).owner = some t → t ∉ y.waiting m

omit [DecidableEq μ] in
theorem MutexInv.ok (h : MutexInv y q dead) (m : μ) : MutexOk y m := by
  have hlinked := h.settled.inv.queues.linked (.wait m)
  rw [h.waiting m] at hlinked
  have hiff : (y.mutexes m).locked = true ↔ (y.mutexes m).owner ≠ none := by
    rw [h.locked m]
    exact Option.isSome_iff_ne_none
  refine ⟨hiff, ?_, hlinked, hlinked.nodup, ?_, h.owner m⟩
  · intro hsome
    refine hiff.mpr (h.held m fun hnil => hsome ?_)
    rw [hnil] at hlinked
    exact hlinked
  · intro t ht
    rw [← h.waiting m] at ht
    exact (h.settled.inv.queued (.wait m) t ht).2.2

/-- In every run of any number of mutexes and tasks: the protocol holds
of each mutex; a release by another task than the owner does nothing;
one by the owner passes the mutex to the first of those who wait; and a
pass of `mutex_lock` that returns leaves the task the owner. -/
theorem mutex_protocol (trampoline id entry stack : Nat) (boot : Sched)
    (hboot : boot.taskCount = 0) (ops : List (MutexOp μ))
    (hops : AllowedRun (mutexStep trampoline) (fun y op => op.Allowed y)
      (mutexSysInit μ boot id entry stack) ops) :
    ∃ y, runOps (mutexStep trampoline) (mutexSysInit μ boot id entry stack) ops = some y
      ∧ (∀ m, MutexOk y m)
      ∧ (∀ m t, y.sched.currentTask = some t → (y.mutexes m).owner ≠ some t →
          mutexStep trampoline y (.unlock m) = some y)
      ∧ (∀ m t, y.sched.currentTask = some t → (y.mutexes m).owner = some t →
          ∃ y', mutexStep trampoline y (.unlock m) = some y'
            ∧ (y'.mutexes m).owner = (y.waiting m).head?
            ∧ y'.waiting m = (y.waiting m).tail)
      ∧ ∀ m t regs outcome mx s', y.sched.currentTask = some t → some t ≠ y.sched.idle →
          mutexLock y.sched (y.mutexes m) regs = some (outcome, mx, s')
            ∨ mutexLockPass y.sched (y.mutexes m) t regs = some (outcome, mx, s') →
          (outcome = .returned → mx.owner = some t)
            ∧ (outcome ≠ .returned → (lockPassed y m (outcome, mx, s')).waiting m
              = y.waiting m ++ [t]) := by
  obtain ⟨y, hrun, q, dead, hinv⟩ := run_total
    (P := fun y : MutexSys μ => ∃ q dead, MutexInv y q dead) (fun y op h hop => by
      obtain ⟨q, dead, h⟩ := h
      obtain ⟨y', q', dead', hstep, h'⟩ := h.step trampoline hop
      exact ⟨y', hstep, q', dead', h'⟩)
    ⟨_, _, mutexInv_init hboot id entry stack⟩ hops
  refine ⟨y, hrun, hinv.ok, ?_, ?_, ?_⟩
  · intro m t hcur hown
    rw [mutexStep, mutexUnlock_not_owner hcur hown, Option.map_some, hinv.unlocked_same]
  · intro m t hcur hown
    obtain ⟨mx, s', q', hunlock, -, hnext, hleft⟩ := hinv.unlockOwner hcur hown
    refine ⟨_, by rw [mutexStep, hunlock, Option.map_some], ?_, hleft⟩
    simpa [unlocked] using hnext
  · intro m t regs outcome mx s' hcur hidle hpass
    have hyield : outcome ≠ .returned →
        (lockPassed y m (outcome, mx, s')).waiting m = y.waiting m ++ [t] := by
      intro hne
      cases outcome with
      | returned => exact absurd rfl hne
      | yielded resume => simp [lockPassed, hcur]
    refine ⟨?_, hyield⟩
    rcases hpass with hlock | hlock
    · obtain ⟨outcome', mx', s'', -, hrun', -, hret⟩ := hinv.lock (hcur ▸ hidle) m regs
      obtain ⟨rfl, rfl, rfl⟩ : outcome' = outcome ∧ mx' = mx ∧ s'' = s' := by
        simpa using hrun'.symm.trans hlock
      exact fun hout => hret hout t hcur
    · obtain ⟨outcome', mx', s'', -, hrun', -, hret⟩ := hinv.pass hcur hidle m regs
      obtain ⟨rfl, rfl, rfl⟩ : outcome' = outcome ∧ mx' = mx ∧ s'' = s' := by
        simpa using hrun'.symm.trans hlock
      exact hret

/-- Two tasks and one mutex: the first takes it, the second blocks on it,
the first releases it and the second goes on. -/
def lockHandedOver : List (MutexOp Unit) :=
  [.sched (.createTask 2 0x100 0x8000 none), .sched (.createTask 3 0x200 0x10000 none),
    .sched (.addTask 1), .sched (.addTask 2), .sched (.yield { rsp := 0x500 }),
    .lock () {}, .sched (.yield { rsp := 0xb000 }), .lock () { rsp := 0x13000 }, .unlock (),
    .sched (.yield { rsp := 0xb000 }), .relock () {}]

theorem lockHandedOver_allowed : AllowedRun (mutexStep 0x42) (fun y op => op.Allowed y)
    (mutexSysInit Unit bootSched 1 0x50 0x4000) lockHandedOver := by
  decide

/-- A lock is handed over. -/
theorem mutex_protocol_two_tasks :
    ∃ y, runOps (mutexStep 0x42) (mutexSysInit Unit bootSched 1 0x50 0x4000) lockHandedOver
        = some y
      ∧ (y.sched.currentTask = some 2 ∧ (y.mutexes ()).owner = some 2) ∧ ∀ m, MutexOk y m := by
  obtain ⟨y, hrun, hok, -⟩ :=
    mutex_protocol 0x42 1 0x50 0x4000 bootSched rfl lockHandedOver lockHandedOver_allowed
  have hfinal : (runOps (mutexStep 0x42) (mutexSysInit Unit bootSched 1 0x50 0x4000)
      lockHandedOver).map (fun y => (y.sched.currentTask, (y.mutexes ()).owner))
      = some (some 2, some 2) := by decide
  rw [hrun] at hfinal
  exact ⟨y, hrun, by simpa using hfinal, hok⟩

end ZenithOS.Sync
