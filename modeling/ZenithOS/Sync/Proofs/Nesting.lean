/-
Critical sections exclude each other, as long as none is left from
inside.

`mutex_lock` by the owner returns without a count and `mutex_unlock` by
the owner always gives the mutex up. So the owner is the task with an
open lock only while no inner lock is closed: `NestInv.owned`. A pass
returns only to a task that the mutex is free for, or whose it is, which
then is the only one with an open lock.
-/
import ZenithOS.Sync.Nesting
import ZenithOS.Sync.Proofs.Mutex

namespace ZenithOS.Sync

open Lib Mm Scheduler

variable {μ : Type} [DecidableEq μ] {y y' : NestSys μ} {m : μ} {t u : TaskPtr}
  {s s' : Sched} {mx mx' : Mutex} {regs : CpuContext} {outcome : LockPass}

-- ========================================================= what a pass does

/-- A pass returns with the mutex, which was the task's or free; or it
leaves the owner. -/
inductive PassCases (mx : Mutex) (t : TaskPtr) (mx' : Mutex) : LockPass → Prop
  | own : mx.owner = some t → mx' = mx → PassCases mx t mx' .returned
  | free : mx.locked = false → mx'.owner = some t → PassCases mx t mx' .returned
  | wait (resume : Resume) : mx'.owner = mx.owner → PassCases mx t mx' (.yielded resume)

theorem mutexLockPass_cases (hrun : mutexLockPass s mx t regs = some (outcome, mx', s')) :
    PassCases mx t mx' outcome := by
  unfold mutexLockPass at hrun
  by_cases hown : mx.owner = some t
  · rw [if_pos hown] at hrun
    cases hrun
    exact .own hown rfl
  · rw [if_neg hown] at hrun
    by_cases hfree : (!mx.locked) = true
    · rw [if_pos hfree] at hrun
      cases hrun
      exact .free (by simpa using hfree) rfl
    · rw [if_neg hfree] at hrun
      obtain ⟨⟨s₁, head⟩, -, hrun⟩ := Option.bind_eq_some_iff.mp hrun
      obtain ⟨⟨resume, s₂⟩, -, hrun⟩ := Option.bind_eq_some_iff.mp hrun
      cases hrun
      exact .wait resume rfl

theorem mutexLock_cases (hcur : s.currentTask = some t)
    (hrun : mutexLock s mx regs = some (outcome, mx', s')) : PassCases mx t mx' outcome := by
  unfold mutexLock at hrun
  rw [hcur] at hrun
  dsimp only at hrun
  by_cases hown : mx.owner = some t
  · rw [if_pos hown] at hrun
    cases hrun
    exact .own hown rfl
  · rw [if_neg hown] at hrun
    exact mutexLockPass_cases hrun

-- ============================================================ the invariant

/-- The mutexes are well formed, and only the owner has open locks. -/
structure NestInv (y : NestSys μ) : Prop where
  sys : ∃ q dead, MutexInv y.sys q dead
  owned : ∀ m t, 0 < y.opened m t → (y.sys.mutexes m).owner = some t

theorem count_self (f : Nat → Nat) : y.count m t f m t = f (y.opened m t) := by
  unfold NestSys.count
  rw [Function.update_self, Function.update_self]

theorem count_other {m' : μ} (f : Nat → Nat) (h : m' ≠ m ∨ u ≠ t) :
    y.count m t f m' u = y.opened m' u := by
  unfold NestSys.count
  by_cases hm : m' = m
  · subst hm
    rw [Function.update_self, Function.update_of_ne (h.resolve_left (fun hne => hne rfl))]
  · rw [Function.update_of_ne hm]

omit [DecidableEq μ] in
/-- A pass that returns finds no lock of another task open. -/
theorem NestInv.alone (h : NestInv y) (hcases : PassCases (y.sys.mutexes m) t mx' .returned)
    (hne : u ≠ t) : y.opened m u = 0 := by
  apply Nat.eq_zero_of_not_pos
  intro hpos
  have howner := h.owned m u hpos
  obtain ⟨q, dead, hinv⟩ := h.sys
  cases hcases with
  | own hown hsame =>
      rw [hown] at howner
      exact hne (Option.some.inj howner).symm
  | free hfree hown =>
      have hlocked := hinv.locked m
      rw [hfree, howner] at hlocked
      cases hlocked

theorem lockPassed_mutexes (z : MutexSys μ) (r : LockPass × Mutex × Sched) :
    (lockPassed z m r).mutexes = Function.update z.mutexes m r.2.1 := rfl

theorem unlocked_mutexes (z : MutexSys μ) (r : Mutex × Sched) :
    (unlocked z m r).mutexes = Function.update z.mutexes m r.1 := rfl

theorem NestInv.passed (h : NestInv y) (hcur : y.sys.sched.currentTask = some t)
    (hcases : PassCases (y.sys.mutexes m) t mx' outcome)
    (hinv : ∃ q dead, MutexInv (lockPassed y.sys m (outcome, mx', s')) q dead) :
    NestInv (y.passed m (outcome, mx', s')) := by
  cases outcome with
  | returned =>
      have hpassed : y.passed m (.returned, mx', s')
          = { sys := lockPassed y.sys m (.returned, mx', s')
              opened := y.count m t (· + 1)
              inside := Function.update y.inside t none } := by
        unfold NestSys.passed
        rw [hcur]
      rw [hpassed]
      refine ⟨hinv, ?_⟩
      intro m' u hpos
      dsimp only at hpos ⊢
      rw [lockPassed_mutexes]
      by_cases hm : m' = m
      · subst hm
        rw [Function.update_self]
        by_cases hu : u = t
        · subst hu
          cases hcases with
          | own hown hsame =>
              rw [hsame]
              exact hown
          | free hfree hown => exact hown
        · rw [count_other _ (.inr hu), h.alone hcases hu] at hpos
          cases hpos
      · rw [Function.update_of_ne hm]
        rw [count_other _ (.inl hm)] at hpos
        exact h.owned m' u hpos
  | yielded resume =>
      have hpassed : y.passed m (.yielded resume, mx', s')
          = { y with
              sys := lockPassed y.sys m (.yielded resume, mx', s')
              inside := Function.update y.inside t (some m) } := by
        unfold NestSys.passed
        rw [hcur]
      rw [hpassed]
      refine ⟨hinv, ?_⟩
      intro m' u hpos
      have howner := h.owned m' u hpos
      dsimp only
      rw [lockPassed_mutexes]
      by_cases hm : m' = m
      · subst hm
        rw [Function.update_self]
        cases hcases with
        | wait _ hsame =>
            rw [hsame]
            exact howner
      · rw [Function.update_of_ne hm]
        exact howner

/-- A task that closes its only lock gives the mutex up; no other has it
open. -/
theorem NestInv.closed (h : NestInv y) (hcur : y.sys.sched.currentTask = some t)
    (hone : y.opened m t = 1) {r : Mutex × Sched}
    (hinv : ∃ q dead, MutexInv (unlocked y.sys m r) q dead) : NestInv (y.closed m r) := by
  have hclosed : y.closed m r
      = { y with sys := unlocked y.sys m r, opened := y.count m t (· - 1) } := by
    unfold NestSys.closed
    rw [hcur]
  rw [hclosed]
  refine ⟨hinv, ?_⟩
  intro m' u hpos
  dsimp only at hpos ⊢
  rw [unlocked_mutexes]
  by_cases hm : m' = m
  · subst hm
    by_cases hu : u = t
    · subst hu
      rw [count_self, hone] at hpos
      cases hpos
    · rw [count_other _ (.inr hu)] at hpos
      have howner := h.owned m' t (by omega)
      rw [h.owned m' u hpos] at howner
      exact absurd (Option.some.inj howner) hu
  · rw [Function.update_of_ne hm]
    rw [count_other _ (.inl hm)] at hpos
    exact h.owned m' u hpos

/-- Every step that closes no lock inside another keeps the invariant. -/
theorem NestInv.step (h : NestInv y) (trampoline : Nat) {op : MutexOp μ} (hop : op.Balanced y)
    (hout : op.Outermost y) : ∃ y', nestStep trampoline y op = some y' ∧ NestInv y' := by
  have hallowed := hop.1
  obtain ⟨q, dead, hinv⟩ := h.sys
  cases op with
  | lock m regs =>
      obtain ⟨outcome, mx, s', q', hrun, hinv', -⟩ := hinv.lock hallowed m regs
      refine ⟨_, by rw [nestStep, hrun, Option.map_some], ?_⟩
      cases hcur : y.sys.sched.currentTask with
      | none =>
          have hpassed : y.passed m (outcome, mx, s')
              = { y with sys := lockPassed y.sys m (outcome, mx, s') } := by
            unfold NestSys.passed
            rw [hcur]
          rw [mutexLock, hcur] at hrun
          cases hrun
          rw [hpassed, lockPassed_same]
          exact h
      | some t => exact h.passed hcur (mutexLock_cases hcur hrun) ⟨q', dead, hinv'⟩
  | relock m regs =>
      cases hcur : y.sys.sched.currentTask with
      | none => exact ⟨y, by simp only [nestStep, hcur], h⟩
      | some t =>
          obtain ⟨outcome, mx, s', q', hrun, hinv', -⟩ := hinv.pass hcur (hcur ▸ hallowed) m regs
          refine ⟨y.passed m (outcome, mx, s'),
            by simp only [nestStep, hcur, hrun, Option.map_some], ?_⟩
          exact h.passed hcur (mutexLockPass_cases hrun) ⟨q', dead, hinv'⟩
  | unlock m =>
      obtain ⟨mx, s', q', hrun, hinv'⟩ := hinv.unlock m
      refine ⟨_, by rw [nestStep, hrun, Option.map_some], ?_⟩
      cases hcur : y.sys.sched.currentTask with
      | none =>
          have hclosed : y.closed m (mx, s') = { y with sys := unlocked y.sys m (mx, s') } := by
            unfold NestSys.closed
            rw [hcur]
          rw [mutexUnlock, hcur] at hrun
          cases hrun
          rw [hclosed, hinv.unlocked_same]
          exact h
      | some t => exact h.closed hcur (hout t hcur) ⟨q', dead, hinv'⟩
  | sched op =>
      obtain ⟨z, q', dead', hrun, hinv'⟩ := hinv.step trampoline hallowed
      refine ⟨_, by rw [nestStep, hrun, Option.map_some], ⟨q', dead', hinv'⟩, ?_⟩
      obtain ⟨w, -, rfl⟩ := Option.map_eq_some_iff.mp hrun
      exact h.owned

omit [DecidableEq μ] in
theorem nestInv_init {boot : Sched} (hboot : boot.taskCount = 0) (id entry stack : Nat) :
    NestInv (nestInit μ boot id entry stack) :=
  ⟨⟨_, _, mutexInv_init hboot id entry stack⟩, fun _ _ hpos => absurd hpos (Nat.lt_irrefl 0)⟩

-- ==================================================================== runs

/-- In every run of any tasks and mutexes whose calls are balanced and
that closes no inner lock: no two tasks have a mutex open, and a pass of
`mutex_lock` that returns to one task finds it open by no other. -/
theorem critical_sections_exclude (trampoline id entry stack : Nat) (boot : Sched)
    (hboot : boot.taskCount = 0) (ops : List (MutexOp μ))
    (hops : AllowedRun (nestStep trampoline) (fun y op => op.Balanced y ∧ op.Outermost y)
      (nestInit μ boot id entry stack) ops) :
    ∃ y, runOps (nestStep trampoline) (nestInit μ boot id entry stack) ops = some y
      ∧ (∀ m t u, 0 < y.opened m t → 0 < y.opened m u → t = u)
      ∧ ∀ m t regs mx s', y.sys.sched.currentTask = some t →
          mutexLock y.sys.sched (y.sys.mutexes m) regs = some (.returned, mx, s')
            ∨ mutexLockPass y.sys.sched (y.sys.mutexes m) t regs = some (.returned, mx, s') →
          ∀ u, u ≠ t → y.opened m u = 0 := by
  obtain ⟨y, hrun, hinv⟩ := run_total
    (fun y op (h : NestInv y) hop => h.step trampoline hop.1 hop.2)
    (nestInv_init hboot id entry stack) hops
  refine ⟨y, hrun, ?_, ?_⟩
  · intro m t u ht hu
    have howner := hinv.owned m t ht
    rw [hinv.owned m u hu] at howner
    exact (Option.some.inj howner).symm
  · intro m t regs mx s' hcur hpass u hne
    rcases hpass with hlock | hlock
    · exact hinv.alone (mutexLock_cases hcur hlock) hne
    · exact hinv.alone (mutexLockPass_cases hlock) hne

/-- The second task waits and has the mutex open only when the first has
closed it. -/
theorem critical_sections_exclude_two_tasks :
    ∃ y, runOps (nestStep 0x42) (nestInit Unit bootSched 1 0x50 0x4000) lockHandedOver = some y
      ∧ y.opened () 2 = 1 ∧ ∀ m t u, 0 < y.opened m t → 0 < y.opened m u → t = u := by
  have hops : AllowedRun (nestStep 0x42) (fun y op => op.Balanced y ∧ op.Outermost y)
      (nestInit Unit bootSched 1 0x50 0x4000) lockHandedOver := by
    decide
  obtain ⟨y, hrun, hexclude, -⟩ :=
    critical_sections_exclude 0x42 1 0x50 0x4000 bootSched rfl lockHandedOver hops
  have hfinal : (runOps (nestStep 0x42) (nestInit Unit bootSched 1 0x50 0x4000)
      lockHandedOver).map (fun y => y.opened () 2) = some 1 := by
    decide
  rw [hrun] at hfinal
  exact ⟨y, hrun, Option.some.inj hfinal, hexclude⟩

/-- The first task locks twice and closes the inner lock; then the second
task gets the mutex, inside the first one's outer lock. -/
def innerLockClosed : List (MutexOp Unit) :=
  [.sched (.createTask 2 0x100 0x8000 none), .sched (.createTask 3 0x200 0x10000 none),
    .sched (.addTask 1), .sched (.addTask 2), .sched (.yield { rsp := 0x500 }),
    .lock () {}, .lock () {}, .unlock (), .sched (.yield { rsp := 0xb000 }), .lock () {}]

/-- The inner unlock opens the section to another task. -/
theorem inner_unlock_lets_other_in :
    AllowedRun (nestStep 0x42) (fun y op => op.Balanced y)
        (nestInit Unit bootSched 1 0x50 0x4000) innerLockClosed
      ∧ ∃ y, runOps (nestStep 0x42) (nestInit Unit bootSched 1 0x50 0x4000) innerLockClosed
          = some y
        ∧ y.opened () 1 = 1 ∧ y.opened () 2 = 1 := by
  refine ⟨by decide, ?_⟩
  have hfinal : (runOps (nestStep 0x42) (nestInit Unit bootSched 1 0x50 0x4000)
      innerLockClosed).map (fun y => (y.opened () 1, y.opened () 2)) = some (1, 1) := by
    decide
  obtain ⟨y, hrun, heq⟩ := Option.map_eq_some_iff.mp hfinal
  injection heq with hfirst hsecond
  exact ⟨y, hrun, hfirst, hsecond⟩

end ZenithOS.Sync
