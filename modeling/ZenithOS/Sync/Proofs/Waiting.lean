/-
Nobody waits for a mutex for ever.

# The measure

The owner of a mutex can keep it as long as it likes, and so can whoever
gets it next; what a waiter can count on is how often it is passed on
before its turn. That is its place among those who wait: a release by
the owner takes the first of them away, and every other operation adds
at the end or leaves them alone (`MutexInv.place`).
-/
import ZenithOS.Sync.Proofs.Mutex

namespace ZenithOS.Sync

open Lib Mm Scheduler

variable {μ : Type} [DecidableEq μ] {y y' : MutexSys μ} {q : QueueId μ → List TaskPtr}
  {dead : List TaskPtr} {m : μ} {t : TaskPtr} {i : Nat} {op : MutexOp μ}

/-- The owner of `m` releases it. -/
def Releases (m : μ) (y : MutexSys μ) : MutexOp μ → Prop
  | .unlock m' => m' = m ∧ y.sched.currentTask ≠ none
      ∧ (y.mutexes m).owner = y.sched.currentTask
  | _ => False

instance (m : μ) (y : MutexSys μ) : ∀ op, Decidable (Releases m y op)
  | .unlock _ => inferInstanceAs (Decidable (_ ∧ _ ∧ _))
  | .lock .. | .relock .. | .sched _ => isFalse id

-- ============================================================== one step

/-- After a pass the waiters are those before it, and perhaps one more. -/
theorem lockPassed_place {m' : μ} (r : LockPass × Mutex × Sched)
    (hi : (y.waiting m)[i]? = some t) : ((lockPassed y m' r).waiting m)[i]? = some t := by
  have hlt : i < (y.waiting m).length := (List.getElem?_eq_some_iff.mp hi).1
  obtain ⟨outcome, mx, s⟩ := r
  cases outcome with
  | returned => exact hi
  | yielded resume =>
      show (Function.update y.waiting m' _ m)[i]? = some t
      by_cases hm : m = m'
      · subst hm
        rw [Function.update_self, List.getElem?_append_left hlt]
        exact hi
      · rw [Function.update_of_ne hm]
        exact hi

/-- A waiter keeps its place, or moves up by one as the owner releases
the mutex; the first gets it. -/
theorem MutexInv.place (h : MutexInv y q dead) {trampoline : Nat}
    (hstep : mutexStep trampoline y op = some y') (hi : (y.waiting m)[i]? = some t) :
    ¬ Releases m y op ∧ (y'.waiting m)[i]? = some t
      ∨ Releases m y op ∧ (i = 0 ∧ (y'.mutexes m).owner = some t
        ∨ ∃ k, i = k + 1 ∧ (y'.waiting m)[k]? = some t) := by
  cases op with
  | lock m' regs =>
      obtain ⟨r, -, rfl⟩ := Option.map_eq_some_iff.mp hstep
      exact .inl ⟨id, lockPassed_place r hi⟩
  | relock m' regs =>
      refine .inl ⟨id, ?_⟩
      cases hcur : y.sched.currentTask with
      | none =>
          simp only [mutexStep, hcur] at hstep
          cases hstep
          exact hi
      | some u =>
          simp only [mutexStep, hcur] at hstep
          obtain ⟨r, -, rfl⟩ := Option.map_eq_some_iff.mp hstep
          exact lockPassed_place r hi
  | sched op =>
      obtain ⟨z, -, rfl⟩ := Option.map_eq_some_iff.mp hstep
      exact .inl ⟨id, hi⟩
  | unlock m' =>
      obtain ⟨r, hunlock, rfl⟩ := Option.map_eq_some_iff.mp hstep
      by_cases hrelease : y.sched.currentTask ≠ none
          ∧ (y.mutexes m').owner = y.sched.currentTask
      · obtain ⟨u, hcur⟩ := Option.ne_none_iff_exists'.mp hrelease.1
        obtain ⟨mx, s', q', hrun, -, hnext, hleft⟩ :=
          h.unlockOwner hcur (hrelease.2.trans hcur)
        obtain rfl : (mx, s') = r := Option.some.inj (hrun.symm.trans hunlock)
        by_cases hm : m' = m
        · subst hm
          refine .inr ⟨⟨rfl, hrelease⟩, ?_⟩
          cases i with
          | zero =>
              refine .inl ⟨rfl, ?_⟩
              show (Function.update y.mutexes m' mx m').owner = some t
              rw [Function.update_self, hnext, List.head?_eq_getElem?, hi]
          | succ k =>
              refine .inr ⟨k, rfl, ?_⟩
              rw [hleft, List.getElem?_tail, hi]
        · refine .inl ⟨fun hrel => hm hrel.1, ?_⟩
          show (Function.update y.waiting m' _ m)[i]? = some t
          rw [Function.update_of_ne (Ne.symm hm)]
          exact hi
      · refine .inl ⟨fun hrel => hrelease ⟨hrel.2.1, hrel.1 ▸ hrel.2.2⟩, ?_⟩
        have hsame : r = (y.mutexes m', y.sched) := by
          cases hcur : y.sched.currentTask with
          | none =>
              simp only [mutexUnlock, hcur] at hunlock
              exact (Option.some.inj hunlock).symm
          | some u =>
              have hown : (y.mutexes m').owner ≠ some u := by
                intro heq
                apply hrelease
                rw [hcur]
                exact ⟨Option.some_ne_none u, heq⟩
              rw [mutexUnlock_not_owner hcur hown] at hunlock
              exact (Option.some.inj hunlock).symm
        rw [hsame, h.unlocked_same]
        exact hi

-- ================================================================== runs

/-- `t` waits for `m` behind `n` others. -/
def WaitsFor (m : μ) (t : TaskPtr) (n : Nat) (y : MutexSys μ) : Prop :=
  (∃ q dead, MutexInv y q dead) ∧ (y.waiting m)[n]? = some t

/-- A release brings the waiter closer, and nothing else takes its place. -/
theorem WaitsFor.step {trampoline n : Nat} (h : WaitsFor m t n y) (hop : op.Allowed y) :
    ∃ y', mutexStep trampoline y op = some y' ∧ ((y'.mutexes m).owner = some t
      ∨ ∃ k, k + (if Releases m y op then 1 else 0) ≤ n ∧ WaitsFor m t k y') := by
  obtain ⟨⟨q, dead, hinv⟩, hn⟩ := h
  obtain ⟨y', q', dead', hstep, hinv'⟩ := hinv.step trampoline hop
  refine ⟨y', hstep, ?_⟩
  rcases hinv.place hstep hn with ⟨hkeeps, hplace⟩ | ⟨hrelease, hserved | ⟨k, rfl, hplace⟩⟩
  · rw [if_neg hkeeps]
    exact .inr ⟨n, Nat.le_refl n, ⟨q', dead', hinv'⟩, hplace⟩
  · exact .inl hserved.2
  · rw [if_pos hrelease]
    exact .inr ⟨k, Nat.le_refl _, ⟨q', dead', hinv'⟩, hplace⟩

/-- In every run of any number of mutexes and tasks, the task that waits
for a mutex behind `i` others owns it by the time its owners have
released it `i + 1` times. -/
theorem mutex_waiter_served (trampoline id entry stack : Nat) {boot : Sched}
    (hboot : boot.taskCount = 0) {ops : List (MutexOp μ)}
    (hops : AllowedRun (mutexStep trampoline) (fun y op => op.Allowed y)
      (mutexSysInit μ boot id entry stack) ops) :
    ∃ y, runOps (mutexStep trampoline) (mutexSysInit μ boot id entry stack) ops = some y
      ∧ ∀ m i t, (y.waiting m)[i]? = some t → ∀ ops',
        AllowedRun (mutexStep trampoline) (fun y op => op.Allowed y) y ops' →
        i < countRun (mutexStep trampoline) (Releases m) y ops' →
        ∃ ops₁ ops₂ z, ops' = ops₁ ++ ops₂ ∧ runOps (mutexStep trampoline) y ops₁ = some z
          ∧ (z.mutexes m).owner = some t := by
  obtain ⟨y, hrun, hinv⟩ := run_total
    (P := fun y : MutexSys μ => ∃ q dead, MutexInv y q dead) (fun y op h hop => by
      obtain ⟨q, dead, h⟩ := h
      obtain ⟨y', q', dead', hstep, h'⟩ := h.step trampoline hop
      exact ⟨y', hstep, q', dead', h'⟩)
    ⟨_, _, mutexInv_init hboot id entry stack⟩ hops
  refine ⟨y, hrun, ?_⟩
  intro m i t hi ops' hops' hcount
  have hstep : ∀ n y op, WaitsFor m t n y → op.Allowed y →
      ∃ y', mutexStep trampoline y op = some y' ∧ ((y'.mutexes m).owner = some t
        ∨ ∃ k, k + (if Releases m y op then 1 else 0) ≤ n ∧ WaitsFor m t k y') :=
    fun n y op h hop => h.step hop
  exact run_reaches hstep ⟨hinv, hi⟩ hops' hcount

/-- The first of three tasks takes the mutex, and the others wait for
it. -/
def lockAwaited : List (MutexOp Unit) :=
  [.sched (.createTask 2 0x100 0x8000 none), .sched (.createTask 3 0x200 0x10000 none),
    .sched (.createTask 4 0x300 0x20000 none), .sched (.addTask 1), .sched (.addTask 2),
    .sched (.addTask 3), .sched (.yield { rsp := 0x500 }), .lock () {},
    .sched (.yield { rsp := 0xb000 }), .lock () { rsp := 0x13000 }, .lock () { rsp := 0x23000 }]

/-- The first works on and releases it, and so does the second. -/
def lockReleasedTwice : List (MutexOp Unit) :=
  [.sched (.yield { rsp := 0xb000 }), .unlock (), .sched (.yield { rsp := 0xb100 }),
    .relock () {}, .unlock ()]

/-- The second waiter gets the mutex. -/
theorem mutex_waiter_served_second :
    ∃ y, runOps (mutexStep 0x42) (mutexSysInit Unit bootSched 1 0x50 0x4000) lockAwaited = some y
      ∧ y.waiting () = [2, 3]
      ∧ ∃ ops₁ ops₂ z, lockReleasedTwice = ops₁ ++ ops₂
        ∧ runOps (mutexStep 0x42) y ops₁ = some z ∧ (z.mutexes ()).owner = some 3 := by
  obtain ⟨y, hrun, hserved⟩ := mutex_waiter_served 0x42 1 0x50 0x4000
    (show bootSched.taskCount = 0 from rfl)
    (show AllowedRun (mutexStep 0x42) (fun y op => op.Allowed y)
      (mutexSysInit Unit bootSched 1 0x50 0x4000) lockAwaited by decide)
  have hvalues : (runOps (mutexStep 0x42) (mutexSysInit Unit bootSched 1 0x50 0x4000)
      lockAwaited).map (fun y => (y.waiting (),
        decide (AllowedRun (mutexStep 0x42) (fun y op => op.Allowed y) y lockReleasedTwice),
        countRun (mutexStep 0x42) (Releases ()) y lockReleasedTwice))
      = some ([2, 3], true, 2) := by
    decide +kernel
  rw [hrun, Option.map_some] at hvalues
  injection hvalues with hvalues
  injection hvalues with hwaiting hvalues
  injection hvalues with hallowed hcount
  have hsecond : (y.waiting ())[1]? = some 3 := by
    rw [hwaiting]
    rfl
  refine ⟨y, hrun, hwaiting, hserved () 1 3 hsecond _ (of_decide_eq_true hallowed) ?_⟩
  rw [hcount]
  exact Nat.one_lt_two

end ZenithOS.Sync
