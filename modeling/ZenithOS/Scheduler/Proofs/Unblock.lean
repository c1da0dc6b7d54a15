/-
Calls of `scheduler_unblock` that are interrupted.

A caller that has found its task blocked relies on that when it goes on.
It still is, unless somebody else has unblocked it; then the caller takes
it out of a queue it is not in and links it into the ready queue from
wherever it is by now. Runs in which no such caller goes on keep the
queues a partition, and a caller goes on with a blocked task just when its
test still holds (`unblock_moves_only_blocked`).
-/
import ZenithOS.Scheduler.Unblock
import ZenithOS.Scheduler.Proofs.Partition

namespace ZenithOS.Scheduler

open Lib Mm Proc

variable {y y' : UnblockSys} {q : QueueId Empty → List TaskPtr} {dead : List TaskPtr}
  {t u : TaskPtr} {c : Option TaskPtr} {trampoline : Nat}

-- ========================================================= the invariant

/-- A test holds just when its task is in the blocked queue. -/
structure UnblockInv (y : UnblockSys) (q : QueueId Empty → List TaskPtr) (dead : List TaskPtr) :
    Prop where
  stable : Stable y.sys q dead
  testing : ∀ c t, y.testing c = some t →
    t ∈ y.sys.added ∧ (y.stale c = false ↔ t ∈ q .blocked)

/-- No task is blocked twice. -/
theorem Stable.blocked_nodup {z : SchedSys} (h : Stable z q dead) : (q .blocked).Nodup :=
  (h.settled.inv.queues.linked .blocked).nodup

/-- The blocked queue holds the blocked tasks. -/
theorem Stable.blocked_iff {z : SchedSys} (h : Stable z q dead) (hlt : t < z.sched.taskCount) :
    t ∈ q .blocked ↔ (z.sched.tasks t).state = .blocked := by
  constructor
  · intro hmem
    exact (h.settled.inv.queued .blocked t hmem).2.2
  · exact h.settled.mem_blocked hlt nofun

theorem sysStep_added_subset {z z' : SchedSys} {op : SchedOp}
    (h : sysStep trampoline z op = some z') (ht : t ∈ z.added) : t ∈ z'.added := by
  obtain ⟨s, -, rfl⟩ := Option.map_eq_some_iff.mp h
  cases op with
  | addTask u => exact List.mem_cons_of_mem u ht
  | _ => exact ht

/-- After an operation the tests that hold are those of tasks that are in
the blocked queue then. -/
theorem UnblockInv.stale_iff (h : UnblockInv y q dead) (hc : y.testing c = some t)
    (op : SchedOp) :
    staleAfter y op c = false ↔ t ∈ op.blocked y.sys.sched (q .blocked) := by
  obtain ⟨hadd, hiff⟩ := h.testing c t hc
  have hidle : some t ≠ y.sys.sched.idle := (h.stable.settled.inv.added_lt t hadd).2
  cases op with
  | unblock u =>
      show (if y.testing c = some u then true else y.stale c) = false ↔ t ∈ (q .blocked).erase u
      rw [hc, h.stable.blocked_nodup.mem_erase_iff, ← hiff]
      by_cases htu : t = u
      · rw [if_pos (congrArg some htu)]
        constructor
        · intro hfalse
          cases hfalse
        · intro hboth
          exact absurd htu hboth.1
      · rw [if_neg fun heq => htu (Option.some.inj heq)]
        exact ⟨fun hfresh => ⟨htu, hfresh⟩, fun hboth => hboth.2⟩
  | blockCurrent regs =>
      show (if y.testing c = y.caller then false else y.stale c) = false
        ↔ t ∈ q .blocked ++ running y.sys.sched
      rw [hc, List.mem_append, ← hiff]
      by_cases hcaller : some t = y.caller
      · rw [if_pos hcaller, running_task hcaller.symm hidle]
        exact ⟨fun _ => .inr List.mem_cons_self, fun _ => rfl⟩
      · rw [if_neg hcaller]
        refine ⟨.inl, fun hor => hor.resolve_right ?_⟩
        intro hrun
        unfold running at hrun
        split at hrun
        · cases hrun
        · exact hcaller (Option.mem_toList.mp hrun).symm
  | _ => exact hiff

-- ============================================================== the steps

/-- An operation of the machine. -/
theorem UnblockInv.sched (h : UnblockInv y q dead) {op : SchedOp} (hop : op.Allowed y.sys) :
    ∃ y' q' dead', unblockStep trampoline y (.sched op) = some y' ∧ UnblockInv y' q' dead' := by
  obtain ⟨sys, q', dead', hstep, hstable, -, hmoved⟩ := h.stable.step_moved _ hop
  refine ⟨{ y with sys := sys, stale := staleAfter y op }, q', dead', ?_, hstable, ?_⟩
  · rw [unblockStep, hstep, Option.map_some]
  · intro c t hc
    refine ⟨sysStep_added_subset hstep (h.testing c t hc).1, ?_⟩
    rw [hmoved.blocked]
    exact h.stale_iff hc op

/-- The test of a task's state. -/
theorem UnblockInv.test (h : UnblockInv y q dead) (hlt : t < y.sys.sched.taskCount) :
    ∃ y', unblockStep trampoline y (.test t) = some y' ∧ UnblockInv y' q dead := by
  rw [unblockStep]
  by_cases hstate : (y.sys.sched.tasks t).state = .blocked
  · rw [if_neg fun hne => hne hstate]
    refine ⟨_, rfl, h.stable, ?_⟩
    have hmem := (h.stable.blocked_iff hlt).mpr hstate
    intro c u hc
    dsimp only at hc ⊢
    by_cases hcaller : c = y.caller
    · rw [hcaller, Function.update_self] at hc ⊢
      cases hc
      exact ⟨(h.stable.settled.inv.queued .blocked t hmem).1, fun _ => hmem, fun _ => rfl⟩
    · rw [Function.update_of_ne hcaller] at hc ⊢
      exact h.testing c u hc
  · rw [if_pos hstate]
    exact ⟨y, rfl, h⟩

/-- The rest of the call, when the test still holds: it does what the call
does when nothing comes in between. -/
theorem UnblockInv.relink (h : UnblockInv y q dead) (hc : y.testing y.caller = some t)
    (hfresh : y.stale y.caller = false) :
    ∃ y' q' dead', unblockStep trampoline y .relink = some y' ∧ UnblockInv y' q' dead' := by
  obtain ⟨hadd, hiff⟩ := h.testing _ t hc
  have hmem := hiff.mp hfresh
  have hlt := (h.stable.settled.inv.added_lt t hadd).1
  have hstate := (h.stable.settled.inv.queued .blocked t hmem).2.2
  have hop : (SchedOp.unblock t).Allowed y.sys := hlt
  obtain ⟨sys, q', dead', hstep, hstable, -, hmoved⟩ :=
    h.stable.step_moved trampoline hop
  obtain ⟨s, hs, rfl⟩ := Option.map_eq_some_iff.mp hstep
  have hlocked : schedulerUnblockLocked y.sys.sched t = some s := by
    have hs' : schedulerUnblock y.sys.sched (some t) = some s := hs
    rw [schedulerUnblock, if_neg fun hne => hne hstate] at hs'
    exact hs'
  refine ⟨{ sys := { y.sys with sched := s }
            testing := Function.update y.testing y.caller none
            stale := staleAfter y (.unblock t) }, q', dead', ?_, hstable, ?_⟩
  · rw [unblockStep, hc, Option.bind_eq_bind, Option.bind_some, hlocked]
    rfl
  · intro c u hcu
    have hupdate : Function.update y.testing y.caller none c = some u := hcu
    by_cases hcaller : c = y.caller
    · rw [hcaller, Function.update_self] at hupdate
      cases hupdate
    · rw [Function.update_of_ne hcaller] at hupdate
      refine ⟨(h.testing c u hupdate).1, ?_⟩
      rw [hmoved.blocked]
      exact h.stale_iff hupdate (.unblock t)

/-- Every allowed step whose test still holds keeps the invariant. -/
theorem UnblockInv.step (h : UnblockInv y q dead) {op : UnblockOp} (hop : op.Allowed y)
    (hfresh : op.Fresh y) :
    ∃ y' q' dead', unblockStep trampoline y op = some y' ∧ UnblockInv y' q' dead' := by
  cases op with
  | sched op => exact h.sched hop.1
  | test t =>
      obtain ⟨y', hstep, h'⟩ := h.test hop.1
      exact ⟨y', q, dead, hstep, h'⟩
  | relink =>
      obtain ⟨t, hc⟩ := Option.ne_none_iff_exists'.mp hop
      exact h.relink hc hfresh

-- =================================================================== runs

/-- In every run in which callers go on only while their tests hold, the
tasks are partitioned among the queues, and a caller that is about to
relink a task finds it blocked and in the blocked queue just when its test
holds. -/
theorem unblock_moves_only_blocked (trampoline id entry stack : Nat) (boot : Sched)
    (hboot : boot.taskCount = 0) (ops : List UnblockOp)
    (hops : AllowedRun (unblockStep trampoline) (fun y op => op.Allowed y ∧ op.Fresh y)
      (unblockInit boot id entry stack) ops) :
    ∃ y ready blocked sleep,
      runOps (unblockStep trampoline) (unblockInit boot id entry stack) ops = some y
      ∧ Partitioned y.sys.sched y.sys.added ready blocked sleep
      ∧ ∀ t, y.testing y.caller = some t →
          ((y.sys.sched.tasks t).state = .blocked ∧ t ∈ blocked ↔ UnblockOp.relink.Fresh y) := by
  have hstart : UnblockInv (unblockInit boot id entry stack) (fun _ => []) [] := by
    refine ⟨stable_init hboot id entry stack, ?_⟩
    intro c t hc
    cases hc
  obtain ⟨y, hrun, q, dead, h⟩ := run_total (P := fun y => ∃ q dead, UnblockInv y q dead)
    (fun y op hinv hallowed => by
      obtain ⟨q, dead, h⟩ := hinv
      obtain ⟨y', q', dead', hstep, h'⟩ := h.step hallowed.1 hallowed.2
      exact ⟨y', hstep, q', dead', h'⟩)
    ⟨_, _, hstart⟩ hops
  refine ⟨y, q .ready, q .blocked, q .sleep, hrun, h.stable.partitioned, ?_⟩
  intro t hc
  obtain ⟨-, hiff⟩ := h.testing _ t hc
  constructor
  · intro hboth
    exact hiff.mpr hboth.2
  · intro hfresh
    have hmem := hiff.mp hfresh
    exact ⟨(h.stable.settled.inv.queued .blocked t hmem).2.2, hmem⟩

/-- Three tasks; the first blocks, and the second, which finds it blocked,
is preempted before it goes on. -/
def interruptedUnblock : List UnblockOp :=
  [.sched (.createTask 2 0x100 0x8000 none), .sched (.createTask 3 0x200 0x10000 none),
    .sched (.createTask 4 0x300 0x20000 none), .sched (.addTask 1), .sched (.addTask 2),
    .sched (.addTask 3), .sched (.yield { rsp := 0x500 }), .sched (.blockCurrent { rsp := 0xb000 }),
    .test 1] ++ List.replicate 10 (.sched (.timer 0x13000))

/-- An interrupt between the two steps. -/
theorem unblock_moves_only_blocked_interrupted :
    ∃ y ready blocked sleep,
      runOps (unblockStep 0x42) (unblockInit bootSched 1 0x50 0x4000)
        (interruptedUnblock ++ [.sched (.yield { rsp := 0x23000 }), .relink]) = some y
      ∧ y.sys.sched.currentTask = some 2 ∧ (y.sys.sched.tasks 1).state = .ready
      ∧ Partitioned y.sys.sched y.sys.added ready blocked sleep := by
  obtain ⟨y, ready, blocked, sleep, hrun, hpart, -⟩ :=
    unblock_moves_only_blocked 0x42 1 0x50 0x4000 bootSched rfl
      (interruptedUnblock ++ [.sched (.yield { rsp := 0x23000 }), .relink]) (by decide +kernel)
  have hvalues : (runOps (unblockStep 0x42) (unblockInit bootSched 1 0x50 0x4000)
      (interruptedUnblock ++ [.sched (.yield { rsp := 0x23000 }), .relink])).map
      (fun y => (y.sys.sched.currentTask, (y.sys.sched.tasks 1).state))
      = some (some 2, .ready) := by decide +kernel
  rw [hrun, Option.map_some] at hvalues
  injection hvalues with hvalues
  injection hvalues with hcur hstate
  exact ⟨y, ready, blocked, sleep, hrun, hcur, hstate, hpart⟩

/-- A queue whose head is its own successor does not end. -/
theorem not_linked_self {next : TaskPtr → Option TaskPtr} (hnext : next t = some t)
    (l : List TaskPtr) : ¬ Linked next (some t) l := by
  intro hl
  cases l with
  | nil => cases hl
  | cons u l =>
      obtain ⟨hhead, htail⟩ := hl
      cases hhead
      rw [hnext] at htail
      have heq : l = t :: l := htail.unique ⟨rfl, by rw [hnext]; exact htail⟩
      exact absurd (congrArg List.length heq) (Nat.ne_of_lt (Nat.lt_succ_self l.length))

/-- The third task unblocks the first while the second is preempted in its
call. The second goes on with a task that is ready: the ready queue is the
first task for ever, and the third is lost. -/
theorem unblock_relinks_ready_task :
    ∃ y y', runOps (unblockStep 0x42) (unblockInit bootSched 1 0x50 0x4000)
        (interruptedUnblock ++ [.sched (.unblock 1), .sched (.yield { rsp := 0x23000 })]) = some y
      ∧ y.testing y.caller = some 1 ∧ (y.sys.sched.tasks 1).state = .ready
      ∧ unblockStep 0x42 y .relink = some y'
      ∧ ∀ ready, ¬ Linked (links y'.sys.sched) y'.sys.sched.readyQueue ready := by
  have hvalues : (runOps (unblockStep 0x42) (unblockInit bootSched 1 0x50 0x4000)
      (interruptedUnblock ++ [.sched (.unblock 1), .sched (.yield { rsp := 0x23000 })])).bind
      (fun y => (unblockStep 0x42 y .relink).map fun y' => (y.testing y.caller,
        (y.sys.sched.tasks 1).state, y'.sys.sched.readyQueue, links y'.sys.sched 1))
      = some (some 1, .ready, some 1, some 1) := by decide +kernel
  obtain ⟨y, hrun, hvalues⟩ := Option.bind_eq_some_iff.mp hvalues
  obtain ⟨y', hstep, hvalues⟩ := Option.map_eq_some_iff.mp hvalues
  injection hvalues with htesting hvalues
  injection hvalues with hstate hvalues
  injection hvalues with hhead hnext
  refine ⟨y, y', hrun, htesting, hstate, hstep, ?_⟩
  intro ready
  rw [hhead]
  exact not_linked_self hnext ready

end ZenithOS.Scheduler
