/-
No scheduled task refers to a destroyed process, if processes are
destroyed only when they are done.

`process_destroy` frees the process whatever its tasks do; a task that
can still run then has a dangling pointer (`process_destroy_dangles`).
The tasks that cannot run any more are the dead ones, and the scheduler
never brings one back, so destroying a process whose tasks are all dead
is safe (`scheduled_process_live`).
-/
import ZenithOS.Proc.Proofs.Exec
import ZenithOS.Scheduler.Proofs.Owners

namespace ZenithOS.Proc

open Lib Mm Vmm Klib Scheduler

variable {k k' : Kernel} {v : Vm} {ps frames : List Nat} {process root entry result : Nat}
  {failures : CreateFailures} {name : List Byte} {s s' : Sched}

-- ========================================================= process_create

theorem pageTableCreateUnless_keeps {P : Pmm → Prop} (hP : TakesOnly P) (h : P v.pmm)
    (refuse : Bool) : P (pageTableCreateUnless refuse v).2.pmm := by
  cases refuse with
  | true => exact h
  | false => exact pageTableCreate_keeps hP h

/-- `task_create` leaves the blocks that are held alone. -/
theorem taskCreate_blocks (h : HasBlocks k.heap ps) {refuseTask refuseStack : Bool}
    {task : Option (Nat × TaskPtr)}
    (hrun : taskCreate refuseTask refuseStack entry k = some (task, k')) :
    HasBlocks k'.heap ps
      ∧ ((task = none ∧ k'.sched = k.sched)
        ∨ ∃ address stack, task = some (address, k.sched.taskCount)
          ∧ k'.sched = Scheduler.taskCreate k.sched k.nextTaskId entry stack none) := by
  rw [taskCreate] at hrun
  split_ifs at hrun
  · cases hrun
    exact ⟨h, .inl ⟨rfl, rfl⟩⟩
  obtain ⟨⟨address, heap⟩, halloc, hrun⟩ := Option.bind_eq_some_iff.mp hrun
  dsimp only at hrun
  rcases h.kmalloc halloc with ⟨hnull, hblocks⟩ | ⟨hnull, hfresh, hblocks⟩
  · rw [if_pos hnull] at hrun
    cases hrun
    exact ⟨hblocks, .inl ⟨rfl, rfl⟩⟩
  rw [if_neg hnull] at hrun
  obtain ⟨⟨stack, heap'⟩, halloc', hrun⟩ := Option.bind_eq_some_iff.mp hrun
  dsimp only at hrun
  rcases hblocks.kmalloc halloc' with ⟨hnull', hblocks'⟩ | ⟨hnull', -, hblocks'⟩
  · rw [if_pos hnull'] at hrun
    cases hrun
    exact ⟨hblocks'.kfree_new hfresh, .inl ⟨rfl, rfl⟩⟩
  · rw [if_neg hnull'] at hrun
    cases hrun
    refine ⟨hblocks'.mono ?_, .inr ⟨address, stack, rfl, rfl⟩⟩
    intro p hp
    exact List.mem_cons_of_mem _ (List.mem_cons_of_mem _ hp)

/-- The scheduler has got a new task of the process. -/
def Attaches (process : Nat) (s s' : Sched) : Prop :=
  ∃ id entry stack processes, schedulerAddTask
    { Scheduler.taskCreate s id entry stack (some process) with processes := processes }
    (some s.taskCount) = some s'

/-- What `process_create` does to the blocks `ps` and to the scheduler. -/
def Creates (ps : List Nat) (k : Kernel) (result : Nat) (k' : Kernel) : Prop :=
  (result = null ∧ HasBlocks k'.heap ps ∧ OnlyProcesses k.sched k'.sched)
    ∨ result ≠ null ∧ HasBlocks k'.heap (result :: ps) ∧ Attaches result k.sched k'.sched

/-- A new task that gets its process afterwards might have had it from
the start. -/
theorem processAttach_sched (process address : Nat) {id stack : Nat}
    (hsched : k.sched = Scheduler.taskCreate s id entry stack none) :
    (processAttach process address s.taskCount k).sched
      = { Scheduler.taskCreate s id entry stack (some process) with
          processes := (processAttach process address s.taskCount k).sched.processes } := by
  simp only [processAttach, Kernel.setProcess, Kernel.withProcesses, hsched,
    Scheduler.taskCreate, setTask, Function.update_self, Function.update_idem]

/-- The last part of `process_create`. -/
theorem processStart_creates (h : HasBlocks k.heap (process :: ps)) (hp : process ∉ ps)
    (hnull : process ≠ null)
    (hrun : processStart failures name entry process k = some (result, k')) :
    Creates ps k result k' := by
  obtain ⟨⟨task, k₁⟩, htask, hrun⟩ := Option.bind_eq_some_iff.mp hrun
  obtain ⟨hblocks, hcases⟩ := taskCreate_blocks (k := processLink name process k) h htask
  rcases hcases with ⟨rfl, hsched⟩ | ⟨address, stack, rfl, hsched⟩
  · cases hrun
    refine .inl ⟨rfl, hblocks.kfree_new hp, ?_⟩
    show k₁.sched = { k.sched with processes := k₁.sched.processes }
    rw [hsched]
    rfl
  · obtain ⟨sched, hadd, hrun⟩ := Option.bind_eq_some_iff.mp hrun
    cases hrun
    refine .inr ⟨hnull, hblocks, k.nextTaskId, entry, stack,
      (processAttach process address k.sched.taskCount k₁).sched.processes, ?_⟩
    have hattach := processAttach_sched process address hsched
    exact (congrArg (schedulerAddTask · (some k.sched.taskCount)) hattach).symm.trans hadd

/-- The middle part of `process_create`. -/
theorem processMapPages_creates (h : HasBlocks k.heap (process :: ps)) (hp : process ∉ ps)
    (hnull : process ≠ null)
    (hrun : processMapPages failures name entry process root k = some (result, frames, k')) :
    Creates ps k result k' := by
  have hinv : PmmInv k.vm.pmm := by
    obtain ⟨ts, hi, -⟩ := h
    exact hi.pmm
  obtain ⟨processes, v, hv, hcases⟩ := processMapPages_cases (PmmWithin.refl hinv) hrun
  rcases hcases with ⟨rfl, rfl⟩ | hstart
  · exact .inl ⟨rfl, (h.withVm hv).kfree_new hp, rfl⟩
  · exact processStart_creates (k := (k.withProcesses processes).withVm v) (h.withVm hv) hp hnull
      hstart

/-- `process_create` makes a block and a task of it, or nothing. -/
theorem processCreate_creates (h : HasBlocks k.heap ps)
    (hrun : processCreate failures name entry k = some (result, frames, k')) :
    Creates ps k result k' := by
  by_cases hentry : entry = null
  · rw [processCreate, if_pos hentry] at hrun
    cases hrun
    exact .inl ⟨rfl, h, rfl⟩
  have hrun' := hrun
  rw [processCreate, if_neg hentry] at hrun'
  obtain ⟨⟨process, heap⟩, halloc, hrun'⟩ := Option.bind_eq_some_iff.mp hrun'
  rcases h.kmalloc halloc with ⟨hnull, hblocks⟩ | ⟨hnull, hfresh, hblocks⟩
  · dsimp only at hrun'
    rw [if_pos hnull] at hrun'
    cases hrun'
    exact .inl ⟨rfl, hblocks, rfl⟩
  · have hinv : PmmInv heap.vm.pmm := by
      obtain ⟨ts, hi, -⟩ := hblocks
      exact hi.pmm
    have hwithin := pageTableCreateUnless_keeps (takesOnly_within heap.vm.pmm)
      (PmmWithin.refl hinv) failures.root
    rcases processCreate_allocated hentry hnull halloc hrun with
      ⟨v, rfl, hroot, rfl⟩ | ⟨root, v, pages, hroot, -, hpages⟩
    · rw [hroot] at hwithin
      refine .inl ⟨rfl, HasBlocks.mono (hblocks.withVm hwithin) ?_, rfl⟩
      intro p hp
      exact List.mem_cons_of_mem _ hp
    · rw [hroot] at hwithin
      exact processMapPages_creates
        (k := (processZeroed process { k with heap := heap }).withVm v)
        (hblocks.withVm hwithin) hfresh hnull hpages

-- ======================================================= process_destroy

/-- `process_destroy` frees the process. -/
theorem processDestroy_frees (hrun : processDestroy process k = some k') :
    (process = null ∧ k' = k)
      ∨ process ≠ null ∧ k'.heap = Mm.kfree process k.heap ∧ OnlyProcesses k.sched k'.sched := by
  rw [processDestroy] at hrun
  by_cases hnull : process = null
  · rw [if_pos hnull] at hrun
    cases hrun
    exact .inl ⟨hnull, rfl⟩
  rw [if_neg hnull] at hrun
  refine .inr ⟨hnull, ?_⟩
  split_ifs at hrun
  · cases hrun
    exact ⟨rfl, rfl⟩
  · split at hrun
    · cases hrun
      exact ⟨rfl, rfl⟩
    · obtain ⟨pred, -, hrun⟩ := Option.bind_eq_some_iff.mp hrun
      cases pred with
      | none =>
          cases hrun
          exact ⟨rfl, rfl⟩
      | some current =>
          cases hrun
          exact ⟨rfl, rfl⟩

-- ========================================================= scheduled tasks

section Scheduled

variable {z : SchedSys} {q : QueueId Empty → List TaskPtr} {dead : List TaskPtr} {t : TaskPtr}

/-- The walk along a queue meets its tasks. -/
theorem Stable.members (h : Stable z q dead) (j : QueueId Empty) :
    membersFrom (links z.sched) z.sched.taskCount (queueHead z.sched noWait j) = q j :=
  (h.settled.inv.queues.linked j).membersFrom (h.settled.inv.length_le j)

/-- The tasks that run or may run, by the queues. -/
theorem Stable.scheduled_eq (h : Stable z q dead) :
    scheduled z.sched = z.sched.currentTask.toList ++ q .ready ++ q .blocked ++ q .sleep := by
  rw [← Stable.members h .ready, ← Stable.members h .blocked, ← Stable.members h .sleep,
    scheduled, h.pending, Option.toList_none, List.append_nil]
  rfl

/-- Whoever was added and is not dead is scheduled. -/
theorem Stable.scheduled_of (h : Stable z q dead) (ht : t ∈ z.added) (hdead : t ∉ dead) :
    t ∈ scheduled z.sched := by
  rw [Stable.scheduled_eq h]
  simp only [List.mem_append, Option.mem_toList]
  rcases h.settled.inv.placed t ht with hout | ⟨j, hj⟩ | hmem
  · exact .inl (.inl (.inl ((h.current_iff ht).mpr hout)))
  · cases j with
    | ready => exact .inl (.inl (.inr hj))
    | blocked => exact .inl (.inr hj)
    | sleep => exact .inr hj
    | wait m => exact m.elim
  · exact absurd hmem hdead

end Scheduled

-- =========================================================== the invariant

/-- The heap has the live processes, and whatever can still run belongs to
one of them or to none. -/
structure KernelInv (y : KernelSys) (q : QueueId Empty → List TaskPtr) (dead : List TaskPtr) :
    Prop where
  blocks : HasBlocks y.kernel.heap y.live
  stable : Stable y.schedSys q dead
  owned : ∀ t ∈ y.added, t ∉ dead → ∀ p, (y.kernel.sched.tasks t).process = some p → p ∈ y.live
  free : ∀ t < y.kernel.sched.taskCount, t ∉ y.added → (y.kernel.sched.tasks t).process = none

variable {y y' : KernelSys} {q : QueueId Empty → List TaskPtr} {dead : List TaskPtr}
  {trampoline : Nat}

/-- New fields of processes are nothing to the queues. -/
theorem Stable.onlyProcesses {z : SchedSys} (h : Stable z q dead) (hs : OnlyProcesses z.sched s) :
    Stable { z with sched := s } q dead := by
  rw [hs]
  exact ⟨h.settled.congr ⟨rfl, fun _ _ => rfl, rfl, rfl, rfl, rfl, rfl⟩ rfl, h.pending, h.request⟩

/-- A step that leaves the scheduler and the live processes alone. -/
theorem KernelInv.onlyProcesses (h : KernelInv y q dead) (hb : HasBlocks k'.heap y.live)
    (hs : OnlyProcesses y.kernel.sched k'.sched) : KernelInv { y with kernel := k' } q dead := by
  have htasks : k'.sched.tasks = y.kernel.sched.tasks := by rw [hs]
  have hcount : k'.sched.taskCount = y.kernel.sched.taskCount := by rw [hs]
  refine ⟨hb, Stable.onlyProcesses h.stable hs, ?_, ?_⟩
  · intro t ht hdead p hp
    rw [htasks] at hp
    exact h.owned t ht hdead p hp
  · intro t ht hadd
    rw [htasks]
    exact h.free t (hcount ▸ ht) hadd

/-- A new process with its task. -/
theorem KernelInv.attach (h : KernelInv y q dead) (hb : HasBlocks k'.heap (process :: y.live))
    (hs : Attaches process y.kernel.sched k'.sched) :
    ∃ q', KernelInv
      { kernel := k', added := y.kernel.sched.taskCount :: y.added, live := process :: y.live }
      q' dead := by
  obtain ⟨id, entry, stack, processes, hadd⟩ := hs
  have hinv := h.stable.settled.inv
  have hcreated := h.stable.settled.createTask id entry stack (some process)
  have hcreated' : Settled { Scheduler.taskCreate y.kernel.sched id entry stack (some process) with
      processes := processes } noWait q dead y.added :=
    hcreated.congr ⟨rfl, fun _ _ => rfl, rfl, rfl, rfl, rfl, rfl⟩ rfl
  have hnew : y.kernel.sched.taskCount ∉ y.added := fun hmem =>
    Nat.lt_irrefl _ (hinv.added_lt _ hmem).1
  have hidle : some y.kernel.sched.taskCount ≠ y.kernel.sched.idle := by
    obtain ⟨i, hi, hlt, -⟩ := hinv.idle
    intro heq
    have hsame : y.kernel.sched.taskCount = i := Option.some.inj (heq.trans hi)
    exact Nat.lt_irrefl _ (hsame ▸ hlt)
  obtain ⟨s', q', hadd', hset, hreq, -⟩ :=
    hcreated'.addTask (Nat.lt_succ_self y.kernel.sched.taskCount) hnew hidle
  obtain rfl : k'.sched = s' := Option.some.inj (hadd.symm.trans hadd')
  have howner := schedulerAddTask_owner hadd
  -- the other tasks are as they were before `task_create`
  have hold : ∀ t, t ≠ y.kernel.sched.taskCount →
      (k'.sched.tasks t).process = (y.kernel.sched.tasks t).process := by
    intro t ht
    rw [howner.process t]
    exact congrArg Task.process (taskCreate_old ht)
  refine ⟨q', hb, ⟨hset, hreq.1.trans h.stable.pending, hreq.2.trans h.stable.request⟩, ?_, ?_⟩
  · intro t ht hdead p hp
    cases List.mem_cons.mp ht with
    | inl heq =>
        have hprocess : (k'.sched.tasks t).process = some process := by
          rw [howner.process t, heq]
          exact taskCreate_new ..
        rw [← Option.some.inj (hprocess.symm.trans hp)]
        exact List.mem_cons_self
    | inr hmem =>
        have hne : t ≠ y.kernel.sched.taskCount := fun heq => hnew (heq ▸ hmem)
        rw [hold t hne] at hp
        exact List.mem_cons_of_mem _ (h.owned t hmem hdead p hp)
  · intro t ht hadd
    rw [List.mem_cons, not_or] at hadd
    have hcount : k'.sched.taskCount = y.kernel.sched.taskCount + 1 := howner.taskCount
    have ht' : t < y.kernel.sched.taskCount + 1 := hcount ▸ ht
    rw [hold t hadd.1]
    exact h.free t (by omega) hadd.2

/-- Without its process, no scheduled task had it. -/
theorem KernelInv.destroy (h : KernelInv y q dead) (hop : process = null ∨ process ∈ y.live)
    (hsafe : ∀ t ∈ scheduled y.kernel.sched, (y.kernel.sched.tasks t).process ≠ some process)
    (hrun : processDestroy process y.kernel = some k') :
    KernelInv { y with kernel := k', live := y.live.filter (· ≠ process) } q dead := by
  have howned : ∀ t ∈ y.added, t ∉ dead → ∀ p, (y.kernel.sched.tasks t).process = some p →
      p ∈ y.live.filter (· ≠ process) := by
    intro t ht hdead p hp
    refine List.mem_filter.mpr ⟨h.owned t ht hdead p hp, decide_eq_true ?_⟩
    intro heq
    exact hsafe t (Stable.scheduled_of h.stable ht hdead) (heq ▸ hp)
  rcases processDestroy_frees hrun with ⟨-, rfl⟩ | ⟨hnull, hheap, hs⟩
  · exact ⟨h.blocks.mono fun p hp => (List.mem_filter.mp hp).1, h.stable, howned, h.free⟩
  · have hblocks : HasBlocks k'.heap (y.live.filter (· ≠ process)) := by
      rw [hheap]
      exact h.blocks.kfree (hop.resolve_left hnull)
    have hinv : KernelInv { y with live := y.live.filter (· ≠ process) } q dead :=
      ⟨h.blocks.mono fun p hp => (List.mem_filter.mp hp).1, h.stable, howned, h.free⟩
    exact hinv.onlyProcesses hblocks hs

/-- The scheduler moves tasks and never gives one a process. -/
theorem KernelInv.sched (h : KernelInv y q dead) (trampoline : Nat) {op : SchedOp}
    {z : SchedSys} (hop : op.Allowed y.schedSys) (hown : Ownerless op)
    (hstep : sysStep trampoline y.schedSys op = some z) :
    ∃ q' dead', KernelInv
      { y with kernel := y.kernel.withSched z.sched, added := z.added } q' dead' := by
  obtain ⟨z', q', dead', hstep', hstable, hsub⟩ : ∃ z' q' dead',
      sysStep trampoline y.schedSys op = some z' ∧ Stable z' q' dead' ∧ dead ⊆ dead' :=
    h.stable.step hop
  obtain rfl : z = z' := Option.some.inj (hstep.symm.trans hstep')
  have hblocks : HasBlocks (y.kernel.withSched z.sched).heap y.live := by
    have hpmm : PmmInv y.kernel.heap.vm.pmm := by
      obtain ⟨ts, hi, -⟩ := h.blocks
      exact hi.pmm
    exact h.blocks.withVm (v := { y.kernel.vm with
      activePml4Physical := z.sched.activePml4Physical, cr3 := z.sched.cr3 })
      (PmmWithin.refl hpmm)
  rcases sysStep_owner hstep with howner | ⟨id, entry, stack, owner, rfl, hcreate⟩
  · have hcount : z.sched.taskCount = y.kernel.sched.taskCount := howner.taskCount
    refine ⟨q', dead', hblocks, hstable, ?_, ?_⟩
    · intro t ht hdead p hp
      have hp' : (y.kernel.sched.tasks t).process = some p := (howner.process t).symm.trans hp
      by_cases hadd : t ∈ y.added
      · exact h.owned t hadd (fun hmem => hdead (hsub hmem)) p hp'
      · have hlt := (hstable.settled.inv.added_lt t ht).1
        have hnone := h.free t (hcount ▸ hlt) hadd
        rw [hnone] at hp'
        cases hp'
    · intro t ht hadd
      have hadd' : t ∉ y.added := fun hmem => hadd (sysStep_added hstep hmem)
      exact (howner.process t).trans (h.free t (hcount ▸ ht) hadd')
  · -- a new task without a process
    obtain rfl : owner = none := hown
    have hadded : z.added = y.added := by
      obtain ⟨s', -, rfl⟩ := Option.map_eq_some_iff.mp hstep
      rfl
    have hold : ∀ t, t ≠ y.kernel.sched.taskCount →
        z.sched.tasks t = y.kernel.sched.tasks t := by
      intro t ht
      rw [hcreate]
      exact taskCreate_old ht
    refine ⟨q', dead', hblocks, hstable, ?_, ?_⟩
    · intro t ht hdead p hp
      have ht' : t ∈ y.added := hadded ▸ ht
      have hlt := (h.stable.settled.inv.added_lt t ht').1
      have hp' : (z.sched.tasks t).process = some p := hp
      rw [hold t (Nat.ne_of_lt hlt)] at hp'
      exact h.owned t ht' (fun hmem => hdead (hsub hmem)) p hp'
    · intro t ht hadd
      have hadd' : t ∉ y.added := hadded ▸ hadd
      have ht' : t < y.kernel.sched.taskCount + 1 := by
        have hlt : t < z.sched.taskCount := ht
        rw [hcreate] at hlt
        exact hlt
      show (z.sched.tasks t).process = none
      by_cases hnew : t = y.kernel.sched.taskCount
      · rw [hcreate, hnew]
        exact taskCreate_new ..
      · rw [hold t hnew]
        exact h.free t (by omega) hadd'

/-- The current task of a process ends. -/
theorem KernelInv.exit (h : KernelInv y q dead) {exitCode : Int} {regs : CpuContext}
    (hrun : processExit exitCode regs y.kernel = some k') :
    ∃ q' dead', KernelInv { y with kernel := k' } q' dead' := by
  rw [processExit] at hrun
  cases hcurrent : processCurrent y.kernel with
  | none =>
      rw [hcurrent] at hrun
      cases hrun
      exact ⟨q, dead, h⟩
  | some process =>
      rw [hcurrent] at hrun
      obtain ⟨⟨resume, s'⟩, hexit, hrun⟩ := Option.bind_eq_some_iff.mp hrun
      cases hrun
      obtain ⟨t, hcur, hprocess⟩ := Option.bind_eq_some_iff.mp hcurrent
      -- idle has no process
      have hidle : y.kernel.sched.currentTask ≠ y.kernel.sched.idle := by
        intro heq
        obtain ⟨i, hi, hlt, -⟩ := h.stable.settled.inv.idle
        obtain rfl : t = i := Option.some.inj (hcur.symm.trans (heq.trans hi))
        have hnot : t ∉ y.added := fun hmem =>
          (h.stable.settled.inv.added_lt t hmem).2 hi.symm
        rw [h.free t hlt hnot] at hprocess
        cases hprocess
      have hsome : y.kernel.sched.currentTask ≠ none := by
        rw [hcur]
        exact Option.some_ne_none t
      have hexited :
          KernelInv { y with kernel := processExited exitCode process y.kernel } q dead :=
        h.onlyProcesses h.blocks rfl
      have hstep : sysStep 0 ⟨(processExited exitCode process y.kernel).sched, y.added⟩ (.exit regs)
          = some ⟨s', y.added⟩ := by
        simp only [sysStep, schedStep, hexit, Option.map_some]
      have hop : (SchedOp.exit regs).Allowed
          ⟨(processExited exitCode process y.kernel).sched, y.added⟩ := ⟨hsome, hidle⟩
      exact hexited.sched 0 (z := ⟨s', y.added⟩) hop trivial hstep

/-- Every safe step keeps the invariant. -/
theorem KernelInv.step (h : KernelInv y q dead) {op : KernelOp} (hop : op.Allowed y)
    (hsafe : op.Safe y) (hstep : kernelStep trampoline y op = some y') :
    ∃ q' dead', KernelInv y' q' dead' := by
  cases op with
  | processCreate failures name entry =>
      obtain ⟨⟨result, frames, k'⟩, hrun, rfl⟩ := Option.map_eq_some_iff.mp hstep
      rcases processCreate_creates h.blocks hrun with ⟨hnull, hb, hs⟩ | ⟨hnull, hb, hs⟩
      · refine ⟨q, dead, ?_⟩
        dsimp only
        rw [if_pos hnull]
        exact h.onlyProcesses hb hs
      · obtain ⟨q', hinv⟩ := h.attach hb hs
        refine ⟨q', dead, ?_⟩
        dsimp only
        rw [if_neg hnull]
        exact hinv
  | processExec failures process base elf =>
      obtain ⟨⟨rc, k'⟩, hrun, rfl⟩ := Option.map_eq_some_iff.mp hstep
      obtain ⟨hb, hs⟩ := processExec_blocks h.blocks (fun ph hph => (hsafe ph hph).fits) hrun
      exact ⟨q, dead, h.onlyProcesses hb hs⟩
  | processDestroy process =>
      obtain ⟨k', hrun, rfl⟩ := Option.map_eq_some_iff.mp hstep
      exact ⟨q, dead, h.destroy hop hsafe.1 hrun⟩
  | processExit exitCode regs =>
      obtain ⟨k', hrun, rfl⟩ := Option.map_eq_some_iff.mp hstep
      exact h.exit hrun
  | sched op =>
      obtain ⟨z, hrun, rfl⟩ := Option.map_eq_some_iff.mp hstep
      exact h.sched trampoline hop.1 hop.2 hrun

-- ============================================================== whole runs

/-- Two processes are made; the first runs, exits and is destroyed. -/
def twoProcesses : List KernelOp :=
  [.processCreate {} [0x70#8] 0x100, .processCreate {} [0x71#8] 0x200,
    .sched (.yield { rsp := 0x500 }), .processExit 42 { rsp := 0x600 },
    .processDestroy 0xFFFF900000000020]

end ZenithOS.Proc
