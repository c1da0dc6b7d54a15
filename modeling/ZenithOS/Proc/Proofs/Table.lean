/-
The process list is the table of the processes.

# Creating

`process_create` writes to no process but the new one, which it puts in
front of the list (`Heads`). What it does before and after that leaves
the list as it is (`Touches`).

# Destroying

The three branches of `process_destroy` relink the list around the
process: at the head, behind another process, and at the end, which is
the second with nothing behind.
-/
import ZenithOS.Proc.Proofs.KernelRun
import ZenithOS.Proc.Table

namespace ZenithOS.Proc

open Lib Mm Vmm Klib Scheduler

variable {k k' k₁ k₂ : Kernel} {v : Vm} {process root entry result pid : Nat}
  {frames : List Nat} {failures : CreateFailures} {name : List Byte} {y : TableSys}
  {entries : List (Nat × Nat)}

-- ============================================================ one process

/-- The table is as it was, and only `process` may have changed beside. -/
structure Touches (process : Nat) (k k' : Kernel) : Prop where
  list : k'.processList = k.processList
  nextPid : k'.nextPid = k.nextPid
  pid : (k'.process process).pid = (k.process process).pid
  next : (k'.process process).next = (k.process process).next
  others : ∀ p, p ≠ process → k'.process p = k.process p

theorem Touches.trans (h : Touches process k k₁) (h' : Touches process k₁ k') :
    Touches process k k' := by
  refine ⟨h'.list.trans h.list, h'.nextPid.trans h.nextPid, h'.pid.trans h.pid,
    h'.next.trans h.next, ?_⟩
  intro p hp
  rw [h'.others p hp, h.others p hp]

/-- Nothing of the table is written. -/
theorem Touches.of_same (hlist : k'.processList = k.processList) (hpid : k'.nextPid = k.nextPid)
    (hprocesses : k'.sched.processes = k.sched.processes) : Touches process k k' := by
  have hsame : ∀ p, k'.process p = k.process p := fun p => congrFun hprocesses p
  exact ⟨hlist, hpid, by rw [hsame], by rw [hsame], fun p _ => hsame p⟩

/-- Fields of the process are written. -/
theorem Touches.of_update {p : Process} (hlist : k'.processList = k.processList)
    (hnext : k'.nextPid = k.nextPid)
    (hprocesses : k'.sched.processes = Function.update k.sched.processes process p)
    (hp : p.pid = (k.process process).pid) (hp' : p.next = (k.process process).next) :
    Touches process k k' := by
  have hself : k'.process process = p := by
    rw [Kernel.process, hprocesses, Function.update_self]
  refine ⟨hlist, hnext, hself ▸ hp, hself ▸ hp', ?_⟩
  intro q hq
  rw [Kernel.process, hprocesses, Function.update_of_ne hq]

/-- The new process is the first of the list. -/
structure Heads (process : Nat) (k k' : Kernel) : Prop where
  list : k'.processList = process
  nextPid : k'.nextPid = k.nextPid
  pid : (k'.process process).pid = (k.process process).pid
  next : (k'.process process).next = k.processList
  others : ∀ p, p ≠ process → k'.process p = k.process p

/-- `process_create` puts the process at the head. -/
theorem heads_processLink (name : List Byte) (process : Nat) (k : Kernel) :
    Heads process k (processLink name process k) := by
  refine ⟨rfl, rfl, ?_, ?_, ?_⟩
  · simp [Kernel.process, processLink, Kernel.setProcess, Kernel.withProcesses]
  · simp [Kernel.process, processLink, Kernel.setProcess, Kernel.withProcesses]
  · intro q hq
    simp [Kernel.process, processLink, Kernel.setProcess, Kernel.withProcesses, hq]

/-- What comes after leaves the list alone. -/
theorem Heads.after (h : Heads process k₁ k') (h₁ : Touches process k k₁) :
    Heads process k k' := by
  refine ⟨h.list, h.nextPid.trans h₁.nextPid, h.pid.trans h₁.pid, h.next.trans h₁.list, ?_⟩
  intro p hp
  rw [h.others p hp, h₁.others p hp]

/-- What came before the process is put at the head. -/
theorem Heads.before (h : Heads process k k₁) (h₁ : Touches process k₁ k') :
    Heads process k k' := by
  refine ⟨h₁.list.trans h.list, h₁.nextPid.trans h.nextPid, h₁.pid.trans h.pid,
    h₁.next.trans h.next, ?_⟩
  intro p hp
  rw [h₁.others p hp, h.others p hp]

-- ========================================================= process_create

/-- `task_create` touches no other process. -/
theorem taskCreate_touches {refuseTask refuseStack : Bool} {task : Option (Nat × TaskPtr)}
    (hrun : taskCreate refuseTask refuseStack entry k = some (task, k')) :
    Touches process k k' := by
  rw [taskCreate] at hrun
  split_ifs at hrun
  · cases hrun
    exact .of_same rfl rfl rfl
  obtain ⟨⟨address, heap⟩, -, hrun⟩ := Option.bind_eq_some_iff.mp hrun
  dsimp only at hrun
  split_ifs at hrun
  · cases hrun
    exact .of_same rfl rfl rfl
  obtain ⟨⟨stack, heap'⟩, -, hrun⟩ := Option.bind_eq_some_iff.mp hrun
  dsimp only at hrun
  split_ifs at hrun
  · cases hrun
    exact .of_same rfl rfl rfl
  · cases hrun
    exact .of_same rfl rfl rfl

/-- `process_heap_expand` touches no other process. -/
theorem processHeapExpand_touches (refusal : Refusal) (v : Vm) :
    Touches process k
      (k.withProcesses (processHeapExpand refusal k.sched.processes process v).2.1) := by
  rw [processHeapExpand]
  split_ifs
  · exact .of_same rfl rfl rfl
  · cases hpage : mapNewPage refusal (pageTablePointer (k.sched.processes process).pageTable)
        (k.sched.processes process).userHeapEnd true v with
    | mk page v' =>
        simp only [hpage]
        cases page with
        | none => exact .of_same rfl rfl rfl
        | some page => exact .of_update rfl rfl rfl rfl rfl

/-- A successful last part puts the process at the head. -/
theorem processStart_heads (hresult : result ≠ null)
    (hrun : processStart failures name entry process k = some (result, k')) :
    result = process ∧ Heads process k k' := by
  obtain ⟨⟨task, k₁⟩, htask, hrun⟩ := Option.bind_eq_some_iff.mp hrun
  have hlinked := (heads_processLink name process k).before (taskCreate_touches htask)
  cases task with
  | none =>
      cases hrun
      exact absurd rfl hresult
  | some task =>
      obtain ⟨address, t⟩ := task
      obtain ⟨sched, hadd, hrun⟩ := Option.bind_eq_some_iff.mp hrun
      cases hrun
      have hattach : Touches process k₁ (processAttach process address t k₁) :=
        .of_update rfl rfl rfl rfl rfl
      have hkept : (core sched).processes = _ :=
        congrArg Sched.processes (setState_kept.trans (readyPush_kept hadd))
      exact ⟨rfl, (hlinked.before hattach).before (.of_same rfl rfl hkept)⟩

/-- So does the middle part. -/
theorem processMapPages_heads (hresult : result ≠ null)
    (hrun : processMapPages failures name entry process root k = some (result, frames, k')) :
    result = process ∧ Heads process k k' := by
  have hrooted : Touches process k (processRooted process root k) :=
    .of_update rfl rfl rfl rfl rfl
  rw [processMapPages] at hrun
  dsimp only at hrun
  split_ifs at hrun
  · cases hrun
    exact absurd rfl hresult
  · cases hrun
    exact absurd rfl hresult
  obtain ⟨⟨result', k₁⟩, hstart, heq⟩ := Option.map_eq_some_iff.mp hrun
  cases heq
  obtain ⟨hsame, hheads⟩ := processStart_heads hresult hstart
  refine ⟨hsame, hheads.after (hrooted.trans ?_)⟩
  -- the stack's page, the empty heap, the heap's page
  have hheaped : ∀ v, Touches process (processRooted process root k)
      (processHeaped process ((processRooted process root k).withVm v)) :=
    fun v => .of_update rfl rfl rfl rfl rfl
  exact (hheaped _).trans
    ((processHeapExpand_touches failures.heap _).trans (.of_same rfl rfl rfl))

/-- A `process_create` that succeeds puts a new process in front. -/
theorem processCreate_heads (hresult : result ≠ null)
    (hrun : processCreate failures name entry k = some (result, frames, k')) :
    (∃ heap, kmallocUnless failures.process processBytes k.heap = some (result, heap))
      ∧ k'.processList = result ∧ k'.nextPid = wordAdd k.nextPid 1
      ∧ (k'.process result).pid = k.nextPid ∧ (k'.process result).next = k.processList
      ∧ ∀ p, p ≠ result → k'.process p = k.process p := by
  have hrun' := hrun
  rw [processCreate] at hrun'
  split_ifs at hrun' with hentry
  · cases hrun'
    exact absurd rfl hresult
  obtain ⟨⟨process, heap⟩, halloc, hrun'⟩ := Option.bind_eq_some_iff.mp hrun'
  dsimp only at hrun'
  split_ifs at hrun' with hnull
  · cases hrun'
    exact absurd rfl hresult
  rcases processCreate_allocated hentry hnull halloc hrun with
    ⟨v, hbad, -, -⟩ | ⟨root, v, pages, -, -, hpages⟩
  · exact absurd hbad hresult
  obtain ⟨rfl, hheads⟩ := processMapPages_heads hresult hpages
  refine ⟨⟨heap, halloc⟩, hheads.list, hheads.nextPid, ?_, hheads.next, ?_⟩
  · rw [hheads.pid]
    simp [Kernel.process, Kernel.withVm, processZeroed, Kernel.setProcess, Kernel.withProcesses]
  · intro p hp
    rw [hheads.others p hp]
    simp [Kernel.process, Kernel.withVm, processZeroed, Kernel.setProcess, Kernel.withProcesses,
      hp]

-- ============================================================== the table

/-- The process list holds the entries, each under its number. -/
structure Lists (k : Kernel) (entries : List (Nat × Nat)) : Prop where
  linked : Linked (processLinks k) (pageTablePointer k.processList) (entries.map Prod.snd)
  pid : ∀ e ∈ entries, (k.process e.2).pid = e.1
  ne_null : ∀ e ∈ entries, e.2 ≠ null

theorem pageTablePointer_eq {p : Nat} (hp : p ≠ null) : pageTablePointer p = some p := if_neg hp

/-- The list and the processes on it are all that matters. -/
theorem Lists.congr (h : Lists k entries) (hlist : k'.processList = k.processList)
    (hsame : ∀ p ∈ entries.map Prod.snd, k'.process p = k.process p) : Lists k' entries := by
  refine ⟨?_, ?_, h.ne_null⟩
  · rw [hlist]
    apply h.linked.congr
    intro p hp
    rw [processLinks, hsame p hp, processLinks]
  · intro e he
    rw [hsame e.2 (List.mem_map_of_mem he)]
    exact h.pid e he

/-- A new process comes in front. -/
theorem Lists.cons (h : Lists k entries) (hnew : process ∉ entries.map Prod.snd)
    (hnull : process ≠ null) (hlist : k'.processList = process)
    (hpid : (k'.process process).pid = pid) (hnext : (k'.process process).next = k.processList)
    (hothers : ∀ p, p ≠ process → k'.process p = k.process p) :
    Lists k' ((pid, process) :: entries) := by
  have hsame : ∀ p ∈ entries.map Prod.snd, k'.process p = k.process p := by
    intro p hp
    apply hothers
    rintro rfl
    exact hnew hp
  have hrest : Linked (processLinks k') (pageTablePointer k.processList)
      (entries.map Prod.snd) := by
    apply h.linked.congr
    intro p hp
    rw [processLinks, hsame p hp, processLinks]
  refine ⟨⟨?_, ?_⟩, ?_, List.forall_mem_cons.mpr ⟨hnull, h.ne_null⟩⟩
  · rw [hlist, pageTablePointer_eq hnull]
  · rw [processLinks, hnext]
    exact hrest
  · intro e he
    cases List.mem_cons.mp he with
    | inl heq => rw [heq, hpid]
    | inr hmem =>
        rw [hsame e.2 (List.mem_map_of_mem hmem)]
        exact h.pid e hmem

/-- The loop of `process_lookup` looks the pid up in the list. -/
theorem lookupFrom_eq {es : List (Nat × Nat)} {head : Option Nat} {fuel : Nat}
    (hlinked : Linked (processLinks k) head (es.map Prod.snd))
    (hpid : ∀ e ∈ es, (k.process e.2).pid = e.1) (hfuel : es.length ≤ fuel) (pid : Nat) :
    processLookupFrom k pid fuel head = some (es.lookup pid) := by
  induction es generalizing head fuel with
  | nil =>
      rw [show head = none from hlinked, processLookupFrom]
      rfl
  | cons e es ih =>
      obtain ⟨n, p⟩ := e
      obtain ⟨rfl, hrest⟩ := hlinked
      obtain ⟨fuel, rfl⟩ : ∃ f, fuel = f + 1 := ⟨fuel - 1, by simp at hfuel; omega⟩
      have hn : (k.process p).pid = n := hpid (n, p) List.mem_cons_self
      rw [processLookupFrom, hn, List.lookup_cons]
      by_cases heq : n = pid
      · simp [heq]
      · have hne : (pid == n) = false := by simp [Ne.symm heq]
        rw [if_neg heq, hne]
        exact ih hrest (fun e he => hpid e (List.mem_cons_of_mem _ he)) (by simp at hfuel; omega)

/-- `process_lookup` looks the pid up in the list. -/
theorem Lists.lookup (h : Lists k entries) (hlen : entries.length ≤ processListMax) (pid : Nat) :
    processLookup pid k = some (entries.lookup pid) :=
  lookupFrom_eq h.linked h.pid hlen pid

/-- Without one entry. -/
theorem filter_other {e₁ e₂ : List (Nat × Nat)} {n : Nat}
    (hnodup : ((e₁ ++ (n, process) :: e₂).map Prod.snd).Nodup) :
    (e₁ ++ (n, process) :: e₂).filter (fun e => decide (e.2 ≠ process)) = e₁ ++ e₂ := by
  rw [List.map_append, List.map_cons, List.nodup_middle, List.nodup_cons, ← List.map_append]
    at hnodup
  have hother : ∀ e ∈ e₁ ++ e₂, e.2 ≠ process := by
    intro e he heq
    exact hnodup.1 (List.mem_map.mpr ⟨e, he, heq⟩)
  rw [List.filter_append, List.filter_cons_of_neg (by simp), ← List.filter_append,
    List.filter_eq_self]
  intro e he
  exact decide_eq_true (hother e he)

theorem pageTablePointer_eq_some {p q : Nat} (h : pageTablePointer p = some q) : p = q := by
  unfold pageTablePointer at h
  split_ifs at h
  exact Option.some.inj h

/-- A process gets another successor. -/
theorem processLinks_setNext (k : Kernel) (p q : Nat) :
    processLinks ((k.setProcess p { k.process p with next := q }))
      = Function.update (processLinks k) p (pageTablePointer q) := by
  funext a
  by_cases ha : a = p
  · rw [ha, Function.update_self]
    simp [processLinks, Kernel.process, Kernel.setProcess, Kernel.withProcesses]
  · rw [Function.update_of_ne ha]
    simp [processLinks, Kernel.process, Kernel.setProcess, Kernel.withProcesses, ha]

/-- Unlinking changes no pid. -/
theorem setNext_pid (k : Kernel) (p q a : Nat) :
    ((k.setProcess p { k.process p with next := q }).process a).pid = (k.process a).pid := by
  by_cases ha : a = p
  · rw [ha]
    simp [Kernel.process, Kernel.setProcess, Kernel.withProcesses]
  · simp [Kernel.process, Kernel.setProcess, Kernel.withProcesses, ha]

/-- A process of the list is taken out of it. -/
theorem Lists.destroy (h : Lists k entries) (hmem : process ∈ entries.map Prod.snd)
    (hlen : entries.length ≤ processListMax) :
    ∃ k', processDestroy process k = some k'
      ∧ Lists k' (entries.filter fun e => decide (e.2 ≠ process))
      ∧ k'.nextPid = k.nextPid ∧ k'.heap = Mm.kfree process k.heap := by
  obtain ⟨⟨n, _⟩, he, rfl⟩ := List.mem_map.mp hmem
  rename_i process
  obtain ⟨e₁, e₂, rfl⟩ := List.append_of_mem he
  have hnull : process ≠ null := h.ne_null _ he
  have hnodup := h.linked.nodup
  have hsub : ∀ e ∈ e₁ ++ e₂, e ∈ e₁ ++ (n, process) :: e₂ := by
    intro e hmem
    simp only [List.mem_append, List.mem_cons] at hmem ⊢
    tauto
  have hlinked := h.linked
  rw [filter_other hnodup]
  rw [List.map_append, List.map_cons] at hlinked hnodup
  dsimp only
  rw [processDestroy, if_neg hnull]
  cases e₁ with
  | nil =>
      -- the head of the list
      rw [if_pos (pageTablePointer_eq_some hlinked.1)]
      exact ⟨_, rfl, ⟨hlinked.2, fun e he => h.pid e (hsub e he),
        fun e he => h.ne_null e (hsub e he)⟩, rfl, rfl⟩
  | cons e e₁ =>
      have hhead : pageTablePointer k.processList = some e.2 := hlinked.1
      have hne : k.processList ≠ process := by
        rw [pageTablePointer_eq_some hhead]
        rintro rfl
        simp at hnodup
      have hpred := Linked.predFrom_eq (n := processListMax) ⟨rfl, hlinked.2⟩ rfl
        (List.cons_ne_nil _ _) (by simpa using hlen)
      rw [hhead] at hlinked
      simp only [if_neg hne, hhead, hpred, Option.bind_eq_bind, Option.bind_some]
      refine ⟨_, rfl, ⟨?_, ?_, fun e he => h.ne_null e (hsub e he)⟩, rfl, rfl⟩
      · rw [List.map_append]
        have hbypass := hlinked.bypass (List.cons_ne_nil _ _)
        rw [← hhead] at hbypass
        show Linked (processLinks (k.setProcess _ _)) (pageTablePointer k.processList) _
        rw [processLinks_setNext]
        exact hbypass
      · intro e he
        exact (setNext_pid k _ _ _).trans (h.pid e (hsub e he))

-- ========================================================== a run's table

/-- The entries are numbered by the creations, and the heap has a block
for each. -/
structure TableInv (y : TableSys) : Prop where
  blocks : HasBlocks y.kernel.heap y.live
  lists : Lists y.kernel y.entries
  decreasing : (y.entries.map Prod.fst).Pairwise (· > ·)
  numbered : ∀ e ∈ y.entries, e.1 ≤ y.created
  nextPid : y.kernel.nextPid = wordAdd y.created 1
  length : y.entries.length ≤ y.created
  created : y.created < 2 ^ 64

/-- The invariant holds before the first process. -/
theorem tableBoot_inv (hblocks : HasBlocks k.heap []) (hlist : k.processList = null)
    (hpid : k.nextPid = 1) : TableInv (tableBoot k) := by
  refine ⟨hblocks, ⟨?_, by simp [tableBoot], by simp [tableBoot]⟩, List.Pairwise.nil,
    by simp [tableBoot], hpid, Nat.le_refl 0, by simp [tableBoot]⟩
  show pageTablePointer k.processList = none
  rw [hlist]
  rfl

/-- There are no more processes than walks have fuel for. -/
theorem TableInv.length_le (h : TableInv y) : y.entries.length ≤ processListMax :=
  Nat.le_trans h.length (Nat.le_of_lt h.created)

/-- A creation keeps the invariant. -/
theorem TableInv.create (h : TableInv y) (hroom : y.created + 1 < 2 ^ 64)
    (hrun : processCreate failures name entry y.kernel = some (result, frames, k'))
    (hresult : result ≠ null) :
    TableInv ⟨k', y.created + 1, (y.created + 1, result) :: y.entries⟩ := by
  obtain ⟨⟨heap, halloc⟩, hlist, hnextPid, hpid, hnext, hothers⟩ :=
    processCreate_heads hresult hrun
  have hblocks : HasBlocks k'.heap (result :: y.live) := by
    rcases processCreate_creates h.blocks hrun with ⟨hnull, -, -⟩ | ⟨-, hblocks, -⟩
    · exact absurd hnull hresult
    · exact hblocks
  have hnumber : y.kernel.nextPid = y.created + 1 := by
    rw [h.nextPid, wordAdd_eq hroom]
  have hnew : result ∉ y.live := by
    rcases h.blocks.kmalloc halloc with ⟨hnull, -⟩ | ⟨-, hfresh, -⟩
    · exact absurd hnull hresult
    · exact hfresh
  rw [hnumber] at hpid
  refine ⟨hblocks, h.lists.cons hnew hresult hlist hpid hnext hothers, ?_, ?_, ?_, ?_, hroom⟩
  · refine List.pairwise_cons.mpr ⟨?_, h.decreasing⟩
    intro n hn
    obtain ⟨e, he, rfl⟩ := List.mem_map.mp hn
    exact Nat.lt_succ_of_le (h.numbered e he)
  · intro e he
    cases List.mem_cons.mp he with
    | inl heq =>
        rw [heq]
    | inr hmem => exact Nat.le_succ_of_le (h.numbered e hmem)
  · rw [hnextPid, hnumber]
  · exact Nat.succ_le_succ h.length

/-- A destruction keeps it, from wherever in the list. -/
theorem TableInv.destroy (h : TableInv y) (hmem : process ∈ y.live) :
    ∃ y', tableStep y (.destroy process) = some y' ∧ TableInv y' := by
  obtain ⟨k', hrun, hlists, hnextPid, hheap⟩ := h.lists.destroy hmem h.length_le
  have hsub := List.filter_sublist (l := y.entries) (p := fun e => decide (e.2 ≠ process))
  refine ⟨⟨k', y.created, _⟩, by rw [tableStep, hrun]; rfl, ?_, hlists,
    h.decreasing.sublist (hsub.map _), ?_, ?_, Nat.le_trans hsub.length_le h.length, h.created⟩
  · have hlive : (y.entries.filter fun e => decide (e.2 ≠ process)).map Prod.snd
        = y.live.filter (· ≠ process) := by
      rw [TableSys.live, List.filter_map]
      rfl
    rw [TableSys.live, hlive, hheap]
    exact h.blocks.kfree hmem
  · intro e he
    exact h.numbered e (hsub.mem he)
  · rw [← h.nextPid, hnextPid]

/-- Every step keeps it. -/
theorem TableInv.step (h : TableInv y) {op : TableOp} (hop : op.Allowed y) :
    ∃ y', tableStep y op = some y' ∧ TableInv y' := by
  cases op with
  | create failures name entry =>
      obtain ⟨hroom, -, ⟨result, frames, k'⟩, hrun, hresult⟩ := hop
      exact ⟨_, by rw [tableStep, hrun]; rfl, h.create hroom hrun hresult⟩
  | destroy process => exact h.destroy hop

/-- A number is found on its process. -/
theorem TableInv.found (h : TableInv y) {e : Nat × Nat} (he : e ∈ y.entries) :
    processLookup e.1 y.kernel = some (some e.2) := by
  rw [h.lists.lookup h.length_le]
  obtain ⟨e₁, e₂, heq⟩ := List.append_of_mem he
  refine congrArg some (List.lookup_eq_some_iff.mpr ⟨e₁, e₂, heq, ?_⟩)
  have hdecreasing := h.decreasing
  rw [heq, List.map_append, List.pairwise_append] at hdecreasing
  intro e' he'
  have hlt := hdecreasing.2.2 e'.1 (List.mem_map_of_mem he') e.1 (by simp)
  simp only [bne_iff_ne, ne_eq]
  omega

/-- A pid that no process has is not found. -/
theorem TableInv.absent (h : TableInv y) (hpid : pid ∉ y.entries.map Prod.fst) :
    processLookup pid y.kernel = some none := by
  rw [h.lists.lookup h.length_le, List.lookup_eq_none_iff.mpr]
  intro e he
  simp only [bne_iff_ne, ne_eq]
  rintro rfl
  exact hpid (List.mem_map_of_mem he)

/-- Without one of its entries, the table still has the others. -/
theorem TableInv.destroy_others (h : TableInv y) {e : Nat × Nat} (he : e ∈ y.entries) :
    ∃ y', tableStep y (.destroy e.2) = some y' ∧ processLookup e.1 y'.kernel = some none ∧
      ∀ pid, pid ≠ e.1 → processLookup pid y'.kernel = processLookup pid y.kernel := by
  have hmem : e.2 ∈ y.live := List.mem_map_of_mem he
  obtain ⟨k', hrun, -⟩ := h.lists.destroy hmem h.length_le
  have hstep : tableStep y (.destroy e.2)
      = some ⟨k', y.created, y.entries.filter fun e' => decide (e'.2 ≠ e.2)⟩ := by
    rw [tableStep, hrun]
    rfl
  obtain ⟨y', hstep', hinv⟩ := h.destroy hmem
  obtain rfl : _ = y' := Option.some.inj (hstep.symm.trans hstep')
  obtain ⟨e₁, e₂, heq⟩ := List.append_of_mem he
  have hnodup := h.lists.linked.nodup
  have hdecreasing := h.decreasing
  have hlookup := h.lists.lookup h.length_le
  have hlookup' := hinv.lists.lookup hinv.length_le
  dsimp only at hlookup'
  rw [heq] at hnodup hdecreasing hlookup
  rw [heq, filter_other hnodup] at hlookup'
  refine ⟨_, hstep, ?_, ?_⟩
  · have hdistinct := hdecreasing.imp Nat.ne_of_gt
    rw [List.map_append, List.map_cons, ← List.Nodup, List.nodup_middle, List.nodup_cons,
      ← List.map_append] at hdistinct
    rw [hlookup', List.lookup_eq_none_iff.mpr]
    intro e' he'
    simp only [bne_iff_ne, ne_eq]
    intro hsame
    exact hdistinct.1 (List.mem_map.mpr ⟨e', he', hsame.symm⟩)
  · intro pid hpid
    have hne : (pid == e.1) = false := by simpa using hpid
    rw [hlookup', hlookup, List.lookup_append, List.lookup_append, List.lookup_cons, hne]

/-- The process list has every process that is created and not destroyed
exactly once, the latest first, and a number leads to its process. -/
structure Table (y : TableSys) : Prop where
  linked : Linked (processLinks y.kernel) (pageTablePointer y.kernel.processList) y.live
  nodup : y.live.Nodup
  pid : ∀ e ∈ y.entries, (y.kernel.process e.2).pid = e.1
  decreasing : (y.entries.map Prod.fst).Pairwise (· > ·)
  found : ∀ e ∈ y.entries, processLookup e.1 y.kernel = some (some e.2)
  absent : ∀ pid, pid ∉ y.entries.map Prod.fst → processLookup pid y.kernel = some none

/-- What the invariant says of the list and of lookups. -/
theorem TableInv.table (h : TableInv y) : Table y :=
  ⟨h.lists.linked, h.lists.linked.nodup, h.lists.pid, h.decreasing, fun _ he => h.found he,
    fun _ hpid => h.absent hpid⟩

/-- In every run of successful `process_create`s and of
`process_destroy`s, fewer than 2^64 of the former: the process list is
the table of the processes, and destroying one leaves every other
lookup. -/
theorem process_table (hblocks : HasBlocks k.heap []) (hlist : k.processList = null)
    (hpid : k.nextPid = 1) (ops : List TableOp)
    (hops : AllowedRun tableStep (fun y op => op.Allowed y) (tableBoot k) ops) :
    ∃ y, runOps tableStep (tableBoot k) ops = some y ∧ Table y ∧
      ∀ e ∈ y.entries, ∃ y', tableStep y (.destroy e.2) = some y' ∧
        processLookup e.1 y'.kernel = some none ∧
        ∀ pid, pid ≠ e.1 → processLookup pid y'.kernel = processLookup pid y.kernel := by
  obtain ⟨y, hrun, hinv⟩ := run_total (P := TableInv) (fun _ _ h hop => h.step hop)
    (tableBoot_inv hblocks hlist hpid) hops
  exact ⟨y, hrun, hinv.table, fun _ he => hinv.destroy_others he⟩

/-- Two processes, and the first is destroyed again. -/
def oneOfTwo : List TableOp :=
  [.create {} [0x61#8] 0x100, .create {} [0x62#8] 0x100, .destroy 0xFFFF900000000020]

/-- Of two processes one is destroyed. -/
theorem process_table_two :
    ∃ y, runOps tableStep (tableBoot processBoot) oneOfTwo = some y ∧ Table y ∧
      ∀ e ∈ y.entries, ∃ y', tableStep y (.destroy e.2) = some y' ∧
        processLookup e.1 y'.kernel = some none ∧
        ∀ pid, pid ≠ e.1 → processLookup pid y'.kernel = processLookup pid y.kernel :=
  process_table ⟨_, processBoot_heap, fun _ hp => absurd hp List.not_mem_nil⟩ rfl rfl oneOfTwo
    (by decide +kernel)

end ZenithOS.Proc
