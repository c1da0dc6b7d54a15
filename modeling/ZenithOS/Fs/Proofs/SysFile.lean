/-
What the calls of `sys_file.c` can do to the descriptor tables.

`fileCall_outcome` says it once for all calls: a file is opened and gets
the lowest free slot, or is opened and gets none, or a slot is cleared,
or the tables stay. Whatever else the calls do, the file system's
invariant survives, provided a write meets a buffer that is large enough.
-/
import ZenithOS.Fs.SysFile
import ZenithOS.Fs.Proofs.Store
import ZenithOS.Mm.Proofs.HeapFrames

namespace ZenithOS.Fs

open Lib Klib Mm Vmm Proc Scheduler

variable {files : FdTable} {file n : Nat} {fd : Int} {y : SysFiles} {v v' : Vfs} {s : FsSys}
  {ts : List Tile} {process : ProcessPtr}

-- ================================================================== fd.c

/-- `fd_get` on a table that is there. -/
theorem fdGet_some (files : FdTable) (fd : Int) :
    fdGet (some files) fd = if fd < 0 ∨ fd ≥ fdMax then null else files fd.toNat :=
  rfl

theorem fdGet_slot (files : FdTable) (hn : n < fdMax) : fdGet (some files) n = files n := by
  rw [fdGet_some, if_neg (by omega), Int.toNat_natCast]

/-- A descriptor denotes what was put into its slot. -/
theorem fdGet_update (files : FdTable) (hn : n < fdMax) (file : Nat) (fd : Int) :
    fdGet (some (Function.update files n file)) fd
      = if fd = n then file else fdGet (some files) fd := by
  by_cases hfd : fd = n
  · rw [if_pos hfd, hfd, fdGet_slot _ hn, Function.update_self]
  · rw [if_neg hfd]
    rw [fdGet_some, fdGet_some]
    by_cases hrange : fd < 0 ∨ fd ≥ fdMax
    · rw [if_pos hrange, if_pos hrange]
    · rw [if_neg hrange, if_neg hrange, Function.update_of_ne (by omega)]

/-- The loop stops at the first free slot, or there is none. -/
theorem fdAllocateFrom_spec (files : FdTable) (file rounds fd : Nat) :
    (∃ n < fd + rounds, fd ≤ n ∧ files n = null ∧ (∀ k < n, fd ≤ k → files k ≠ null)
        ∧ fdAllocateFrom files file rounds fd = ((n : Int), Function.update files n file))
      ∨ (∀ k < fd + rounds, fd ≤ k → files k ≠ null)
        ∧ fdAllocateFrom files file rounds fd = (kernelEnomem, files) := by
  induction rounds generalizing fd with
  | zero =>
      refine .inr ⟨?_, rfl⟩
      intro k hk hle
      omega
  | succ rounds ih =>
      rw [fdAllocateFrom]
      by_cases hfree : files fd = null
      · refine .inl ⟨fd, by omega, Nat.le_refl fd, hfree, ?_, by rw [if_pos hfree]⟩
        intro k hk hle
        omega
      · rw [if_neg hfree]
        have hfirst : ∀ k, (fd + 1 ≤ k → files k ≠ null) → fd ≤ k → files k ≠ null := by
          intro k hrest hle
          by_cases heq : k = fd
          · rw [heq]
            exact hfree
          · exact hrest (by omega)
        rcases ih (fd + 1) with ⟨n, hn, hle, hnull, hbelow, hrun⟩ | ⟨hall, hrun⟩
        · refine .inl ⟨n, by omega, by omega, hnull, ?_, hrun⟩
          intro k hk
          exact hfirst k (hbelow k hk)
        · refine .inr ⟨?_, hrun⟩
          intro k hk
          exact hfirst k (hall k (by omega))

/-- `fd_allocate` takes the lowest free slot, or there is none. -/
theorem fdAllocate_spec (files : FdTable) (hfile : file ≠ null) :
    (∃ n < fdMax, files n = null ∧ (∀ k < n, files k ≠ null)
        ∧ fdAllocate (some files) file = ((n : Int), some (Function.update files n file)))
      ∨ (∀ k < fdMax, files k ≠ null)
        ∧ fdAllocate (some files) file = (kernelEnomem, some files) := by
  have hrun : fdAllocate (some files) file
      = ((fdAllocateFrom files file fdMax 0).1, some (fdAllocateFrom files file fdMax 0).2) :=
    if_neg hfile
  rw [hrun]
  rcases fdAllocateFrom_spec files file fdMax 0 with ⟨n, hn, -, hnull, hbelow, hloop⟩ |
    ⟨hall, hloop⟩
  · refine .inl ⟨n, by omega, hnull, ?_, by rw [hloop]⟩
    intro k hk
    exact hbelow k hk (Nat.zero_le k)
  · refine .inr ⟨?_, by rw [hloop]⟩
    intro k hk
    exact hall k (by omega) (Nat.zero_le k)

/-- `fd_close` empties a slot in use, and refuses what denotes nothing. -/
theorem fdClose_spec (files : FdTable) (fd : Int) :
    fdGet (some files) fd = null ∧ fdClose (some files) fd = (kernelEinval, some files)
      ∨ ∃ n < fdMax, fd = (n : Int) ∧ files n ≠ null
        ∧ fdClose (some files) fd = (kernelSuccess, some (Function.update files n null)) := by
  unfold fdClose
  dsimp only
  by_cases hrange : fd < 0 ∨ fd ≥ fdMax
  · rw [if_pos hrange]
    exact .inl ⟨if_pos hrange, rfl⟩
  rw [if_neg hrange]
  by_cases hnull : files fd.toNat = null
  · rw [if_pos hnull]
    exact .inl ⟨by rw [fdGet_some, if_neg hrange, hnull], rfl⟩
  · rw [if_neg hnull]
    exact .inr ⟨fd.toNat, by omega, by omega, hnull, rfl⟩

-- ================================================================ tables

/-- Other processes keep their tables. -/
theorem fdTable_withTable (y : SysFiles) (process other : ProcessPtr) (files : FdTable) :
    (y.withTable process (some files)).fdTable other
      = if other = process then some files else y.fdTable other := by
  show some (Function.update y.kernel.sched.processes process _ other).fdTable = _
  by_cases heq : other = process
  · rw [if_pos heq, heq, Function.update_self]
  · rw [if_neg heq, Function.update_of_ne heq]
    rfl

/-- One slot of one process has changed. -/
def SlotSet (y y' : SysFiles) (process : ProcessPtr) (fd : Int) (file : Nat) : Prop :=
  ∀ other fd', fdGet (y'.fdTable other) fd'
    = if other = process ∧ fd' = fd then file else fdGet (y.fdTable other) fd'

/-- One slot is set. -/
theorem SlotSet.of_update (hn : n < fdMax)
    (htable : y.fdTable process = some files) :
    SlotSet y (y.withTable process (some (Function.update files n file))) process n file := by
  intro other fd'
  rw [fdTable_withTable]
  by_cases heq : other = process
  · rw [if_pos heq, fdGet_update files hn, heq, htable]
    by_cases hfd : fd' = n
    · rw [if_pos hfd, if_pos ⟨rfl, hfd⟩]
    · rw [if_neg hfd, if_neg fun h => hfd h.2]
  · rw [if_neg heq, if_neg fun h => heq h.1]

/-- No slot has changed. -/
def SlotsKept (y y' : SysFiles) : Prop :=
  ∀ other fd, fdGet (y'.fdTable other) fd = fdGet (y.fdTable other) fd

/-- Storing a table back. -/
theorem slotsKept_withTable (htable : y.fdTable process = some files) :
    SlotsKept y (y.withTable process (some files)) := by
  intro other fd
  rw [fdTable_withTable]
  by_cases heq : other = process
  · rw [if_pos heq, heq, htable]
  · rw [if_neg heq]

-- ================================================================ vfs_open

/-- A descent that ends nowhere returns an error code. -/
theorem Resolves.negative {nodes : Nat → RamfsNode} {names : List (List Byte)} {rc : Int}
    {result : Option Nat} (h : Resolves nodes n names rc result) (hnone : result = none) :
    rc < 0 := by
  induction h with
  | here => cases hnone
  | descend _ _ _ _ ih => exact ih hnone
  | tooLong => decide
  | missing => decide

/-- `vfs_open` has made the file object `file` for `node`. -/
structure Opens (v : Vfs) (path : Option (List Byte)) (refuse : Bool) (file node : Nat)
    (v' : Vfs) : Prop where
  run : vfsOpen path refuse v = some (kernelSuccess, some file, v')
  found : vfsLookup v path = some (kernelSuccess, some node)
  ne_null : file ≠ null
  node : (v'.files file).node = node
  others : ∀ f, f ≠ file → v'.files f = v.files f
  live : file ∈ liveAllocations v'.heap
  fresh : file ∉ liveAllocations v.heap
  memory : ¬ NoFileMemory v refuse

/-- `vfs_open` returns an error and has made nothing. -/
structure OpensNothing (v : Vfs) (path : Option (List Byte)) (refuse : Bool) (rc : Int)
    (v' : Vfs) : Prop where
  run : vfsOpen path refuse v = some (rc, none, v')
  negative : rc < 0
  files : v'.files = v.files
  live : liveAllocations v'.heap = liveAllocations v.heap
  reason : NoFileMemory v refuse ∨ Lost v path

/-- `vfs_open` opens a file, or opens nothing. -/
theorem vfsOpen_cases (hi : FsInv s ts) (path : Option (List Byte)) (refuse : Bool) :
    (∃ file node v' ts', Opens s.vfs path refuse file node v' ∧ file ∉ s.handles
        ∧ FsInv { s with vfs := v', handles := file :: s.handles } ts')
      ∨ ∃ rc v' ts', OpensNothing s.vfs path refuse rc v' ∧ FsInv { s with vfs := v' } ts' := by
  have hlost : ∀ rc, vfsLookup s.vfs path = some (rc, none) → rc < 0 →
      OpensNothing s.vfs path refuse rc s.vfs := by
    intro rc hlook hneg
    refine ⟨vfsOpen_lost hlook, hneg, rfl, rfl, .inr ?_⟩
    intro node hfound
    rw [hlook] at hfound
    cases hfound
  obtain ⟨rc, result, v', ts', hrun, hi', -⟩ := hi.openFile path refuse
  cases path with
  | none => exact .inr ⟨kernelEinval, s.vfs, ts, hlost _ rfl (by decide), hi⟩
  | some path =>
      obtain ⟨rc', node, hlook, hres⟩ := vfsLookup_resolves hi.tree hi.root path
      cases node with
      | none => exact .inr ⟨rc', s.vfs, ts, hlost rc' hlook (hres.negative rfl), hi⟩
      | some node =>
          obtain ⟨rfl, hnode⟩ := hres.reached hi.tree hi.tree.root rfl
          obtain ⟨p, h', ts'', hmalloc, hheap, halloc, -⟩ :=
            kmallocUnless_spec hi.heap refuse fileBytes
          have hopen := vfsOpen_found hlook (hi.tree.ne_null _ hnode) hmalloc
          rw [hrun] at hopen
          by_cases hp : p = null
          · rw [if_pos hp] at hopen
            cases hopen
            rw [hp] at halloc
            refine .inr ⟨kernelEnomem, _, ts', ⟨hrun, by decide, rfl,
              hi.heap.live_of_null hheap halloc, .inl ?_⟩, hi'⟩
            intro r hr
            rw [hmalloc] at hr
            cases hr
            exact hp
          · rw [if_neg hp] at hopen
            cases hopen
            obtain ⟨hperm, hfresh⟩ := hi.heap.live_of_new hheap halloc hp
            refine .inl ⟨p, node, _, ts', ⟨hrun, hlook, hp, ?_, ?_,
              hperm.mem_iff.mpr List.mem_cons_self, hfresh, ?_⟩,
              (hi.fresh hheap halloc hp).2.1, hi'⟩
            · show (Function.update s.vfs.files p _ p).node = node
              rw [Function.update_self]
            · intro f hf
              exact Function.update_of_ne hf _ _
            · intro hnone
              exact hp (hnone _ hmalloc)

-- ================================================================ outcomes

/-- The nodes of the open files are those they were. -/
def NodesKept (s : FsSys) (v : Vfs) : Prop :=
  ∀ f ∈ s.handles, (v.files f).node = (s.vfs.files f).node

/-- What a call can do to the tables and the open files. -/
inductive Outcome (y : SysFiles) (s : FsSys) : FileOp → Int × SysFiles → FsSys → Prop
  | opened {path : Option (List Byte)} {refuse : Bool} {process : ProcessPtr} {n file node : Nat}
      {y' : SysFiles} {s' : FsSys}
      (current : processCurrent y.kernel = some process)
      (opens : Opens y.vfs path refuse file node y'.vfs)
      (fresh : file ∉ s.handles) (handles : s'.handles = file :: s.handles)
      (inside : n < fdMax) (free : fdGet (y.fdTable process) n = null)
      (below : ∀ k < n, fdGet (y.fdTable process) k ≠ null)
      (slots : SlotSet y y' process n file) :
      Outcome y s (.sysOpen path refuse) ((n : Int), y') s'
  | leaked {path : Option (List Byte)} {refuse : Bool} {process : ProcessPtr} {file node : Nat}
      {y' : SysFiles} {s' : FsSys}
      (current : processCurrent y.kernel = some process)
      (opens : Opens y.vfs path refuse file node y'.vfs)
      (fresh : file ∉ s.handles) (handles : s'.handles = file :: s.handles)
      (full : ¬ HasFreeSlot y process) (slots : SlotsKept y y') :
      Outcome y s (.sysOpen path refuse) (kernelEnomem, y') s'
  | closed {fd : Int} {process : ProcessPtr} {y' : SysFiles}
      (current : processCurrent y.kernel = some process)
      (isOpen : fdGet (y.fdTable process) fd ≠ null)
      (slots : SlotSet y y' process fd null) (vfs : y'.vfs = y.vfs) :
      Outcome y s (.sysClose fd) (kernelSuccess, y') s
  | other {op : FileOp} {rc : Int} {y' : SysFiles} {s' : FsSys}
      (keeps : op.Keeps y) (slots : SlotsKept y y') (nodes : NodesKept s y'.vfs)
      (handles : s'.handles = s.handles) (created : FileCall.created ⟨y, op, rc⟩ = none)
      (failed : ∀ path refuse, op = .sysOpen path refuse →
        rc < 0 ∧ liveAllocations y'.vfs.heap = liveAllocations y.vfs.heap) :
      Outcome y s op (rc, y') s'

/-- A call comes back, with one of the outcomes and the invariant. -/
def CallSpec (y : SysFiles) (s : FsSys) (op : FileOp) : Prop :=
  ∃ r s' ts, fileCall y op = some r ∧ FsInv s' ts ∧ s'.vfs = r.2.vfs ∧ Outcome y s op r s'

theorem SlotsKept.refl (y : SysFiles) : SlotsKept y y := fun _ _ => rfl

/-- A call that changes nothing at all. -/
theorem callSpec_same (hi : FsInv s ts) (hvfs : s.vfs = y.vfs) {op : FileOp} (rc : Int)
    (hcall : fileCall y op = some (rc, y)) (hkeeps : op.Keeps y)
    (hcreated : FileCall.created ⟨y, op, rc⟩ = none)
    (hrc : ∀ path refuse, op = .sysOpen path refuse → rc < 0) : CallSpec y s op := by
  refine ⟨(rc, y), s, ts, hcall, hi, hvfs,
    .other hkeeps (SlotsKept.refl y) ?_ rfl hcreated ?_⟩
  · intro f _
    rw [hvfs]
  · intro path refuse hop
    exact ⟨hrc path refuse hop, rfl⟩

-- =================================================================== calls

/-- A switch of the current task. -/
theorem switchTo_spec (hi : FsInv s ts) (hvfs : s.vfs = y.vfs) (task : Option TaskPtr) :
    CallSpec y s (.switchTo task) := by
  refine ⟨(kernelSuccess, y.switchTo task), s, ts, rfl, hi, hvfs,
    .other trivial (fun _ _ => rfl) ?_ rfl rfl ?_⟩
  · intro f _
    rw [hvfs]
    rfl
  · intro path refuse hop
    cases hop

/-- A failed `sys_open` creates nothing. -/
theorem created_sysOpen {path : Option (List Byte)} {refuse : Bool} {rc rc' : Int}
    (h : vfsOpen path refuse y.vfs = some (rc, none, v)) :
    FileCall.created ⟨y, .sysOpen path refuse, rc'⟩ = none := by
  unfold FileCall.created
  dsimp only
  cases processCurrent y.kernel with
  | none => rfl
  | some process =>
      dsimp only
      rw [h, Option.bind_some]

/-- `sys_open`. -/
theorem sysOpen_spec (hi : FsInv s ts) (hvfs : s.vfs = y.vfs) (path : Option (List Byte))
    (refuse : Bool) : CallSpec y s (.sysOpen path refuse) := by
  have hneg : ∀ path' refuse', FileOp.sysOpen path refuse = .sysOpen path' refuse' →
      kernelEinval < 0 := fun _ _ _ => by decide
  by_cases hpath : path = none
  · subst hpath
    refine callSpec_same hi hvfs kernelEinval rfl ?_ (created_sysOpen rfl) hneg
    intro process _
    refine .inr (.inr ?_)
    intro node hfound
    cases hfound
  cases hcurrent : processCurrent y.kernel with
  | none =>
      refine callSpec_same hi hvfs kernelEinval ?_ ?_ ?_ hneg
      · show Fs.sysOpen path refuse y = _
        rw [Fs.sysOpen, if_neg hpath, hcurrent]
      · intro process hprocess
        rw [hcurrent] at hprocess
        cases hprocess
      · unfold FileCall.created
        dsimp only
        rw [hcurrent]
  | some process =>
      have hrun : ∀ rc file v', vfsOpen path refuse y.vfs = some (rc, file, v') →
          fileCall y (.sysOpen path refuse)
            = if rc ≠ kernelSuccess then some (rc, y.withVfs v')
              else some ((fdAllocate (y.fdTable process) (file.getD null)).1,
                (y.withVfs v').withTable process
                  (fdAllocate (y.fdTable process) (file.getD null)).2) := by
        intro rc file v' hopen
        show Fs.sysOpen path refuse y = _
        rw [Fs.sysOpen, if_neg hpath, hcurrent]
        dsimp only
        rw [hopen, Option.bind_eq_bind, Option.bind_some]
        rfl
      have hcases := vfsOpen_cases hi path refuse
      rw [hvfs] at hcases
      rcases hcases with ⟨file, node, v', ts', hopens, hfresh, hi'⟩ | ⟨rc, v', ts', hnothing, hi'⟩
      · have hcall := hrun _ _ _ hopens.run
        rw [if_neg fun h => h rfl] at hcall
        rcases fdAllocate_spec (y.kernel.process process).fdTable hopens.ne_null with
          ⟨n, hn, hfree, hbelow, halloc⟩ | ⟨hall, halloc⟩
        · refine ⟨_, _, ts', hcall, hi', ?_, ?_⟩
          · show v' = _
            rw [SysFiles.fdTable, Option.getD_some, halloc]
            rfl
          · rw [SysFiles.fdTable, Option.getD_some, halloc]
            refine .opened hcurrent hopens hfresh rfl hn ?_ ?_ ?_
            · exact (fdGet_slot _ hn).trans hfree
            · intro k hk
              exact (fdGet_slot _ (hk.trans hn)).trans_ne (hbelow k hk)
            · exact SlotSet.of_update hn rfl
        · refine ⟨_, _, ts', hcall, hi', ?_, ?_⟩
          · show v' = _
            rw [SysFiles.fdTable, Option.getD_some, halloc]
            rfl
          · rw [SysFiles.fdTable, Option.getD_some, halloc]
            refine .leaked hcurrent hopens hfresh rfl ?_ ?_
            · intro hfree
              obtain ⟨k, hk, hnull⟩ := hfree
              exact hall k hk hnull
            · exact slotsKept_withTable rfl
      · have hrc : rc ≠ kernelSuccess := Int.ne_of_lt hnothing.negative
        have hcall := hrun _ _ _ hnothing.run
        rw [if_pos hrc] at hcall
        refine ⟨_, _, ts', hcall, hi', rfl, .other ?_ (fun _ _ => rfl) ?_ rfl
          (created_sysOpen hnothing.run) ?_⟩
        · intro _ _
          exact .inr hnothing.reason
        · intro f _
          show (v'.files f).node = _
          rw [hnothing.files, hvfs]
        · intro _ _ _
          exact ⟨hnothing.negative, hnothing.live⟩

/-- `sys_close`. -/
theorem sysClose_spec (hi : FsInv s ts) (hvfs : s.vfs = y.vfs) (fd : Int) :
    CallSpec y s (.sysClose fd) := by
  cases hcurrent : processCurrent y.kernel with
  | none =>
      refine callSpec_same hi hvfs kernelEinval ?_ ?_ rfl ?_
      · show some (Fs.sysClose fd y) = _
        rw [Fs.sysClose, hcurrent]
      · intro process hprocess
        rw [hcurrent] at hprocess
        cases hprocess
      · intro _ _ hop
        cases hop
  | some process =>
      have hrun : fileCall y (.sysClose fd)
          = some ((fdClose (y.fdTable process) fd).1,
            y.withTable process (fdClose (y.fdTable process) fd).2) := by
        show some (Fs.sysClose fd y) = _
        rw [Fs.sysClose, hcurrent]
      rcases fdClose_spec (y.kernel.process process).fdTable fd with ⟨hnull, hclose⟩ |
        ⟨n, hn, rfl, hopen, hclose⟩
      · refine ⟨_, s, ts, hrun, hi, ?_, ?_⟩
        · rw [SysFiles.fdTable, hclose, hvfs]
          rfl
        · rw [SysFiles.fdTable, hclose]
          refine .other ?_ (slotsKept_withTable rfl) ?_ rfl rfl ?_
          · intro p hp
            rw [hcurrent] at hp
            cases hp
            exact hnull
          · intro f _
            rw [hvfs]
            rfl
          · intro _ _ hop
            cases hop
      · refine ⟨_, s, ts, hrun, hi, ?_, ?_⟩
        · rw [SysFiles.fdTable, hclose, hvfs]
          rfl
        · rw [SysFiles.fdTable, hclose]
          exact .closed hcurrent ((fdGet_slot _ hn).trans_ne hopen) (SlotSet.of_update hn rfl) rfl

/-- A file's record is stored back with its node. -/
theorem setFile_node {record : File} (hnode : record.node = (v.files file).node) (f : Nat) :
    ((setFile file record v).files f).node = (v.files f).node := by
  show (Function.update v.files file record f).node = _
  by_cases heq : f = file
  · rw [heq, Function.update_self, hnode]
  · rw [Function.update_of_ne heq]

/-- Reading leaves every file on its node. -/
theorem vfsRead_node (file buffer size : Nat) (v : Vfs) (f : Nat) :
    ((vfsRead file buffer size v).2.2.files f).node = (v.files f).node := by
  unfold vfsRead
  by_cases hfile : file = null
  · rw [if_pos hfile]
  by_cases hnode : (v.files file).node = null
  · rw [if_neg hfile, if_pos hnode]
  rw [if_neg hfile, if_neg hnode]
  cases (v.nodes (v.files file).node).vnode.ops with
  | none => rfl
  | some ops =>
      cases ops with
      | ramfsVnodeOps =>
          simp only [ramfsRead]
          split
          · rfl
          · split
            · rfl
            · split
              · rfl
              · split
                · rfl
                · apply setFile_node
                  rfl

theorem ramfsStore_node (file p : Nat) (buffer : Nat → Byte) (size : Nat) (v : Vfs) (f : Nat) :
    ((ramfsStore file p buffer size v).files f).node = (v.files f).node := by
  show (Function.update v.files file _ f).node = _
  by_cases heq : f = file
  · rw [heq, Function.update_self]
    rfl
  · rw [Function.update_of_ne heq]

/-- Writing leaves every file on its node. -/
theorem vfsWrite_node {buffer : Option (Nat → Byte)} {size : Nat} {refuse : Bool} {rc : Int}
    (hrun : vfsWrite file buffer size refuse v = some (rc, v')) (f : Nat) :
    (v'.files f).node = (v.files f).node := by
  unfold vfsWrite at hrun
  by_cases hfile : file = null
  · rw [if_pos hfile] at hrun
    cases hrun
    rfl
  by_cases hnode : (v.files file).node = null
  · rw [if_neg hfile, if_pos hnode] at hrun
    cases hrun
    rfl
  rw [if_neg hfile, if_neg hnode] at hrun
  cases hops : (v.nodes (v.files file).node).vnode.ops with
  | none =>
      rw [hops] at hrun
      cases hrun
      rfl
  | some ops =>
      rw [hops] at hrun
      cases ops with
      | ramfsVnodeOps =>
          dsimp only at hrun
          cases buffer with
          | none =>
              cases hrun
              rfl
          | some buffer =>
              simp only [ramfsWrite, Option.bind_eq_bind] at hrun
              split_ifs at hrun
              · cases hrun
                rfl
              · cases hrun
                rfl
              · cases hmalloc : kmallocUnless refuse size v.heap with
                | none =>
                    rw [hmalloc, Option.bind_none] at hrun
                    cases hrun
                | some r =>
                    rw [hmalloc, Option.bind_some] at hrun
                    split_ifs at hrun
                    · cases hrun
                      rfl
                    · cases hrun
                      exact ramfsStore_node ..
              · cases hrun
                exact ramfsStore_node ..

/-- `sys_read`. -/
theorem sysRead_spec (hi : FsInv s ts) (hvfs : s.vfs = y.vfs)
    (hslots : ∀ process fd, fdGet (y.fdTable process) fd ≠ null →
      fdGet (y.fdTable process) fd ∈ s.handles) (fd : Int) (buffer size : Nat) :
    CallSpec y s (.sysRead fd buffer size) := by
  have hsame : ∀ rc, Fs.sysRead fd buffer size y = (rc, [], y) →
      CallSpec y s (.sysRead fd buffer size) := by
    intro rc hrun
    refine callSpec_same hi hvfs rc ?_ trivial rfl ?_
    · show some ((Fs.sysRead fd buffer size y).1, _) = _
      rw [hrun]
    · intro _ _ hop
      cases hop
  cases hcurrent : processCurrent y.kernel with
  | none =>
      apply hsame kernelEinval
      rw [Fs.sysRead, hcurrent]
  | some process =>
      by_cases hnull : fdGet (y.fdTable process) fd = null
      · apply hsame kernelEnoent
        rw [Fs.sysRead, hcurrent]
        exact if_pos hnull
      · have hread := hi.read (.inr (hslots process fd hnull)) buffer size
        rw [hvfs] at hread
        refine ⟨_, _, ts, rfl, hread, ?_, .other trivial ?_ ?_ rfl rfl ?_⟩
        · show _ = (Fs.sysRead fd buffer size y).2.2.vfs
          rw [Fs.sysRead, hcurrent]
          dsimp only
          rw [if_neg hnull]
          rfl
        · intro other fd'
          rw [Fs.sysRead, hcurrent]
          dsimp only
          rw [if_neg hnull]
          rfl
        · intro f _
          rw [Fs.sysRead, hcurrent]
          dsimp only
          rw [if_neg hnull, hvfs]
          exact vfsRead_node ..
        · intro _ _ hop
          cases hop

/-- `sys_write`. -/
theorem sysWrite_spec (hi : FsInv s ts) (hvfs : s.vfs = y.vfs)
    (hslots : ∀ process fd, fdGet (y.fdTable process) fd ≠ null →
      fdGet (y.fdTable process) fd ∈ s.handles) {fd : Int} {buffer : Option (Nat → Byte)}
    {size : Nat} {refuse : Bool} (hfits : FileOp.Fits y (.sysWrite fd buffer size refuse)) :
    CallSpec y s (.sysWrite fd buffer size refuse) := by
  have hsame : ∀ rc, Fs.sysWrite fd buffer size refuse y = some (rc, y) →
      CallSpec y s (.sysWrite fd buffer size refuse) := by
    intro rc hrun
    refine callSpec_same hi hvfs rc hrun trivial rfl ?_
    intro _ _ hop
    cases hop
  cases hcurrent : processCurrent y.kernel with
  | none =>
      apply hsame kernelEinval
      rw [Fs.sysWrite, hcurrent]
  | some process =>
      by_cases hnull : fdGet (y.fdTable process) fd = null
      · apply hsame kernelEnoent
        rw [Fs.sysWrite, hcurrent]
        exact if_pos hnull
      · have hwrite := hi.write (.inr (hslots process fd hnull)) hfits.1
          (by rw [hvfs]; exact hfits.2 process hcurrent) buffer refuse
        obtain ⟨rc, v', ts', hrun, hi', -, -⟩ := hwrite
        rw [hvfs] at hrun
        refine ⟨(rc, y.withVfs v'), _, ts', ?_, hi', rfl, .other trivial (fun _ _ => rfl) ?_ rfl
          rfl ?_⟩
        · show Fs.sysWrite fd buffer size refuse y = _
          rw [Fs.sysWrite, hcurrent]
          dsimp only
          rw [if_neg hnull, hrun]
          rfl
        · intro f _
          rw [hvfs]
          exact vfsWrite_node hrun f
        · intro _ _ hop
          cases hop

/-- Every call, where all open descriptors are open files. -/
theorem fileCall_outcome (hi : FsInv s ts) (hvfs : s.vfs = y.vfs)
    (hslots : ∀ process fd, fdGet (y.fdTable process) fd ≠ null →
      fdGet (y.fdTable process) fd ∈ s.handles) {op : FileOp} (hfits : op.Fits y) :
    CallSpec y s op := by
  cases op with
  | switchTo task => exact switchTo_spec hi hvfs task
  | sysOpen path refuse => exact sysOpen_spec hi hvfs path refuse
  | sysRead fd buffer size => exact sysRead_spec hi hvfs hslots fd buffer size
  | sysWrite fd buffer size refuse => exact sysWrite_spec hi hvfs hslots hfits
  | sysClose fd => exact sysClose_spec hi hvfs fd

end ZenithOS.Fs
