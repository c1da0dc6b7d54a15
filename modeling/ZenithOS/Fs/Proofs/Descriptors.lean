/-
What descriptors denote, and who holds the open files.

# Denotation

At any moment a descriptor of a process gives the file object that the
process's most recent `sys_open` with this result has made, unless it was
closed since (`descriptors_denote_opened`). The argument is one step: the
new file object is none of those that are open, so it changes no other
descriptor's.

# Ownership

`sys_close` clears the slot and forgets the file object, and a `sys_open`
that finds no slot forgets the one it has just made. Nothing else loses a
file: a step keeps every live file object in one slot of one process just
when it does neither (`open_files_owned_iff`).
-/
import ZenithOS.Fs.Proofs.SysFile
import ZenithOS.Fs.Proofs.Runs
import ZenithOS.Scheduler.Proofs.Partition

namespace ZenithOS.Fs

open Lib Klib Mm Vmm Proc Scheduler

variable {y y' : FileSys} {z : SysFiles} {v : Vfs} {s s' : FsSys} {ts ts' : List Tile} {op : FileOp}
  {r : Int × SysFiles} {process : ProcessPtr} {fd : Int} {c : FileCall} {file n : Nat}
  {ops : List FileOp}

-- ============================================================== denotation

/-- The file object that the call has made, for the vnode that
`vfs_lookup` gave it. -/
def Denotes (v : Vfs) (c : FileCall) (file : Nat) : Prop :=
  ∃ path refuse v' node, c.op = .sysOpen path refuse
    ∧ vfsOpen path refuse c.before.vfs = some (kernelSuccess, some file, v')
    ∧ vfsLookup c.before.vfs path = some (kernelSuccess, some node)
    ∧ file ≠ null ∧ (v.files file).node = node

/-- What `fd_get` returns is what was opened, or `NULL`. -/
def DescriptorRight (y : FileSys) (process : ProcessPtr) (fd : Int) : Prop :=
  match lastOpen process fd y.calls with
  | none => fdGet (y.now.fdTable process) fd = null
  | some c => Denotes y.now.vfs c (fdGet (y.now.fdTable process) fd)

/-- The descriptor is below all others that are not open in the process. -/
def LowestFree (y : FileSys) (process : ProcessPtr) (fd : Int) : Prop :=
  fd < fdMax ∧ lastOpen process fd y.calls = none
    ∧ ∀ fd', 0 ≤ fd' → fd' < fd → lastOpen process fd' y.calls ≠ none

/-- What every run of the calls on descriptors keeps. -/
structure FileInv (y : FileSys) (s : FsSys) (ts : List Tile) : Prop where
  fs : FsInv s ts
  vfs : s.vfs = y.now.vfs
  slots : ∀ process fd, fdGet (y.now.fdTable process) fd ≠ null →
    fdGet (y.now.fdTable process) fd ∈ s.handles
  right : ∀ process fd, DescriptorRight y process fd
  created : ∀ c ∈ y.calls, ∀ f ∈ c.created, f ∈ s.handles

/-- A recorded call opened `fd` in a process. -/
theorem opens_iff : c.opens process fd = true ↔ (∃ path refuse, c.op = .sysOpen path refuse)
    ∧ processCurrent c.before.kernel = some process ∧ c.result = fd ∧ 0 ≤ fd := by
  unfold FileCall.opens
  cases c.op with
  | sysOpen path refuse =>
      dsimp only
      rw [decide_eq_true_iff]
      exact ⟨fun h => ⟨⟨path, refuse, rfl⟩, h⟩, fun h => h.2⟩
  | _ =>
      constructor
      · intro h
        cases h
      · intro h
        obtain ⟨⟨path, refuse, hop⟩, -⟩ := h
        cases hop

/-- A recorded call closed `fd` in a process. -/
theorem closes_iff : c.closes process fd = true ↔
    c.op = .sysClose fd ∧ processCurrent c.before.kernel = some process := by
  unfold FileCall.closes
  cases c.op with
  | sysClose fd' =>
      dsimp only
      rw [decide_eq_true_iff]
      constructor
      · intro h
        exact ⟨by rw [h.2], h.1⟩
      · intro h
        obtain ⟨hop, hcurrent⟩ := h
        cases hop
        exact ⟨hcurrent, rfl⟩
  | _ =>
      constructor
      · intro h
        cases h
      · intro h
        cases h.1

/-- A call that neither opens nor closes the descriptor. -/
theorem lastOpen_skip {calls : List FileCall} (hopens : c.opens process fd ≠ true)
    (hcloses : c.closes process fd ≠ true) :
    lastOpen process fd (c :: calls) = lastOpen process fd calls := by
  rw [lastOpen, if_neg hopens, if_neg hcloses]

/-- A descriptor that keeps its file object, whose node stays. -/
theorem DescriptorRight.keep (h : DescriptorRight y process fd)
    (hlast : lastOpen process fd y'.calls = lastOpen process fd y.calls)
    (hslot : fdGet (y'.now.fdTable process) fd = fdGet (y.now.fdTable process) fd)
    (hnode : fdGet (y.now.fdTable process) fd ≠ null →
      (y'.now.vfs.files (fdGet (y.now.fdTable process) fd)).node
        = (y.now.vfs.files (fdGet (y.now.fdTable process) fd)).node) :
    DescriptorRight y' process fd := by
  unfold DescriptorRight at h ⊢
  rw [hlast, hslot]
  cases hc : lastOpen process fd y.calls with
  | none =>
      rw [hc] at h
      exact h
  | some c =>
      rw [hc] at h
      obtain ⟨path, refuse, v', node, hop, hopen, hfound, hne, hrecord⟩ := h
      exact ⟨path, refuse, v', node, hop, hopen, hfound, hne, (hnode hne).trans hrecord⟩

/-- A descriptor that is open was opened. -/
theorem DescriptorRight.opened (h : DescriptorRight y process fd)
    (hopen : fdGet (y.now.fdTable process) fd ≠ null) :
    ∃ c, lastOpen process fd y.calls = some c
      ∧ Denotes y.now.vfs c (fdGet (y.now.fdTable process) fd) := by
  unfold DescriptorRight at h
  cases hc : lastOpen process fd y.calls with
  | none =>
      rw [hc] at h
      exact absurd h hopen
  | some c =>
      rw [hc] at h
      exact ⟨c, rfl, h⟩

/-- A descriptor is free exactly when the calls have left it so. -/
theorem DescriptorRight.none_iff (h : DescriptorRight y process fd) :
    lastOpen process fd y.calls = none ↔ fdGet (y.now.fdTable process) fd = null := by
  constructor
  · intro hnone
    unfold DescriptorRight at h
    rw [hnone] at h
    exact h
  · intro hnull
    by_contra hsome
    obtain ⟨c, hc⟩ := Option.ne_none_iff_exists'.mp hsome
    unfold DescriptorRight at h
    rw [hc] at h
    obtain ⟨-, -, -, -, -, -, -, hne, -⟩ := h
    exact hne hnull

/-- The last open of a descriptor is one of the calls, by this process. -/
theorem lastOpen_mem {calls : List FileCall} (h : lastOpen process fd calls = some c) :
    c ∈ calls ∧ c.opens process fd = true := by
  induction calls with
  | nil => cases h
  | cons d calls ih =>
      rw [lastOpen] at h
      by_cases hopens : d.opens process fd = true
      · rw [if_pos hopens] at h
        cases h
        exact ⟨List.mem_cons_self, hopens⟩
      · rw [if_neg hopens] at h
        by_cases hcloses : d.closes process fd = true
        · rw [if_pos hcloses] at h
          cases h
        · rw [if_neg hcloses] at h
          exact ⟨List.mem_cons_of_mem _ (ih h).1, (ih h).2⟩

-- ============================================================= one call

/-- A successful `sys_open` creates the file object. -/
theorem created_of_opens {x : SysFiles} {path : Option (List Byte)} {refuse : Bool} {node : Nat}
    (hcurrent : processCurrent x.kernel = some process)
    (hopens : Opens x.vfs path refuse file node v) (rc : Int) :
    FileCall.created ⟨x, .sysOpen path refuse, rc⟩ = some file := by
  unfold FileCall.created
  dsimp only
  rw [hcurrent]
  dsimp only
  rw [hopens.run]
  rfl

/-- After a `sys_open` that has got a slot. -/
theorem FileInv.opened (hi : FileInv y s ts) {path : Option (List Byte)} {refuse : Bool}
    {node : Nat} (hcurrent : processCurrent y.now.kernel = some process)
    (hopens : Opens y.now.vfs path refuse file node z.vfs) (hfresh : file ∉ s.handles)
    (hhandles : s'.handles = file :: s.handles) (hfs : FsInv s' ts') (hvfs : s'.vfs = z.vfs)
    (hslots : SlotSet y.now z process n file) :
    FileInv (y.after (.sysOpen path refuse) ((n : Int), z)) s' ts' := by
  have hcreated := created_of_opens hcurrent hopens (n : Int)
  refine ⟨hfs, hvfs, ?_, ?_, ?_⟩
  · intro other fd hopen
    rw [hhandles]
    dsimp only [FileSys.after] at hopen ⊢
    rw [hslots] at hopen ⊢
    by_cases hthis : other = process ∧ fd = n
    · rw [if_pos hthis]
      exact List.mem_cons_self
    · rw [if_neg hthis] at hopen ⊢
      exact List.mem_cons_of_mem _ (hi.slots other fd hopen)
  · intro other fd
    by_cases hthis : other = process ∧ fd = n
    · obtain ⟨rfl, rfl⟩ := hthis
      have hthis : FileCall.opens other n ⟨y.now, .sysOpen path refuse, n⟩ = true :=
        opens_iff.mpr ⟨⟨path, refuse, rfl⟩, hcurrent, rfl, Int.natCast_nonneg n⟩
      unfold DescriptorRight
      dsimp only [FileSys.after]
      rw [lastOpen, if_pos hthis, hslots, if_pos ⟨rfl, rfl⟩]
      exact ⟨path, refuse, z.vfs, node, rfl, hopens.run, hopens.found, hopens.ne_null, hopens.node⟩
    · refine (hi.right other fd).keep (lastOpen_skip ?_ ?_) ?_ ?_
      · intro hc
        obtain ⟨-, hother, hfd, -⟩ := opens_iff.mp hc
        exact hthis ⟨Option.some.inj (hother.symm.trans hcurrent), hfd.symm⟩
      · intro hc
        cases (closes_iff.mp hc).1
      · show fdGet (z.fdTable other) fd = _
        rw [hslots, if_neg hthis]
      · intro hopen
        have hne : fdGet (y.now.fdTable other) fd ≠ file := by
          intro heq
          exact hfresh (heq ▸ hi.slots other fd hopen)
        exact congrArg File.node (hopens.others _ hne)
  · intro c hc f hf
    rw [hhandles]
    cases List.mem_cons.mp hc with
    | inl hthis =>
        rw [hthis, hcreated] at hf
        cases hf
        exact List.mem_cons_self
    | inr hold => exact List.mem_cons_of_mem _ (hi.created c hold f hf)

/-- After a call that changes no slot. -/
theorem FileInv.same_slots (hi : FileInv y s ts) {rc : Int} (hfs : FsInv s' ts')
    (hvfs : s'.vfs = z.vfs) (hslots : SlotsKept y.now z) (hnodes : NodesKept s z.vfs)
    (hhandles : ∀ f ∈ s.handles, f ∈ s'.handles)
    (hcreated : ∀ f ∈ FileCall.created ⟨y.now, op, rc⟩, f ∈ s'.handles)
    (hopens : ∀ process fd, FileCall.opens process fd ⟨y.now, op, rc⟩ ≠ true)
    (hcloses : ∀ process fd, FileCall.closes process fd ⟨y.now, op, rc⟩ = true →
      fdGet (y.now.fdTable process) fd = null) :
    FileInv (y.after op (rc, z)) s' ts' := by
  refine ⟨hfs, hvfs, ?_, ?_, ?_⟩
  · intro other fd hopen
    dsimp only [FileSys.after] at hopen ⊢
    rw [hslots] at hopen ⊢
    exact hhandles _ (hi.slots other fd hopen)
  · intro other fd
    by_cases hclosed : FileCall.closes other fd ⟨y.now, op, rc⟩ = true
    · unfold DescriptorRight
      dsimp only [FileSys.after]
      rw [lastOpen, if_neg (hopens other fd), if_pos hclosed]
      dsimp only
      rw [hslots]
      exact hcloses other fd hclosed
    · apply (hi.right other fd).keep (lastOpen_skip (hopens other fd) hclosed) (hslots other fd)
      intro hopen
      rw [← hi.vfs]
      exact hnodes _ (hi.slots other fd hopen)
  · intro c hc f hf
    cases List.mem_cons.mp hc with
    | inl hthis =>
        rw [hthis] at hf
        exact hcreated f hf
    | inr hold => exact hhandles f (hi.created c hold f hf)

/-- After a `sys_close` of an open descriptor. -/
theorem FileInv.closed (hi : FileInv y s ts) (hfs : FsInv s ts')
    (hcurrent : processCurrent y.now.kernel = some process) {rc : Int}
    (hslots : SlotSet y.now z process fd null) (hvfs : z.vfs = y.now.vfs) :
    FileInv (y.after (.sysClose fd) (rc, z)) s ts' := by
  have hopens : ∀ other fd', FileCall.opens other fd' ⟨y.now, .sysClose fd, rc⟩ ≠ true := by
    intro other fd' hc
    obtain ⟨⟨_, _, hop⟩, -⟩ := opens_iff.mp hc
    cases hop
  refine ⟨hfs, hi.vfs.trans hvfs.symm, ?_, ?_, ?_⟩
  · intro other fd' hopen
    dsimp only [FileSys.after] at hopen ⊢
    rw [hslots] at hopen ⊢
    by_cases hthis : other = process ∧ fd' = fd
    · rw [if_pos hthis] at hopen
      exact absurd rfl hopen
    · rw [if_neg hthis] at hopen ⊢
      exact hi.slots other fd' hopen
  · intro other fd'
    by_cases hthis : other = process ∧ fd' = fd
    · obtain ⟨rfl, rfl⟩ := hthis
      have hclosed : FileCall.closes other fd' ⟨y.now, .sysClose fd', rc⟩ = true :=
        closes_iff.mpr ⟨rfl, hcurrent⟩
      unfold DescriptorRight
      dsimp only [FileSys.after]
      rw [lastOpen, if_neg (hopens other fd'), if_pos hclosed]
      dsimp only
      rw [hslots, if_pos ⟨rfl, rfl⟩]
    · refine (hi.right other fd').keep (lastOpen_skip (hopens other fd') ?_) ?_ ?_
      · intro hc
        obtain ⟨hop, hother⟩ := closes_iff.mp hc
        cases hop
        exact hthis ⟨Option.some.inj (hother.symm.trans hcurrent), rfl⟩
      · show fdGet (z.fdTable other) fd' = _
        rw [hslots, if_neg hthis]
      · intro _
        show (z.vfs.files _).node = _
        rw [hvfs]
  · intro c hc f hf
    cases List.mem_cons.mp hc with
    | inl hthis =>
        rw [hthis] at hf
        cases hf
    | inr hold => exact hi.created c hold f hf

/-- Every call keeps the invariant. -/
theorem FileInv.step (hi : FileInv y s ts) (hfits : op.Fits y.now) :
    ∃ r s' ts', fileCall y.now op = some r ∧ FileInv (y.after op r) s' ts'
      ∧ Outcome y.now s op r s' := by
  obtain ⟨r, s', ts', hcall, hfs, hvfs, hout⟩ := fileCall_outcome hi.fs hi.vfs hi.slots hfits
  refine ⟨r, s', ts', hcall, ?_, hout⟩
  cases hout with
  | opened hcurrent hopens hfresh hhandles _ _ _ hslots =>
      exact hi.opened hcurrent hopens hfresh hhandles hfs hvfs hslots
  | @leaked path refuse process file node z _ hcurrent hopens hfresh hhandles _ hslots =>
      apply hi.same_slots hfs hvfs hslots
      · intro f hf
        rw [hopens.others f fun heq => hfresh (heq ▸ hf), hi.vfs]
      · intro f hf
        rw [hhandles]
        exact List.mem_cons_of_mem _ hf
      · intro f hf
        rw [created_of_opens hcurrent hopens] at hf
        cases hf
        rw [hhandles]
        exact List.mem_cons_self
      · intro other fd hc
        obtain ⟨-, -, hfd, hpos⟩ := opens_iff.mp hc
        have hrc : kernelEnomem = fd := hfd
        rw [← hrc] at hpos
        exact absurd hpos (by decide)
      · intro other fd hc
        cases (closes_iff.mp hc).1
  | closed hcurrent _ hslots hsame => exact hi.closed hfs hcurrent hslots hsame
  | @other op rc _ _ hkeeps hslots hnodes hhandles hcreated hfailed =>
      apply hi.same_slots hfs hvfs hslots hnodes
      · intro f hf
        rw [hhandles]
        exact hf
      · intro f hf
        rw [hcreated] at hf
        cases hf
      · intro other fd hc
        obtain ⟨⟨path, refuse, hop⟩, -, hfd, hpos⟩ := opens_iff.mp hc
        have hneg := (hfailed path refuse hop).1
        have hrc : rc = fd := hfd
        omega
      · intro other fd hc
        obtain ⟨hop, hcurrent⟩ := closes_iff.mp hc
        have hop' : op = .sysClose fd := hop
        subst hop'
        exact hkeeps other hcurrent

-- =================================================================== runs

/-- The tables are as `fd_init` leaves them. -/
theorem fileInv_start (hi : FsInv s ts) (hvfs : s.vfs = z.vfs)
    (hempty : ∀ process, z.fdTable process = fdInit (z.fdTable process)) :
    FileInv ⟨z, []⟩ s ts := by
  have hnull : ∀ process fd, fdGet (z.fdTable process) fd = null := by
    intro process fd
    rw [hempty]
    show fdGet (some fun _ => null) fd = null
    rw [fdGet_some]
    by_cases hrange : fd < 0 ∨ fd ≥ fdMax
    · rw [if_pos hrange]
    · rw [if_neg hrange]
  refine ⟨hi, hvfs, ?_, hnull, ?_⟩
  · intro process fd hopen
    exact absurd (hnull process fd) hopen
  · intro c hc
    cases hc

theorem fileStep_eq (hcall : fileCall y.now op = some r) : fileStep y op = some (y.after op r) := by
  rw [fileStep, hcall, Option.map_some]

/-- The invariant holds after every run, which comes back. -/
theorem FileInv.run (hi : FileInv y s ts)
    (hops : AllowedRun fileStep (fun y op => op.Fits y.now) y ops) :
    ∃ y', runOps fileStep y ops = some y' ∧ ∃ s' ts', FileInv y' s' ts' := by
  refine run_total (P := fun y => ∃ s ts, FileInv y s ts) ?_ ⟨s, ts, hi⟩ hops
  intro y op hinv hfits
  obtain ⟨s, ts, hi⟩ := hinv
  obtain ⟨r, s', ts', hcall, hi', -⟩ := hi.step hfits
  exact ⟨y.after op r, fileStep_eq hcall, s', ts', hi'⟩

/-- Only the descriptors of the current process change. -/
theorem Outcome.others_kept {x : SysFiles} (hout : Outcome x s op r s') (other : ProcessPtr)
    (hother : processCurrent x.kernel ≠ some other) (fd : Int) :
    fdGet (r.2.fdTable other) fd = fdGet (x.fdTable other) fd := by
  have hset : ∀ {process : ProcessPtr} {z : SysFiles} {fd' : Int} {file : Nat},
      processCurrent x.kernel = some process → SlotSet x z process fd' file →
        fdGet (z.fdTable other) fd = fdGet (x.fdTable other) fd := by
    intro process z fd' file hcurrent hslots
    rw [hslots, if_neg]
    intro hthis
    exact hother (hthis.1 ▸ hcurrent)
  cases hout with
  | opened hcurrent _ _ _ _ _ _ hslots => exact hset hcurrent hslots
  | leaked _ _ _ _ _ hslots => exact hslots other fd
  | closed hcurrent _ hslots _ => exact hset hcurrent hslots
  | other _ hslots _ _ _ _ => exact hslots other fd

/-- A `sys_open` that succeeds takes the lowest free descriptor. -/
theorem FileInv.lowest (hi : FileInv y s ts) (hout : Outcome y.now s op r s')
    {path : Option (List Byte)} {refuse : Bool} (hop : op = .sysOpen path refuse)
    (hrc : 0 ≤ r.1) :
    ∃ process, processCurrent y.now.kernel = some process ∧ LowestFree y process r.1 := by
  cases hout with
  | @opened _ _ process n _ _ _ _ hcurrent _ _ _ hinside hfree hbelow _ =>
      refine ⟨process, hcurrent, Int.ofNat_lt.mpr hinside,
        (hi.right process n).none_iff.mpr hfree, ?_⟩
      intro fd hpos hlt hnone
      obtain ⟨k, rfl⟩ := Int.eq_ofNat_of_zero_le hpos
      exact hbelow k (Int.ofNat_lt.mp hlt) ((hi.right process k).none_iff.mp hnone)
  | leaked =>
      have herror : (0 : Int) ≤ kernelEnomem := hrc
      exact absurd herror (by decide)
  | closed => cases hop
  | other _ _ _ _ _ hfailed => exact absurd hrc (Int.not_le.mpr (hfailed path refuse hop).1)

/-- After every run a descriptor denotes what its last `sys_open` opened,
`sys_open` gives the lowest free one, and calls of one process leave the
descriptors of others alone. -/
theorem descriptors_denote_opened (hi : FsInv s ts) (hvfs : s.vfs = z.vfs)
    (hempty : ∀ process, z.fdTable process = fdInit (z.fdTable process))
    (hops : AllowedRun fileStep (fun y op => op.Fits y.now) ⟨z, []⟩ ops) :
    ∃ y, runOps fileStep ⟨z, []⟩ ops = some y
      ∧ (∀ process fd, DescriptorRight y process fd)
      ∧ ∀ op : FileOp, op.Fits y.now → ∃ rc z', fileCall y.now op = some (rc, z')
        ∧ (∀ path refuse, op = .sysOpen path refuse → 0 ≤ rc →
          ∃ process, processCurrent y.now.kernel = some process ∧ LowestFree y process rc)
        ∧ ∀ process, processCurrent y.now.kernel ≠ some process → ∀ fd,
          fdGet (z'.fdTable process) fd = fdGet (y.now.fdTable process) fd := by
  obtain ⟨y, hrun, s', ts', hi'⟩ := (fileInv_start hi hvfs hempty).run hops
  refine ⟨y, hrun, hi'.right, ?_⟩
  intro op hfits
  obtain ⟨⟨rc, z'⟩, s'', ts'', hcall, -, hout⟩ := hi'.step hfits
  refine ⟨rc, z', hcall, ?_, hout.others_kept⟩
  intro path refuse hop hrc
  exact hi'.lowest hout hop hrc

/-- Two tasks, each with a process of its own, on a file system. -/
def twoProcesses (v : Vfs) : SysFiles :=
  { kernel :=
      { heap := v.heap
        sched := { bootSched with
          tasks := fun t => { process := some (0x8000 + 0x1000 * t) }
          currentTask := some 0 }
        processList := null, nextPid := 1, nextTaskId := 2 }
    vfs := v
    shared := rfl }

/-- `/d/f` is opened by both, closed by one, which then opens `/`. -/
def reopened : List FileOp :=
  [.sysOpen (some [slash, 0x64#8, slash, 0x66#8]) false, .switchTo (some 1),
    .sysOpen (some [slash, 0x64#8, slash, 0x66#8]) false, .switchTo (some 0), .sysClose 0,
    .sysOpen (some [slash]) false]

/-- Two processes open, close and open again. -/
theorem descriptors_denote_opened_two_processes :
    ∃ s y, runOps fsStep (fsSysInit bootVfs) oneFile = some s
      ∧ runOps fileStep ⟨twoProcesses s.vfs, []⟩ reopened = some y
      ∧ (y.now.vfs.files (fdGet (y.now.fdTable 0x8000) 0)).node = ramfsRoot
      ∧ (∀ process fd, DescriptorRight y process fd) := by
  obtain ⟨s, hrun, ts, hi⟩ := fsRun_inv bootHeap_pmm bootHeap_init bootVfs_boot oneFile_allowed
  have hvalues : (runOps fsStep (fsSysInit bootVfs) oneFile).map (fun s =>
      (decide (AllowedRun fileStep (fun y op => op.Fits y.now) ⟨twoProcesses s.vfs, []⟩ reopened),
        (runOps fileStep ⟨twoProcesses s.vfs, []⟩ reopened).map fun y =>
          (y.now.vfs.files (fdGet (y.now.fdTable 0x8000) 0)).node))
      = some (true, some ramfsRoot) := by decide +kernel
  rw [hrun, Option.map_some] at hvalues
  injection hvalues with hvalues
  injection hvalues with hallowed hnode
  obtain ⟨y, hfiles, hright, -⟩ := descriptors_denote_opened hi rfl (fun _ => rfl)
    (of_decide_eq_true hallowed)
  rw [hfiles, Option.map_some] at hnode
  injection hnode with hnode
  exact ⟨s, y, hrun, hfiles, hnode, hright⟩

-- ============================================================== ownership

/-- Every file object that a `sys_open` has made and that is live is in one
slot of one process. -/
def Owned (y : FileSys) : Prop :=
  ∀ c ∈ y.calls, ∀ f ∈ c.created, f ∈ liveAllocations y.now.vfs.heap →
    ∃! slot : ProcessPtr × Int, fdGet (y.now.fdTable slot.1) slot.2 = f

/-- An open file has a live block. -/
theorem FsInv.handle_live (hi : FsInv s ts) {f : Nat} (hf : f ∈ s.handles) :
    f ∈ liveAllocations s.vfs.heap := by
  obtain ⟨⟨k, hk⟩, -⟩ := hi.files f hf
  rw [hi.heap.liveAllocations_eq]
  exact List.mem_map.mpr ⟨(f, k), hk, rfl⟩

theorem FsInv.handle_ne_null (hi : FsInv s ts) {f : Nat} (hf : f ∈ s.handles) : f ≠ null := by
  obtain ⟨⟨k, hk⟩, -⟩ := hi.files f hf
  exact hi.heap.payload_ne_null hk

/-- A live file object that was there has its slot. -/
theorem FileInv.owner (hi : FileInv y s ts) (howned : Owned y) (hc : c ∈ y.calls)
    (hf : file ∈ c.created) :
    ∃! slot : ProcessPtr × Int, fdGet (y.now.fdTable slot.1) slot.2 = file := by
  apply howned c hc file hf
  rw [← hi.vfs]
  exact hi.fs.handle_live (hi.created c hc file hf)

/-- The new file object is in its slot, the others in theirs. -/
theorem FileInv.owned_opened (hi : FileInv y s ts) (howned : Owned y)
    {path : Option (List Byte)} {refuse : Bool} {node : Nat}
    (hcurrent : processCurrent y.now.kernel = some process)
    (hopens : Opens y.now.vfs path refuse file node z.vfs) (hfresh : file ∉ s.handles)
    (hfree : fdGet (y.now.fdTable process) n = null) (hslots : SlotSet y.now z process n file)
    (rc : Int) : Owned (y.after (.sysOpen path refuse) (rc, z)) := by
  intro c hc f hf _
  show ∃! slot : ProcessPtr × Int, fdGet (z.fdTable slot.1) slot.2 = f
  cases List.mem_cons.mp hc with
  | inl hthis =>
      rw [hthis, created_of_opens hcurrent hopens] at hf
      cases hf
      refine ⟨(process, n), (hslots process n).trans (if_pos ⟨rfl, rfl⟩), ?_⟩
      intro slot hslot
      by_contra hne
      rw [hslots, if_neg fun h => hne (Prod.ext h.1 h.2)] at hslot
      apply hfresh
      rw [← hslot]
      apply hi.slots
      rw [hslot]
      exact hopens.ne_null
  | inr hold =>
      have hmem := hi.created c hold f hf
      obtain ⟨slot, hslot, hunique⟩ := hi.owner howned hold hf
      have hother : ¬ (slot.1 = process ∧ slot.2 = (n : Int)) := by
        intro hthis
        rw [hthis.1, hthis.2, hfree] at hslot
        exact hi.fs.handle_ne_null hmem hslot.symm
      refine ⟨slot, (hslots slot.1 slot.2).trans ((if_neg hother).trans hslot), ?_⟩
      intro slot' hslot'
      rw [hslots] at hslot'
      by_cases hthis : slot'.1 = process ∧ slot'.2 = (n : Int)
      · rw [if_pos hthis] at hslot'
        exact absurd (hslot' ▸ hmem) hfresh
      · rw [if_neg hthis] at hslot'
        exact hunique slot' hslot'

/-- Nothing moves. -/
theorem FileInv.owned_same (hi : FileInv y s ts) (howned : Owned y) {rc : Int}
    (hslots : SlotsKept y.now z) (hcreated : FileCall.created ⟨y.now, op, rc⟩ = none) :
    Owned (y.after op (rc, z)) := by
  intro c hc f hf _
  show ∃! slot : ProcessPtr × Int, fdGet (z.fdTable slot.1) slot.2 = f
  cases List.mem_cons.mp hc with
  | inl hthis =>
      rw [hthis, hcreated] at hf
      cases hf
  | inr hold =>
      obtain ⟨slot, hslot, hunique⟩ := hi.owner howned hold hf
      refine ⟨slot, (hslots slot.1 slot.2).trans hslot, ?_⟩
      intro slot' hslot'
      exact hunique slot' ((hslots slot'.1 slot'.2).symm.trans hslot')

/-- The file object that has got no slot is in none. -/
theorem FileInv.not_owned_leaked (hi : FileInv y s ts) {path : Option (List Byte)}
    {refuse : Bool} {node : Nat} (hcurrent : processCurrent y.now.kernel = some process)
    (hopens : Opens y.now.vfs path refuse file node z.vfs) (hfresh : file ∉ s.handles)
    (hslots : SlotsKept y.now z) (rc : Int) :
    ¬ Owned (y.after (.sysOpen path refuse) (rc, z)) := by
  intro howned
  obtain ⟨slot, hslot, -⟩ := howned _ List.mem_cons_self file
    (created_of_opens hcurrent hopens rc) hopens.live
  have hold : fdGet (y.now.fdTable slot.1) slot.2 = file := (hslots _ _).symm.trans hslot
  apply hfresh
  rw [← hold]
  apply hi.slots
  rw [hold]
  exact hopens.ne_null

/-- The file object whose slot was cleared is in none. -/
theorem FileInv.not_owned_closed (hi : FileInv y s ts) (howned : Owned y)
    (hopen : fdGet (y.now.fdTable process) fd ≠ null) (hslots : SlotSet y.now z process fd null)
    (hvfs : z.vfs = y.now.vfs) (rc : Int) : ¬ Owned (y.after (.sysClose fd) (rc, z)) := by
  intro howned'
  obtain ⟨c, hlast, path, refuse, v', node, hop, hrun, -⟩ := (hi.right process fd).opened hopen
  obtain ⟨hc, hopens⟩ := lastOpen_mem hlast
  have hcurrent := (opens_iff.mp hopens).2.1
  have hcreated : c.created = some (fdGet (y.now.fdTable process) fd) := by
    unfold FileCall.created
    rw [hop, hcurrent]
    dsimp only
    rw [hrun]
    rfl
  obtain ⟨slot, -, hunique⟩ := hi.owner howned hc hcreated
  have hlive : fdGet (y.now.fdTable process) fd ∈ liveAllocations z.vfs.heap := by
    rw [hvfs, ← hi.vfs]
    exact hi.fs.handle_live (hi.slots process fd hopen)
  obtain ⟨slot', hslot', -⟩ := howned' c (List.mem_cons_of_mem _ hc) _ hcreated hlive
  have hset : (if slot'.1 = process ∧ slot'.2 = fd then null
      else fdGet (y.now.fdTable slot'.1) slot'.2) = fdGet (y.now.fdTable process) fd :=
    (hslots slot'.1 slot'.2).symm.trans hslot'
  by_cases hthis : slot'.1 = process ∧ slot'.2 = fd
  · rw [if_pos hthis] at hset
    exact hopen hset.symm
  · rw [if_neg hthis] at hset
    have heq : slot' = (process, fd) := (hunique slot' hset).trans (hunique (process, fd) rfl).symm
    exact hthis ⟨congrArg Prod.fst heq, congrArg Prod.snd heq⟩

/-- A step keeps every live file object owned just when it neither closes
an open descriptor nor opens a file without a slot for it. -/
theorem FileInv.owned_iff (hi : FileInv y s ts) (howned : Owned y)
    (hout : Outcome y.now s op r s') : Owned (y.after op r) ↔ op.Keeps y.now := by
  cases hout with
  | @opened path refuse process n _ _ _ _ hcurrent hopens hfresh _ hinside hfree _ hslots =>
      refine ⟨?_, fun _ => hi.owned_opened howned hcurrent hopens hfresh hfree hslots n⟩
      intro _ other hother
      obtain rfl := Option.some.inj (hcurrent.symm.trans hother)
      exact .inl ⟨n, hinside, (fdGet_slot _ hinside).symm.trans hfree⟩
  | leaked hcurrent hopens hfresh _ hfull hslots =>
      refine ⟨fun h => absurd h (hi.not_owned_leaked hcurrent hopens hfresh hslots _), ?_⟩
      intro hkeeps
      rcases hkeeps _ hcurrent with hfree | hnone | hlost
      · exact absurd hfree hfull
      · exact absurd hnone hopens.memory
      · exact absurd hopens.found (hlost _)
  | closed hcurrent hopen hslots hsame =>
      refine ⟨fun h => absurd h (hi.not_owned_closed howned hopen hslots hsame _), ?_⟩
      intro hkeeps
      exact absurd (hkeeps _ hcurrent) hopen
  | other hkeeps hslots _ _ hcreated _ =>
      exact ⟨fun _ => hkeeps, fun _ => hi.owned_same howned hslots hcreated⟩

/-- A `sys_open` that returns an error has restored the heap's live
allocations just when it is one that keeps. -/
theorem Outcome.error_restores_iff {x : SysFiles} (hout : Outcome x s op r s')
    {path : Option (List Byte)} {refuse : Bool} (hop : op = .sysOpen path refuse)
    (hrc : r.1 < 0) :
    (∀ p, p ∈ liveAllocations r.2.vfs.heap ↔ p ∈ liveAllocations x.vfs.heap) ↔ op.Keeps x := by
  cases hout with
  | @opened _ _ _ n =>
      have herror : (n : Int) < 0 := hrc
      omega
  | leaked hcurrent hopens _ _ hfull _ =>
      constructor
      · intro hsame
        exact absurd ((hsame _).mp hopens.live) hopens.fresh
      · intro hkeeps
        rcases hkeeps _ hcurrent with hfree | hnone | hlost
        · exact absurd hfree hfull
        · exact absurd hnone hopens.memory
        · exact absurd hopens.found (hlost _)
  | closed => cases hop
  | other hkeeps _ _ _ _ hfailed =>
      refine ⟨fun _ => hkeeps, ?_⟩
      intro _ p
      rw [(hfailed path refuse hop).2]

/-- `sys_close` does nothing to the file system. -/
theorem sysClose_vfs (fd : Int) (x : SysFiles) : (Fs.sysClose fd x).2.vfs = x.vfs := by
  unfold Fs.sysClose
  cases processCurrent x.kernel with
  | none => rfl
  | some process =>
      show (x.withTable process (fdClose (x.fdTable process) fd).2).vfs = x.vfs
      cases (fdClose (x.fdTable process) fd).2 with
      | none => rfl
      | some files => rfl

/-- Closing what a `sys_open` has just opened restores nothing. -/
theorem Outcome.close_restores_not {x : SysFiles} (hout : Outcome x s op r s')
    {path : Option (List Byte)} {refuse : Bool} (hop : op = .sysOpen path refuse)
    (hrc : 0 ≤ r.1) :
    ¬ ∀ p, p ∈ liveAllocations (Fs.sysClose r.1 r.2).2.vfs.heap
      ↔ p ∈ liveAllocations x.vfs.heap := by
  rw [sysClose_vfs]
  intro hsame
  cases hout with
  | opened _ hopens => exact hopens.fresh ((hsame _).mp hopens.live)
  | leaked _ hopens => exact hopens.fresh ((hsame _).mp hopens.live)
  | closed => cases hop
  | other _ _ _ _ _ hfailed => exact absurd hrc (Int.not_le.mpr (hfailed path refuse hop).1)

/-- Runs in which no step loses a file object. -/
theorem FileInv.owned_run (hi : FileInv y s ts) (howned : Owned y)
    (hops : AllowedRun fileStep (fun y op => op.Fits y.now ∧ op.Keeps y.now) y ops) :
    ∃ y', runOps fileStep y ops = some y' ∧ Owned y' ∧ ∃ s' ts', FileInv y' s' ts' := by
  refine run_total (P := fun y => Owned y ∧ ∃ s ts, FileInv y s ts) ?_ ⟨howned, s, ts, hi⟩ hops
  intro y op hinv hallowed
  obtain ⟨howned, s, ts, hi⟩ := hinv
  obtain ⟨r, s', ts', hcall, hi', hout⟩ := hi.step hallowed.1
  exact ⟨y.after op r, fileStep_eq hcall, (hi.owned_iff howned hout).mpr hallowed.2, s', ts', hi'⟩

/-- After every run whose calls keep what is open, each file object belongs
to one descriptor; a `sys_close` frees none. -/
theorem open_files_owned_iff (hi : FsInv s ts) (hvfs : s.vfs = z.vfs)
    (hempty : ∀ process, z.fdTable process = fdInit (z.fdTable process))
    (hops : AllowedRun fileStep (fun y op => op.Fits y.now ∧ op.Keeps y.now) ⟨z, []⟩ ops) :
    ∃ y, runOps fileStep ⟨z, []⟩ ops = some y ∧ Owned y
      ∧ ∀ op : FileOp, op.Fits y.now → ∃ rc z', fileCall y.now op = some (rc, z')
        ∧ (Owned (y.after op (rc, z')) ↔ op.Keeps y.now)
        ∧ ∀ path refuse, op = .sysOpen path refuse →
          (rc < 0 → ((∀ p, p ∈ liveAllocations z'.vfs.heap
            ↔ p ∈ liveAllocations y.now.vfs.heap) ↔ op.Keeps y.now))
          ∧ (0 ≤ rc → ¬ ∀ p, p ∈ liveAllocations (Fs.sysClose rc z').2.vfs.heap
            ↔ p ∈ liveAllocations y.now.vfs.heap) := by
  have hstart : Owned ⟨z, []⟩ := by
    intro c hc
    cases hc
  obtain ⟨y, hrun, howned, s', ts', hi'⟩ := (fileInv_start hi hvfs hempty).owned_run hstart hops
  refine ⟨y, hrun, howned, ?_⟩
  intro op hfits
  obtain ⟨⟨rc, z'⟩, s'', ts'', hcall, -, hout⟩ := hi'.step hfits
  refine ⟨rc, z', hcall, hi'.owned_iff howned hout, ?_⟩
  intro path refuse hop
  exact ⟨hout.error_restores_iff hop, hout.close_restores_not hop⟩

/-- `/d/f` is opened by both, a path leads nowhere, and a descriptor that is
not open is closed. -/
def bothOpen : List FileOp :=
  [.sysOpen (some [slash, 0x64#8, slash, 0x66#8]) false, .switchTo (some 1),
    .sysOpen (some [slash, 0x64#8, slash, 0x66#8]) false, .sysOpen (some [slash, 0x67#8]) false,
    .sysClose 3]

/-- Two processes with one file each. -/
theorem open_files_owned_two_processes :
    ∃ s y, runOps fsStep (fsSysInit bootVfs) oneFile = some s
      ∧ runOps fileStep ⟨twoProcesses s.vfs, []⟩ bothOpen = some y
      ∧ (fdGet (y.now.fdTable 0x8000) 0, fdGet (y.now.fdTable 0x9000) 0)
        = (0xFFFF900000000640, 0xFFFF900000000680)
      ∧ Owned y := by
  obtain ⟨s, hrun, ts, hi⟩ := fsRun_inv bootHeap_pmm bootHeap_init bootVfs_boot oneFile_allowed
  have hvalues : (runOps fsStep (fsSysInit bootVfs) oneFile).map (fun s =>
      (decide (AllowedRun fileStep (fun y op => op.Fits y.now ∧ op.Keeps y.now)
          ⟨twoProcesses s.vfs, []⟩ bothOpen),
        (runOps fileStep ⟨twoProcesses s.vfs, []⟩ bothOpen).map fun y =>
          (fdGet (y.now.fdTable 0x8000) 0, fdGet (y.now.fdTable 0x9000) 0)))
      = some (true, some (0xFFFF900000000640, 0xFFFF900000000680)) := by decide +kernel
  rw [hrun, Option.map_some] at hvalues
  injection hvalues with hvalues
  injection hvalues with hallowed hslots
  obtain ⟨y, hfiles, howned, -⟩ := open_files_owned_iff hi rfl (fun _ => rfl)
    (of_decide_eq_true hallowed)
  rw [hfiles, Option.map_some] at hslots
  injection hslots with hslots
  exact ⟨s, y, hrun, hfiles, hslots, howned⟩

/-- One file is opened and closed. Its object stays in the heap and no
descriptor has it. -/
theorem sys_close_leaks_file :
    ∃ s y y', runOps fsStep (fsSysInit bootVfs) oneFile = some s
      ∧ runOps fileStep ⟨twoProcesses s.vfs, []⟩
        [.sysOpen (some [slash, 0x64#8, slash, 0x66#8]) false] = some y
      ∧ fileStep y (.sysClose 0) = some y' ∧ y'.calls.map FileCall.result = [kernelSuccess, 0]
      ∧ ¬ Owned y'
      ∧ 0xFFFF900000000640 ∈ liveAllocations y'.now.vfs.heap
      ∧ 0xFFFF900000000640 ∉ liveAllocations s.vfs.heap := by
  obtain ⟨s, hrun, ts, hi⟩ := fsRun_inv bootHeap_pmm bootHeap_init bootVfs_boot oneFile_allowed
  have hvalues : (runOps fsStep (fsSysInit bootVfs) oneFile).bind (fun s =>
      (runOps fileStep ⟨twoProcesses s.vfs, []⟩
        [.sysOpen (some [slash, 0x64#8, slash, 0x66#8]) false]).bind fun y =>
          (fileStep y (.sysClose 0)).map fun y' =>
            (y'.calls.map FileCall.result, decide ((FileOp.sysClose 0).Keeps y.now),
              decide (0xFFFF900000000640 ∈ liveAllocations y'.now.vfs.heap),
              decide (0xFFFF900000000640 ∈ liveAllocations s.vfs.heap)))
      = some ([kernelSuccess, 0], false, true, false) := by decide +kernel
  rw [hrun, Option.bind_some] at hvalues
  obtain ⟨y, hfiles, hvalues⟩ := Option.bind_eq_some_iff.mp hvalues
  obtain ⟨y', hclose, hvalues⟩ := Option.map_eq_some_iff.mp hvalues
  injection hvalues with hresults hvalues
  injection hvalues with hkeeps hvalues
  injection hvalues with hlive hbefore
  have hallowed : AllowedRun fileStep (fun y op => op.Fits y.now ∧ op.Keeps y.now)
      ⟨twoProcesses s.vfs, []⟩ [.sysOpen (some [slash, 0x64#8, slash, 0x66#8]) false] := by
    refine ⟨⟨trivial, ?_⟩, ?_⟩
    · intro process hprocess
      cases hprocess
      exact .inl ⟨0, by decide, rfl⟩
    · cases fileStep _ _ with
      | none => trivial
      | some _ => trivial
  have hstart : Owned ⟨twoProcesses s.vfs, []⟩ := by
    intro c hc
    cases hc
  obtain ⟨x, hx, howned, s', ts', hi'⟩ :=
    (fileInv_start hi rfl (fun _ => rfl)).owned_run hstart hallowed
  rw [hfiles] at hx
  cases hx
  obtain ⟨r, s'', ts'', hcall, -, hout⟩ :=
    hi'.step (show FileOp.Fits y.now (.sysClose 0) from trivial)
  rw [fileStep_eq hcall] at hclose
  cases hclose
  refine ⟨s, y, _, hrun, hfiles, fileStep_eq hcall, hresults, ?_, of_decide_eq_true hlive,
    of_decide_eq_false hbefore⟩
  intro hafter
  exact of_decide_eq_false hkeeps ((hi'.owned_iff howned hout).mp hafter)

end ZenithOS.Fs
