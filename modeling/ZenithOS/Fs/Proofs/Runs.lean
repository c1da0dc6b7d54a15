/-
Whole runs of the RAM file system.

Every allowed call comes back and keeps `FsInv` (`FsInv.step`), so every
run from a mounted root does. Three results are read off it: the nodes
form a tree and errors change nothing, paths resolve as their components
say, and a file reads back what was last written to it, as long as no
write is larger than the buffer that the first one made.
-/
import ZenithOS.Fs.Proofs.Store

namespace ZenithOS.Fs

open Lib Klib Mm Vmm

variable {y : FsSys} {v v' : Vfs} {h : Heap} {ts : List Tile} {fs : Nat} {refuse : Bool}

/-- Every allowed call comes back and keeps the invariant. -/
theorem FsInv.step (hi : FsInv y ts) {op : FsOp} (hop : op.Allowed y) :
    ∃ y', fsStep y op = some y' ∧ ∃ ts', FsInv y' ts' := by
  cases op with
  | mkdir dir name refuse =>
      obtain ⟨rc, v, ts', hrun, hi', -⟩ := hi.add hop.1 hop.2 .directory refuse
      exact ⟨_, by simp only [fsStep, ramfsMkdir, hrun, Option.map_some], ts', hi'⟩
  | create dir name refuse =>
      obtain ⟨rc, v, ts', hrun, hi', -⟩ := hi.add hop.1 hop.2 .file refuse
      exact ⟨_, by simp only [fsStep, ramfsCreate, hrun, Option.map_some], ts', hi'⟩
  | lookup dir name => exact ⟨y, rfl, ts, hi⟩
  | openFile path refuse =>
      obtain ⟨rc, result, v, ts', hrun, hi', -⟩ := hi.openFile path refuse
      exact ⟨_, by simp only [fsStep, hrun, Option.map_some], ts', hi'⟩
  | write file buffer size refuse =>
      obtain ⟨rc, v, ts', hrun, hi', -⟩ := hi.write hop.1 hop.2.1 hop.2.2 buffer refuse
      exact ⟨_, by simp only [fsStep, hrun, Option.map_some], ts', hi'⟩
  | read file buffer size => exact ⟨_, rfl, ts, hi.read hop buffer size⟩

-- ==================================================================== boot

/-- What a successful `vfs_mount` of a first file system did. -/
theorem vfsMount_root (hroot : v.rootMount = null)
    (hops : (v.filesystems fs).ops = some .ramfsFsOps)
    (hmount : vfsMount fs null refuse v = some (kernelSuccess, v')) :
    fs ≠ null ∧ ∃ p h, kmallocUnless refuse mountBytes v.heap = some (p, h) ∧ p ≠ null
      ∧ v' = (ramfsMount fs { v with
          heap := h
          mounts := Function.update v.mounts p { fs := fs, mountpoint := null, next := v.mountList }
          mountList := p
          rootMount := p }).2 := by
  rw [vfsMount] at hmount
  split at hmount
  · injection hmount with hmount
    injection hmount with hrc
    exact absurd hrc einval_ne
  · rename_i hfs
    refine ⟨hfs, ?_⟩
    rw [if_neg (by simp [hroot])] at hmount
    cases hrun : kmallocUnless refuse mountBytes v.heap with
    | none =>
        rw [hrun] at hmount
        cases hmount
    | some r =>
        obtain ⟨p, h⟩ := r
        simp only [hrun, Option.bind_eq_bind, Option.bind_some] at hmount
        by_cases hp : p = null
        · rw [if_pos hp] at hmount
          injection hmount with hmount
          injection hmount with hrc
          exact absurd hrc enomem_ne
        · simp only [if_neg hp, hroot, if_true, hops] at hmount
          refine ⟨p, h, rfl, hp, ?_⟩
          injection hmount with hmount
          rw [hmount]

/-- A tree of its root alone. -/
theorem treeInv_root (nodes : Nat → RamfsNode) (fs : Nat) :
    TreeInv (Function.update nodes ramfsRoot
      (newNode .directory (List.replicate 64 0#8) null fs ramfsRoot)) [ramfsRoot] := by
  have hself : Function.update nodes ramfsRoot
      (newNode .directory (List.replicate 64 0#8) null fs ramfsRoot) ramfsRoot
      = newNode .directory (List.replicate 64 0#8) null fs ramfsRoot := Function.update_self ..
  refine ⟨List.nodup_singleton _, ?_, List.mem_singleton.mpr rfl, ?_, ?_, ?_, ?_, ?_, ?_, ?_, ?_⟩
  all_goals
    intro n hn
    rw [List.mem_singleton] at hn
    subst hn
  · decide
  · exact .root
  · rw [hself]
    rfl
  · rw [hself]
    rfl
  · rw [nodeName, hself]
    show (List.replicate 64 0#8).length = 64 ∧ (cString (List.replicate 64 0#8)).length ≤ 63
    decide
  · rw [hself]
    exact Nat.zero_le _
  · rw [hself]
    exact fun _ => rfl
  · rw [hself]
    exact fun i hi => absurd hi (Nat.not_lt_zero i)
  · rw [hself]
    exact fun i hi => absurd hi (Nat.not_lt_zero i)

/-- The invariant holds once the root is mounted. -/
theorem fsBoot_inv (hheap : HeapInv h ts)
    (hboot : fsBoot h fs refuse v = some (kernelSuccess, v')) :
    ∃ ts', FsInv (fsSysInit v') ts' := by
  have hnull : fs ≠ null := by
    intro hfs
    rw [fsBoot, vfsMount, if_pos hfs] at hboot
    injection hboot with hboot
    injection hboot with hrc
    exact absurd hrc einval_ne
  rw [fsBoot, ramfsInit, if_neg hnull] at hboot
  obtain ⟨-, p, h', hrun, hp, rfl⟩ := vfsMount_root rfl (by simp) hboot
  obtain ⟨p', h'', ts', hrun', hheap', -, -⟩ := kmallocUnless_spec hheap refuse mountBytes
  obtain ⟨rfl, rfl⟩ : p' = p ∧ h'' = h' := by
    have heq := hrun'.symm.trans hrun
    injection heq with heq
    injection heq with hp hh
    exact ⟨hp, hh⟩
  have hself := fun nodes : Nat → RamfsNode => Function.update_self ramfsRoot
    (newNode .directory (List.replicate 64 0#8) null fs ramfsRoot) nodes
  rw [ramfsMount, if_neg hnull]
  refine ⟨ts', hheap', ?_, treeInv_root _ fs, ?_, ?_, ?_, fun _ _ => rfl, ?_⟩
  · simp [fsSysInit, vfsGetRoot, hp, hnull, setNode]
  · intro n hn hne
    exact absurd (List.mem_singleton.mp hn) hne
  · intro f hf
    cases hf
  · intro n hn
    rw [List.mem_singleton.mp hn]
    refine ⟨?_, ?_, ?_, ?_⟩ <;> simp only [fsSysInit, setNode, hself]
    · exact fun _ => rfl
    · exact Nat.le_refl 0
    · exact fun h => absurd rfl h
    · rfl
  · intro n hn hdata
    rw [List.mem_singleton.mp hn] at hdata
    simp only [fsSysInit, setNode, hself] at hdata
    exact absurd rfl hdata

-- ==================================================================== runs

/-- The run from a mounted root. -/
theorem fsRun_inv {boot : Heap} (hpmm : PmmInv boot.vm.pmm) (hinit : heapInit boot = (true, h))
    (hboot : fsBoot h fs refuse v = some (kernelSuccess, v')) {ops : List FsOp}
    (hops : AllowedRun fsStep (fun y op => op.Allowed y) (fsSysInit v') ops) :
    ∃ y, runOps fsStep (fsSysInit v') ops = some y ∧ ∃ ts, FsInv y ts := by
  refine run_total (P := fun y => ∃ ts, FsInv y ts) ?_ ?_ hops
  · intro y op hi hop
    obtain ⟨ts, hi⟩ := hi
    exact hi.step hop
  · exact fsBoot_inv (heapInit_inv hpmm hinit) hboot

/-- No objects yet. -/
def emptyVfs (h : Heap) : Vfs :=
  { heap := h
    nodes := fun _ => newNode .file [] null null null
    files := fun _ => ⟨null, 0, 0, 0⟩
    filesystems := fun _ => ⟨List.replicate 32 0#8, null, none⟩
    mounts := fun _ => ⟨null, null, null⟩
    mountList := null
    rootMount := null }

/-- A RAM file system mounted on the small heap. -/
def bootVfs : Vfs :=
  ((fsBoot (heapInit bootHeap).2 0x5000 false (emptyVfs (heapInit bootHeap).2)).getD
    (kernelSuccess, emptyVfs (heapInit bootHeap).2)).2

/-- The root of the examples is mounted. -/
theorem bootVfs_boot : fsBoot (heapInit bootHeap).2 0x5000 false (emptyVfs (heapInit bootHeap).2)
    = some (kernelSuccess, bootVfs) := by
  have hrc : (fsBoot (heapInit bootHeap).2 0x5000 false (emptyVfs (heapInit bootHeap).2)).map
      Prod.fst = some kernelSuccess := by decide
  unfold bootVfs
  cases hboot : fsBoot (heapInit bootHeap).2 0x5000 false (emptyVfs (heapInit bootHeap).2) with
  | none =>
      rw [hboot] at hrc
      cases hrc
  | some r =>
      rw [hboot] at hrc
      obtain ⟨rc, v⟩ := r
      injection hrc with hrc
      rw [show rc = kernelSuccess from hrc]
      rfl

/-- A directory `d`, a file `f` in it, a failing allocation, `f` opened
and three bytes written to it. -/
def oneFile : List FsOp :=
  [.mkdir ramfsRoot (some [0x64#8]) false,
    .create 0xFFFF900000000070 (some [0x66#8]) false,
    .create 0xFFFF900000000070 (some [0x67#8]) true,
    .openFile (some [slash, 0x64#8, slash, slash, 0x66#8]) false,
    .write 0xFFFF9000000005D0 (some fun i => BitVec.ofNat 8 (i + 1)) 3 false]

theorem oneFile_allowed : AllowedRun fsStep (fun y op => op.Allowed y) (fsSysInit bootVfs)
    oneFile := by
  decide +kernel

/-- In every run from a mounted root, whatever allocations fail: the
nodes form a tree, a name is added exactly when it can be, and an error
leaves nodes, names, sizes and buffers as they were. -/
theorem ramfs_tree_and_atomicity (boot h : Heap) (hpmm : PmmInv boot.vm.pmm)
    (hinit : heapInit boot = (true, h)) (fs : Nat) (refuse : Bool) (v v' : Vfs)
    (hboot : fsBoot h fs refuse v = some (kernelSuccess, v')) (ops : List FsOp)
    (hops : AllowedRun fsStep (fun y op => op.Allowed y) (fsSysInit v') ops) :
    ∃ y, runOps fsStep (fsSysInit v') ops = some y
      ∧ TreeInv y.vfs.nodes y.tree
      ∧ (∀ n ∈ y.tree, n ≠ ramfsRoot → ∃ d ∈ y.tree, ∃ i < (y.vfs.nodes d).childCount,
          (y.vfs.nodes d).children i = n ∧ ∀ e ∈ y.tree, ∀ j < (y.vfs.nodes e).childCount,
            (y.vfs.nodes e).children j = n → e = d ∧ j = i)
      ∧ (∀ add ∈ [ramfsMkdir, ramfsCreate], ∀ dir name refuse, dir = null ∨ dir ∈ y.tree →
          NameFits name → ∃ rc w, add dir name refuse y.vfs = some (rc, w)
            ∧ (rc = kernelSuccess ↔ Addable y dir name refuse)
            ∧ (rc ≠ kernelSuccess → Kept y w))
      ∧ ∀ file buffer size refuse, (FsOp.write file buffer size refuse).Allowed y →
          ∃ rc w, vfsWrite file buffer size refuse y.vfs = some (rc, w)
            ∧ (rc ≠ kernelSuccess → Kept y w) := by
  obtain ⟨y, hrun, ts, hi⟩ := fsRun_inv hpmm hinit hboot hops
  refine ⟨y, hrun, hi.tree, ?_, ?_, ?_⟩
  · intro n hn hroot
    obtain ⟨hparent, hplace⟩ := hi.tree.place hn hroot
    exact ⟨_, hparent, hplace⟩
  · intro add hadd dir name refuse hdir hname
    have hadds : ∃ type, add = ramfsAdd type := by
      simp only [List.mem_cons, List.not_mem_nil, or_false] at hadd
      cases hadd with
      | inl h => exact ⟨.directory, h⟩
      | inr h => exact ⟨.file, h⟩
    obtain ⟨type, rfl⟩ := hadds
    obtain ⟨rc, w, ts', hstep, -, hiff, hkept⟩ := hi.add hdir hname type refuse
    exact ⟨rc, w, hstep, hiff, hkept⟩
  · intro file buffer size refuse hop
    obtain ⟨rc, w, ts', hstep, -, -, hkept⟩ := hi.write hop.1 hop.2.1 hop.2.2 buffer refuse
    exact ⟨rc, w, hstep, hkept⟩

/-- A directory with one file. -/
theorem ramfs_tree_and_atomicity_one_file :
    ∃ y, runOps fsStep (fsSysInit bootVfs) oneFile = some y
      ∧ (y.tree.length = 3 ∧ y.handles = [0xFFFF9000000005D0]) ∧ TreeInv y.vfs.nodes y.tree := by
  obtain ⟨y, hrun, htree, -⟩ := ramfs_tree_and_atomicity bootHeap (heapInit bootHeap).2
    bootHeap_pmm bootHeap_init 0x5000 false (emptyVfs (heapInit bootHeap).2) bootVfs bootVfs_boot
    oneFile oneFile_allowed
  have hfinal : (runOps fsStep (fsSysInit bootVfs) oneFile).map
      (fun y => (y.tree.length, y.handles)) = some (3, [0xFFFF9000000005D0]) := by decide +kernel
  rw [hrun] at hfinal
  exact ⟨y, hrun, by simpa using hfinal, htree⟩

/-- In every run, looking up a path comes back with the result of
descending along its components, so that paths with the same components
resolve alike. -/
theorem vfs_lookup_resolves_components (boot h : Heap) (hpmm : PmmInv boot.vm.pmm)
    (hinit : heapInit boot = (true, h)) (fs : Nat) (refuse : Bool) (v v' : Vfs)
    (hboot : fsBoot h fs refuse v = some (kernelSuccess, v')) (ops : List FsOp)
    (hops : AllowedRun fsStep (fun y op => op.Allowed y) (fsSysInit v') ops) :
    ∃ y, runOps fsStep (fsSysInit v') ops = some y
      ∧ (∀ path, ∃ rc result, vfsLookup y.vfs (some path) = some (rc, result)
          ∧ (result = none ↔ rc ≠ kernelSuccess)
          ∧ ∀ rc' result', Resolves y.vfs.nodes ramfsRoot (components path) rc' result'
            ↔ rc' = rc ∧ result' = result)
      ∧ ∀ path path', components path = components path' →
          vfsLookup y.vfs (some path) = vfsLookup y.vfs (some path') := by
  obtain ⟨y, hrun, ts, hi⟩ := fsRun_inv hpmm hinit hboot hops
  refine ⟨y, hrun, ?_, ?_⟩
  · intro path
    obtain ⟨rc, result, hlook, hres⟩ := vfsLookup_resolves hi.tree hi.root path
    refine ⟨rc, result, hlook, ?_, ?_⟩
    · exact hres.none_iff
    · intro rc' result'
      constructor
      · intro hres'
        exact hres'.unique hi.tree hi.tree.root hres
      · rintro ⟨rfl, rfl⟩
        exact hres
  · intro path path' hsame
    obtain ⟨rc, result, hlook, hres⟩ := vfsLookup_resolves hi.tree hi.root path
    obtain ⟨rc', result', hlook', hres'⟩ := vfsLookup_resolves hi.tree hi.root path'
    rw [hsame] at hres
    obtain ⟨rfl, rfl⟩ := hres.unique hi.tree hi.tree.root hres'
    rw [hlook, hlook']

/-- Slashes in the middle and at the end. -/
theorem vfs_lookup_resolves_components_one_file :
    ∃ y, runOps fsStep (fsSysInit bootVfs) oneFile = some y
      ∧ vfsLookup y.vfs (some [slash, slash, 0x64#8, slash, 0x66#8, slash])
        = vfsLookup y.vfs (some [0x64#8, slash, slash, 0x66#8])
      ∧ Resolves y.vfs.nodes ramfsRoot [[0x64#8], [0x66#8]] kernelSuccess
        (some 0xFFFF900000000320) := by
  obtain ⟨y, hrun, hresolves, hsame⟩ := vfs_lookup_resolves_components bootHeap
    (heapInit bootHeap).2 bootHeap_pmm bootHeap_init 0x5000 false
    (emptyVfs (heapInit bootHeap).2) bootVfs bootVfs_boot oneFile oneFile_allowed
  have hfinal : (runOps fsStep (fsSysInit bootVfs) oneFile).bind
      (fun y => vfsLookup y.vfs (some [0x64#8, slash, slash, 0x66#8]))
        = some (kernelSuccess, some 0xFFFF900000000320) := by decide +kernel
  rw [hrun] at hfinal
  obtain ⟨rc, result, hlook, -, hiff⟩ := hresolves [0x64#8, slash, slash, 0x66#8]
  refine ⟨y, hrun, hsame _ _ (by decide), ?_⟩
  rw [show [[0x64#8], [0x66#8]] = components [0x64#8, slash, slash, 0x66#8] by decide, hiff]
  rw [Option.bind_some, hlook] at hfinal
  injection hfinal with hfinal
  injection hfinal with hrc hresult
  exact ⟨hrc.symm, hresult.symm⟩

-- =================================================================== store

/-- In every run in which no write is larger than the buffer it finds:
every file is inside its buffer and the buffer inside its block, every
write stores inside the buffer, and reading a file gives the first bytes
of what was last written to it. -/
theorem ramfs_reads_last_write (boot h : Heap) (hpmm : PmmInv boot.vm.pmm)
    (hinit : heapInit boot = (true, h)) (fs : Nat) (refuse : Bool) (v v' : Vfs)
    (hboot : fsBoot h fs refuse v = some (kernelSuccess, v')) (ops : List FsOp)
    (hops : AllowedRun fsStep (fun y op => op.Allowed y) (fsSysInit v') ops) :
    ∃ y, runOps fsStep (fsSysInit v') ops = some y
      ∧ (∀ n ∈ y.tree, (y.vfs.nodes n).vnode.size ≤ (y.vfs.nodes n).capacity
          ∧ ((y.vfs.nodes n).data ≠ null →
            (y.vfs.nodes n).capacity ≤ liveSize y.vfs.heap (y.vfs.nodes n).data
              ∧ blockFree y.vfs.heap.mem (payloadBlock (y.vfs.nodes n).data) = false))
      ∧ (∀ file buffer size refuse, (FsOp.write file buffer size refuse).Allowed y →
          ∃ rc w, vfsWrite file buffer size refuse y.vfs = some (rc, w)
            ∧ (rc = kernelSuccess → StoresInside y file size refuse w))
      ∧ ∀ file ∈ y.handles, (y.vfs.nodes (y.vfs.files file).node).vnode.type = .file →
          ∀ buffer ≠ null, ∀ size, (vfsRead file buffer size y.vfs).2.1
            = ((y.written (y.vfs.files file).node).getD []).take size := by
  obtain ⟨y, hrun, ts, hi⟩ := fsRun_inv hpmm hinit hboot hops
  refine ⟨y, hrun, ?_, ?_, ?_⟩
  · intro n hn
    exact ⟨(hi.data n hn).size, hi.buffer_live hn⟩
  · intro file buffer size refuse hop
    obtain ⟨rc, w, ts', hstep, -, hinside, -⟩ := hi.write hop.1 hop.2.1 hop.2.2 buffer refuse
    exact ⟨rc, w, hstep, hinside⟩
  · intro file hfile htype buffer hbuffer size
    exact hi.read_bytes hfile htype hbuffer size

/-- A file in a directory and one in the root; the first is written twice,
with fewer bytes the second time. -/
def twoFiles : List FsOp :=
  [.mkdir ramfsRoot (some [0x64#8]) false,
    .create 0xFFFF900000000070 (some [0x66#8]) false,
    .create ramfsRoot (some [0x67#8]) false,
    .openFile (some [slash, 0x64#8, slash, 0x66#8]) false,
    .openFile (some [slash, 0x67#8]) false,
    .write 0xFFFF900000000880 (some fun i => BitVec.ofNat 8 (i + 1)) 5 false,
    .write 0xFFFF9000000008C0 (some fun i => BitVec.ofNat 8 (i % 2 + 5)) 4 false,
    .write 0xFFFF900000000880 (some fun i => BitVec.ofNat 8 (i + 7)) 3 false]

/-- Each file reads as it was last written. -/
theorem ramfs_reads_last_write_two_files :
    ∃ y, runOps fsStep (fsSysInit bootVfs) twoFiles = some y
      ∧ (vfsRead 0xFFFF900000000880 0x9000 5 y.vfs).2.1 = [7#8, 8#8, 9#8]
      ∧ (vfsRead 0xFFFF9000000008C0 0x9000 3 y.vfs).2.1 = [5#8, 6#8, 5#8] := by
  obtain ⟨y, hrun, -, -, hread⟩ := ramfs_reads_last_write bootHeap (heapInit bootHeap).2
    bootHeap_pmm bootHeap_init 0x5000 false (emptyVfs (heapInit bootHeap).2) bootVfs bootVfs_boot
    twoFiles (by decide +kernel)
  have hfinal : (runOps fsStep (fsSysInit bootVfs) twoFiles).map (fun y =>
      (y.handles, y.handles.map fun file =>
        ((y.vfs.nodes (y.vfs.files file).node).vnode.type, y.written (y.vfs.files file).node)))
      = some ([0xFFFF9000000008C0, 0xFFFF900000000880],
        [(.file, some [5#8, 6#8, 5#8, 6#8]), (.file, some [7#8, 8#8, 9#8])]) := by
    decide +kernel
  rw [hrun] at hfinal
  injection hfinal with hfinal
  injection hfinal with hhandles hfiles
  rw [hhandles] at hfiles
  injection hfiles with hsecond hfiles
  injection hsecond with hsecondType hsecondWritten
  injection hfiles with hfirst _
  injection hfirst with hfirstType hfirstWritten
  refine ⟨y, hrun, ?_, ?_⟩
  · rw [hread _ (by simp [hhandles]) hfirstType 0x9000 (by decide) 5, hfirstWritten]
    rfl
  · rw [hread _ (by simp [hhandles]) hsecondType 0x9000 (by decide) 3, hsecondWritten]
    rfl

/-- Two files, sixteen bytes in each, and then sixty-four into the first. -/
def overrun : List FsOp :=
  [.create ramfsRoot (some [0x66#8]) false,
    .create ramfsRoot (some [0x67#8]) false,
    .openFile (some [slash, 0x66#8]) false,
    .openFile (some [slash, 0x67#8]) false,
    .write 0xFFFF9000000005D0 (some fun _ => 1#8) 16 false,
    .write 0xFFFF900000000610 (some fun _ => 2#8) 16 false,
    .write 0xFFFF9000000005D0 (some fun _ => 3#8) 64 false]

/-- The larger second write runs past the buffer of the first file, into
the contents of the second. -/
theorem ramfs_second_write_overruns :
    ∃ y, runOps fsStep (fsSysInit bootVfs) overrun = some y
      ∧ (∃ n ∈ y.tree, (y.vfs.nodes n).capacity < (y.vfs.nodes n).vnode.size)
      ∧ ∃ file ∈ y.handles, (vfsRead file 0x9000 16 y.vfs).2.1
          ≠ ((y.written (y.vfs.files file).node).getD []).take 16 := by
  have hfinal : (runOps fsStep (fsSysInit bootVfs) overrun).any (fun y =>
      decide ((∃ n ∈ y.tree, (y.vfs.nodes n).capacity < (y.vfs.nodes n).vnode.size)
        ∧ ∃ file ∈ y.handles, (vfsRead file 0x9000 16 y.vfs).2.1
          ≠ ((y.written (y.vfs.files file).node).getD []).take 16)) = true := by
    decide +kernel
  obtain ⟨y, hrun, hbad⟩ := (Option.any_eq_true _ _).mp hfinal
  exact ⟨y, hrun, of_decide_eq_true hbad⟩

end ZenithOS.Fs
