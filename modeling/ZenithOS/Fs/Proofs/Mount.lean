/-
Mounts that go wrong.

# A mount operation that fails

`vfs_mount` links the mount record, and may make it the root, before it
calls the mount operation of the file system. When that fails the record
stays (`vfs_mount_undone_iff`); after a root file system that failed no
other can be mounted.

# A second RAM file system

All RAM file systems have one root, the static `ramfs_root`, and
`ramfs_mount` clears it. So the second one takes the tree of the first
away, unless it is mounted on the root itself, through which all paths go
(`vfs_mount_keeps_namespace_iff`).
-/
import ZenithOS.Fs.Mount
import ZenithOS.Fs.Proofs.Runs
import ZenithOS.Mm.Proofs.HeapFrames

namespace ZenithOS.Fs

open Lib Klib Mm Vmm

variable {v v' w : Vfs} {h : Heap} {ts : List Tile} {fs mountpoint mount : Nat} {refuse : Bool}
  {operation : Option MountOperation} {y : FsSys} {path : List Byte} {n : Nat}

-- ============================================================ failed mounts

/-- The mounts and the live allocations are those there were. -/
def NoTrace (v v' : Vfs) : Prop :=
  v'.mountList = v.mountList ∧ v'.rootMount = v.rootMount ∧ vfsGetRoot v' = vfsGetRoot v
    ∧ ∀ p, p ∈ liveAllocations v'.heap ↔ p ∈ liveAllocations v.heap

/-- `vfs_mount` comes to the mount operation, in the state `w`. -/
def ReachesOperation (fs mountpoint : Nat) (refuse : Bool) (v w : Vfs) : Prop :=
  (fs ≠ null ∧ ¬ (v.rootMount ≠ null ∧ mountpoint = null))
    ∧ ∃ mount heap, kmallocUnless refuse mountBytes v.heap = some (mount, heap)
      ∧ mount ≠ null ∧ w = vfsLink fs mountpoint mount { v with heap := heap }

/-- Everything `vfs_mount` may come to. -/
theorem vfsMountWith_cases (hi : HeapInv v.heap ts) (operation : Option MountOperation)
    (fs mountpoint : Nat) (refuse : Bool) :
    ∃ rc v', vfsMountWith operation fs mountpoint refuse v = some (rc, v')
      ∧ (NoTrace v v' ∧ rc ≠ kernelSuccess ∧ (∀ w, ¬ ReachesOperation fs mountpoint refuse v w)
        ∨ ∃ w, ReachesOperation fs mountpoint refuse v w
          ∧ (∀ w', ReachesOperation fs mountpoint refuse v w' → w' = w)
          ∧ (operation = none ∧ (rc, v') = (kernelSuccess, w)
            ∨ ∃ o, operation = some o ∧ (rc, v') = o fs w)) := by
  have hnone : NoTrace v v := ⟨rfl, rfl, rfl, fun _ => Iff.rfl⟩
  unfold vfsMountWith
  by_cases hfs : fs = null
  · refine ⟨kernelEinval, v, by rw [if_pos hfs], .inl ⟨hnone, einval_ne, ?_⟩⟩
    intro w hw
    exact hw.1.1 hfs
  rw [if_neg hfs]
  by_cases hroot : v.rootMount ≠ null ∧ mountpoint = null
  · refine ⟨kernelEinval, v, by rw [if_pos hroot], .inl ⟨hnone, einval_ne, ?_⟩⟩
    intro w hw
    exact hw.1.2 hroot
  rw [if_neg hroot]
  obtain ⟨mount, heap, ts', hrun, hi', halloc, -⟩ := kmallocUnless_spec hi refuse mountBytes
  rw [hrun, Option.bind_eq_bind, Option.bind_some]
  dsimp only
  by_cases hmount : mount = null
  · refine ⟨kernelEnomem, { v with heap := heap }, by rw [if_pos hmount],
      .inl ⟨⟨rfl, rfl, rfl, ?_⟩, enomem_ne, ?_⟩⟩
    · rw [hmount] at halloc
      intro p
      show p ∈ liveAllocations heap ↔ _
      rw [hi.live_of_null hi' halloc]
    · intro w hw
      obtain ⟨-, mount', heap', hrun', hne, -⟩ := hw
      rw [hrun] at hrun'
      cases hrun'
      exact hne hmount
  · rw [if_neg hmount]
    have hw : ReachesOperation fs mountpoint refuse v
        (vfsLink fs mountpoint mount { v with heap := heap }) :=
      ⟨⟨hfs, hroot⟩, mount, heap, hrun, hmount, rfl⟩
    have hunique : ∀ w', ReachesOperation fs mountpoint refuse v w' →
        w' = vfsLink fs mountpoint mount { v with heap := heap } := by
      intro w' hw'
      obtain ⟨-, mount', heap', hrun', -, heq⟩ := hw'
      rw [hrun] at hrun'
      cases hrun'
      exact heq
    cases operation with
    | none => exact ⟨kernelSuccess, _, rfl, .inr ⟨_, hw, hunique, .inl ⟨rfl, rfl⟩⟩⟩
    | some o =>
        refine ⟨_, _, mounted_eq _, .inr ⟨_, hw, hunique, .inr ⟨o, rfl, rfl⟩⟩⟩

/-- A `vfs_mount` that returns an error leaves no trace just when the error
is not the mount operation's. -/
theorem vfs_mount_undone_iff (hi : HeapInv v.heap ts)
    (hlist : v.mountList = null ∨ v.mountList ∈ liveAllocations v.heap)
    (hkeeps : ∀ o ∈ operation, ∀ w, (o fs w).2.mountList = w.mountList) :
    (∀ rc v', vfsMountWith operation fs mountpoint refuse v = some (rc, v') →
        rc ≠ kernelSuccess → NoTrace v v')
      ↔ ∀ w, ReachesOperation fs mountpoint refuse v w →
        ∀ o ∈ operation, (o fs w).1 = kernelSuccess := by
  obtain ⟨rc, v', hrun, hcases⟩ := vfsMountWith_cases hi operation fs mountpoint refuse
  constructor
  · intro hundone w hw o ho
    by_contra herror
    rcases hcases with ⟨-, -, hstopped⟩ | ⟨w', -, hunique, hcases⟩
    · exact hstopped w hw
    obtain rfl := hunique w hw
    rcases hcases with ⟨hno, -⟩ | ⟨o', ho', hresult⟩
    · rw [hno] at ho
      cases ho
    obtain rfl : o = o' := Option.some.inj (ho.symm.trans ho')
    obtain ⟨rfl, rfl⟩ := Prod.mk.inj hresult
    have hlink := (hundone _ _ hrun herror).1
    rw [hkeeps o ho] at hlink
    -- the new record is at the head of the list, and it was not before
    obtain ⟨-, mount, heap, hmalloc, hmount, rfl⟩ := hw
    obtain ⟨p, heap', ts', hspec, hi', halloc, -⟩ := kmallocUnless_spec hi refuse mountBytes
    rw [hmalloc] at hspec
    cases hspec
    have hhead : mount = v.mountList := hlink
    cases hlist with
    | inl hnull => exact hmount (hhead.trans hnull)
    | inr hlive => exact (hi.live_of_new hi' halloc hmount).2 (hhead ▸ hlive)
  · intro hsucceeds rc' v'' hrun' herror
    rw [hrun] at hrun'
    cases hrun'
    rcases hcases with ⟨htrace, -⟩ | ⟨w, hw, -, ⟨-, hresult⟩ | ⟨o, ho, hresult⟩⟩
    · exact htrace
    · exact absurd (Prod.mk.inj hresult).1 herror
    · have hrc := hsucceeds w hw o ho
      rw [← hresult] at hrc
      exact absurd hrc herror

/-- The boot heap before anything is mounted. -/
abbrev unmounted : Vfs := emptyVfs (heapInit bootHeap).2

/-- There is no memory for the record. -/
theorem vfs_mount_undone_no_memory :
    ∃ v', vfsMountWith (some ramfsMount) 0x5000 null true unmounted = some (kernelEnomem, v')
      ∧ NoTrace unmounted v' := by
  have hvalues : (vfsMountWith (some ramfsMount) 0x5000 null true unmounted).map Prod.fst
      = some kernelEnomem := by decide
  obtain ⟨⟨rc, v'⟩, hrun, hrc⟩ := Option.map_eq_some_iff.mp hvalues
  have hrc' : rc = kernelEnomem := hrc
  rw [hrc'] at hrun
  refine ⟨v', hrun, ?_⟩
  refine (vfs_mount_undone_iff (heapInit_inv bootHeap_pmm bootHeap_init) (.inl rfl) ?_).mpr ?_
    kernelEnomem v' hrun enomem_ne
  · intro o ho w
    cases ho
    rw [ramfsMount]
    split_ifs
    · rfl
    · rfl
  · intro w hw o ho
    cases ho
    rw [ramfsMount, if_neg hw.1.1]

/-- The first mount operation fails: its file system is the root all the
same, and no other can be. -/
theorem vfs_mount_failed_is_root :
    ∃ v', vfsMountWith (some fun _ w => (kernelEnomem, w)) 0x5000 null false unmounted
        = some (kernelEnomem, v')
      ∧ v'.mountList ≠ unmounted.mountList ∧ v'.rootMount ≠ unmounted.rootMount
      ∧ (vfsMount 0x6000 null false (ramfsInit 0x6000 v').2).map Prod.fst
        = some kernelEinval := by
  have hvalues : (vfsMountWith (some fun _ w => (kernelEnomem, w)) 0x5000 null false
      unmounted).map (fun r => (r.1, r.2.mountList, r.2.rootMount,
        (vfsMount 0x6000 null false (ramfsInit 0x6000 r.2).2).map Prod.fst))
      = some (kernelEnomem, 0xFFFF900000000020, 0xFFFF900000000020, some kernelEinval) := by
    decide
  obtain ⟨⟨rc, v'⟩, hrun, hresult⟩ := Option.map_eq_some_iff.mp hvalues
  injection hresult with hrc hresult
  injection hresult with hlist hresult
  injection hresult with hroot hlater
  have hrc' : rc = kernelEnomem := hrc
  have hlist' : v'.mountList = 0xFFFF900000000020 := hlist
  have hroot' : v'.rootMount = 0xFFFF900000000020 := hroot
  refine ⟨v', by rw [hrun, hrc'], ?_, ?_, hlater⟩
  · rw [hlist']
    decide
  · rw [hroot']
    decide

-- ===================================================== a second file system

/-- A node has the type, the size, the children and the data it had. -/
structure SameNode (v v' : Vfs) (n : Nat) : Prop where
  type : (v'.nodes n).vnode.type = (v.nodes n).vnode.type
  size : (v'.nodes n).vnode.size = (v.nodes n).vnode.size
  count : (v'.nodes n).childCount = (v.nodes n).childCount
  children : ∀ i < (v.nodes n).childCount, (v'.nodes n).children i = (v.nodes n).children i
  data : (v'.nodes n).data = (v.nodes n).data
  bytes : ∀ i < (v.nodes n).vnode.size,
    v'.heap.mem ((v.nodes n).data + i) = v.heap.mem ((v.nodes n).data + i)

/-- The mount point is on the way along the path, or at its end. -/
def PassesThrough (v : Vfs) (path : List Byte) (mountpoint : Nat) : Prop :=
  ∃ names, names <+: components path
    ∧ Resolves v.nodes (vfsGetRoot v) names kernelSuccess (some mountpoint)

/-- The paths that do not pass through the mount point lead to what they
led to. -/
def NamespaceKept (v v' : Vfs) (mountpoint : Nat) : Prop :=
  ∀ path n, vfsLookup v (some path) = some (kernelSuccess, some n) →
    ¬ PassesThrough v path mountpoint →
      vfsLookup v' (some path) = some (kernelSuccess, some n) ∧ SameNode v v' n

/-- A tree with a second node has one right below the root. -/
theorem Below.root_count {nodes : Nat → RamfsNode} (h : Below nodes n) (hn : n ≠ ramfsRoot) :
    0 < (nodes ramfsRoot).childCount := by
  induction h with
  | root => exact absurd rfl hn
  | @child d c _ hc ih =>
      by_cases hd : d = ramfsRoot
      · obtain ⟨i, hi, -⟩ := hc
        rw [← hd]
        exact Nat.lt_of_le_of_lt (Nat.zero_le i) hi
      · exact ih hd

/-- A RAM file system that is mounted has cleared the root. -/
theorem vfsMount_ramfs (hi : HeapInv v.heap ts)
    (hmount : vfsMount fs mountpoint refuse (ramfsInit fs v).2 = some (kernelSuccess, v')) :
    (v'.nodes ramfsRoot).childCount = 0 := by
  have hheap : (ramfsInit fs v).2.heap = v.heap := by
    rw [ramfsInit]
    split_ifs
    · rfl
    · rfl
  rw [vfsMount_eq] at hmount
  obtain ⟨rc, v'', hrun, hcases⟩ := vfsMountWith_cases (v := (ramfsInit fs v).2)
    (by rw [hheap]; exact hi) (mountOperation ((ramfsInit fs v).2.filesystems fs).ops) fs
    mountpoint refuse
  rw [hmount] at hrun
  cases hrun
  rcases hcases with ⟨-, herror, -⟩ | ⟨w, hw, -, hcases⟩
  · exact absurd rfl herror
  · have hfs := hw.1.1
    have hops : mountOperation ((ramfsInit fs v).2.filesystems fs).ops = some ramfsMount := by
      rw [ramfsInit, if_neg hfs]
      dsimp only
      rw [Function.update_self]
      rfl
    rw [hops] at hcases
    rcases hcases with ⟨hno, -⟩ | ⟨o, ho, hresult⟩
    · cases hno
    · rw [← Option.some.inj ho, ramfsMount, if_neg hfs] at hresult
      have hv : v'.nodes = _ := congrArg (fun r : Int × Vfs => r.2.nodes) hresult
      rw [hv]
      show (Function.update w.nodes ramfsRoot _ ramfsRoot).childCount = 0
      rw [Function.update_self]
      rfl

/-- Looking up the root itself. -/
theorem vfsLookup_slash (hroot : vfsGetRoot v = ramfsRoot) :
    vfsLookup v (some [slash]) = some (kernelSuccess, some ramfsRoot) := by
  have hnull : ramfsRoot ≠ null := by decide
  unfold vfsLookup
  rw [hroot]
  dsimp only
  rw [if_neg hnull, if_pos ⟨rfl, rfl⟩]

/-- The path `/` passes through no node but the root. -/
theorem slash_passesThrough (hroot : vfsGetRoot v = ramfsRoot)
    (hpass : PassesThrough v [slash] mountpoint) : mountpoint = ramfsRoot := by
  obtain ⟨names, hpre, hresolves⟩ := hpass
  have hempty : components [slash] = [] := by decide
  rw [hempty] at hpre
  rw [List.prefix_nil.mp hpre, hroot] at hresolves
  cases hresolves
  rfl

/-- Mounting a further RAM file system leaves the tree alone just when it
is mounted on the root. -/
theorem vfs_mount_keeps_namespace_iff (hi : FsInv y ts) (hmp : mountpoint ∈ y.tree)
    (hmount : vfsMount fs mountpoint refuse (ramfsInit fs y.vfs).2 = some (kernelSuccess, v')) :
    NamespaceKept y.vfs v' mountpoint ↔ mountpoint = ramfsRoot := by
  constructor
  · intro hkept
    by_contra hne
    have hcount := (hkept [slash] ramfsRoot (vfsLookup_slash hi.root) fun hpass =>
      hne (slash_passesThrough hi.root hpass)).2.count
    rw [vfsMount_ramfs hi.heap hmount] at hcount
    have hpos := (hi.tree.below mountpoint hmp).root_count hne
    omega
  · intro heq path n _ hoff
    refine absurd ?_ hoff
    refine ⟨[], List.nil_prefix, ?_⟩
    rw [hi.root, heq]
    exact .here

/-- A directory `d` and a file `g`. -/
def twoNames : List FsOp :=
  [.mkdir ramfsRoot (some [0x64#8]) false, .create ramfsRoot (some [0x67#8]) false]

theorem twoNames_allowed : AllowedRun fsStep (fun y op => op.Allowed y) (fsSysInit bootVfs)
    twoNames := by
  decide +kernel

/-- A second file system is mounted on the root itself. -/
theorem vfs_mount_keeps_namespace_root :
    ∃ y v', runOps fsStep (fsSysInit bootVfs) twoNames = some y
      ∧ vfsMount 0x6000 ramfsRoot false (ramfsInit 0x6000 y.vfs).2 = some (kernelSuccess, v')
      ∧ NamespaceKept y.vfs v' ramfsRoot := by
  obtain ⟨y, hrun, ts, hi⟩ := fsRun_inv bootHeap_pmm bootHeap_init bootVfs_boot twoNames_allowed
  have hvalues : (runOps fsStep (fsSysInit bootVfs) twoNames).bind (fun y =>
      (vfsMount 0x6000 ramfsRoot false (ramfsInit 0x6000 y.vfs).2).map Prod.fst)
      = some kernelSuccess := by decide +kernel
  rw [hrun, Option.bind_some] at hvalues
  obtain ⟨⟨rc, v'⟩, hmount, hrc⟩ := Option.map_eq_some_iff.mp hvalues
  have hrc' : rc = kernelSuccess := hrc
  rw [hrc'] at hmount
  exact ⟨y, v', hrun, hmount, (vfs_mount_keeps_namespace_iff hi hi.tree.root hmount).mpr rfl⟩

/-- The second file system is mounted on `d`, and `/g` is gone. -/
theorem vfs_mount_clears_tree :
    ∃ y v', runOps fsStep (fsSysInit bootVfs) twoNames = some y
      ∧ 0xFFFF900000000070 ∈ y.tree
      ∧ vfsMount 0x6000 0xFFFF900000000070 false (ramfsInit 0x6000 y.vfs).2
        = some (kernelSuccess, v')
      ∧ ¬ NamespaceKept y.vfs v' 0xFFFF900000000070
      ∧ (vfsLookup y.vfs (some [slash, 0x67#8])).map Prod.fst = some kernelSuccess
      ∧ vfsLookup v' (some [slash, 0x67#8]) = some (kernelEnoent, none) := by
  have hvalues : (runOps fsStep (fsSysInit bootVfs) twoNames).bind (fun y =>
      (vfsMount 0x6000 0xFFFF900000000070 false (ramfsInit 0x6000 y.vfs).2).map fun r =>
        (r.1, (y.vfs.nodes ramfsRoot).childCount, (r.2.nodes ramfsRoot).childCount,
          vfsLookup r.2 (some [slash, 0x67#8])))
      = some (kernelSuccess, 2, 0, some (kernelEnoent, none)) := by decide +kernel
  have hbefores : (runOps fsStep (fsSysInit bootVfs) twoNames).map (fun y =>
      (decide (0xFFFF900000000070 ∈ y.tree), vfsGetRoot y.vfs,
        (vfsLookup y.vfs (some [slash, 0x67#8])).map Prod.fst))
      = some (true, ramfsRoot, some kernelSuccess) := by decide +kernel
  obtain ⟨y, hrun, hmap⟩ := Option.bind_eq_some_iff.mp hvalues
  obtain ⟨⟨rc, v'⟩, hmount, hresult⟩ := Option.map_eq_some_iff.mp hmap
  injection hresult with hrc hresult
  injection hresult with hbefore hresult
  injection hresult with hafter hgone
  have hrc' : rc = kernelSuccess := hrc
  rw [hrc'] at hmount
  rw [hrun, Option.map_some] at hbefores
  injection hbefores with hbefores
  injection hbefores with hmem hbefores
  injection hbefores with hroot hfound
  refine ⟨y, v', hrun, of_decide_eq_true hmem, hmount, ?_, hfound, hgone⟩
  intro hkept
  have hcount := (hkept [slash] ramfsRoot (vfsLookup_slash hroot) fun hpass =>
    absurd (slash_passesThrough hroot hpass) (by decide)).2.count
  rw [hbefore] at hcount
  have hcount' : (v'.nodes ramfsRoot).childCount = 2 := hcount
  have hafter' : (v'.nodes ramfsRoot).childCount = 0 := hafter
  rw [hafter'] at hcount'
  cases hcount'

end ZenithOS.Fs
