/-
The RAM file system on the kernel's heap.

`FsInv` ties the tree of nodes, the open files and the files' contents to
the heap's blocks: every object is a payload in use of its own, a file's
buffer is as large as its capacity, and what was last written to the file
is in it. One lemma for each call carries the invariant through it and
says what an error leaves alone (`Kept`).
-/
import ZenithOS.Fs.Run
import ZenithOS.Fs.Proofs.Lookup
import ZenithOS.Mm.Proofs.HeapRun

namespace ZenithOS.Fs

open Lib Klib Mm Vmm

/-- A node's buffer and what was last written to it. -/
structure FileData (v : Vfs) (ts : List Tile) (n : Nat) (written : Option (List Byte)) :
    Prop where
  empty : (v.nodes n).data = null → (v.nodes n).vnode.size = 0
  size : (v.nodes n).vnode.size ≤ (v.nodes n).capacity
  block : (v.nodes n).data ≠ null →
    ∃ s, (v.nodes n).capacity ≤ s ∧ ((v.nodes n).data, s) ∈ payloads ts
  bytes : written.getD []
    = bufferBytes (fun i => v.heap.mem ((v.nodes n).data + i)) (v.nodes n).vnode.size

/-- What every run of file system calls keeps: the heap, the tree, and the
files on it. -/
structure FsInv (y : FsSys) (ts : List Tile) : Prop where
  heap : HeapInv y.vfs.heap ts
  root : vfsGetRoot y.vfs = ramfsRoot
  tree : TreeInv y.vfs.nodes y.tree
  nodes : ∀ n ∈ y.tree, n ≠ ramfsRoot → ∃ s, (n, s) ∈ payloads ts
  files : ∀ f ∈ y.handles, (∃ s, (f, s) ∈ payloads ts) ∧ (y.vfs.files f).node ∈ y.tree
  data : ∀ n ∈ y.tree, FileData y.vfs ts n (y.written n)
  unwritten : ∀ n, n ∉ y.tree → y.written n = none
  apart : ∀ n ∈ y.tree, (y.vfs.nodes n).data ≠ null →
    (y.vfs.nodes n).data ∉ y.tree ∧ (y.vfs.nodes n).data ∉ y.handles
      ∧ ∀ m ∈ y.tree, (y.vfs.nodes m).data = (y.vfs.nodes n).data → m = n

/-- What an error leaves as it was: the nodes, the open files, and the
bytes of every file's buffer. -/
def Kept (y : FsSys) (v : Vfs) : Prop :=
  v.nodes = y.vfs.nodes ∧ v.files = y.vfs.files
    ∧ ∀ n ∈ y.tree, (y.vfs.nodes n).data ≠ null →
      ∀ i < (y.vfs.nodes n).capacity,
        v.heap.mem ((y.vfs.nodes n).data + i) = y.vfs.heap.mem ((y.vfs.nodes n).data + i)

variable {y : FsSys} {v : Vfs} {h h' : Heap} {ts ts' : List Tile} {n p s size dir file : Nat}

-- ============================================================== allocation

/-- The heap ends below the kernel's image. -/
theorem payload_ne_root (hi : HeapInv h ts) (hp : (p, s) ∈ payloads ts) : p ≠ ramfsRoot := by
  have hlt := hi.end_lt
  have hend := (hi.payload_block hp).2.2.2.2
  unfold ramfsRoot
  omega

/-- The bytes of a file are in use. -/
theorem FileData.inUse {w : Option (List Byte)} (hd : FileData v ts n w) {i : Nat}
    (hi : i < (v.nodes n).vnode.size) : InUse ts ((v.nodes n).data + i) := by
  have hdata : (v.nodes n).data ≠ null := by
    intro hnull
    have hzero := hd.empty hnull
    omega
  obtain ⟨s, hs, hblock⟩ := hd.block hdata
  have hsize := hd.size
  exact ⟨_, hblock, by dsimp only; omega, by dsimp only; omega⟩

/-- A file's data stays when its block stays in use unchanged. -/
theorem FileData.mono {w : Option (List Byte)} (hd : FileData v ts n w)
    (hused : ∀ u ∈ payloads ts, u ∈ payloads ts')
    (hmem : ∀ x, InUse ts x → h'.mem x = v.heap.mem x) :
    FileData { v with heap := h' } ts' n w := by
  refine ⟨hd.empty, hd.size, ?_, ?_⟩
  · intro hdata
    obtain ⟨s, hs, hblock⟩ := hd.block hdata
    exact ⟨s, hs, hused _ hblock⟩
  · rw [hd.bytes]
    exact List.map_congr_left fun i hi => (hmem _ (hd.inUse (List.mem_range.mp hi))).symm

/-- The heap after an allocation. -/
theorem FsInv.withHeap (hi : FsInv y ts) (hi' : HeapInv h' ts')
    (hused : ∀ u ∈ payloads ts, u ∈ payloads ts')
    (hmem : ∀ x, InUse ts x → h'.mem x = y.vfs.heap.mem x) :
    FsInv { y with vfs := { y.vfs with heap := h' } } ts' := by
  refine ⟨hi', hi.root, hi.tree, ?_, ?_, ?_, hi.unwritten, hi.apart⟩
  · intro n hn hroot
    obtain ⟨s, hs⟩ := hi.nodes n hn hroot
    exact ⟨s, hused _ hs⟩
  · intro f hf
    obtain ⟨⟨s, hs⟩, hnode⟩ := hi.files f hf
    exact ⟨⟨s, hused _ hs⟩, hnode⟩
  · intro n hn
    exact (hi.data n hn).mono hused hmem

/-- A new payload is no object of the file system. -/
theorem FsInv.fresh (hi : FsInv y ts) (hi' : HeapInv h' ts') (halloc : Allocates size p ts ts')
    (hp : p ≠ null) :
    p ∉ y.tree ∧ p ∉ y.handles ∧ ∀ n ∈ y.tree, (y.vfs.nodes n).data ≠ p := by
  obtain ⟨s, -, hs⟩ := halloc.new hp
  refine ⟨?_, ?_, ?_⟩
  · intro hmem
    obtain ⟨k, hk⟩ := hi.nodes p hmem (payload_ne_root hi' hs)
    exact halloc.fresh hp hk rfl
  · intro hmem
    obtain ⟨⟨k, hk⟩, -⟩ := hi.files p hmem
    exact halloc.fresh hp hk rfl
  · intro n hn heq
    obtain ⟨k, -, hk⟩ := (hi.data n hn).block (by rw [heq]; exact hp)
    exact halloc.fresh hp hk heq

/-- An error after an allocation. -/
theorem FsInv.kept_withHeap (hi : FsInv y ts)
    (hmem : ∀ x, InUse ts x → h'.mem x = y.vfs.heap.mem x) :
    Kept y { y.vfs with heap := h' } := by
  refine ⟨rfl, rfl, fun n hn hdata i hlt => ?_⟩
  obtain ⟨s, hs, hblock⟩ := (hi.data n hn).block hdata
  exact hmem _ ⟨_, hblock, by dsimp only; omega, by dsimp only; omega⟩

theorem Kept.refl (y : FsSys) : Kept y y.vfs := ⟨rfl, rfl, fun _ _ _ _ _ => rfl⟩

-- ========================================================= mkdir and create

/-- When `ramfs_mkdir` and `ramfs_create` add a name. -/
def Addable (y : FsSys) (dir : Nat) (name : Option (List Byte)) (refuse : Bool) : Prop :=
  dir ∈ y.tree ∧ (y.vfs.nodes dir).vnode.type = .directory
    ∧ (∃ string ∈ name, ∀ c, IsChild y.vfs.nodes dir c → nodeName y.vfs.nodes c ≠ cString string)
    ∧ (y.vfs.nodes dir).childCount < ramfsMaxChildren
    ∧ ∃ p h, kmallocUnless refuse ramfsNodeBytes y.vfs.heap = some (p, h) ∧ p ≠ null

/-- A node with its buffer and size unchanged. -/
theorem FileData.congr {v' : Vfs} {w : Option (List Byte)} (hd : FileData v ts n w)
    (hheap : v'.heap = v.heap) (hdata : (v'.nodes n).data = (v.nodes n).data)
    (hcap : (v'.nodes n).capacity = (v.nodes n).capacity)
    (hsize : (v'.nodes n).vnode.size = (v.nodes n).vnode.size) : FileData v' ts n w := by
  refine ⟨?_, ?_, ?_, ?_⟩
  · rw [hdata, hsize]
    exact hd.empty
  · rw [hsize, hcap]
    exact hd.size
  · rw [hdata, hcap]
    exact hd.block
  · rw [hdata, hsize, hheap]
    exact hd.bytes

/-- The buffer and size of the nodes that were there. -/
theorem insertNode_data (nodes : Nat → RamfsNode) (d : Nat) (node : RamfsNode) (hp : n ≠ p) :
    (insertNode nodes d p node n).data = (nodes n).data
      ∧ (insertNode nodes d p node n).capacity = (nodes n).capacity
      ∧ (insertNode nodes d p node n).vnode.size = (nodes n).vnode.size := by
  by_cases hd : n = d
  · subst hd
    rw [insertNode_parent]
    exact ⟨rfl, rfl, rfl⟩
  · rw [insertNode_other hd hp]
    exact ⟨rfl, rfl, rfl⟩

/-- The new node in its directory. -/
theorem FsInv.insert (hi : FsInv y ts) {type : VnodeType} {array : List Byte} {fs : Nat}
    (hdir : dir ∈ y.tree) (hp : (p, s) ∈ payloads ts) (htree : p ∉ y.tree)
    (hdata : ∀ n ∈ y.tree, (y.vfs.nodes n).data ≠ p)
    (hinsert : TreeInv (insertNode y.vfs.nodes dir p (newNode type array dir fs p)) (p :: y.tree)) :
    FsInv { y with
      vfs := { y.vfs with
        nodes := insertNode y.vfs.nodes dir p (newNode type array dir fs p) }
      tree := p :: y.tree } ts := by
  have hne : ∀ n ∈ y.tree, n ≠ p := fun n hn heq => htree (heq ▸ hn)
  have hself : insertNode y.vfs.nodes dir p (newNode type array dir fs p) p
      = newNode type array dir fs p := insertNode_new _ (hne dir hdir).symm
  have hold := fun n hn => insertNode_data y.vfs.nodes dir
    (newNode type array dir fs p) (hne n hn)
  refine ⟨hi.heap, hi.root, hinsert, ?_, ?_, ?_, ?_, ?_⟩
  · rw [List.forall_mem_cons]
    exact ⟨fun _ => ⟨s, hp⟩, hi.nodes⟩
  · intro f hf
    exact ⟨(hi.files f hf).1, List.mem_cons_of_mem p (hi.files f hf).2⟩
  · rw [List.forall_mem_cons]
    refine ⟨?_, fun n hn => ?_⟩
    · rw [hi.unwritten p htree]
      refine ⟨?_, ?_, ?_, ?_⟩ <;> dsimp only <;> rw [hself]
      · exact fun _ => rfl
      · exact Nat.le_refl 0
      · exact fun hnull => absurd rfl hnull
      · rfl
    · obtain ⟨hbuf, hcap, hsize⟩ := hold n hn
      exact (hi.data n hn).congr rfl hbuf hcap hsize
  · intro n hn
    exact hi.unwritten n fun hmem => hn (List.mem_cons_of_mem p hmem)
  · dsimp only
    rw [List.forall_mem_cons]
    refine ⟨fun hnull => ?_, fun n hn hnull => ?_⟩
    · rw [hself] at hnull
      exact absurd rfl hnull
    · have hbuf := (hold n hn).1
      rw [hbuf] at hnull ⊢
      obtain ⟨hmem, hfile, hone⟩ := hi.apart n hn hnull
      refine ⟨?_, hfile, ?_⟩
      · rw [List.mem_cons, not_or]
        exact ⟨hdata n hn, hmem⟩
      · rw [List.forall_mem_cons]
        refine ⟨fun heq => ?_, fun m hm heq => ?_⟩
        · rw [hself] at heq
          exact absurd heq.symm hnull
        · rw [(hold m hm).1] at heq
          exact hone m hm heq

/-- A failed call adds nothing. -/
theorem added_error {rc : Int} (hrc : rc ≠ kernelSuccess) :
    added y dir (rc, v) = { y with vfs := v } := by
  rw [added, if_neg hrc]

/-- The array that a name is copied to. -/
def nameArray (string : List Byte) : List Byte := kStrcpy (List.replicate 64 0#8) string

/-- A name that fits is stored with its NUL. -/
theorem nameArray_fits {string : List Byte} (hfits : NameFits (some string)) :
    (nameArray string).length = 64 ∧ (cString (nameArray string)).length ≤ 63 := by
  have hlen := hfits string rfl
  refine ⟨?_, by rw [nameArray, cString_kStrcpy]; exact hlen⟩
  rw [nameArray, length_kStrcpy (by rw [List.length_replicate]; omega), List.length_replicate]

/-- The part of `ramfs_mkdir` and `ramfs_create` after their checks. -/
theorem ramfsAdd_checked (type : VnodeType) {string : List Byte} {refuse : Bool} {rc : Int}
    {found : Option Nat} (hnull : dir ≠ null) (htype : (v.nodes dir).vnode.type = .directory)
    (hself : (v.nodes dir).vnode.privateData = dir)
    (hlook : ramfsLookup v dir (some string) = (rc, found)) (hrc : rc ≠ kernelSuccess)
    (hroom : ¬ (v.nodes dir).childCount ≥ ramfsMaxChildren)
    (halloc : kmallocUnless refuse ramfsNodeBytes v.heap = some (p, h')) (hp : p ≠ dir) :
    ramfsAdd type dir (some string) refuse v
      = if p = null then some (kernelEnomem, { v with heap := h' })
        else some (kernelSuccess, { v with
          heap := h'
          nodes := insertNode v.nodes dir p
            (newNode type (nameArray string) dir (v.nodes dir).vnode.fs p) }) := by
  simp only [ramfsAdd, if_neg hnull, htype, hself, hlook, if_neg hrc, if_neg hroom, halloc, ne_eq,
    not_true_eq_false, if_false, Option.bind_eq_bind, Option.bind_some]
  by_cases hzero : p = null
  · rw [if_pos hzero, if_pos hzero]
  · rw [if_neg hzero, if_neg hzero]
    simp only [setNode, Function.update_of_ne hp.symm]
    rfl

/-- What a call of `ramfs_mkdir` or `ramfs_create` does. -/
def AddsNode (y : FsSys) (type : VnodeType) (dir : Nat) (name : Option (List Byte))
    (refuse : Bool) : Prop :=
  ∃ rc v ts, ramfsAdd type dir name refuse y.vfs = some (rc, v)
    ∧ FsInv (added y dir (rc, v)) ts
    ∧ (rc = kernelSuccess ↔ Addable y dir name refuse)
    ∧ (rc ≠ kernelSuccess → Kept y v)

section Add

variable {type : VnodeType} {name : Option (List Byte)} {string : List Byte} {refuse : Bool}

/-- An error before anything was done. -/
theorem FsInv.add_error (hi : FsInv y ts) {rc : Int} (hrc : rc ≠ kernelSuccess)
    (hrun : ramfsAdd type dir name refuse y.vfs = some (rc, y.vfs))
    (hnot : ¬ Addable y dir name refuse) : AddsNode y type dir name refuse := by
  refine ⟨rc, y.vfs, ts, hrun, ?_, ?_, fun _ => Kept.refl y⟩
  · rw [added_error hrc]
    exact hi
  · exact ⟨fun h => absurd h hrc, fun h => absurd h hnot⟩

/-- All checks passed. -/
theorem FsInv.add_checked (hi : FsInv y ts) (hdir : dir ∈ y.tree)
    (hname : NameFits (some string)) (htype : (y.vfs.nodes dir).vnode.type = .directory)
    (hlook : ramfsLookup y.vfs dir (some string) = (kernelEnoent, none))
    (hnew : ∀ c, IsChild y.vfs.nodes dir c → nodeName y.vfs.nodes c ≠ cString string)
    (hroom : ¬ (y.vfs.nodes dir).childCount ≥ ramfsMaxChildren) :
    AddsNode y type dir (some string) refuse := by
  have hnull := hi.tree.ne_null dir hdir
  obtain ⟨p, h', ts', hrun, hheap, halloc, hmem⟩ :=
    kmallocUnless_spec hi.heap refuse ramfsNodeBytes
  have hi' := hi.withHeap hheap (fun u hu => halloc.mono hu) hmem
  have hpd : p ≠ dir := by
    rintro rfl
    exact (hi.fresh hheap halloc hnull).1 hdir
  have hchecked := ramfsAdd_checked type hnull htype (hi.tree.self dir hdir) hlook
    (by decide) hroom hrun hpd
  by_cases hzero : p = null
  · rw [if_pos hzero] at hchecked
    refine ⟨_, _, ts', hchecked, ?_, ?_, fun _ => hi.kept_withHeap hmem⟩
    · rw [added_error (by decide)]
      exact hi'
    · refine ⟨fun h => absurd h (by decide), fun hadd => ?_⟩
      obtain ⟨q, k, hrun', hq⟩ := hadd.2.2.2.2
      rw [hrun] at hrun'
      cases hrun'
      exact absurd hzero hq
  · rw [if_neg hzero] at hchecked
    obtain ⟨hfresh, -, hdata⟩ := hi.fresh hheap halloc hzero
    obtain ⟨s, -, hs⟩ := halloc.new hzero
    refine ⟨_, _, ts', hchecked, ?_, ?_, fun h => absurd rfl h⟩
    · have hlast : added y dir (kernelSuccess, { y.vfs with
          heap := h'
          nodes := insertNode y.vfs.nodes dir p (newNode type (nameArray string) dir
            (y.vfs.nodes dir).vnode.fs p) })
          = { y with
            vfs := { y.vfs with
              heap := h'
              nodes := insertNode y.vfs.nodes dir p (newNode type (nameArray string)
                dir (y.vfs.nodes dir).vnode.fs p) }
            tree := p :: y.tree } := by
        simp only [added, if_true, lastChild, insertNode_parent, Nat.add_sub_cancel,
          Function.update_self]
      rw [hlast]
      refine hi'.insert hdir hs hfresh hdata (hi.tree.insert hdir hfresh hzero htype
        (Nat.lt_of_not_le hroom) (nameArray_fits hname) ?_)
      rw [nameArray, cString_kStrcpy]
      exact hnew
    · exact ⟨fun _ => ⟨hdir, htype, ⟨string, rfl, hnew⟩, Nat.lt_of_not_le hroom,
        p, h', hrun, hzero⟩, fun _ => rfl⟩

/-- `ramfs_mkdir` and `ramfs_create`. -/
theorem FsInv.add (hi : FsInv y ts) (hdir : dir = null ∨ dir ∈ y.tree) (hname : NameFits name)
    (type : VnodeType) (refuse : Bool) : AddsNode y type dir name refuse := by
  cases name with
  | none =>
      apply hi.add_error einval_ne rfl
      rintro ⟨-, -, ⟨_, hmem, -⟩, -⟩
      cases hmem
  | some string =>
      by_cases hnull : dir = null
      · refine hi.add_error einval_ne
          (by simp only [ramfsAdd, if_pos hnull]) ?_
        intro hadd
        exact hi.tree.ne_null _ hadd.1 hnull
      · have hmem : dir ∈ y.tree := hdir.resolve_left hnull
        have hself := hi.tree.self dir hmem
        by_cases htype : (y.vfs.nodes dir).vnode.type = .directory
        · rcases hi.tree.lookup hmem string with ⟨c, hlook, hc, hcname⟩ | ⟨hlook, hnew⟩
          · apply hi.add_error eexist_ne
            · simp only [ramfsAdd, if_neg hnull, htype, hself, hlook, ne_eq, not_true_eq_false,
                if_false, if_true]
            · rintro ⟨-, -, ⟨other, hother, hall⟩, -⟩
              cases hother
              exact hall c hc hcname
          · by_cases hfull : (y.vfs.nodes dir).childCount ≥ ramfsMaxChildren
            · apply hi.add_error enomem_ne
              · simp only [ramfsAdd, if_neg hnull, htype, hself, hlook, ne_eq, not_true_eq_false,
                  if_false, if_neg enoent_ne, if_pos hfull]
              · intro hadd
                exact absurd hadd.2.2.2.1 (Nat.not_lt.mpr hfull)
            · exact hi.add_checked hmem hname htype hlook hnew hfull
        · refine hi.add_error enotsup_ne ?_ fun hadd => htype hadd.2.1
          simp only [ramfsAdd, if_neg hnull, ne_eq, htype, not_false_eq_true, if_true]

end Add

-- =================================================================== files

/-- A change of an open file's record that keeps its node. -/
theorem FsInv.setFile (hi : FsInv y ts) (hfile : file ∈ y.handles) {record : File}
    (hnode : record.node = (y.vfs.files file).node) :
    FsInv { y with vfs := setFile file record y.vfs } ts := by
  refine ⟨hi.heap, hi.root, hi.tree, hi.nodes, ?_,
    fun n hn => (hi.data n hn).congr rfl rfl rfl rfl, hi.unwritten, hi.apart⟩
  intro f hf
  refine ⟨(hi.files f hf).1, ?_⟩
  show (Function.update y.vfs.files file record f).node ∈ y.tree
  by_cases heq : f = file
  · rw [heq, Function.update_self, hnode]
    exact (hi.files file hfile).2
  · rw [Function.update_of_ne heq]
    exact (hi.files f hf).2

/-- A new open file. -/
theorem FsInv.newFile (hi : FsInv y ts) (hp : (p, s) ∈ payloads ts)
    (hdata : ∀ n ∈ y.tree, (y.vfs.nodes n).data ≠ p) {record : File}
    (hnode : record.node ∈ y.tree) :
    FsInv { y with vfs := Fs.setFile p record y.vfs, handles := p :: y.handles } ts := by
  refine ⟨hi.heap, hi.root, hi.tree, hi.nodes, ?_,
    fun n hn => (hi.data n hn).congr rfl rfl rfl rfl, hi.unwritten, ?_⟩
  · intro f hf
    show (∃ s, (f, s) ∈ payloads ts) ∧ (Function.update y.vfs.files p record f).node ∈ y.tree
    by_cases heq : f = p
    · rw [heq, Function.update_self]
      exact ⟨⟨s, hp⟩, hnode⟩
    · rw [Function.update_of_ne heq]
      cases List.mem_cons.mp hf with
      | inl h => exact absurd h heq
      | inr h => exact hi.files f h
  · intro n hn hnull
    obtain ⟨htree, hhandles, hone⟩ := hi.apart n hn hnull
    refine ⟨htree, ?_, hone⟩
    rw [List.mem_cons, not_or]
    exact ⟨hdata n hn, hhandles⟩

/-- `vfs_open` of a path that leads somewhere. -/
theorem vfsOpen_found {path : Option (List Byte)} {refuse : Bool} {node : Nat}
    (hlook : vfsLookup v path = some (kernelSuccess, some node)) (hnode : node ≠ null)
    (hrun : kmallocUnless refuse fileBytes v.heap = some (p, h')) :
    vfsOpen path refuse v
      = if p = null then some (kernelEnomem, none, { v with heap := h' })
        else some (kernelSuccess, some p, Fs.setFile p
          { node := node, position := 0, flags := 0, refcount := 1 } { v with heap := h' }) := by
  simp only [vfsOpen, hlook, Option.bind_eq_bind, Option.bind_some, ne_eq, not_true_eq_false,
    if_false, fileOpen, if_neg hnode, hrun]

/-- `vfs_open` of a path that leads nowhere. -/
theorem vfsOpen_lost {path : Option (List Byte)} {refuse : Bool} {rc : Int}
    (hlook : vfsLookup v path = some (rc, none)) :
    vfsOpen path refuse v = some (rc, none, v) := by
  simp only [vfsOpen, hlook, Option.bind_eq_bind, Option.bind_some]

/-- What a call of `vfs_open` does. -/
theorem FsInv.openFile (hi : FsInv y ts) (path : Option (List Byte)) (refuse : Bool) :
    ∃ rc result v ts', vfsOpen path refuse y.vfs = some (rc, result, v)
      ∧ FsInv { y with vfs := v, handles := result.toList ++ y.handles } ts'
      ∧ (rc ≠ kernelSuccess → Kept y v) := by
  cases path with
  | none => exact ⟨kernelEinval, none, y.vfs, ts, rfl, hi, fun _ => Kept.refl y⟩
  | some path =>
      obtain ⟨rc, result, hlook, hres⟩ := vfsLookup_resolves hi.tree hi.root path
      cases result with
      | none =>
          exact ⟨rc, none, y.vfs, ts, vfsOpen_lost hlook, hi, fun _ => Kept.refl y⟩
      | some node =>
          obtain ⟨rfl, hnode⟩ := hres.reached hi.tree hi.tree.root rfl
          have hnull := hi.tree.ne_null node hnode
          obtain ⟨p, h', ts', hrun, hheap, halloc, hmem⟩ :=
            kmallocUnless_spec hi.heap refuse fileBytes
          have hi' := hi.withHeap hheap (fun u hu => halloc.mono hu) hmem
          have hopen := vfsOpen_found hlook hnull hrun
          by_cases hzero : p = null
          · rw [if_pos hzero] at hopen
            exact ⟨_, none, _, ts', hopen, hi', fun _ => hi.kept_withHeap hmem⟩
          · rw [if_neg hzero] at hopen
            obtain ⟨-, -, hdata⟩ := hi.fresh hheap halloc hzero
            obtain ⟨s, -, hs⟩ := halloc.new hzero
            exact ⟨_, some p, _, ts', hopen, hi'.newFile hs hdata hnode, fun h => absurd rfl h⟩

-- =================================================================== write

/-- The node `n` with a buffer. -/
def withBuffer (n p size : Nat) (v : Vfs) : Vfs :=
  setNode n { v.nodes n with data := p, capacity := size } v

theorem withBuffer_self : (withBuffer n p size v).nodes n
    = { v.nodes n with data := p, capacity := size } :=
  Function.update_self ..

/-- A buffer for a file that has none. -/
theorem FsInv.setBuffer (hi : FsInv y ts) (hn : n ∈ y.tree) (hnone : (y.vfs.nodes n).data = null)
    (hp : (p, s) ∈ payloads ts) (hs : size ≤ s) (htree : p ∉ y.tree) (hhandles : p ∉ y.handles)
    (hdata : ∀ m ∈ y.tree, (y.vfs.nodes m).data ≠ p) :
    FsInv { y with vfs := withBuffer n p size y.vfs } ts := by
  have hself : (withBuffer n p size y.vfs).nodes n
      = { y.vfs.nodes n with data := p, capacity := size } := withBuffer_self
  have hother : ∀ m, m ≠ n → (withBuffer n p size y.vfs).nodes m = y.vfs.nodes m :=
    fun m hm => Function.update_of_ne hm ..
  have hempty := (hi.data n hn).empty hnone
  refine ⟨hi.heap, hi.root, hi.tree.update rfl, hi.nodes, hi.files, ?_, hi.unwritten, ?_⟩
  · intro m hm
    by_cases heq : m = n
    · subst heq
      refine ⟨?_, ?_, ?_, ?_⟩ <;> dsimp only <;> rw [hself]
      · exact fun _ => hempty
      · dsimp only
        omega
      · exact fun _ => ⟨s, hs, hp⟩
      · have hbytes := (hi.data m hm).bytes
        rw [hempty] at hbytes
        dsimp only
        rw [hempty]
        exact hbytes
    · exact (hi.data m hm).congr rfl (by rw [hother m heq]) (by rw [hother m heq])
        (by rw [hother m heq])
  · intro m hm hnull
    dsimp only at hnull ⊢
    by_cases heq : m = n
    · subst heq
      rw [hself]
      refine ⟨htree, hhandles, fun k hk hsame => ?_⟩
      by_cases hkm : k = m
      · exact hkm
      · rw [hother k hkm] at hsame
        exact absurd hsame (hdata k hk)
    · rw [hother m heq] at hnull ⊢
      obtain ⟨hmem, hfile, hone⟩ := hi.apart m hm hnull
      refine ⟨hmem, hfile, fun k hk hsame => ?_⟩
      by_cases hkn : k = n
      · subst hkn
        rw [hself] at hsame
        exact absurd hsame.symm (hdata m hm)
      · rw [hother k hkn] at hsame
        exact hone k hk hsame

/-- The bytes that a copy into one file's buffer does not reach. -/
theorem FsInv.blit_other (hi : FsInv y ts) (hn : n ∈ y.tree)
    (hdata : (y.vfs.nodes n).data ≠ null) (hsize : size ≤ (y.vfs.nodes n).capacity)
    (buffer : Nat → Byte) {m i : Nat} (hm : m ∈ y.tree) (hne : m ≠ n)
    (hdatam : (y.vfs.nodes m).data ≠ null) (hlt : i < (y.vfs.nodes m).capacity) :
    blit y.vfs.heap.mem (y.vfs.nodes n).data buffer size ((y.vfs.nodes m).data + i)
      = y.vfs.heap.mem ((y.vfs.nodes m).data + i) := by
  obtain ⟨s, hs, hblock⟩ := (hi.data n hn).block hdata
  obtain ⟨k, hk, hblockm⟩ := (hi.data m hm).block hdatam
  apply blit_outside
  rcases used_apart hblockm hblock with heq | hlow | hhigh
  · injection heq with heq
    exact absurd ((hi.apart n hn hdata).2.2 m hm heq) hne
  · dsimp only at hlow
    omega
  · dsimp only at hhigh
    omega

/-- The copy of `ramfs_write` into a buffer that is large enough. -/
theorem FsInv.store (hi : FsInv y ts) (hfile : file ∈ y.handles)
    (hnode : (y.vfs.files file).node = n) (hdata : (y.vfs.nodes n).data ≠ null)
    (hsize : size ≤ (y.vfs.nodes n).capacity) (buffer : Nat → Byte) :
    FsInv { y with
      vfs := ramfsStore file n buffer size y.vfs
      written := Function.update y.written n (some (bufferBytes buffer size)) } ts := by
  have hn : n ∈ y.tree := hnode ▸ (hi.files file hfile).2
  obtain ⟨s, hs, hblock⟩ := (hi.data n hn).block hdata
  have hmem : (ramfsStore file n buffer size y.vfs).heap.mem
      = blit y.vfs.heap.mem (y.vfs.nodes n).data buffer size := kMemcpyFrom_eq ..
  have hself : (ramfsStore file n buffer size y.vfs).nodes n
      = { y.vfs.nodes n with vnode := { (y.vfs.nodes n).vnode with size := size } } :=
    Function.update_self ..
  have hother : ∀ m, m ≠ n →
      (ramfsStore file n buffer size y.vfs).nodes m = y.vfs.nodes m := fun m hm =>
    Function.update_of_ne hm ..
  have hdatas : ∀ m, ((ramfsStore file n buffer size y.vfs).nodes m).data
      = (y.vfs.nodes m).data := by
    intro m
    by_cases heq : m = n
    · rw [heq, hself]
    · rw [hother m heq]
  refine ⟨?_, hi.root, hi.tree.update rfl, hi.nodes, ?_, ?_, ?_, ?_⟩
  · refine hi.heap.store fun x hx => ?_
    rw [kMemcpyFrom_eq]
    apply blit_outside
    by_contra hin
    exact hx ⟨_, hblock, by dsimp only; omega, by dsimp only; omega⟩
  · intro f hf
    refine ⟨(hi.files f hf).1, ?_⟩
    show (Function.update y.vfs.files file _ f).node ∈ y.tree
    by_cases heq : f = file
    · rw [heq, Function.update_self]
      exact (hi.files file hfile).2
    · rw [Function.update_of_ne heq]
      exact (hi.files f hf).2
  · intro m hm
    dsimp only
    by_cases heq : m = n
    · subst heq
      rw [Function.update_self]
      refine ⟨?_, ?_, ?_, ?_⟩ <;> rw [hself]
      · exact fun hnull => absurd hnull hdata
      · exact hsize
      · exact fun _ => ⟨s, hs, hblock⟩
      · rw [hmem]
        refine List.map_congr_left fun i hi => ?_
        have hlt := List.mem_range.mp hi
        rw [blit_inside (by dsimp only; omega) (by dsimp only; omega), Nat.add_sub_cancel_left]
    · have hd := hi.data m hm
      rw [Function.update_of_ne heq]
      refine ⟨?_, ?_, ?_, ?_⟩ <;> rw [hother m heq]
      · exact hd.empty
      · exact hd.size
      · exact hd.block
      · rw [hd.bytes, hmem]
        refine List.map_congr_left fun i hlt => ?_
        rw [List.mem_range] at hlt
        have hcap := hd.size
        have hdatam : (y.vfs.nodes m).data ≠ null := by
          intro hnull
          have hzero := hd.empty hnull
          omega
        exact (hi.blit_other hn hdata hsize buffer hm heq hdatam (by omega)).symm
  · intro m hm
    have hne : m ≠ n := by
      rintro rfl
      exact hm hn
    dsimp only
    rw [Function.update_of_ne hne]
    exact hi.unwritten m hm
  · intro m hm hnull
    dsimp only at hnull ⊢
    simp only [hdatas] at hnull ⊢
    exact hi.apart m hm hnull

/-- Where a successful write stored: inside the buffer of the file, in the
heap as it was or as `kmalloc` left it. -/
def StoresInside (y : FsSys) (file size : Nat) (refuse : Bool) (v : Vfs) : Prop :=
  let node := v.nodes (y.vfs.files file).node
  size ≤ node.capacity ∧ node.capacity ≤ liveSize v.heap node.data
    ∧ blockFree v.heap.mem (payloadBlock node.data) = false
    ∧ ∃ h, (h = y.vfs.heap ∨ kmallocUnless refuse size y.vfs.heap = some (node.data, h))
      ∧ ∀ x, x < node.data ∨ node.data + node.capacity ≤ x → v.heap.mem x = h.mem x

/-- The block behind a file's buffer. -/
theorem FsInv.buffer_live (hi : FsInv y ts) (hn : n ∈ y.tree)
    (hdata : (y.vfs.nodes n).data ≠ null) :
    (y.vfs.nodes n).capacity ≤ liveSize y.vfs.heap (y.vfs.nodes n).data
      ∧ blockFree y.vfs.heap.mem (payloadBlock (y.vfs.nodes n).data) = false := by
  obtain ⟨s, hs, hblock⟩ := (hi.data n hn).block hdata
  obtain ⟨hpayload, hsize, hfree, -⟩ := hi.heap.payload_block hblock
  rw [liveSize, hpayload, hsize]
  exact ⟨hs, hfree⟩

/-- The store and where it went, in the system after the buffer is there. -/
theorem FsInv.store_inside (hi : FsInv y ts) (hfile : file ∈ y.handles)
    (hnode : (y.vfs.files file).node = n) (hdata : (y.vfs.nodes n).data ≠ null)
    (hsize : size ≤ (y.vfs.nodes n).capacity) (buffer : Nat → Byte) {refuse : Bool} {z : FsSys}
    (hfiles : z.vfs.files = y.vfs.files)
    (hheap : y.vfs.heap = z.vfs.heap
      ∨ kmallocUnless refuse size z.vfs.heap = some ((y.vfs.nodes n).data, y.vfs.heap)) :
    StoresInside z file size refuse (ramfsStore file n buffer size y.vfs) := by
  have hi' := hi.store hfile hnode hdata hsize buffer
  have hn : n ∈ y.tree := hnode ▸ (hi.files file hfile).2
  have hself : (ramfsStore file n buffer size y.vfs).nodes n
      = { y.vfs.nodes n with vnode := { (y.vfs.nodes n).vnode with size := size } } :=
    Function.update_self ..
  have hlive := hi'.buffer_live hn (by dsimp only; rw [hself]; exact hdata)
  dsimp only at hlive
  unfold StoresInside
  rw [hfiles, hnode]
  dsimp only
  rw [hself] at hlive ⊢
  refine ⟨hsize, hlive.1, hlive.2, y.vfs.heap, hheap, fun x hx => ?_⟩
  have hmem : (ramfsStore file n buffer size y.vfs).heap.mem
      = blit y.vfs.heap.mem (y.vfs.nodes n).data buffer size := kMemcpyFrom_eq ..
  dsimp only at hx
  rw [hmem]
  exact blit_outside (by omega)

/-- What a call of `vfs_write` does. -/
def WritesFile (y : FsSys) (file : Nat) (buffer : Option (Nat → Byte)) (size : Nat)
    (refuse : Bool) : Prop :=
  ∃ rc v ts, vfsWrite file buffer size refuse y.vfs = some (rc, v)
    ∧ FsInv (wrote y file buffer size (rc, v)) ts
    ∧ (rc = kernelSuccess → StoresInside y file size refuse v)
    ∧ (rc ≠ kernelSuccess → Kept y v)

/-- A failed write is not recorded. -/
theorem wrote_error {rc : Int} {buffer : Option (Nat → Byte)} (hrc : rc ≠ kernelSuccess) :
    wrote y file buffer size (rc, v) = { y with vfs := v } := by
  rw [wrote, if_neg hrc]

/-- An error that leaves the objects alone. -/
theorem FsInv.write_error (hi : FsInv { y with vfs := v } ts) {rc : Int} {refuse : Bool}
    {buffer : Option (Nat → Byte)} (hrc : rc ≠ kernelSuccess)
    (hrun : vfsWrite file buffer size refuse y.vfs = some (rc, v)) (hkept : Kept y v) :
    WritesFile y file buffer size refuse := by
  refine ⟨rc, v, ts, hrun, ?_, fun h => absurd h hrc, fun _ => hkept⟩
  rw [wrote_error hrc]
  exact hi

/-- `ramfs_write` to a file that has no buffer yet. -/
theorem ramfsWrite_first {buffer : Nat → Byte} {refuse : Bool} (hfile : file ≠ null)
    (hself : (v.nodes (v.files file).node).vnode.privateData = (v.files file).node)
    (hnull : (v.files file).node ≠ null)
    (htype : (v.nodes (v.files file).node).vnode.type = .file)
    (hdata : (v.nodes (v.files file).node).data = null)
    (hrun : kmallocUnless refuse size v.heap = some (p, h')) :
    ramfsWrite file (some buffer) size refuse v
      = if p = null then some (kernelEnomem, { v with heap := h' })
        else some (kernelSuccess, ramfsStore file (v.files file).node buffer size
          (withBuffer (v.files file).node p size { v with heap := h' })) := by
  simp only [ramfsWrite, if_neg hfile, hself, if_neg hnull, htype, if_pos hdata, hrun, ne_eq,
    not_true_eq_false, if_false, Option.bind_eq_bind, Option.bind_some]
  by_cases hp : p = null
  · have hsame : { v.nodes (v.files file).node with data := null }
        = v.nodes (v.files file).node := by
      rw [← hdata]
    subst hp
    rw [if_pos rfl, if_pos rfl, setNode]
    dsimp only
    rw [hsame, Function.update_eq_self]
  · rw [if_neg hp, if_neg hp]
    simp only [withBuffer, setNode, Function.update_self, Function.update_idem]

/-- The first write to a file, of which `hwrite` says how it runs. -/
theorem FsInv.write_first (hi : FsInv y ts) {buffer : Nat → Byte} {refuse : Bool}
    (hfile : file ∈ y.handles) (hn : (y.vfs.files file).node ∈ y.tree)
    (hdata : (y.vfs.nodes (y.vfs.files file).node).data = null) (hbuffer : BufferFits size)
    (hwrite : ∀ p h', kmallocUnless refuse size y.vfs.heap = some (p, h') →
      vfsWrite file (some buffer) size refuse y.vfs
        = if p = null then some (kernelEnomem, { y.vfs with heap := h' })
          else some (kernelSuccess, ramfsStore file (y.vfs.files file).node buffer size
            (withBuffer (y.vfs.files file).node p size { y.vfs with heap := h' }))) :
    WritesFile y file (some buffer) size refuse := by
  obtain ⟨p, h', ts', hrun, hheap, halloc, hmem⟩ := kmallocUnless_spec hi.heap refuse size
  have hi' := hi.withHeap hheap (fun u hu => halloc.mono hu) hmem
  have hvfs := hwrite p h' hrun
  by_cases hp : p = null
  · rw [if_pos hp] at hvfs
    exact hi'.write_error enomem_ne hvfs (hi.kept_withHeap hmem)
  · rw [if_neg hp] at hvfs
    obtain ⟨htree, hhandles, hfresh⟩ := hi.fresh hheap halloc hp
    obtain ⟨s, hs, hblock⟩ := halloc.new hp
    have hbuf := hi'.setBuffer hn hdata hblock ((le_alignSize hbuffer).trans hs) htree hhandles
      hfresh
    have hself : (withBuffer (y.vfs.files file).node p size { y.vfs with heap := h' }).nodes
        (y.vfs.files file).node
        = { y.vfs.nodes (y.vfs.files file).node with data := p, capacity := size } :=
      withBuffer_self
    have hsize := Nat.le_of_eq (congrArg RamfsNode.capacity hself).symm
    have hdata' := congrArg RamfsNode.data hself
    have hnull := hdata'.trans_ne hp
    refine ⟨kernelSuccess, _, ts', hvfs, hbuf.store hfile rfl hnull hsize buffer,
      fun _ => hbuf.store_inside hfile rfl hnull hsize buffer rfl (.inr ?_),
      fun h => absurd rfl h⟩
    exact hrun.trans (congrArg (fun q => some (q, h')) hdata'.symm)

/-- `vfs_write` keeps the invariant and touches only its file. -/
theorem FsInv.write (hi : FsInv y ts) (hfile : file = null ∨ file ∈ y.handles)
    (hbuffer : BufferFits size) (hfits : WriteFits y.vfs file size)
    (buffer : Option (Nat → Byte)) (refuse : Bool) : WritesFile y file buffer size refuse := by
  by_cases hzero : file = null
  · exact hi.write_error einval_ne (by rw [vfsWrite, if_pos hzero]) (Kept.refl y)
  · have hmem := hfile.resolve_left hzero
    obtain ⟨-, hn⟩ := hi.files file hmem
    have hnull := hi.tree.ne_null _ hn
    have hops := hi.tree.ops _ hn
    have hself := hi.tree.self _ hn
    have hwrite : vfsWrite file buffer size refuse y.vfs
        = ramfsWrite file buffer size refuse y.vfs := by
      simp only [vfsWrite, if_neg hzero, if_neg hnull, hops]
    cases buffer with
    | none => exact hi.write_error einval_ne (by rw [hwrite]; rfl) (Kept.refl y)
    | some buffer =>
        by_cases htype : (y.vfs.nodes (y.vfs.files file).node).vnode.type = .file
        · by_cases hdata : (y.vfs.nodes (y.vfs.files file).node).data = null
          · refine hi.write_first hmem hn hdata hbuffer fun p h' hrun => ?_
            rw [hwrite]
            exact ramfsWrite_first hzero hself hnull htype hdata hrun
          · have hsize := (hfits.resolve_left hzero).resolve_left hdata
            refine ⟨kernelSuccess, ramfsStore file (y.vfs.files file).node buffer size y.vfs, ts,
              ?_, hi.store hmem rfl hdata hsize buffer,
              fun _ => hi.store_inside hmem rfl hdata hsize buffer rfl (.inl rfl),
              fun h => absurd rfl h⟩
            rw [hwrite]
            simp only [ramfsWrite, if_neg hzero, hself, if_neg hnull, htype, if_neg hdata, ne_eq,
              not_true_eq_false, if_false]
        · refine hi.write_error enotsup_ne ?_ (Kept.refl y)
          rw [hwrite]
          simp only [ramfsWrite, if_neg hzero, hself, if_neg hnull, ne_eq, htype,
            not_false_eq_true, if_true]

-- ==================================================================== read

/-- A call of `vfs_read` keeps the invariant. -/
theorem FsInv.read (hi : FsInv y ts) (hfile : file = null ∨ file ∈ y.handles)
    (buffer size : Nat) : FsInv { y with vfs := (vfsRead file buffer size y.vfs).2.2 } ts := by
  by_cases hzero : file = null
  · rw [vfsRead, if_pos hzero]
    exact hi
  · have hmem := hfile.resolve_left hzero
    obtain ⟨-, hn⟩ := hi.files file hmem
    rw [vfsRead, if_neg hzero, if_neg (hi.tree.ne_null _ hn)]
    simp only [hi.tree.ops _ hn, ramfsRead]
    split
    · exact hi
    · split
      · exact hi
      · split
        · exact hi
        · split
          · exact hi
          · exact hi.setFile hmem rfl

/-- The first bytes of a list that is read off memory. -/
theorem take_bufferBytes (f : Nat → Byte) (n k : Nat) :
    (bufferBytes f n).take k = bufferBytes f (if k > n then n else k) := by
  rw [bufferBytes, bufferBytes, ← List.map_take, List.take_range]
  congr 2
  by_cases hk : k > n
  · rw [if_pos hk]
    omega
  · rw [if_neg hk]
    omega

/-- What `vfs_read` delivers of a file. -/
theorem FsInv.read_bytes (hi : FsInv y ts) (hfile : file ∈ y.handles)
    (htype : (y.vfs.nodes (y.vfs.files file).node).vnode.type = .file) {buffer : Nat}
    (hbuffer : buffer ≠ null) (size : Nat) :
    (vfsRead file buffer size y.vfs).2.1
      = ((y.written (y.vfs.files file).node).getD []).take size := by
  obtain ⟨⟨s, hs⟩, hn⟩ := hi.files file hfile
  have hzero := hi.heap.payload_ne_null hs
  have hnull := hi.tree.ne_null _ hn
  have hd := hi.data _ hn
  rw [hd.bytes, take_bufferBytes, vfsRead, if_neg hzero, if_neg hnull]
  simp only [hi.tree.ops _ hn, ramfsRead, hi.tree.self _ hn, htype]
  rw [if_neg (by simp [hzero, hbuffer]), if_neg hnull, if_neg (by simp)]
  by_cases hdata : (y.vfs.nodes (y.vfs.files file).node).data = null
  · rw [if_pos hdata, hd.empty hdata]
    by_cases hsize : size > 0
    · rw [if_pos hsize]
      rfl
    · rw [if_neg hsize, Nat.le_zero.mp (Nat.not_lt.mp hsize)]
      rfl
  · rw [if_neg hdata]
    rfl

end ZenithOS.Fs
