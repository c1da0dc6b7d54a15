/-
The file system refines its specification.

`Presents` says what a state of the code stands for: the tree of nodes is
the name space (`pathTree`, `entryOf`), and a descriptor with a file
object in its slot denotes the path of that object's node. Positions,
capacities, addresses and the objects that nobody can reach any more are
not part of it.

# The calls

One lemma for each call says that it answers as the specification does
and that its state stands for the specification's next one. With
`Simulates.run` it is so for whole runs (`file_calls_refine`).
-/
import ZenithOS.Lib.PathTree
import ZenithOS.Lib.Refinement
import ZenithOS.Fs.Calls
import ZenithOS.Fs.Proofs.Descriptors
import ZenithOS.Fs.Proofs.Names

namespace ZenithOS.Fs

open Lib Klib Mm Vmm Proc Scheduler

variable {s : FsSys} {ts : List Tile} {a : FileSpace} {y : SysFiles} {v v' : Vfs}
  {nodes : Nat → RamfsNode} {tree : List Nat} {front path : Path} {n c d p file size : Nat}
  {process : ProcessPtr} {fd : Int}

-- ============================================================ the name space

/-- The links between the nodes that were made. -/
def pathTree (nodes : Nat → RamfsNode) (tree : List Nat) : PathTree Nat Name where
  root := ramfsRoot
  child d c := d ∈ tree ∧ IsChild nodes d c
  name := nodeName nodes

/-- The nodes are a tree. -/
theorem TreeInv.proper (ht : TreeInv nodes tree) : (pathTree nodes tree).Proper := by
  refine ⟨?_, ?_, ?_⟩
  · rintro d ⟨hd, i, hi, hroot⟩
    exact (ht.child d hd i hi).2.2 hroot
  · rintro d e c ⟨hd, i, hi, rfl⟩ ⟨he, j, hj, hc⟩
    have hparent := (ht.child e he j hj).2.1
    rw [hc, (ht.child d hd i hi).2.1] at hparent
    exact hparent
  · rintro d b c ⟨hd, i, hi, rfl⟩ ⟨-, j, hj, rfl⟩ hname
    rw [ht.siblings d hd i hi j hj hname]

/-- Paths lead to nodes of the tree. -/
theorem TreeInv.mem_of_at (ht : TreeInv nodes tree) (hn : (pathTree nodes tree).At path n) :
    n ∈ tree := by
  induction hn with
  | root => exact ht.root
  | child _ hc _ => exact ht.mem_of_isChild hc.1 hc.2

/-- The names in a directory, in the order of its array. -/
def childNames (nodes : Nat → RamfsNode) (n : Nat) : List Name :=
  (List.range (nodes n).childCount).map fun i => nodeName nodes ((nodes n).children i)

/-- The names in a directory are those of its children. -/
theorem mem_childNames {name : Name} :
    name ∈ childNames nodes n ↔ ∃ c, IsChild nodes n c ∧ nodeName nodes c = name := by
  rw [childNames, List.mem_map]
  constructor
  · rintro ⟨i, hi, hname⟩
    exact ⟨_, ⟨i, List.mem_range.mp hi, rfl⟩, hname⟩
  · rintro ⟨c, ⟨i, hi, rfl⟩, hname⟩
    exact ⟨i, List.mem_range.mpr hi, hname⟩

/-- What a node is to the users of the file system. -/
def entryOf (s : FsSys) (n : Nat) : Entry :=
  if (s.vfs.nodes n).vnode.type = .directory then .directory (childNames s.vfs.nodes n)
  else .file (if (s.vfs.nodes n).data = null then none else some ((s.written n).getD []))

/-- What a state of the code stands for. -/
structure Presents (y : SysFiles) (s : FsSys) (ts : List Tile) (a : FileSpace) : Prop where
  fs : FsInv s ts
  vfs : s.vfs = y.vfs
  slots : ∀ process fd, fdGet (y.fdTable process) fd ≠ null →
    fdGet (y.fdTable process) fd ∈ s.handles
  types : ∀ n ∈ s.tree, (s.vfs.nodes n).vnode.type = .directory
    ∨ (s.vfs.nodes n).vnode.type = .file
  names : (pathTree s.vfs.nodes s.tree).Represents (entryOf s) a.names.entries
  closed : ∀ process fd, fdGet (y.fdTable process) fd = null → a.descriptors process fd = none
  opened : ∀ process fd, fdGet (y.fdTable process) fd ≠ null →
    ∃ path, a.descriptors process fd = some path
      ∧ (pathTree s.vfs.nodes s.tree).At path (s.vfs.files (fdGet (y.fdTable process) fd)).node

-- ================================================================ resolving

/-- A descent along the nodes is one along the entries. -/
theorem Resolves.descend_eq (ht : TreeInv nodes tree) {ns : Namespace} {entry : Nat → Entry}
    (hr : (pathTree nodes tree).Represents entry ns.entries) {names : Path} {rc : Int}
    {result : Option Nat} (hfront : (pathTree nodes tree).At front n)
    (h : Resolves nodes n names rc result) :
    (∃ c path, result = some c ∧ rc = kernelSuccess ∧ ns.descend front names = .ok path
        ∧ (pathTree nodes tree).At path c)
      ∨ result = none ∧ ns.descend front names = .error rc := by
  induction h generalizing front with
  | @here n => exact .inl ⟨n, front, rfl, rfl, rfl, hfront⟩
  | @descend n c name names rc result hlen hc hname _ ih =>
      have hnext : (pathTree nodes tree).At (front ++ [name]) c :=
        (ht.proper.at_snoc hfront).mpr ⟨⟨ht.mem_of_at hfront, hc⟩, hname⟩
      have hsome : ns.entries (front ++ [name]) ≠ none := by
        rw [hr.of_at hnext]
        exact Option.some_ne_none _
      rw [Namespace.descend, if_neg (show ¬ vfsMaxComponentLen ≤ name.length from
        Nat.not_le_of_lt (Nat.lt_succ_of_le hlen)), if_neg hsome]
      exact ih hnext
  | tooLong hlen =>
      refine .inr ⟨rfl, ?_⟩
      exact if_pos (Nat.succ_le_of_lt hlen)
  | @missing n name names hlen hall =>
      refine .inr ⟨rfl, ?_⟩
      have hnone : ns.entries (front ++ [name]) = none := by
        rw [hr.eq_none_iff]
        intro c hc
        obtain ⟨⟨-, hchild⟩, hname⟩ := (ht.proper.at_snoc hfront).mp hc
        exact hall c hchild hname
      rw [Namespace.descend, if_neg (show ¬ vfsMaxComponentLen ≤ name.length from
        Nat.not_le_of_lt (Nat.lt_succ_of_le hlen)), if_pos hnone]

/-- `vfs_lookup`. -/
theorem Presents.lookup (h : Presents y s ts a) (path : Option (List Byte)) :
    (∃ c p, vfsLookup y.vfs path = some (kernelSuccess, some c) ∧ c ∈ s.tree
        ∧ a.names.resolve (path.map components) = .ok p
        ∧ (pathTree s.vfs.nodes s.tree).At p c)
      ∨ ∃ rc, vfsLookup y.vfs path = some (rc, none) ∧ rc ≠ kernelSuccess
        ∧ a.names.resolve (path.map components) = .error rc := by
  cases path with
  | none => exact .inr ⟨kernelEinval, rfl, einval_ne, rfl⟩
  | some path =>
      rw [← h.vfs]
      obtain ⟨rc, result, hlook, hres⟩ := vfsLookup_resolves h.fs.tree h.fs.root path
      rcases hres.descend_eq h.fs.tree h.names .root with ⟨c, p, rfl, rfl, hdescend, hat⟩ |
        ⟨rfl, hdescend⟩
      · exact .inl ⟨c, p, hlook, h.fs.tree.mem_of_at hat, hdescend, hat⟩
      · exact .inr ⟨rc, hlook, hres.none_iff.mp rfl, hdescend⟩

/-- The file system has moved on and more may be open, but no node has
changed, and no open file's node. -/
theorem Presents.withVfs (h : Presents y s ts a) {ts' : List Tile} {handles : List Nat}
    (hfs : FsInv { s with vfs := v, handles := handles } ts') (hsub : s.handles ⊆ handles)
    (hnodes : v.nodes = s.vfs.nodes)
    (hfiles : ∀ f ∈ s.handles, (v.files f).node = (s.vfs.files f).node) :
    Presents (y.withVfs v) { s with vfs := v, handles := handles } ts' a := by
  have hentry : entryOf { s with vfs := v, handles := handles } = entryOf s := by
    funext n
    unfold entryOf
    dsimp only
    rw [hnodes]
  refine ⟨hfs, rfl, fun process fd hopen => hsub (h.slots process fd hopen), ?_, ?_, h.closed, ?_⟩
  · dsimp only
    rw [hnodes]
    exact h.types
  · dsimp only
    rw [hnodes, hentry]
    exact h.names
  · intro process fd hopen
    have hnode := hfiles _ (h.slots process fd hopen)
    obtain ⟨path, hpath, hat⟩ := h.opened process fd hopen
    refine ⟨path, hpath, ?_⟩
    dsimp only
    rw [hnodes]
    exact hnode ▸ hat

-- ========================================================= mkdir and create

section Add

variable {type : VnodeType} {string : List Byte} {refuse : Bool} {node : RamfsNode} {x : Name}

/-- The new node is the one child more. -/
theorem isChild_insertNode (hn : n ≠ p) :
    IsChild (insertNode nodes d p node) n c ↔ IsChild nodes n c ∨ n = d ∧ c = p := by
  constructor
  · rintro ⟨i, hi, rfl⟩
    rcases insertNode_children nodes d node hn with
      ⟨-, hcount, hsame⟩ | ⟨heq, hcount, hnext, hsame⟩
    · rw [hcount] at hi
      rw [hsame]
      exact .inl ⟨i, hi, rfl⟩
    · rw [hcount] at hi
      by_cases hlast : i = (nodes n).childCount
      · rw [hlast, hnext]
        exact .inr ⟨heq, rfl⟩
      · rw [hsame i (by omega)]
        exact .inl ⟨i, by omega, rfl⟩
  · rintro (hc | ⟨rfl, rfl⟩)
    · exact hc.insertNode hn
    · refine ⟨(nodes n).childCount, ?_, ?_⟩ <;> rw [insertNode_parent]
      · exact Nat.lt_succ_self _
      · exact Function.update_self ..

/-- An insertion is one into the tree. -/
theorem pathTree_insert (hd : d ∈ tree) (hp : p ∉ tree) (hleaf : node.childCount = 0)
    (hname : cString node.vnode.name = x) :
    pathTree (insertNode nodes d p node) (p :: tree) = (pathTree nodes tree).insert d p x := by
  have hne : ∀ n ∈ tree, n ≠ p := fun n hn heq => hp (heq ▸ hn)
  have hnew : insertNode nodes d p node p = node := insertNode_new node (hne d hd).symm
  apply PathTree.ext
  · rfl
  · funext e c
    apply propext
    show e ∈ p :: tree ∧ IsChild (insertNode nodes d p node) e c
      ↔ (e ∈ tree ∧ IsChild nodes e c) ∨ e = d ∧ c = p
    constructor
    · rintro ⟨he, hc⟩
      rcases List.mem_cons.mp he with rfl | he
      · obtain ⟨i, hi, -⟩ := hc
        rw [hnew, hleaf] at hi
        exact absurd hi (Nat.not_lt_zero i)
      · exact ((isChild_insertNode (hne e he)).mp hc).imp_left fun hold => ⟨he, hold⟩
    · rintro (⟨he, hc⟩ | ⟨rfl, rfl⟩)
      · exact ⟨List.mem_cons_of_mem p he, (isChild_insertNode (hne e he)).mpr (.inl hc)⟩
      · exact ⟨List.mem_cons_of_mem c hd, (isChild_insertNode (hne e hd)).mpr (.inr ⟨rfl, rfl⟩)⟩
  · funext n
    show nodeName (insertNode nodes d p node) n = Function.update (nodeName nodes) p x n
    by_cases hn : n = p
    · rw [hn, Function.update_self, nodeName, hnew, hname]
    · rw [Function.update_of_ne hn, insertNode_nodeName hn]

/-- The names that a directory has after it. -/
theorem TreeInv.childNames_insert (ht : TreeInv nodes tree) (hp : p ∉ tree) (hn : n ∈ tree)
    (hd : d ∈ tree) (hname : cString node.vnode.name = x) :
    childNames (insertNode nodes d p node) n
      = childNames nodes n ++ if n = d then [x] else [] := by
  have hne : ∀ n ∈ tree, n ≠ p := fun n hn heq => hp (heq ▸ hn)
  have hold : ∀ i ∈ List.range (nodes n).childCount,
      nodeName (insertNode nodes d p node) ((nodes n).children i)
        = nodeName nodes ((nodes n).children i) := fun i hi =>
    insertNode_nodeName (hne _ (ht.child n hn i (List.mem_range.mp hi)).1)
  unfold childNames
  rcases insertNode_children nodes d node (hne n hn) with
    ⟨heq, hcount, hsame⟩ | ⟨heq, hcount, hnext, hsame⟩
  · rw [hcount, hsame, if_neg heq, List.append_nil]
    exact List.map_congr_left hold
  · rw [hcount, if_pos heq, List.range_succ, List.map_append, List.map_singleton, hnext]
    congr 1
    · refine List.map_congr_left fun i hi => ?_
      rw [hsame i (List.mem_range.mp hi)]
      exact hold i hi
    · rw [nodeName, insertNode_new node (hne d hd).symm, hname]

/-- What a new node is. -/
def newEntry (type : VnodeType) : Entry :=
  if type = .directory then .directory [] else .file none

theorem newEntry_names (type : VnodeType) : (newEntry type).names = [] := by
  unfold newEntry
  split_ifs <;> rfl

/-- A path denotes what its node holds. -/
theorem Presents.entries (h : Presents y s ts a) (hat : (pathTree s.vfs.nodes s.tree).At path n) :
    a.names.entries path = some (entryOf s n) :=
  h.names.of_at hat

/-- A new node in a directory is a new name. -/
theorem Presents.insert (h : Presents y s ts a) {ts' : List Tile} {fs : Nat}
    (hfs : FsInv { s with vfs := v, tree := p :: s.tree } ts')
    (hnodes : v.nodes = insertNode s.vfs.nodes d p (newNode type (nameArray string) d fs p))
    (hfiles : v.files = s.vfs.files) (hat : (pathTree s.vfs.nodes s.tree).At path d)
    (hp : p ∉ s.tree) (hdir : (s.vfs.nodes d).vnode.type = .directory)
    (hnew : cString string ∉ childNames s.vfs.nodes d) (htype : type = .directory ∨ type = .file) :
    Presents (y.withVfs v) { s with vfs := v, tree := p :: s.tree } ts'
      { a with
        names := a.names.add path (childNames s.vfs.nodes d) (cString string)
          (newEntry type) } := by
  have ht := h.fs.tree
  have hd := ht.mem_of_at hat
  have hne : ∀ n ∈ s.tree, n ≠ p := fun n hn heq => hp (heq ▸ hn)
  have hname : cString (newNode type (nameArray string) d fs p).vnode.name = cString string :=
    cString_kStrcpy _ string
  have hlinks : pathTree v.nodes (p :: s.tree)
      = (pathTree s.vfs.nodes s.tree).insert d p (cString string) := by
    rw [hnodes]
    exact pathTree_insert hd hp rfl hname
  have hfresh : ∀ front, ¬ (pathTree s.vfs.nodes s.tree).At front p :=
    fun front hfront => hp (ht.mem_of_at hfront)
  have hleaf : ∀ c, ¬ (pathTree s.vfs.nodes s.tree).child p c := fun c hc => hp hc.1
  have hfree : ∀ n, ¬ (pathTree s.vfs.nodes s.tree).At (path ++ [cString string]) n := by
    intro n hn
    obtain ⟨hc, hsame⟩ := (ht.proper.at_snoc hat).mp hn
    exact hnew (mem_childNames.mpr ⟨n, hc.2, hsame⟩)
  have hdirectory : a.names.entries path = some (.directory (childNames s.vfs.nodes d)) := by
    rw [h.entries hat, entryOf, if_pos hdir]
  refine ⟨hfs, rfl, h.slots, ?_, ?_, h.closed, ?_⟩
  · dsimp only
    rw [List.forall_mem_cons, hnodes]
    refine ⟨?_, fun n hn => ?_⟩
    · rw [insertNode_new _ (hne d hd).symm]
      exact htype
    · rw [insertNode_vnode (hne n hn)]
      exact h.types n hn
  · dsimp only
    rw [hlinks, Namespace.add_entries hdirectory hnew (newEntry_names type)]
    refine ((h.names.update ht.proper hat _).insert ht.proper hat hfresh hleaf hfree _).congr ?_
    intro front n hn
    rcases (ht.proper.at_insert hat hfresh hleaf).mp hn with hold | ⟨-, rfl⟩
    · have hmem := ht.mem_of_at hold
      rw [Function.update_of_ne (hne n hmem), entryOf]
      dsimp only
      rw [hnodes, insertNode_vnode (hne n hmem), ht.childNames_insert hp hmem hd hname,
        (insertNode_data _ d _ (hne n hmem)).1]
      by_cases hn' : n = d
      · rw [hn', Function.update_self, if_pos hdir, if_pos rfl]
      · rw [Function.update_of_ne hn', if_neg hn', List.append_nil]
        rfl
    · rw [Function.update_self, entryOf]
      dsimp only
      rw [hnodes, childNames, insertNode_new _ (hne d hd).symm]
      rfl
  · intro process fd hopen
    obtain ⟨front, hpath, hfile⟩ := h.opened process fd hopen
    refine ⟨front, hpath, ?_⟩
    dsimp only
    rw [hlinks, hfiles]
    exact (ht.proper.at_insert hat hfresh hleaf).mpr (.inl hfile)

/-- An allocation fails exactly when it returns `NULL`. -/
theorem outOfMemory_eq {h h' : Heap} (hrun : kmallocUnless refuse size h = some (p, h')) :
    outOfMemory h size refuse = decide (p = null) := by
  rw [outOfMemory, hrun, Option.all_some]

theorem length_childNames : (childNames nodes n).length = (nodes n).childCount := by
  rw [childNames, List.length_map, List.length_range]

/-- No file is opened by it. -/
theorem ramfsAdd_files {name : Option (List Byte)} {rc : Int}
    (hrun : ramfsAdd type d name refuse v = some (rc, v')) : v'.files = v.files := by
  cases name with
  | none =>
      cases hrun
      rfl
  | some string =>
      simp only [ramfsAdd, Option.bind_eq_bind] at hrun
      split_ifs at hrun
      · cases hrun
        rfl
      · cases hrun
        rfl
      · cases hrun
        rfl
      · cases hrun
        rfl
      · cases hrun
        rfl
      · obtain ⟨r, -, hr⟩ := Option.bind_eq_some_iff.mp hrun
        split_ifs at hr <;>
        · cases hr
          rfl

/-- The code of `ramfs_mkdir` and `ramfs_create`. -/
theorem FsInv.add_code (hi : FsInv s ts) (hd : d ∈ s.tree) (type : VnodeType)
    (string : List Byte) (refuse : Bool) :
    (ramfsAdd type d (some string) refuse s.vfs).map Prod.fst
      = some (if (s.vfs.nodes d).vnode.type ≠ .directory then kernelEnotsup
        else if cString string ∈ childNames s.vfs.nodes d then kernelEexist
        else if (childNames s.vfs.nodes d).length ≥ ramfsMaxChildren
          ∨ outOfMemory s.vfs.heap ramfsNodeBytes refuse = true then kernelEnomem
        else kernelSuccess) := by
  have hnull := hi.tree.ne_null d hd
  have hself := hi.tree.self d hd
  by_cases htype : (s.vfs.nodes d).vnode.type = .directory
  · rw [if_neg (not_not.mpr htype), length_childNames]
    rcases hi.tree.lookup hd string with ⟨c, hlook, hc, hcname⟩ | ⟨hlook, hnew⟩
    · rw [if_pos (mem_childNames.mpr ⟨c, hc, hcname⟩)]
      simp only [ramfsAdd, if_neg hnull, htype, hself, hlook, ne_eq, not_true_eq_false, if_false,
        if_true, Option.map_some]
    · have hnot : cString string ∉ childNames s.vfs.nodes d := by
        intro hmem
        obtain ⟨c, hc, hcname⟩ := mem_childNames.mp hmem
        exact hnew c hc hcname
      rw [if_neg hnot]
      by_cases hfull : (s.vfs.nodes d).childCount ≥ ramfsMaxChildren
      · rw [if_pos (.inl hfull)]
        simp only [ramfsAdd, if_neg hnull, htype, hself, hlook, ne_eq, not_true_eq_false, if_false,
          if_neg enoent_ne, if_pos hfull, Option.map_some]
      · obtain ⟨p, h', ts', hrun, hheap, halloc, -⟩ :=
          kmallocUnless_spec hi.heap refuse ramfsNodeBytes
        have hpd : p ≠ d := by
          rintro rfl
          exact (hi.fresh hheap halloc hnull).1 hd
        rw [ramfsAdd_checked type hnull htype hself hlook (by decide) hfull hrun hpd,
          outOfMemory_eq hrun]
        by_cases hp : p = null
        · rw [if_pos hp, if_pos (.inr (decide_eq_true hp)), Option.map_some]
        · rw [if_neg hp, if_neg (not_or.mpr ⟨hfull, fun hnull => hp (of_decide_eq_true hnull)⟩),
            Option.map_some]
  · rw [if_pos htype]
    simp only [ramfsAdd, if_neg hnull, ne_eq, htype, not_false_eq_true, if_true, Option.map_some]

/-- `ramfs_mkdir` and `ramfs_create` in the directory at a path. -/
theorem Presents.add (h : Presents y s ts a) {request : Option Path} {name : Option (List Byte)}
    (hresolve : a.names.resolve request = .ok path)
    (hat : (pathTree s.vfs.nodes s.tree).At path d) (hname : NameFits name)
    (htype : type = .directory ∨ type = .file) (refuse : Bool) :
    ∃ rc v s' ts', ramfsAdd type d name refuse s.vfs = some (rc, v)
      ∧ (a.add (newEntry type) request (name.map cString)
        (outOfMemory s.vfs.heap ramfsNodeBytes refuse)).1 = rc
      ∧ Presents (y.withVfs v) s' ts' (a.add (newEntry type) request (name.map cString)
        (outOfMemory s.vfs.heap ramfsNodeBytes refuse)).2 := by
  have hd := h.fs.tree.mem_of_at hat
  obtain ⟨rc, v, ts', hrun, hfs, -, hkept⟩ := h.fs.add (.inr hd) hname type refuse
  -- an error leaves both as they were
  have herror : rc ≠ kernelSuccess → Presents (y.withVfs v) { s with vfs := v } ts' a := by
    intro hrc
    rw [added_error hrc] at hfs
    obtain ⟨hnodes, hfiles, -⟩ := hkept hrc
    exact h.withVfs hfs (List.Subset.refl _) hnodes fun f _ => by rw [hfiles]
  cases name with
  | none =>
      have hrc : kernelEinval = rc := congrArg Prod.fst (Option.some.inj hrun)
      simp only [FileSpace.add, hresolve, Option.map_none]
      exact ⟨rc, v, _, ts', hrun, hrc, herror (hrc ▸ einval_ne)⟩
  | some string =>
      have hcode := h.fs.add_code hd type string refuse
      rw [hrun, Option.map_some, Option.some.injEq] at hcode
      dsimp only at hcode
      have hentry := h.entries hat
      rw [entryOf] at hentry
      by_cases hdir : (s.vfs.nodes d).vnode.type = .directory
      · rw [if_pos hdir] at hentry
        rw [if_neg (not_not.mpr hdir)] at hcode
        simp only [FileSpace.add, hresolve, Option.map_some, hentry]
        by_cases hmem : cString string ∈ childNames s.vfs.nodes d
        · rw [if_pos hmem] at hcode ⊢
          exact ⟨rc, v, _, ts', hrun, hcode.symm, herror (hcode ▸ eexist_ne)⟩
        rw [if_neg hmem] at hcode ⊢
        by_cases hfull : (childNames s.vfs.nodes d).length ≥ ramfsMaxChildren
            ∨ outOfMemory s.vfs.heap ramfsNodeBytes refuse = true
        · rw [if_pos hfull] at hcode ⊢
          exact ⟨rc, v, _, ts', hrun, hcode.symm, herror (hcode ▸ enomem_ne)⟩
        · rw [if_neg hfull] at hcode ⊢
          subst hcode
          obtain ⟨p, hp, -, -, hnodes, -⟩ := h.fs.add_success hd hrun
          have hadded : added s d (kernelSuccess, v)
              = { s with vfs := v, tree := p :: s.tree } := by
            simp only [added, if_true, lastChild, hnodes, insertNode_parent, Nat.add_sub_cancel,
              Function.update_self]
          rw [hadded] at hfs
          exact ⟨_, v, _, ts', hrun, rfl, h.insert hfs hnodes (ramfsAdd_files hrun) hat hp hdir hmem
            htype⟩
      · rw [if_neg hdir] at hentry
        rw [if_pos hdir] at hcode
        simp only [FileSpace.add, hresolve, Option.map_some, hentry]
        exact ⟨rc, v, _, ts', hrun, hcode.symm, herror (hcode ▸ enotsup_ne)⟩

/-- The same by the directory's path. -/
theorem Presents.addAt (h : Presents y s ts a) (path : Option (List Byte))
    {name : Option (List Byte)} (hname : NameFits name)
    (htype : type = .directory ∨ type = .file) (refuse : Bool) :
    ∃ rc y' s' ts', Fs.addAt (ramfsAdd type) path name refuse y = some (rc, y')
      ∧ (a.add (newEntry type) (path.map components) (name.map cString)
        (outOfMemory y.vfs.heap ramfsNodeBytes refuse)).1 = rc
      ∧ Presents y' s' ts' (a.add (newEntry type) (path.map components) (name.map cString)
        (outOfMemory y.vfs.heap ramfsNodeBytes refuse)).2 := by
  unfold Fs.addAt
  rcases h.lookup path with ⟨d, front, hlook, -, hresolve, hat⟩ | ⟨rc, hlook, -, hresolve⟩
  · obtain ⟨rc, v, s', ts', hrun, hrc, hp⟩ := h.add hresolve hat hname htype refuse
    rw [h.vfs] at hrun hrc hp
    refine ⟨rc, y.withVfs v, s', ts', ?_, hrc, hp⟩
    rw [hlook, Option.bind_eq_bind, Option.bind_some]
    dsimp only
    rw [hrun, Option.map_some]
  · refine ⟨rc, y, s, ts, ?_, ?_, ?_⟩
    · rw [hlook, Option.bind_eq_bind, Option.bind_some]
    · simp only [FileSpace.add, hresolve]
    · simp only [FileSpace.add, hresolve]
      exact h

end Add

-- ================================================================== sys_open

/-- A descriptor denotes nothing exactly when its slot is empty. -/
theorem Presents.isNone_iff (h : Presents y s ts a) :
    (a.descriptors process fd).isNone = true ↔ fdGet (y.fdTable process) fd = null := by
  constructor
  · intro hnone
    by_contra hopen
    obtain ⟨path, hpath, -⟩ := h.opened process fd hopen
    rw [hpath] at hnone
    cases hnone
  · intro hclosed
    rw [h.closed process fd hclosed]
    rfl

/-- A slot is set, and its descriptor with it. -/
theorem Presents.setSlot (h : Presents y s ts a) {y' : SysFiles} {denoted : Option Path}
    (hslots : SlotSet y y' process fd file) (hvfs : y'.vfs = y.vfs)
    (hnull : file = null → denoted = none)
    (hfile : file ≠ null → file ∈ s.handles ∧ ∃ path, denoted = some path
      ∧ (pathTree s.vfs.nodes s.tree).At path (s.vfs.files file).node) :
    Presents y' s ts (a.setDescriptor process fd denoted) := by
  refine ⟨h.fs, h.vfs.trans hvfs.symm, ?_, h.types, h.names, ?_, ?_⟩
  all_goals
    intro other fd'
    rw [hslots other fd']
    by_cases hthis : other = process ∧ fd' = fd
  · rw [if_pos hthis]
    exact fun hopen => (hfile hopen).1
  · rw [if_neg hthis]
    exact h.slots other fd'
  · rw [if_pos hthis]
    intro hclosed
    exact (if_pos hthis).trans (hnull hclosed)
  · rw [if_neg hthis]
    intro hclosed
    exact (if_neg hthis).trans (h.closed other fd' hclosed)
  · rw [if_pos hthis]
    intro hopen
    obtain ⟨path, hpath, hat⟩ := (hfile hopen).2
    exact ⟨path, (if_pos hthis).trans hpath, hat⟩
  · rw [if_neg hthis]
    intro hopen
    obtain ⟨path, hpath, hat⟩ := h.opened other fd' hopen
    exact ⟨path, (if_neg hthis).trans hpath, hat⟩

/-- A table is stored back. -/
theorem Presents.keepTable (h : Presents y s ts a) (process : ProcessPtr) :
    Presents (y.withTable process (some (y.kernel.process process).fdTable)) s ts a := by
  have hkept : SlotsKept y (y.withTable process (some (y.kernel.process process).fdTable)) :=
    slotsKept_withTable rfl
  refine ⟨h.fs, h.vfs, ?_, h.types, h.names, ?_, ?_⟩
  all_goals
    intro other fd
    rw [hkept other fd]
  · exact h.slots other fd
  · exact h.closed other fd
  · exact h.opened other fd

/-- The first free slot is the lowest descriptor that is free. -/
theorem Presents.allocate (h : Presents y s ts a) (process : ProcessPtr) (hfile : file ∈ s.handles)
    (hat : (pathTree s.vfs.nodes s.tree).At path (s.vfs.files file).node) :
    (a.allocate process path).1 = (fdAllocate (y.fdTable process) file).1
      ∧ Presents (y.withTable process (fdAllocate (y.fdTable process) file).2) s ts
        (a.allocate process path).2 := by
  have hnull := h.fs.handle_ne_null hfile
  have hslot : ∀ k < fdMax, (a.descriptors process k).isNone = true
      ↔ (y.kernel.process process).fdTable k = null := by
    intro k hk
    rw [h.isNone_iff]
    exact Eq.congr (fdGet_slot _ hk) rfl
  unfold FileSpace.allocate
  rcases fdAllocate_spec (y.kernel.process process).fdTable hnull with
    ⟨n, hn, hfree, hbelow, halloc⟩ | ⟨hall, halloc⟩
  · have hlowest : a.lowestFree process = some n := by
      refine List.find?_range_eq_some.mpr ⟨(hslot n hn).mpr hfree, List.mem_range.mpr hn, ?_⟩
      intro k hk
      rw [Bool.not_eq_true', ← Bool.not_eq_true, hslot k (hk.trans hn)]
      exact hbelow k hk
    have hset : SlotSet y (y.withTable process
        (some (Function.update (y.kernel.process process).fdTable n file))) process n file :=
      SlotSet.of_update hn rfl
    rw [SysFiles.fdTable, halloc, hlowest]
    exact ⟨rfl, h.setSlot hset rfl (fun heq => absurd heq hnull)
      fun _ => ⟨hfile, path, rfl, hat⟩⟩
  · have hlowest : a.lowestFree process = none := by
      refine List.find?_eq_none.mpr ?_
      intro k hk
      rw [hslot k (List.mem_range.mp hk)]
      exact hall k (List.mem_range.mp hk)
    rw [SysFiles.fdTable, halloc, hlowest]
    exact ⟨rfl, h.keepTable process⟩

theorem withVfs_self (y : SysFiles) : y.withVfs y.vfs = y := by
  obtain ⟨kernel, vfs, shared⟩ := y
  unfold SysFiles.withVfs
  congr
  rw [← shared]

/-- `sys_open` of a process. -/
theorem Presents.sysOpen (h : Presents y s ts a) (hcurrent : processCurrent y.kernel = some process)
    (path : Option (List Byte)) (refuse : Bool) :
    ∃ rc y' s' ts', Fs.sysOpen path refuse y = some (rc, y')
      ∧ (a.openPath process (path.map components) (outOfMemory y.vfs.heap fileBytes refuse)).1 = rc
      ∧ Presents y' s' ts'
        (a.openPath process (path.map components) (outOfMemory y.vfs.heap fileBytes refuse)).2 := by
  have hrun : ∀ {rc file v}, vfsOpen path refuse y.vfs = some (rc, file, v) → path ≠ none →
      Fs.sysOpen path refuse y
        = if rc ≠ kernelSuccess then some (rc, y.withVfs v)
          else some ((fdAllocate (y.fdTable process) (file.getD null)).1,
            (y.withVfs v).withTable process
              (fdAllocate (y.fdTable process) (file.getD null)).2) := by
    intro rc file v hopen hpath
    rw [Fs.sysOpen, if_neg hpath, hcurrent]
    dsimp only
    rw [hopen, Option.bind_eq_bind, Option.bind_some]
    rfl
  rcases h.lookup path with ⟨node, front, hlook, hnode, hresolve, hat⟩ | ⟨rc, hlook, hne, hresolve⟩
  · have hpath : path ≠ none := by
      rintro rfl
      cases hlook
    rw [← h.vfs] at hlook
    obtain ⟨p, h', ts', hmalloc, hheap, halloc, hmem⟩ :=
      kmallocUnless_spec h.fs.heap refuse fileBytes
    obtain ⟨rc, result, v, ts'', hopen, hfs, -⟩ := h.fs.openFile path refuse
    have hfound := vfsOpen_found hlook (h.fs.tree.ne_null node hnode) hmalloc
    rw [hopen] at hfound
    rw [h.vfs] at hmalloc hopen
    have hcall := hrun hopen hpath
    simp only [FileSpace.openPath, hresolve, outOfMemory_eq hmalloc]
    by_cases hp : p = null
    · rw [if_pos hp] at hfound
      cases hfound
      rw [if_pos (decide_eq_true hp)]
      exact ⟨_, _, _, _, hcall, rfl, h.withVfs hfs (List.Subset.refl _) rfl fun _ _ => rfl⟩
    · rw [if_neg hp] at hfound
      cases hfound
      rw [if_neg fun hnull => hp (of_decide_eq_true hnull)]
      have hfresh : p ∉ s.handles := (h.fs.fresh hheap halloc hp).2.1
      have hother : ∀ f ∈ s.handles, f ≠ p := fun f hf heq => hfresh (heq ▸ hf)
      have hopened := h.withVfs hfs (List.subset_cons_self p s.handles) rfl fun f hf =>
        congrArg File.node (Function.update_of_ne (hother f hf) _ _)
      rw [if_neg fun hne => hne rfl, Option.getD_some] at hcall
      have hfile : (pathTree s.vfs.nodes s.tree).At front
          (Function.update s.vfs.files p ⟨node, 0, 0, 1⟩ p).node := by
        rw [Function.update_self]
        exact hat
      obtain ⟨hrc, hslot⟩ := hopened.allocate process List.mem_cons_self hfile
      exact ⟨_, _, _, _, hcall, hrc, hslot⟩
  · simp only [FileSpace.openPath, hresolve]
    by_cases hpath : path = none
    · refine ⟨kernelEinval, y, s, ts, ?_, ?_, h⟩
      · rw [Fs.sysOpen, if_pos hpath]
      · rw [hpath] at hlook
        exact congrArg Prod.fst (Option.some.inj hlook).symm
    · refine ⟨rc, y, s, ts, ?_, rfl, h⟩
      rw [hrun (vfsOpen_lost hlook) hpath, if_pos hne, withVfs_self]

-- ================================================================== sys_read

/-- A read leaves the nodes alone. -/
theorem vfsRead_nodes (file buffer size : Nat) (v : Vfs) :
    (vfsRead file buffer size v).2.2.nodes = v.nodes := by
  unfold vfsRead
  by_cases hfile : file = null
  · rw [if_pos hfile]
  by_cases hnode : (v.files file).node = null
  · rw [if_neg hfile, if_pos hnode]
  rw [if_neg hfile, if_neg hnode]
  cases (v.nodes (v.files file).node).vnode.ops with
  | none => rfl
  | some ops =>
      cases ops with
      | ramfsVnodeOps =>
          simp only [ramfsRead]
          split_ifs <;> rfl

theorem length_bufferBytes (f : Nat → Byte) (n : Nat) : (bufferBytes f n).length = n := by
  rw [bufferBytes, List.length_map, List.length_range]

/-- `vfs_read` of an open file. -/
theorem Presents.read_answer (h : Presents y s ts a) (hfile : file ∈ s.handles)
    (hat : (pathTree s.vfs.nodes s.tree).At path (s.vfs.files file).node) (buffer size : Nat) :
    ((vfsRead file buffer size s.vfs).1, (vfsRead file buffer size s.vfs).2.1)
      = a.read path buffer size := by
  have hn := h.fs.tree.mem_of_at hat
  have hzero := h.fs.handle_ne_null hfile
  have hnull := h.fs.tree.ne_null _ hn
  have hentry := h.entries hat
  rw [entryOf] at hentry
  unfold FileSpace.read
  rw [vfsRead, if_neg hzero, if_neg hnull]
  simp only [h.fs.tree.ops _ hn, ramfsRead, h.fs.tree.self _ hn]
  by_cases hbuffer : buffer = null
  · rw [if_pos (.inr hbuffer), if_pos hbuffer]
  rw [if_neg (not_or.mpr ⟨hzero, hbuffer⟩), if_neg hbuffer, if_neg hnull]
  rcases h.types _ hn with htype | htype
  · rw [if_pos htype] at hentry
    rw [hentry, htype]
    rfl
  · rw [if_neg (by rw [htype]; exact VnodeType.noConfusion)] at hentry
    rw [if_neg (not_not.mpr htype), hentry]
    by_cases hdata : (s.vfs.nodes (s.vfs.files file).node).data = null
    · rw [if_pos hdata, if_pos hdata]
    · rw [if_neg hdata, if_neg hdata, (h.fs.data _ hn).bytes]
      dsimp only
      rw [take_bufferBytes, length_bufferBytes]
      rfl

/-- `vfs_read` of an open file. -/
theorem Presents.read (h : Presents y s ts a) (hfile : file ∈ s.handles)
    (hat : (pathTree s.vfs.nodes s.tree).At path (s.vfs.files file).node) (buffer size : Nat) :
    ∃ s', ((vfsRead file buffer size y.vfs).1, (vfsRead file buffer size y.vfs).2.1)
        = a.read path buffer size
      ∧ Presents (y.withVfs (vfsRead file buffer size y.vfs).2.2) s' ts a := by
  rw [← h.vfs]
  exact ⟨_, h.read_answer hfile hat buffer size,
    h.withVfs (h.fs.read (.inr hfile) buffer size) (List.Subset.refl _)
      (vfsRead_nodes file buffer size s.vfs) fun f _ => vfsRead_node file buffer size s.vfs f⟩

-- ================================================================= sys_write

/-- The links are not the contents'. -/
theorem pathTree_shape (hshape : ∀ n, shape (v.nodes n) = shape (v'.nodes n)) :
    pathTree v.nodes tree = pathTree v'.nodes tree := by
  show pathTree (fun n => shape (v.nodes n)) tree = pathTree (fun n => shape (v'.nodes n)) tree
  rw [funext hshape]

/-- Other bytes in a file are those at its path. -/
theorem Presents.store (h : Presents y s ts a) {ts' : List Tile} {node : RamfsNode}
    {content : List Byte}
    (hfs : FsInv { s with vfs := v, written := Function.update s.written n (some content) } ts')
    (hnodes : v.nodes = Function.update s.vfs.nodes n node)
    (hshape : shape node = shape (s.vfs.nodes n)) (hdata : node.data ≠ null)
    (hfiles : ∀ f ∈ s.handles, (v.files f).node = (s.vfs.files f).node)
    (hat : (pathTree s.vfs.nodes s.tree).At path n) (htype : (s.vfs.nodes n).vnode.type = .file)
    {old : Option (List Byte)} (hold : a.names.entries path = some (.file old)) :
    Presents (y.withVfs v)
      { s with vfs := v, written := Function.update s.written n (some content) } ts'
      { a with names := a.names.write path old content } := by
  have hsame : ∀ m, shape (v.nodes m) = shape (s.vfs.nodes m) := by
    intro m
    rw [hnodes]
    by_cases hm : m = n
    · rw [hm, Function.update_self, hshape]
    · rw [Function.update_of_ne hm]
  have htypes : ∀ m, (v.nodes m).vnode.type = (s.vfs.nodes m).vnode.type := by
    intro m
    show (shape (v.nodes m)).vnode.type = (shape (s.vfs.nodes m)).vnode.type
    rw [hsame m]
  have hlinks : pathTree v.nodes s.tree = pathTree s.vfs.nodes s.tree := pathTree_shape hsame
  have hnames : ∀ m, childNames v.nodes m = childNames s.vfs.nodes m := by
    intro m
    show childNames (fun m => shape (v.nodes m)) m = childNames (fun m => shape (s.vfs.nodes m)) m
    rw [funext hsame]
  refine ⟨hfs, rfl, h.slots, ?_, ?_, h.closed, ?_⟩
  · intro m hm
    dsimp only
    rw [htypes]
    exact h.types m hm
  · dsimp only
    rw [hlinks, Namespace.write_entries hold]
    refine (h.names.update h.fs.tree.proper hat _).congr ?_
    intro front m hm
    rw [entryOf]
    dsimp only
    rw [htypes, hnames, hnodes]
    by_cases hmn : m = n
    · rw [hmn, Function.update_self, Function.update_self, Function.update_self, if_neg,
        if_neg hdata, Option.getD_some]
      rw [htype]
      exact VnodeType.noConfusion
    · rw [Function.update_of_ne hmn, Function.update_of_ne hmn, Function.update_of_ne hmn]
      rfl
  · intro process fd hopen
    have hnode := hfiles _ (h.slots process fd hopen)
    obtain ⟨front, hpath, hfile⟩ := h.opened process fd hopen
    refine ⟨front, hpath, ?_⟩
    dsimp only
    rw [hlinks]
    exact hnode ▸ hfile

/-- `vfs_write` to an open file. -/
theorem Presents.write (h : Presents y s ts a) (hfile : file ∈ s.handles)
    (hat : (pathTree s.vfs.nodes s.tree).At path (s.vfs.files file).node)
    (hbuffer : BufferFits size) (hfits : WriteFits s.vfs file size)
    (buffer : Option (Nat → Byte)) (refuse : Bool) :
    ∃ rc v s' ts', vfsWrite file buffer size refuse s.vfs = some (rc, v)
      ∧ (a.write path (buffer.map fun b => bufferBytes b size)
        (outOfMemory s.vfs.heap size refuse)).1 = rc
      ∧ Presents (y.withVfs v) s' ts' (a.write path (buffer.map fun b => bufferBytes b size)
        (outOfMemory s.vfs.heap size refuse)).2 := by
  have hn := h.fs.tree.mem_of_at hat
  have hzero := h.fs.handle_ne_null hfile
  have hnull := h.fs.tree.ne_null _ hn
  have hself := h.fs.tree.self _ hn
  have hentry := h.entries hat
  rw [entryOf] at hentry
  obtain ⟨rc, v, ts', hrun, hfs, -, hkept⟩ := h.fs.write (.inr hfile) hbuffer hfits buffer refuse
  have hfiles : ∀ f ∈ s.handles, (v.files f).node = (s.vfs.files f).node :=
    fun f _ => vfsWrite_node hrun f
  have herror : rc ≠ kernelSuccess → Presents (y.withVfs v) { s with vfs := v } ts' a := by
    intro hrc
    rw [wrote_error hrc] at hfs
    exact h.withVfs hfs (List.Subset.refl _) (hkept hrc).1 hfiles
  have hwrite : vfsWrite file buffer size refuse s.vfs
      = ramfsWrite file buffer size refuse s.vfs := by
    simp only [vfsWrite, if_neg hzero, if_neg hnull, h.fs.tree.ops _ hn]
  have hcode := hrun
  rw [hwrite] at hcode
  cases buffer with
  | none =>
      have hrc : kernelEinval = rc := congrArg Prod.fst (Option.some.inj hcode)
      exact ⟨rc, v, _, ts', hrun, hrc, herror (hrc ▸ einval_ne)⟩
  | some buffer =>
      rw [Option.map_some]
      rcases h.types _ hn with htype | htype
      · rw [if_pos htype] at hentry
        have hrc : kernelEnotsup = rc := by
          simp only [ramfsWrite, if_neg hzero, hself, if_neg hnull, htype] at hcode
          exact congrArg Prod.fst (Option.some.inj hcode)
        simp only [FileSpace.write, hentry]
        exact ⟨rc, v, _, ts', hrun, hrc, herror (hrc ▸ enotsup_ne)⟩
      · rw [if_neg (by rw [htype]; exact VnodeType.noConfusion)] at hentry
        simp only [FileSpace.write, hentry]
        by_cases hdata : (s.vfs.nodes (s.vfs.files file).node).data = null
        · obtain ⟨p, h', -, hmalloc, -⟩ := kmallocUnless_spec h.fs.heap refuse size
          rw [ramfsWrite_first hzero hself hnull htype hdata hmalloc] at hcode
          rw [outOfMemory_eq hmalloc]
          by_cases hp : p = null
          · rw [if_pos hp] at hcode
            rw [if_pos ⟨if_pos hdata, decide_eq_true hp⟩]
            have hrc : kernelEnomem = rc := congrArg Prod.fst (Option.some.inj hcode)
            exact ⟨rc, v, _, ts', hrun, hrc, herror (hrc ▸ enomem_ne)⟩
          · rw [if_neg hp] at hcode
            rw [if_neg fun hfailed => hp (of_decide_eq_true hfailed.2)]
            cases hcode
            refine ⟨_, _, _, ts', hrun, rfl, h.store hfs (Function.update_idem ..) ?_ ?_ hfiles hat
              htype hentry⟩
            · rw [withBuffer_self]
              rfl
            · rw [withBuffer_self]
              exact hp
        · have hsome : (if (s.vfs.nodes (s.vfs.files file).node).data = null then none
              else some ((s.written (s.vfs.files file).node).getD [])) ≠ none := by
            rw [if_neg hdata]
            exact Option.some_ne_none _
          rw [if_neg fun hfailed => hsome hfailed.1]
          simp only [ramfsWrite, if_neg hzero, hself, if_neg hnull, htype, if_neg hdata, ne_eq,
            not_true_eq_false, if_false] at hcode
          cases hcode
          exact ⟨_, _, _, ts', hrun, rfl, h.store hfs rfl rfl hdata hfiles hat htype hentry⟩

-- ===================================================================== calls

/-- The call answers as the specification does, and stays with it. -/
def Refines (y : SysFiles) (a : FileSpace) (op : PathOp) (r : FileRequest) : Prop :=
  ∃ y', pathCall y op = some ((a.serve r).1, y') ∧ ∃ s ts, Presents y' s ts (a.serve r).2

section Calls

variable {r : FileRequest} {path name : Option (List Byte)} {refuse : Bool}

/-- `ramfs_mkdir` of a path. -/
theorem Presents.mkdir (h : Presents y s ts a) (hname : NameFits name)
    (hinput : (PathOp.mkdir path name refuse).input y = some r) :
    Refines y a (.mkdir path name refuse) r := by
  obtain ⟨rc, y', s', ts', hrun, hrc, hp⟩ := h.addAt path hname (.inl rfl) refuse
  cases hinput
  refine ⟨y', ?_, s', ts', hp⟩
  rw [pathCall, ramfsMkdir, hrun, Option.map_some, ← hrc]
  rfl

/-- `ramfs_create` of a path. -/
theorem Presents.create (h : Presents y s ts a) (hname : NameFits name)
    (hinput : (PathOp.create path name refuse).input y = some r) :
    Refines y a (.create path name refuse) r := by
  obtain ⟨rc, y', s', ts', hrun, hrc, hp⟩ := h.addAt path hname (.inr rfl) refuse
  cases hinput
  refine ⟨y', ?_, s', ts', hp⟩
  rw [pathCall, ramfsCreate, hrun, Option.map_some, ← hrc]
  rfl

/-- `sys_open`. -/
theorem Presents.openCall (h : Presents y s ts a)
    (hinput : (PathOp.file (.sysOpen path refuse)).input y = some r) :
    Refines y a (.file (.sysOpen path refuse)) r := by
  cases hinput
  cases hcurrent : processCurrent y.kernel with
  | none =>
      refine ⟨y, ?_, s, ts, h⟩
      rw [pathCall, fileCall, Fs.sysOpen, hcurrent]
      by_cases hpath : path = none
      · rw [if_pos hpath, Option.map_some]
        rfl
      · rw [if_neg hpath, Option.map_some]
        rfl
  | some process =>
      obtain ⟨rc, y', s', ts', hrun, hrc, hp⟩ := h.sysOpen hcurrent path refuse
      refine ⟨y', ?_, s', ts', hp⟩
      rw [pathCall, fileCall, hrun, Option.map_some, ← hrc]
      rfl

/-- `sys_read`. -/
theorem Presents.readCall (h : Presents y s ts a) {buffer : Nat}
    (hinput : (PathOp.file (.sysRead fd buffer size)).input y = some r) :
    Refines y a (.file (.sysRead fd buffer size)) r := by
  cases hinput
  rw [Refines, pathCall, fileCall, FileOp.bytes, Option.map_some]
  cases hcurrent : processCurrent y.kernel with
  | none =>
      rw [Fs.sysRead, hcurrent]
      exact ⟨y, rfl, s, ts, h⟩
  | some process =>
      rw [Fs.sysRead, hcurrent]
      dsimp only
      by_cases hnull : fdGet (y.fdTable process) fd = null
      · rw [if_pos hnull]
        simp only [FileSpace.serve, h.closed process fd hnull]
        exact ⟨y, rfl, s, ts, h⟩
      · obtain ⟨front, hfront, hat⟩ := h.opened process fd hnull
        obtain ⟨s', hanswer, hp⟩ := h.read (h.slots process fd hnull) hat buffer size
        rw [if_neg hnull]
        simp only [FileSpace.serve, hfront]
        exact ⟨_, by rw [← hanswer], s', ts, hp⟩

/-- `sys_write`. -/
theorem Presents.writeCall (h : Presents y s ts a) {buffer : Option (Nat → Byte)}
    (hfits : (FileOp.sysWrite fd buffer size refuse).Fits y)
    (hinput : (PathOp.file (.sysWrite fd buffer size refuse)).input y = some r) :
    Refines y a (.file (.sysWrite fd buffer size refuse)) r := by
  cases hinput
  rw [Refines, pathCall, fileCall]
  cases hcurrent : processCurrent y.kernel with
  | none =>
      rw [Fs.sysWrite, hcurrent]
      exact ⟨y, rfl, s, ts, h⟩
  | some process =>
      rw [Fs.sysWrite, hcurrent]
      dsimp only
      by_cases hnull : fdGet (y.fdTable process) fd = null
      · rw [if_pos hnull]
        simp only [FileSpace.serve, h.closed process fd hnull]
        exact ⟨y, rfl, s, ts, h⟩
      · obtain ⟨front, hfront, hat⟩ := h.opened process fd hnull
        obtain ⟨rc, v, s', ts', hrun, hrc, hp⟩ := h.write (h.slots process fd hnull) hat hfits.1
          (by rw [h.vfs]; exact hfits.2 process hcurrent) buffer refuse
        rw [h.vfs] at hrun hrc hp
        rw [if_neg hnull, hrun]
        simp only [FileSpace.serve, hfront]
        exact ⟨_, by rw [hrc]; rfl, s', ts', hp⟩

/-- `sys_close`. -/
theorem Presents.closeCall (h : Presents y s ts a)
    (hinput : (PathOp.file (.sysClose fd)).input y = some r) :
    Refines y a (.file (.sysClose fd)) r := by
  cases hinput
  rw [Refines, pathCall, fileCall, Option.map_some]
  cases hcurrent : processCurrent y.kernel with
  | none =>
      rw [Fs.sysClose, hcurrent]
      exact ⟨y, rfl, s, ts, h⟩
  | some process =>
      rw [Fs.sysClose, hcurrent]
      dsimp only
      rcases fdClose_spec (y.kernel.process process).fdTable fd with ⟨hnull, hclose⟩ |
        ⟨n, hn, rfl, hopen, hclose⟩
      · rw [SysFiles.fdTable, hclose]
        simp only [FileSpace.serve, h.closed process fd hnull]
        exact ⟨_, rfl, s, ts, h.keepTable process⟩
      · obtain ⟨front, hfront, -⟩ := h.opened process n ((fdGet_slot _ hn).trans_ne hopen)
        rw [SysFiles.fdTable, hclose]
        simp only [FileSpace.serve, hfront]
        exact ⟨_, rfl, s, ts, h.setSlot (SlotSet.of_update hn rfl) rfl (fun _ => rfl)
          fun hne => absurd rfl hne⟩

end Calls

/-- The calls simulate the specification. -/
theorem presents_simulates :
    Simulates pathCall (fun y op => op.input y) (fun y op => op.Fits y) FileSpace.serve
      fun y a => ∃ s ts, Presents y s ts a := by
  refine ⟨?_, ?_⟩
  · rintro y a op ⟨s, ts, h⟩ - hinput
    cases op with
    | mkdir => cases hinput
    | create => cases hinput
    | file op =>
        cases op with
        | switchTo task =>
            exact ⟨_, y.switchTo task, rfl, s, ts, h.fs, h.vfs, h.slots, h.types, h.names,
              h.closed, h.opened⟩
        | sysOpen => cases hinput
        | sysRead => cases hinput
        | sysWrite => cases hinput
        | sysClose => cases hinput
  · rintro y a op r ⟨s, ts, h⟩ hfits hinput
    cases op with
    | mkdir => exact h.mkdir hfits hinput
    | create => exact h.create hfits hinput
    | file op =>
        cases op with
        | switchTo => cases hinput
        | sysOpen => exact h.openCall hinput
        | sysRead => exact h.readCall hinput
        | sysWrite => exact h.writeCall hfits hinput
        | sysClose => exact h.closeCall hinput

-- ====================================================================== runs

/-- The root as it is mounted. -/
theorem fsBoot_root {h : Heap} {fs : Nat} {refuse : Bool}
    (hboot : fsBoot h fs refuse v = some (kernelSuccess, v')) :
    v'.nodes ramfsRoot = newNode .directory (List.replicate 64 0#8) null fs ramfsRoot := by
  have hnull : fs ≠ null := by
    intro hfs
    rw [fsBoot, vfsMount, if_pos hfs] at hboot
    exact absurd (congrArg Prod.fst (Option.some.inj hboot)) einval_ne
  rw [fsBoot, ramfsInit, if_neg hnull] at hboot
  obtain ⟨-, p, h', -, -, rfl⟩ := vfsMount_root rfl (by simp) hboot
  rw [ramfsMount, if_neg hnull]
  exact Function.update_self ramfsRoot
    (newNode .directory (List.replicate 64 0#8) null fs ramfsRoot) v.nodes

/-- A mounted root and empty tables are the empty name space. -/
theorem presents_start {boot h : Heap} (hpmm : PmmInv boot.vm.pmm)
    (hinit : heapInit boot = (true, h)) {fs : Nat} {refuse : Bool}
    (hboot : fsBoot h fs refuse v = some (kernelSuccess, v')) (hvfs : y.vfs = v')
    (hempty : ∀ process, y.fdTable process = fdInit (y.fdTable process)) :
    ∃ s ts, Presents y s ts .start := by
  obtain ⟨ts, hi⟩ := fsBoot_inv (heapInit_inv hpmm hinit) hboot
  have hslots := (fileInv_start hi hvfs.symm hempty)
  have hroot := fsBoot_root hboot
  have hclosed : ∀ process fd, fdGet (y.fdTable process) fd = null := fun process fd =>
    (hslots.right process fd)
  have hentry : entryOf (fsSysInit v') ramfsRoot = .directory [] := by
    unfold entryOf childNames fsSysInit
    dsimp only
    rw [hroot]
    rfl
  refine ⟨fsSysInit v', ts, hi, hvfs.symm, ?_, ?_, ?_, fun _ _ _ => rfl, ?_⟩
  · exact fun process fd hopen => absurd (hclosed process fd) hopen
  · intro n hn
    rw [List.mem_singleton.mp hn]
    exact .inl (congrArg (fun node : RamfsNode => node.vnode.type) hroot)
  · intro path e
    show (if path = [] then some (Entry.directory []) else none) = some e ↔ _
    constructor
    · intro he
      split_ifs at he with hpath
      cases he
      rw [hpath]
      exact ⟨ramfsRoot, .root, hentry⟩
    · rintro ⟨n, hn, he⟩
      rcases hn.last with ⟨hpath, hn⟩ | ⟨front, d, -, -, hd, i, hi, -⟩
      · have hn' : n = ramfsRoot := hn
        rw [if_pos hpath, ← he, hn', hentry]
      · rw [List.mem_singleton.mp hd] at hi
        have hcount : i < (v'.nodes ramfsRoot).childCount := hi
        rw [hroot] at hcount
        exact absurd hcount (Nat.not_lt_zero i)
  · exact fun process fd hopen => absurd (hclosed process fd) hopen

/-- From a mounted root on every run of calls of all processes comes back,
whatever allocations fail, and every answer in it, with the bytes that a
read delivers, is the specification's: a path names a directory or a
file's bytes, and a descriptor a path. -/
theorem file_calls_refine (boot h : Heap) (hpmm : PmmInv boot.vm.pmm)
    (hinit : heapInit boot = (true, h)) (fs : Nat) (refuse : Bool) (v : Vfs) (y : SysFiles)
    (hboot : fsBoot h fs refuse v = some (kernelSuccess, y.vfs))
    (hempty : ∀ process, y.fdTable process = fdInit (y.fdTable process)) (ops : List PathOp)
    (hops : AllowedRun (stepOf pathCall) (fun y op => op.Fits y) y ops) :
    ∃ log y', runLog pathCall (fun y op => op.input y) y ops = some (log, y')
      ∧ log.map Prod.snd = answers FileSpace.serve .start (log.map Prod.fst) := by
  have hstart := presents_start hpmm hinit hboot rfl hempty
  obtain ⟨log, y', hrun, hlog, -⟩ := presents_simulates.run hstart hops
  exact ⟨log, y', hrun, hlog⟩

/-- `/d/f` is made and written by one process, and read by another along
another path; the third read is from a closed descriptor. -/
def sharedFile : List PathOp :=
  [.mkdir (some [slash]) (some [0x64#8]) false, .create (some [0x64#8]) (some [0x66#8]) false,
    .create (some [0x64#8]) (some [0x67#8]) true,
    .file (.sysOpen (some [slash, 0x64#8, slash, 0x66#8]) false),
    .file (.sysWrite 0 (some fun i => BitVec.ofNat 8 (i + 1)) 3 false),
    .file (.switchTo (some 1)), .file (.sysRead 0 0x9000 2),
    .file (.sysOpen (some [0x64#8, slash, slash, 0x66#8]) false),
    .file (.sysRead 0 0x9000 2), .file (.sysClose 0), .file (.sysRead 0 0x9000 2)]

/-- Two processes, one of which reads what the other wrote. -/
theorem file_calls_refine_shared_file :
    ∃ log y', runLog pathCall (fun y op => op.input y) (twoProcesses bootVfs) sharedFile
        = some (log, y')
      ∧ log.map Prod.snd = answers FileSpace.serve .start (log.map Prod.fst)
      ∧ log.map Prod.snd = [(kernelSuccess, []), (kernelSuccess, []), (kernelEnomem, []), (0, []),
        (kernelSuccess, []), (kernelEnoent, []), (0, []), (2, [1#8, 2#8]), (kernelSuccess, []),
        (kernelEnoent, [])] := by
  have hallowed : AllowedRun (stepOf pathCall) (fun y op => op.Fits y) (twoProcesses bootVfs)
      sharedFile := by decide +kernel
  have hanswers : (runLog pathCall (fun y op => op.input y) (twoProcesses bootVfs) sharedFile).map
      (fun r => r.1.map Prod.snd) = some [(kernelSuccess, []), (kernelSuccess, []),
        (kernelEnomem, []), (0, []), (kernelSuccess, []), (kernelEnoent, []), (0, []),
        (2, [1#8, 2#8]), (kernelSuccess, []), (kernelEnoent, [])] := by decide +kernel
  obtain ⟨log, y', hrun, hlog⟩ := file_calls_refine bootHeap (heapInit bootHeap).2 bootHeap_pmm
    bootHeap_init 0x5000 false (emptyVfs (heapInit bootHeap).2) (twoProcesses bootVfs)
    bootVfs_boot (fun _ => rfl) sharedFile hallowed
  rw [hrun] at hanswers
  exact ⟨log, y', hrun, hlog, Option.some.inj hanswers⟩

end ZenithOS.Fs
