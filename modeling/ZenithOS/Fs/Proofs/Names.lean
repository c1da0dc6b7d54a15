/-
Which names a node can be found by.

`ramfs_mkdir` and `ramfs_create` take any name that no child of the
directory has. The tokenizer of `vfs_lookup` cuts a path at its slashes,
skips empty components and refuses those of 64 characters and more, and
the name of a vnode is an array of 64. So what was created is found by
its path exactly when its name is one component: not empty, no slash in
it, and at most 63 characters.
-/
import ZenithOS.Fs.Proofs.Runs

namespace ZenithOS.Fs

open Lib Klib Mm Vmm

variable {nodes nodes' : Nat → RamfsNode} {tree : List Nat} {v v' : Vfs} {n c d p dir : Nat}
  {path name a b w : List Byte} {names names' : List (List Byte)} {rc : Int}
  {result : Option Nat} {y : FsSys} {ts : List Tile} {type : VnodeType} {refuse : Bool}

-- ============================================================== components

/-- A string without NUL is all of itself. -/
theorem cString_of_not_mem (ha : 0#8 ∉ a) : cString a = a := by
  unfold cString
  rw [List.takeWhile_eq_self_iff]
  intro x hx
  have hne : x ≠ 0#8 := fun heq => ha (heq ▸ hx)
  simpa using hne

theorem not_mem_cString (a : List Byte) : 0#8 ∉ cString a := by
  intro h
  simpa using List.mem_takeWhile_imp h

/-- A string goes on up to the first NUL. -/
theorem cString_append (ha : 0#8 ∉ a) : cString (a ++ b) = a ++ cString b := by
  unfold cString
  apply List.takeWhile_append_of_pos
  intro x hx
  have hne : x ≠ 0#8 := fun heq => ha (heq ▸ hx)
  simpa using hne

/-- A slash separates the components before it from those behind it. -/
theorem components_append_slash (ha : 0#8 ∉ a) :
    components (a ++ slash :: b) = components a ++ components b := by
  unfold components
  rw [cString_append ha, cString_cons (by decide), cString_of_not_mem ha,
    List.splitOn_append_cons_self, List.filter_append]

/-- No slash is in a component. -/
theorem not_mem_of_mem_splitOn {l : List Byte} (hw : w ∈ l.splitOn slash) : slash ∉ w := by
  induction l generalizing w with
  | nil =>
      rw [List.splitOn_nil, List.mem_singleton] at hw
      rw [hw]
      exact List.not_mem_nil
  | cons x l ih =>
      rw [List.splitOn_cons_eq_if_modifyHead] at hw
      by_cases hx : (x == slash) = true
      · rw [if_pos hx, List.mem_cons] at hw
        cases hw with
        | inl hnil =>
            rw [hnil]
            exact List.not_mem_nil
        | inr hw => exact ih hw
      · rw [if_neg hx] at hw
        obtain ⟨u, us, hsplit⟩ := List.exists_cons_of_ne_nil (List.splitOn_ne_nil slash l)
        rw [hsplit, List.modifyHead_cons, List.mem_cons] at hw
        cases hw with
        | inl hhead =>
            rw [hhead, List.mem_cons, not_or]
            refine ⟨fun heq => hx (beq_iff_eq.mpr heq.symm), ih ?_⟩
            rw [hsplit]
            exact List.mem_cons_self
        | inr hw =>
            apply ih
            rw [hsplit]
            exact List.mem_cons_of_mem u hw

/-- A component is not empty and has no slash. -/
theorem mem_components (hw : w ∈ components path) : w ≠ [] ∧ slash ∉ w := by
  unfold components at hw
  obtain ⟨hmem, hne⟩ := List.mem_filter.mp hw
  exact ⟨of_decide_eq_true hne, not_mem_of_mem_splitOn hmem⟩

/-- A name without a slash is one component. -/
theorem components_name (hne : cString name ≠ []) (hslash : slash ∉ cString name) :
    components name = [cString name] := by
  unfold components
  rw [List.splitOn_eq_singleton hslash, List.filter_cons_of_pos (by simpa using hne),
    List.filter_nil]

-- ================================================================= descents

/-- What keeps the children of the tree's nodes keeps the descents in it,
and they go on where they end. -/
theorem Resolves.extend (ht : TreeInv nodes tree) (hn : n ∈ tree)
    (hold : ∀ m ∈ tree, ∀ c, IsChild nodes m c →
      IsChild nodes' m c ∧ nodeName nodes' c = nodeName nodes c)
    (h : Resolves nodes n names rc (some d)) (h' : Resolves nodes' d names' kernelSuccess result) :
    Resolves nodes' n (names ++ names') kernelSuccess result := by
  generalize hres : some d = reached at h
  induction h with
  | here =>
      cases hres
      exact h'
  | descend hlen hc hname _ ih =>
      obtain ⟨hc', hname'⟩ := hold _ hn _ hc
      exact .descend hlen hc' (hname'.trans hname) (ih (ht.mem_of_isChild hn hc) hres)
  | tooLong => cases hres
  | missing => cases hres

/-- The node a descent reaches has the last component for its name. -/
theorem Resolves.last (h : Resolves nodes n names rc (some c)) :
    names = [] ∧ c = n ∨ nodeName nodes c ∈ names := by
  generalize hres : some c = reached at h
  induction h with
  | here =>
      cases hres
      exact .inl ⟨rfl, rfl⟩
  | descend _ _ hname _ ih =>
      rcases ih hres with ⟨rfl, rfl⟩ | hmem
      · exact .inr (List.mem_singleton.mpr hname)
      · exact .inr (List.mem_cons_of_mem _ hmem)
  | tooLong => cases hres
  | missing => cases hres

-- ========================================================= mkdir and create

/-- What a successful `ramfs_mkdir` or `ramfs_create` has done. -/
theorem FsInv.add_success (hi : FsInv y ts) (hdir : dir ∈ y.tree)
    (hrun : ramfsAdd type dir (some name) refuse y.vfs = some (kernelSuccess, v')) :
    ∃ p, p ∉ y.tree ∧ p ≠ null ∧ vfsGetRoot v' = ramfsRoot
      ∧ v'.nodes = insertNode y.vfs.nodes dir p
        (newNode type (nameArray name) dir (y.vfs.nodes dir).vnode.fs p)
      ∧ (y.vfs.nodes dir).vnode.type = .directory
      ∧ (y.vfs.nodes dir).childCount < ramfsMaxChildren
      ∧ ∀ c, IsChild y.vfs.nodes dir c → nodeName y.vfs.nodes c ≠ cString name := by
  have hnull := hi.tree.ne_null dir hdir
  have hself := hi.tree.self dir hdir
  have hsuccess : ∀ {rc : Int} {w : Vfs}, rc ≠ kernelSuccess →
      some (rc, w) = some (kernelSuccess, v') → False := by
    intro rc w hne heq
    cases heq
    exact hne rfl
  by_cases htype : (y.vfs.nodes dir).vnode.type = .directory
  · rcases hi.tree.lookup hdir name with ⟨c, hlook, hc, hcname⟩ | ⟨hlook, hnew⟩
    · simp only [ramfsAdd, if_neg hnull, htype, hself, hlook, ne_eq, not_true_eq_false, if_false,
        if_true] at hrun
      exact absurd hrun (hsuccess eexist_ne)
    · by_cases hfull : (y.vfs.nodes dir).childCount ≥ ramfsMaxChildren
      · simp only [ramfsAdd, if_neg hnull, htype, hself, hlook, ne_eq, not_true_eq_false,
          if_false, if_neg enoent_ne, if_pos hfull] at hrun
        exact absurd hrun (hsuccess enomem_ne)
      · obtain ⟨p, h', ts', halloc, hheap, hnewp, -⟩ :=
          kmallocUnless_spec hi.heap refuse ramfsNodeBytes
        have hpd : p ≠ dir := by
          rintro rfl
          exact (hi.fresh hheap hnewp hnull).1 hdir
        rw [ramfsAdd_checked type hnull htype hself hlook (by decide) hfull halloc hpd] at hrun
        by_cases hzero : p = null
        · rw [if_pos hzero] at hrun
          exact absurd hrun (hsuccess enomem_ne)
        · rw [if_neg hzero] at hrun
          cases hrun
          exact ⟨p, (hi.fresh hheap hnewp hzero).1, hzero, hi.root, rfl, htype,
            Nat.lt_of_not_le hfull, hnew⟩
  · simp only [ramfsAdd, if_neg hnull, ne_eq, htype, not_false_eq_true, if_true] at hrun
    exact absurd hrun (hsuccess enotsup_ne)

/-- The last child of `dir` is what was created: its name, inside the
array of a vnode, its type, and what the path leads to. -/
def CreatedFound (v : Vfs) (type : VnodeType) (dir : Nat) (path name : List Byte) : Prop :=
  (v.nodes (lastChild v dir)).vnode.name.length = 64
    ∧ nodeName v.nodes (lastChild v dir) = cString name
    ∧ (v.nodes (lastChild v dir)).vnode.type = type
    ∧ vfsLookup v (some (cString path ++ slash :: name))
      = some (kernelSuccess, some (lastChild v dir))

/-- The name is one component. -/
def ComponentName (name : List Byte) : Prop :=
  cString name ≠ [] ∧ slash ∉ cString name ∧ (cString name).length ≤ 63

/-- A node just created is found under its name exactly when the name is a
component. -/
theorem FsInv.created_found_iff (hi : FsInv y ts)
    (hpath : vfsLookup y.vfs (some path) = some (kernelSuccess, some dir))
    (hrun : ramfsAdd type dir (some name) refuse y.vfs = some (kernelSuccess, v')) :
    CreatedFound v' type dir path name ↔ ComponentName name := by
  -- the directory is where the path leads
  obtain ⟨rc, result, hlook, hres⟩ := vfsLookup_resolves hi.tree hi.root path
  rw [hpath] at hlook
  cases hlook
  have hdir : dir ∈ y.tree := (hres.reached hi.tree hi.tree.root rfl).2
  obtain ⟨p, hfresh, hzero, hroot, hnodes, htype, hroom, hnew⟩ := hi.add_success hdir hrun
  have hne : ∀ m ∈ y.tree, m ≠ p := fun m hm heq => hfresh (heq ▸ hm)
  have hself : v'.nodes p = newNode type (nameArray name) dir (y.vfs.nodes dir).vnode.fs p := by
    rw [hnodes]
    exact insertNode_new _ (hne dir hdir).symm
  have hlast : lastChild v' dir = p := by
    unfold lastChild
    rw [hnodes, insertNode_parent]
    simp
  have hname : nodeName v'.nodes p = cString name := by
    rw [nodeName, hself]
    exact cString_kStrcpy _ name
  have hold : ∀ m ∈ y.tree, ∀ c, IsChild y.vfs.nodes m c →
      IsChild v'.nodes m c ∧ nodeName v'.nodes c = nodeName y.vfs.nodes c := by
    intro m hm c hc
    rw [hnodes]
    exact ⟨hc.insertNode (hne m hm), insertNode_nodeName (hne c (hi.tree.mem_of_isChild hm hc))⟩
  have hsplit : components (cString path ++ slash :: name)
      = components path ++ components name := by
    rw [components_append_slash (not_mem_cString path)]
    congr 1
    unfold components
    rw [cString_of_not_mem (not_mem_cString path)]
  -- a name that fits leaves a tree
  have htree : (cString name).length ≤ 63 → TreeInv v'.nodes (p :: y.tree) := by
    intro hlen
    have hfits : NameFits (some name) := by
      intro string hstring
      cases hstring
      exact hlen
    rw [hnodes]
    apply hi.tree.insert hdir hfresh hzero htype hroom (nameArray_fits hfits)
    rw [nameArray, cString_kStrcpy]
    exact hnew
  unfold CreatedFound
  rw [hlast]
  constructor
  · rintro ⟨harray, -, -, hfound⟩
    rw [hself] at harray
    have hshort := length_lt_kStrcpy (List.replicate 64 0#8) name
    have hlen : (cString name).length ≤ 63 := by
      have h64 : (kStrcpy (List.replicate 64 0#8) name).length = 64 := harray
      omega
    obtain ⟨rc, result, hlook, hres'⟩ := vfsLookup_resolves (htree hlen) hroot
      (cString path ++ slash :: name)
    rw [hfound] at hlook
    cases hlook
    rcases hres'.last with ⟨-, rfl⟩ | hmem
    · exact absurd hi.tree.root hfresh
    · rw [hname] at hmem
      obtain ⟨hempty, hslash⟩ := mem_components hmem
      exact ⟨hempty, hslash, hlen⟩
  · rintro ⟨hempty, hslash, hlen⟩
    have hstep : Resolves v'.nodes dir [cString name] kernelSuccess (some p) := by
      refine .descend hlen ?_ hname .here
      rw [hnodes]
      refine ⟨(y.vfs.nodes dir).childCount, ?_, ?_⟩
      · rw [insertNode_parent]
        exact Nat.lt_succ_self _
      · rw [insertNode_parent]
        exact Function.update_self ..
    have hall := hres.extend hi.tree hi.tree.root hold hstep
    rw [← components_name hempty hslash, ← hsplit] at hall
    obtain ⟨rc, result, hlook, hres'⟩ := vfsLookup_resolves (htree hlen) hroot
      (cString path ++ slash :: name)
    obtain ⟨rfl, rfl⟩ := hres'.unique (htree hlen) (htree hlen).root hall
    refine ⟨((htree hlen).name p List.mem_cons_self).1, hname, ?_, hlook⟩
    rw [hself]
    rfl

/-- In every run, and for every directory a path leads to: what
`ramfs_mkdir` and `ramfs_create` make there has the name and type asked
for and is found by its path exactly when the name is one component. -/
theorem ramfs_created_found_iff (boot h : Heap) (hpmm : PmmInv boot.vm.pmm)
    (hinit : heapInit boot = (true, h)) (fs : Nat) (refuse : Bool) (v v' : Vfs)
    (hboot : fsBoot h fs refuse v = some (kernelSuccess, v')) (ops : List FsOp)
    (hops : AllowedRun fsStep (fun y op => op.Allowed y) (fsSysInit v') ops) :
    ∃ y, runOps fsStep (fsSysInit v') ops = some y
      ∧ ∀ path dir, vfsLookup y.vfs (some path) = some (kernelSuccess, some dir) →
        ∀ name refuse w,
          (ramfsMkdir dir (some name) refuse y.vfs = some (kernelSuccess, w) →
            (CreatedFound w .directory dir path name ↔ ComponentName name))
          ∧ (ramfsCreate dir (some name) refuse y.vfs = some (kernelSuccess, w) →
            (CreatedFound w .file dir path name ↔ ComponentName name)) := by
  obtain ⟨y, hrun, ts, hi⟩ := fsRun_inv hpmm hinit hboot hops
  refine ⟨y, hrun, ?_⟩
  intro path dir hpath name refuse w
  exact ⟨fun hmkdir => hi.created_found_iff hpath hmkdir,
    fun hcreate => hi.created_found_iff hpath hcreate⟩

/-- A file `g` beside the one in `d`. -/
theorem ramfs_created_found_second_file :
    ∃ y w, runOps fsStep (fsSysInit bootVfs) oneFile = some y
      ∧ ramfsCreate 0xFFFF900000000070 (some [0x67#8]) false y.vfs = some (kernelSuccess, w)
      ∧ CreatedFound w .file 0xFFFF900000000070 [slash, 0x64#8] [0x67#8] := by
  obtain ⟨y, hrun, hfound⟩ := ramfs_created_found_iff bootHeap (heapInit bootHeap).2
    bootHeap_pmm bootHeap_init 0x5000 false (emptyVfs (heapInit bootHeap).2) bootVfs bootVfs_boot
    oneFile oneFile_allowed
  have hpath : (runOps fsStep (fsSysInit bootVfs) oneFile).bind
      (fun y => vfsLookup y.vfs (some [slash, 0x64#8]))
        = some (kernelSuccess, some 0xFFFF900000000070) := by
    decide +kernel
  have hcreate : (runOps fsStep (fsSysInit bootVfs) oneFile).bind
      (fun y => (ramfsCreate 0xFFFF900000000070 (some [0x67#8]) false y.vfs).map Prod.fst)
        = some kernelSuccess := by
    decide +kernel
  rw [hrun, Option.bind_some] at hpath hcreate
  obtain ⟨⟨rc, w⟩, hcall, rfl⟩ := Option.map_eq_some_iff.mp hcreate
  have hname : ComponentName [0x67#8] := by
    unfold ComponentName
    decide
  exact ⟨y, w, hrun, hcall, ((hfound _ _ hpath _ false w).2 hcall).mpr hname⟩

/-- `ramfs_create` makes a file `a/b` in the root, which no path finds. -/
theorem ramfs_create_takes_slash :
    ∃ w, ramfsCreate ramfsRoot (some [0x61#8, slash, 0x62#8]) false bootVfs
        = some (kernelSuccess, w)
      ∧ vfsLookup w (some [slash, 0x61#8, slash, 0x62#8]) = some (kernelEnoent, none)
      ∧ ¬ CreatedFound w .file ramfsRoot [] [0x61#8, slash, 0x62#8] := by
  have hcall : (ramfsCreate ramfsRoot (some [0x61#8, slash, 0x62#8]) false bootVfs).map
      (fun r => (r.1, vfsLookup r.2 (some [slash, 0x61#8, slash, 0x62#8])))
        = some (kernelSuccess, some (kernelEnoent, none)) := by
    decide +kernel
  obtain ⟨⟨rc, w⟩, hcreate, heq⟩ := Option.map_eq_some_iff.mp hcall
  injection heq with hrc hlook
  dsimp only at hrc hlook
  subst hrc
  refine ⟨w, hcreate, hlook, ?_⟩
  rintro ⟨-, -, -, hfound⟩
  have hsame : vfsLookup w (some (cString [] ++ slash :: [0x61#8, slash, 0x62#8]))
      = some (kernelEnoent, none) := hlook
  rw [hsame] at hfound
  cases hfound

end ZenithOS.Fs
