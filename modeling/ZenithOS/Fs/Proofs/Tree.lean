/-
The nodes of the RAM file system form a tree.

`TreeInv` says so of the node records and the nodes made so far. A lookup
finds the child with the name it is given, or there is none
(`TreeInv.lookup`); and a node that a directory with room gets under a
new name keeps the tree one (`TreeInv.insert`).
-/
import ZenithOS.Fs.Ramfs

namespace ZenithOS.Fs

open Lib Klib Mm Vmm

/-- The string in a node's name. -/
def nodeName (nodes : Nat → RamfsNode) (p : Nat) : List Byte := cString (nodes p).vnode.name

/-- `c` is in the children array of `d`. -/
def IsChild (nodes : Nat → RamfsNode) (d c : Nat) : Prop :=
  ∃ i < (nodes d).childCount, (nodes d).children i = c

/-- What the root leads to. -/
inductive Below (nodes : Nat → RamfsNode) : Nat → Prop
  | root : Below nodes ramfsRoot
  | child {d c : Nat} : Below nodes d → IsChild nodes d c → Below nodes c

/-- The nodes of `tree` are a tree of directories and files under
`ramfs_root`. -/
structure TreeInv (nodes : Nat → RamfsNode) (tree : List Nat) : Prop where
  nodup : tree.Nodup
  ne_null : ∀ n ∈ tree, n ≠ null
  root : ramfsRoot ∈ tree
  below : ∀ n ∈ tree, Below nodes n
  self : ∀ n ∈ tree, (nodes n).vnode.privateData = n
  ops : ∀ n ∈ tree, (nodes n).vnode.ops = some .ramfsVnodeOps
  name : ∀ n ∈ tree, (nodes n).vnode.name.length = 64 ∧ (nodeName nodes n).length ≤ 63
  count : ∀ d ∈ tree, (nodes d).childCount ≤ ramfsMaxChildren
  directory : ∀ d ∈ tree, 0 < (nodes d).childCount → (nodes d).vnode.type = .directory
  child : ∀ d ∈ tree, ∀ i < (nodes d).childCount, (nodes d).children i ∈ tree
    ∧ (nodes ((nodes d).children i)).vnode.parent = d ∧ (nodes d).children i ≠ ramfsRoot
  siblings : ∀ d ∈ tree, ∀ i < (nodes d).childCount, ∀ j < (nodes d).childCount,
    nodeName nodes ((nodes d).children i) = nodeName nodes ((nodes d).children j) → i = j

variable {nodes nodes' : Nat → RamfsNode} {tree : List Nat} {v : Vfs} {d c p n i : Nat}
  {name : List Byte}

/-- The tree is closed under children. -/
theorem TreeInv.mem_of_isChild (ht : TreeInv nodes tree) (hd : d ∈ tree)
    (hc : IsChild nodes d c) : c ∈ tree := by
  obtain ⟨i, hi, rfl⟩ := hc
  exact (ht.child d hd i hi).1

/-- The nodes made are what the root leads to. -/
theorem TreeInv.mem_iff (ht : TreeInv nodes tree) : n ∈ tree ↔ Below nodes n := by
  refine ⟨ht.below n, fun hn => ?_⟩
  induction hn with
  | root => exact ht.root
  | child _ hc ih => exact ht.mem_of_isChild ih hc

/-- A node other than the root has one place, in its parent's array. -/
theorem TreeInv.place (ht : TreeInv nodes tree) (hn : n ∈ tree) (hroot : n ≠ ramfsRoot) :
    (nodes n).vnode.parent ∈ tree
      ∧ ∃ i < (nodes (nodes n).vnode.parent).childCount,
          (nodes (nodes n).vnode.parent).children i = n
        ∧ ∀ d ∈ tree, ∀ j < (nodes d).childCount, (nodes d).children j = n →
            d = (nodes n).vnode.parent ∧ j = i := by
  have hplace : ∃ d, Below nodes d ∧ IsChild nodes d n := by
    cases ht.below n hn with
    | root => exact absurd rfl hroot
    | child hd hc => exact ⟨_, hd, hc⟩
  obtain ⟨d, hd, i, hi, hc⟩ := hplace
  have hmem := ht.mem_iff.mpr hd
  have hparent : (nodes n).vnode.parent = d := by
    have hback := (ht.child d hmem i hi).2.1
    rw [hc] at hback
    exact hback
  rw [hparent]
  refine ⟨hmem, i, hi, hc, ?_⟩
  intro e he j hj hej
  have hback := (ht.child e he j hj).2.1
  rw [hej, hparent] at hback
  subst hback
  exact ⟨rfl, ht.siblings d hmem j hj i hi (by rw [hej, hc])⟩

-- ================================================================ contents

/-- A node without its contents. -/
def shape (node : RamfsNode) : RamfsNode :=
  { node with
    vnode := { node.vnode with size := 0 }
    data := null
    capacity := 0 }

/-- What lies below the root depends on the shape alone. -/
theorem below_shape : Below (fun n => shape (nodes n)) n ↔ Below nodes n := by
  constructor
  · intro h
    induction h with
    | root => exact .root
    | child _ hc ih => exact .child ih hc
  · intro h
    induction h with
    | root => exact .root
    | child _ hc ih => exact .child ih hc

/-- The invariant depends on the shape alone. -/
theorem treeInv_shape : TreeInv (fun n => shape (nodes n)) tree ↔ TreeInv nodes tree := by
  constructor
  · intro h
    exact ⟨h.nodup, h.ne_null, h.root, fun n hn => below_shape.mp (h.below n hn), h.self, h.ops,
      h.name, h.count, h.directory, h.child, h.siblings⟩
  · intro h
    exact ⟨h.nodup, h.ne_null, h.root, fun n hn => below_shape.mpr (h.below n hn), h.self, h.ops,
      h.name, h.count, h.directory, h.child, h.siblings⟩

/-- Other contents for one node. -/
theorem TreeInv.update (ht : TreeInv nodes tree) {node : RamfsNode}
    (hshape : shape node = shape (nodes n)) : TreeInv (Function.update nodes n node) tree := by
  have hsame : (fun m => shape (Function.update nodes n node m)) = fun m => shape (nodes m) := by
    funext m
    by_cases hm : m = n
    · rw [hm, Function.update_self, hshape]
    · rw [Function.update_of_ne hm]
  rw [← treeInv_shape, hsame, treeInv_shape]
  exact ht

-- ================================================================== lookup

/-- The loop of `ramfs_lookup`. -/
theorem ramfsLookupFrom_spec (v : Vfs) (node : RamfsNode) (name : List Byte) (k i : Nat) :
    (∃ j, i ≤ j ∧ j < i + k ∧ ramfsLookupFrom v node name k i = some (node.children j)
        ∧ nodeName v.nodes (node.children j) = cString name)
      ∨ (ramfsLookupFrom v node name k i = none
        ∧ ∀ j, i ≤ j → j < i + k → node.children j = null
          ∨ nodeName v.nodes (node.children j) ≠ cString name) := by
  induction k generalizing i with
  | zero => exact .inr ⟨rfl, fun j hlo hhi => by omega⟩
  | succ k ih =>
      rw [ramfsLookupFrom]
      by_cases hhit : node.children i ≠ null
          ∧ kStrcmp (v.nodes (node.children i)).vnode.name name = 0
      · rw [if_pos hhit]
        exact .inl ⟨i, Nat.le_refl i, by omega, rfl, kStrcmp_eq_zero.mp hhit.2⟩
      · rw [if_neg hhit]
        cases ih (i + 1) with
        | inl hfound =>
            obtain ⟨j, hlo, hhi, hrun, hname⟩ := hfound
            exact .inl ⟨j, by omega, by omega, hrun, hname⟩
        | inr hmissing =>
            refine .inr ⟨hmissing.1, fun j hlo hhi => ?_⟩
            by_cases hj : j = i
            · subst hj
              by_cases hnull : node.children j = null
              · exact .inl hnull
              · exact .inr fun hname => hhit ⟨hnull, kStrcmp_eq_zero.mpr hname⟩
            · exact hmissing.2 j (by omega) (by omega)

/-- `ramfs_lookup` in a node of the tree. -/
theorem TreeInv.lookup (ht : TreeInv v.nodes tree) (hd : d ∈ tree) (name : List Byte) :
    (∃ c, ramfsLookup v d (some name) = (kernelSuccess, some c) ∧ IsChild v.nodes d c
        ∧ nodeName v.nodes c = cString name)
      ∨ (ramfsLookup v d (some name) = (kernelEnoent, none)
        ∧ ∀ c, IsChild v.nodes d c → nodeName v.nodes c ≠ cString name) := by
  have hself := ht.self d hd
  have hnull := ht.ne_null d hd
  rcases ramfsLookupFrom_spec v (v.nodes d) name (v.nodes d).childCount 0 with
    ⟨j, -, hj, hfrom, hname⟩ | ⟨hfrom, hall⟩
  · rw [Nat.zero_add] at hj
    refine .inl ⟨_, ?_, ⟨j, hj, rfl⟩, hname⟩
    simp only [ramfsLookup, hself, if_neg hnull, hfrom]
  · refine .inr ⟨by simp only [ramfsLookup, hself, if_neg hnull, hfrom], ?_⟩
    intro c hc
    obtain ⟨j, hj, rfl⟩ := hc
    have hchild := (ht.child d hd j hj).1
    cases hall j (Nat.zero_le j) (by omega) with
    | inl hzero => exact absurd hzero (ht.ne_null _ hchild)
    | inr hne => exact hne

-- ================================================================== insert

/-- The nodes after `d` got the new node `p` as its last child. -/
def insertNode (nodes : Nat → RamfsNode) (d p : Nat) (node : RamfsNode) : Nat → RamfsNode :=
  Function.update (Function.update nodes p node) d
    { nodes d with
      children := Function.update (nodes d).children (nodes d).childCount p
      childCount := (nodes d).childCount + 1 }

section Insert

variable {node : RamfsNode}

@[simp] theorem insertNode_parent :
    insertNode nodes d p node d = { nodes d with
      children := Function.update (nodes d).children (nodes d).childCount p
      childCount := (nodes d).childCount + 1 } :=
  Function.update_self ..

theorem insertNode_new (node : RamfsNode) (hne : p ≠ d) :
    insertNode nodes d p node p = node := by
  rw [insertNode, Function.update_of_ne hne, Function.update_self]

theorem insertNode_other (hd : n ≠ d) (hp : n ≠ p) :
    insertNode nodes d p node n = nodes n := by
  rw [insertNode, Function.update_of_ne hd, Function.update_of_ne hp]

/-- Nothing but the new node changes its vnode. -/
theorem insertNode_vnode (hp : n ≠ p) :
    (insertNode nodes d p node n).vnode = (nodes n).vnode := by
  by_cases hd : n = d
  · subst hd
    rw [insertNode_parent]
  · rw [insertNode_other hd hp]

/-- No old node gets another name. -/
theorem insertNode_nodeName (hp : n ≠ p) :
    nodeName (insertNode nodes d p node) n = nodeName nodes n := by
  rw [nodeName, nodeName, insertNode_vnode hp]

/-- The children after an insertion, of the nodes that were there. -/
theorem insertNode_children (nodes : Nat → RamfsNode) (d : Nat) (node : RamfsNode) (hp : n ≠ p) :
    (n ≠ d ∧ (insertNode nodes d p node n).childCount = (nodes n).childCount
        ∧ (insertNode nodes d p node n).children = (nodes n).children)
      ∨ (n = d ∧ (insertNode nodes d p node n).childCount = (nodes n).childCount + 1
        ∧ (insertNode nodes d p node n).children (nodes n).childCount = p
        ∧ ∀ i < (nodes n).childCount,
          (insertNode nodes d p node n).children i = (nodes n).children i) := by
  by_cases hd : n = d
  · subst hd
    rw [insertNode_parent]
    refine .inr ⟨rfl, rfl, Function.update_self .., ?_⟩
    intro i hi
    exact Function.update_of_ne (Nat.ne_of_lt hi) ..
  · rw [insertNode_other hd hp]
    exact .inl ⟨hd, rfl, rfl⟩

/-- Old children stay. -/
theorem IsChild.insertNode (hp : d ≠ p) {e : Nat} (hc : IsChild nodes d c) :
    IsChild (insertNode nodes e p node) d c := by
  obtain ⟨i, hi, hc⟩ := hc
  rcases insertNode_children nodes e node hp with
    ⟨-, hcount, hsame⟩ | ⟨-, hcount, -, hsame⟩
  · exact ⟨i, by rw [hcount]; exact hi, by rw [hsame]; exact hc⟩
  · exact ⟨i, by rw [hcount]; omega, by rw [hsame i hi]; exact hc⟩

/-- The children after the insertion are nodes, and know their parent. -/
theorem TreeInv.insert_child (ht : TreeInv nodes tree) (hp : p ∉ tree)
    (hnode : node.vnode.parent = d) (hpd : p ≠ d) (hn : n ∈ tree)
    (hi : i < (insertNode nodes d p node n).childCount) :
    (insertNode nodes d p node n).children i ∈ p :: tree
      ∧ (insertNode nodes d p node ((insertNode nodes d p node n).children i)).vnode.parent = n
      ∧ (insertNode nodes d p node n).children i ≠ ramfsRoot := by
  have hne : ∀ n ∈ tree, n ≠ p := fun n hn heq => hp (heq ▸ hn)
  have hold : ∀ k < (nodes n).childCount, (nodes n).children k ∈ p :: tree
      ∧ (insertNode nodes d p node ((nodes n).children k)).vnode.parent = n
      ∧ (nodes n).children k ≠ ramfsRoot := by
    intro k hk
    obtain ⟨hmem, hparent, hroot⟩ := ht.child n hn k hk
    rw [insertNode_vnode (hne _ hmem)]
    exact ⟨List.mem_cons_of_mem p hmem, hparent, hroot⟩
  rcases insertNode_children nodes d node (hne n hn) with
    ⟨-, hcount, hsame⟩ | ⟨heq, hcount, hnext, hsame⟩
  · rw [hcount] at hi
    rw [hsame]
    exact hold i hi
  · rw [hcount] at hi
    by_cases hlast : i = (nodes n).childCount
    · rw [hlast, hnext, insertNode_new node hpd, heq]
      exact ⟨List.mem_cons_self, hnode, fun h => hp (h ▸ ht.root)⟩
    · rw [hsame i (by omega)]
      exact hold i (by omega)

/-- The names in each directory stay apart. -/
theorem TreeInv.insert_siblings (ht : TreeInv nodes tree) (hd : d ∈ tree) (hp : p ∉ tree)
    (hnew : ∀ c, IsChild nodes d c → nodeName nodes c ≠ cString node.vnode.name)
    (hn : n ∈ tree) {j : Nat} (hi : i < (insertNode nodes d p node n).childCount)
    (hj : j < (insertNode nodes d p node n).childCount)
    (hsame : nodeName (insertNode nodes d p node) ((insertNode nodes d p node n).children i)
      = nodeName (insertNode nodes d p node) ((insertNode nodes d p node n).children j)) :
    i = j := by
  have hne : ∀ n ∈ tree, n ≠ p := fun n hn heq => hp (heq ▸ hn)
  have hname : ∀ k < (nodes n).childCount,
      nodeName (insertNode nodes d p node) ((nodes n).children k)
        = nodeName nodes ((nodes n).children k) := fun k hk =>
    insertNode_nodeName (hne _ (ht.child n hn k hk).1)
  rcases insertNode_children nodes d node (hne n hn) with
    ⟨-, hcount, hkids⟩ | ⟨heq, hcount, hnext, hkids⟩
  · rw [hcount] at hi hj
    rw [hkids, hname i hi, hname j hj] at hsame
    exact ht.siblings n hn i hi j hj hsame
  · rw [hcount] at hi hj
    -- the new child is the last one, and no other has its name
    have hlast : ∀ k < (nodes n).childCount, nodeName nodes ((nodes n).children k)
        ≠ nodeName (insertNode nodes d p node) p := by
      intro k hk
      rw [nodeName, nodeName, insertNode_new node (hne d hd).symm]
      exact hnew _ ⟨k, by rw [← heq]; exact hk, by rw [heq]⟩
    by_cases hi' : i = (nodes n).childCount
    · by_cases hj' : j = (nodes n).childCount
      · rw [hi', hj']
      · rw [hi', hnext, hkids j (by omega), hname j (by omega)] at hsame
        exact absurd hsame.symm (hlast j (by omega))
    · by_cases hj' : j = (nodes n).childCount
      · rw [hj', hnext, hkids i (by omega), hname i (by omega)] at hsame
        exact absurd hsame (hlast i (by omega))
      · rw [hkids i (by omega), hkids j (by omega), hname i (by omega),
          hname j (by omega)] at hsame
        exact ht.siblings n hn i (by omega) j (by omega) hsame

/-- What the root led to it still leads to, and to the new node. -/
theorem TreeInv.insert_below (ht : TreeInv nodes tree) (hd : d ∈ tree) (hp : p ∉ tree)
    (hn : n ∈ p :: tree) : Below (insertNode nodes d p node) n := by
  have hne : ∀ n ∈ tree, n ≠ p := fun n hn heq => hp (heq ▸ hn)
  have hold : ∀ n, Below nodes n → Below (insertNode nodes d p node) n := by
    intro n hn
    induction hn with
    | root => exact .root
    | child hd hc ih => exact .child ih (hc.insertNode (hne _ (ht.mem_iff.mpr hd)))
  cases List.mem_cons.mp hn with
  | inl heq =>
      rw [heq]
      refine .child (hold d (ht.below d hd)) ⟨(nodes d).childCount, ?_, ?_⟩
      · rw [insertNode_parent]
        exact Nat.lt_succ_self _
      · rw [insertNode_parent]
        exact Function.update_self ..
  | inr hn => exact hold n (ht.below n hn)

/-- A new node with a name that no other child of `d` has. -/
theorem TreeInv.insert (ht : TreeInv nodes tree) (hd : d ∈ tree) (hp : p ∉ tree)
    (hnull : p ≠ null) {type : VnodeType} {array : List Byte} {fs : Nat}
    (hdir : (nodes d).vnode.type = .directory)
    (hroom : (nodes d).childCount < ramfsMaxChildren)
    (hname : array.length = 64 ∧ (cString array).length ≤ 63)
    (hnew : ∀ c, IsChild nodes d c → nodeName nodes c ≠ cString array) :
    TreeInv (insertNode nodes d p (newNode type array d fs p)) (p :: tree) := by
  have hne : ∀ n ∈ tree, n ≠ p := fun n hn heq => hp (heq ▸ hn)
  have hpd : p ≠ d := (hne d hd).symm
  have hself : insertNode nodes d p (newNode type array d fs p) p = newNode type array d fs p :=
    insertNode_new _ hpd
  have hold : ∀ n ∈ tree, (insertNode nodes d p (newNode type array d fs p) n).vnode
      = (nodes n).vnode := fun n hn => insertNode_vnode (hne n hn)
  have hkids := fun n hn => insertNode_children nodes d
    (newNode type array d fs p) (hne n hn)
  refine ⟨List.nodup_cons.mpr ⟨hp, ht.nodup⟩, ?_, List.mem_cons_of_mem p ht.root,
    fun n hn => ht.insert_below hd hp hn, ?_, ?_, ?_, ?_, ?_, ?_, ?_⟩
  · rw [List.forall_mem_cons]
    exact ⟨hnull, ht.ne_null⟩
  · rw [List.forall_mem_cons, hself]
    exact ⟨rfl, fun n hn => by rw [hold n hn]; exact ht.self n hn⟩
  · rw [List.forall_mem_cons, hself]
    exact ⟨rfl, fun n hn => by rw [hold n hn]; exact ht.ops n hn⟩
  · rw [List.forall_mem_cons, nodeName, hself]
    refine ⟨hname, fun n hn => ?_⟩
    rw [insertNode_nodeName (hne n hn), hold n hn]
    exact ht.name n hn
  · rw [List.forall_mem_cons, hself]
    refine ⟨Nat.zero_le _, fun n hn => ?_⟩
    rcases hkids n hn with ⟨-, hcount, -⟩ | ⟨rfl, hcount, -⟩
    · rw [hcount]
      exact ht.count n hn
    · rw [hcount]
      exact hroom
  · rw [List.forall_mem_cons, hself]
    refine ⟨fun h => absurd h (Nat.lt_irrefl 0), fun n hn => ?_⟩
    rw [hold n hn]
    rcases hkids n hn with ⟨-, hcount, -⟩ | ⟨rfl, -, -⟩
    · rw [hcount]
      exact ht.directory n hn
    · exact fun _ => hdir
  · rw [List.forall_mem_cons, hself]
    exact ⟨fun i hi => absurd hi (Nat.not_lt_zero i),
      fun n hn i hi => ht.insert_child hp rfl hpd hn hi⟩
  · rw [List.forall_mem_cons, hself]
    exact ⟨fun i hi => absurd hi (Nat.not_lt_zero i),
      fun n hn i hi j hj heq => ht.insert_siblings hd hp hnew hn hi hj heq⟩

end Insert

end ZenithOS.Fs
