/-
Whole runs of the kernel heap.

`SysInv` ties a heap to its tiling and the clients' pointers to the
payloads in use; one step lemma carries it through every call and every
client store, with the bytes of the payloads that are not the call's own
argument. The results are read off it: the block list tiles the committed
range, live payloads do not meet, and the list is canonical, so that it
is determined by the live blocks and the end of the heap.
-/
import ZenithOS.Mm.HeapRun
import ZenithOS.Mm.Proofs.Heap

namespace ZenithOS.Mm

open Lib Vmm

variable {y y' : HeapSys} {h h' : Heap} {ts us l r : List Tile} {n p q x : Nat}

-- ============================================================ the block list

/-- The heap's block list: its headers and links, from the head on. -/
structure BlockList (h : Heap) (ts : List Tile) : Prop where
  head : h.head = h.virtualStart
  blocks : BlocksAt h.mem null h.virtualStart ts null
  ne_nil : ts ≠ []

/-- Memory holds one block list. -/
theorem BlocksAt.unique {m : Mem} {prev prev' a : Nat} (ha : 0 < a)
    (h : BlocksAt m prev a ts null) (h' : BlocksAt m prev' a us null) (hts : ts ≠ [])
    (hus : us ≠ []) : ts = us := by
  induction ts generalizing prev prev' a us with
  | nil => exact absurd rfl hts
  | cons t ts ih =>
      cases us with
      | nil => exact absurd rfl hus
      | cons u us =>
          obtain rfl : t = u := by
            obtain ⟨n, f⟩ := t
            obtain ⟨k, g⟩ := u
            obtain rfl : n = k := h.1.size.symm.trans h'.1.size
            obtain rfl : f = g := h.1.free.symm.trans h'.1.free
            rfl
          have hnext := h.1.next.symm.trans h'.1.next
          have hpos : 0 < a + 32 + t.size := by omega
          have hne : a + 32 + t.size ≠ null := Nat.ne_of_gt hpos
          cases ts with
          | nil =>
              cases us with
              | nil => rfl
              | cons u us => exact absurd hnext.symm hne
          | cons t' ts =>
              cases us with
              | nil => exact absurd hnext hne
              | cons u us => rw [ih hpos h.2 h'.2 (by simp) (by simp)]

/-- The blocks are a list that tiles the heap. -/
theorem HeapInv.blockList (hi : HeapInv h ts) : BlockList h ts := by
  refine ⟨hi.head.trans hi.start.symm, ?_, hi.ne_nil⟩
  rw [hi.start]
  exact hi.blocks

/-- Two heaps with the same tiling have the same block list. -/
theorem HeapInv.blockList_iff (hi : HeapInv h ts) (hi' : HeapInv h' ts) :
    BlockList h us ↔ BlockList h' us := by
  have hone : ∀ {k : Heap}, HeapInv k ts → BlockList k us → us = ts := by
    intro k hk hlist
    have hblocks := hlist.blocks
    rw [hk.start] at hblocks
    exact hblocks.unique heapStart_pos hk.blocks hlist.ne_nil hk.ne_nil
  constructor
  · intro hlist
    rw [hone hi hlist]
    exact hi'.blockList
  · intro hlist
    rw [hone hi' hlist]
    exact hi.blockList

-- ================================================================== a step

/-- The heap is tiled by `ts`, canonically, and the pointers held are the
payloads in use. -/
structure SysInv (y : HeapSys) (ts : List Tile) : Prop where
  heap : HeapInv y.heap ts
  canonical : Canonical ts
  live : y.live.Perm ((payloads ts).map Prod.fst)

/-- Payloads are at different addresses. -/
theorem payloads_nodup (ts : List Tile) : ((payloads ts).map Prod.fst).Nodup :=
  used_nodup (by decide) heapStartAddress ts

/-- A new payload is none of the old ones. -/
theorem Allocates.fresh {s : Nat} (halloc : Allocates n p ts us) (hp : p ≠ null)
    (hq : (q, s) ∈ payloads ts) : q ≠ p := by
  rcases halloc with ⟨hnull, -⟩ | ⟨-, k, -, hperm⟩
  · exact absurd hnull hp
  · have hnodup := (hperm.map Prod.fst).nodup_iff.mp (payloads_nodup us)
    rw [List.map_cons, List.nodup_cons] at hnodup
    intro heq
    exact hnodup.1 (List.mem_map.mpr ⟨_, hq, heq⟩)

/-- The new block is among the payloads. -/
theorem Allocates.new (halloc : Allocates n p ts us) (hp : p ≠ null) :
    ∃ s, n ≤ s ∧ (p, s) ∈ payloads us := by
  rcases halloc with ⟨hnull, -⟩ | ⟨-, k, hk, hperm⟩
  · exact absurd hnull hp
  · exact ⟨k, hk, hperm.mem_iff.mpr List.mem_cons_self⟩

/-- No block is handed out twice. -/
theorem SysInv.live_nodup (hi : SysInv y ts) : y.live.Nodup :=
  hi.live.nodup_iff.mpr (payloads_nodup ts)

/-- A pointer held is the payload of a block in use. -/
theorem SysInv.mem_live (hi : SysInv y ts) (hp : p ∈ y.live) :
    (p, liveSize y.heap p) ∈ payloads ts := by
  obtain ⟨u, hu, rfl⟩ := List.mem_map.mp (hi.live.mem_iff.mp hp)
  obtain ⟨hblock, hsize, -⟩ := hi.heap.payload_block (p := u.1) (n := u.2) hu
  have hlive : liveSize y.heap u.1 = u.2 := by
    rw [liveSize, hblock, hsize]
  rw [hlive]
  exact hu

/-- Every payload in use was handed out. -/
theorem SysInv.live_of_mem (hi : SysInv y ts) (hu : (p, n) ∈ payloads ts) : p ∈ y.live :=
  hi.live.mem_iff.mpr (List.mem_map_of_mem hu)

/-- `NULL` was not. -/
theorem SysInv.null_not_live (hi : SysInv y ts) : null ∉ y.live := by
  intro hnull
  exact hi.heap.payload_ne_null (hi.mem_live hnull) rfl

/-- The payload of a pointer is one. -/
theorem payload_unique {a b : Nat} (ha : (p, a) ∈ payloads ts) (hb : (p, b) ∈ payloads ts) :
    a = b := by
  rcases used_apart ha hb with heq | hlow | hhigh
  · injection heq
  · dsimp only at hlow
    omega
  · dsimp only at hhigh
    omega

/-- What a call of the heap does to the bytes of the payloads in use that
are not its argument. -/
def Keeps (op : HeapOp) (y y' : HeapSys) (ts : List Tile) : Prop :=
  ∀ u ∈ payloads ts, op.argument ≠ some u.1 → ∀ x, u.1 ≤ x → x < u.1 + u.2 →
    y'.heap.mem x = y.heap.mem x

/-- After an allocation that returned `p`. -/
theorem SysInv.allocated (hi : SysInv y ts) (hi' : HeapInv h' us) (hcan : Canonical us)
    (halloc : Allocates n p ts us) : SysInv ⟨h', hold p y.live⟩ us := by
  refine ⟨hi', hcan, ?_⟩
  rcases halloc with ⟨hnull, hused⟩ | ⟨hnull, s, -, hperm⟩
  · show (hold p y.live).Perm _
    rw [hold, if_pos hnull, hused]
    exact hi.live
  · show (hold p y.live).Perm _
    rw [hold, if_neg hnull]
    exact (hi.live.cons p).trans (hperm.map Prod.fst).symm

/-- After the payload `(p, n)` was released. -/
theorem SysInv.released (hi : SysInv y ts)
    (hperm : (payloads ts).Perm ((p, n) :: payloads us)) :
    (y.live.erase p).Perm ((payloads us).map Prod.fst) := by
  have herase := (hi.live.trans (hperm.map Prod.fst)).erase p
  rw [List.map_cons, List.erase_cons_head] at herase
  exact herase

/-- `kmalloc` in a run. -/
theorem SysInv.kmalloc (hi : SysInv y ts) (size : Nat) :
    ∃ y' ts', heapStep y (.kmalloc size) = some y' ∧ SysInv y' ts'
      ∧ Keeps (.kmalloc size) y y' ts := by
  obtain ⟨p, h', us, hrun, hi', halloc, hframe, hcan⟩ := hi.heap.kmalloc size
  refine ⟨⟨h', hold p y.live⟩, us, ?_, hi.allocated hi' (hcan hi.canonical) halloc, ?_⟩
  · simp only [heapStep, hrun, Option.map_some]
  · intro u hu _ x hlo hhi
    exact hframe x ⟨u, hu, hlo, hhi⟩

/-- `kfree` in a run. -/
theorem SysInv.kfree (hi : SysInv y ts) (hp : p = null ∨ p ∈ y.live) :
    ∃ y' ts', heapStep y (.kfree p) = some y' ∧ SysInv y' ts' ∧ Keeps (.kfree p) y y' ts := by
  rcases hp with rfl | hp
  · refine ⟨y, ts, ?_, hi, fun _ _ _ _ _ _ => rfl⟩
    rw [heapStep, Mm.kfree, if_pos rfl, List.erase_of_not_mem hi.null_not_live]
  · have hmem := hi.mem_live hp
    obtain ⟨us, hi', hperm, hframe, hcan⟩ := hi.heap.kfree hmem
    refine ⟨_, us, rfl, ⟨hi', hcan hi.canonical, hi.released hperm⟩, ?_⟩
    intro u hu hne x hlo hhi
    refine hframe x ⟨u, ?_, hlo, hhi⟩
    cases List.mem_cons.mp (hperm.mem_iff.mp hu) with
    | inl heq =>
        rw [heq] at hne
        exact absurd rfl hne
    | inr hmem => exact hmem

/-- `krealloc` in a run. -/
theorem SysInv.krealloc (hi : SysInv y ts) (hp : p = null ∨ p ∈ y.live) (size : Nat) :
    ∃ y' ts', heapStep y (.krealloc p size) = some y' ∧ SysInv y' ts'
      ∧ Keeps (.krealloc p size) y y' ts := by
  rcases hp with rfl | hp
  · obtain ⟨q, h', us, hrun, hi', halloc, hframe, hcan⟩ := hi.heap.kmalloc size
    refine ⟨⟨h', hold q y.live⟩, us, ?_, hi.allocated hi' (hcan hi.canonical) halloc, ?_⟩
    · simp only [heapStep, Mm.krealloc, hrun, if_true, Option.map_some]
    · intro u hu _ x hlo hhi
      exact hframe x ⟨u, hu, hlo, hhi⟩
  · have hmem := hi.mem_live hp
    have hnull := hi.heap.payload_ne_null hmem
    obtain ⟨q, h', us, hrun, hi', hre, hframe, -, hcan⟩ := hi.heap.krealloc hmem size
    have hkeeps : ∀ live, Keeps (.krealloc p size) y ⟨h', live⟩ ts := by
      intro live u hu hne x hlo hhi
      refine hframe u hu ?_ x hlo hhi
      rintro rfl
      exact hne rfl
    simp only [heapStep, hrun, Option.map_some, if_neg hnull]
    refine ⟨_, us, rfl, ⟨hi', hcan hi.canonical, ?_⟩, hkeeps _⟩
    rcases hre with ⟨hz, -, hperm⟩ | ⟨hz, hq, hused⟩ | ⟨hz, hq, -, hused⟩ |
      ⟨hz, hq, s, -, -, hperm⟩
    · show (if size = 0 then _ else _ : List Nat).Perm _
      rw [if_pos hz]
      exact hi.released hperm
    · show (if size = 0 then _ else _ : List Nat).Perm _
      rw [if_neg hz, if_pos hq, hused]
      exact hi.live
    · show (if size = 0 then _ else _ : List Nat).Perm _
      rw [hq, if_neg hz, if_neg hnull, hused]
      exact (List.perm_cons_erase hp).symm.trans hi.live
    · show (if size = 0 then _ else _ : List Nat).Perm _
      rw [if_neg hz, if_neg hq]
      -- both sides with `p` in front
      have hall : (q :: y.live).Perm (p :: (payloads us).map Prod.fst) :=
        (hi.live.cons q).trans (hperm.map Prod.fst)
      have hsplit : (q :: y.live).Perm (p :: q :: y.live.erase p) :=
        ((List.perm_cons_erase hp).cons q).trans (List.Perm.swap p q _)
      exact (hsplit.symm.trans hall).cons_inv

/-- A store into a live block. -/
theorem SysInv.store (hi : SysInv y ts) {offset : Nat} (hp : p ∈ y.live)
    (hoff : offset < liveSize y.heap p) (byte : Byte) :
    ∃ y' ts', heapStep y (.store p offset byte) = some y' ∧ SysInv y' ts'
      ∧ Keeps (.store p offset byte) y y' ts := by
  have hmem := hi.mem_live hp
  refine ⟨_, ts, rfl, ⟨hi.heap.store ?_, hi.canonical, hi.live⟩, ?_⟩
  · intro x hx
    apply storeByte_of_ne
    rintro rfl
    exact hx ⟨_, hmem, by dsimp only; omega, by dsimp only; omega⟩
  · intro u hu hne x hlo hhi
    apply storeByte_of_ne
    rintro rfl
    rcases used_apart hu hmem with heq | hlow | hhigh
    · rw [heq] at hne
      exact hne rfl
    · dsimp only at hlow
      omega
    · dsimp only at hhigh
      omega

/-- Every allowed call and store comes back and keeps the invariant, and
the payloads that are not its argument. -/
theorem SysInv.step (hi : SysInv y ts) {op : HeapOp} (hop : op.Allowed y) :
    ∃ y' ts', heapStep y op = some y' ∧ SysInv y' ts' ∧ Keeps op y y' ts := by
  cases op with
  | kmalloc size => exact hi.kmalloc size
  | krealloc ptr size => exact hi.krealloc hop size
  | kfree ptr => exact hi.kfree hop
  | store ptr offset byte => exact hi.store hop.1 hop.2 byte

-- ==================================================================== runs

/-- The run from a `heap_init` that succeeded. -/
theorem heapRun_inv {boot : Heap} (hpmm : PmmInv boot.vm.pmm) (hinit : heapInit boot = (true, h))
    {ops : List HeapOp}
    (hops : AllowedRun heapStep (fun y op => op.Allowed y) ⟨h, []⟩ ops) :
    ∃ y, runOps heapStep ⟨h, []⟩ ops = some y ∧ ∃ ts, SysInv y ts := by
  refine run_total (P := fun y => ∃ ts, SysInv y ts) ?_ ?_ hops
  · intro y op hi hop
    obtain ⟨ts, hi⟩ := hi
    obtain ⟨y', ts', hstep, hi', -⟩ := hi.step hop
    exact ⟨y', hstep, ts', hi'⟩
  · exact ⟨[⟨4064, true⟩], heapInit_inv hpmm hinit, List.isChain_singleton _, List.Perm.refl _⟩

/-- The block list tiles the committed heap and every pointer held is
the payload of one block in use. -/
structure Tiled (y : HeapSys) (ts : List Tile) : Prop where
  list : BlockList y.heap ts
  sizes : ∀ t ∈ ts, 16 ∣ t.size
  ends : y.heap.virtualStart + span 32 ts = y.heap.committedEnd
  size : y.heap.committedEnd = y.heap.virtualStart + y.heap.size
  nodup : y.live.Nodup
  live : ∀ p ∈ y.live, 16 ∣ p ∧ ∃ l n r, ts = l ++ ⟨n, false⟩ :: r
    ∧ p = y.heap.virtualStart + span 32 l + 32
    ∧ ∀ l' t' r', ts = l' ++ t' :: r' → p = y.heap.virtualStart + span 32 l' + 32 → l' = l

/-- Blocks at one address are one block. -/
theorem prefix_unique {l l' r r' : List Tile} {t t' : Tile}
    (heq : l ++ t :: r = l' ++ t' :: r') (hspan : span 32 l = span 32 l') : l = l' := by
  induction l generalizing l' with
  | nil =>
      cases l' with
      | nil => rfl
      | cons u l' =>
          simp only [span] at hspan
          omega
  | cons u l ih =>
      cases l' with
      | nil =>
          simp only [span] at hspan
          omega
      | cons u' l' =>
          rw [List.cons_append, List.cons_append] at heq
          injection heq with hhead htail
          subst hhead
          simp only [span] at hspan
          rw [ih htail (by omega)]

/-- The blocks tile the heap. -/
theorem SysInv.tiled (hi : SysInv y ts) : Tiled y ts := by
  have hstart := hi.heap.start
  refine ⟨hi.heap.blockList, hi.heap.sizes, ?_, ?_, hi.live_nodup, ?_⟩
  · rw [hstart, hi.heap.stop]
  · rw [hstart, hi.heap.stop, hi.heap.size]
  · intro p hp
    have hmem := hi.mem_live hp
    refine ⟨hi.heap.aligned hmem, ?_⟩
    obtain ⟨l, r, hts, haddr⟩ := mem_used.mp hmem
    refine ⟨l, _, r, hts, by rw [hstart]; exact haddr, ?_⟩
    intro l' t' r' hts' haddr'
    rw [hstart] at haddr'
    exact prefix_unique (hts'.symm.trans hts) (by omega)

/-- A kernel root in page 1 of ten and nothing in the heap's range yet;
the second expansion of the heap will find no page. -/
def bootHeap : Heap :=
  { mem := fun _ => 0#8
    vm := ⟨fun _ => 0#8,
      (pmmInit ⟨⟨fun _ => 0#8, 0⟩, 0, 0, 0, 0⟩ [⟨0x2000, 0x8000, .usable⟩] none).2,
      0xFFFF800000000000, true, some 0x1000, 0x1000, 0x1000, 0x1000⟩
    vma := [⟨heapStartAddress, heapStartAddress + 0x100000, 0⟩]
    refusals := [.granted, .noPage]
    head := null, size := 0, virtualStart := 0, committedEnd := 0, heapVma := none }

/-- The page allocator of the examples. -/
theorem bootHeap_pmm : PmmInv bootHeap.vm.pmm :=
  pmmInit_inv (Prod.ext (by decide) rfl)

/-- The heap of the examples is initialised. -/
theorem bootHeap_init : heapInit bootHeap = (true, (heapInit bootHeap).2) :=
  Prod.ext (by decide) rfl

/-- An allocation in the first page, one that expands the heap, one that
finds no page, and a free. -/
def threeCalls : List HeapOp :=
  [.kmalloc 100, .kmalloc 5000, .kmalloc 9000, .kfree 0xFFFF900000000020]

theorem threeCalls_allowed : AllowedRun heapStep (fun y op => op.Allowed y)
    ⟨(heapInit bootHeap).2, []⟩ threeCalls := by
  decide

/-- In every run from a successful `heap_init`, whatever expansions fail,
the block list tiles the committed heap. -/
theorem heap_list_tiles (boot h : Heap) (hpmm : PmmInv boot.vm.pmm)
    (hinit : heapInit boot = (true, h)) (ops : List HeapOp)
    (hops : AllowedRun heapStep (fun y op => op.Allowed y) ⟨h, []⟩ ops) :
    ∃ y, runOps heapStep ⟨h, []⟩ ops = some y ∧ ∃ ts, Tiled y ts := by
  obtain ⟨y, hrun, ts, hi⟩ := heapRun_inv hpmm hinit hops
  exact ⟨y, hrun, ts, hi.tiled⟩

/-- One block is left, in a heap of two pages. -/
theorem heap_list_tiles_three_calls :
    ∃ y, runOps heapStep ⟨(heapInit bootHeap).2, []⟩ threeCalls = some y
      ∧ (y.live = [0xFFFF9000000000B0] ∧ y.heap.size = 8192) ∧ ∃ ts, Tiled y ts := by
  obtain ⟨y, hrun, htiled⟩ := heap_list_tiles bootHeap (heapInit bootHeap).2 bootHeap_pmm
    bootHeap_init threeCalls threeCalls_allowed
  have hfinal : (runOps heapStep ⟨(heapInit bootHeap).2, []⟩ threeCalls).map
      (fun y => (y.live, y.heap.size)) = some ([0xFFFF9000000000B0], 8192) := by decide
  rw [hrun] at hfinal
  exact ⟨y, hrun, by simpa using hfinal, htiled⟩

/-- In every run, the blocks of two pointers do not meet each other nor
any header, and a call changes no byte of a block but its argument's. -/
theorem heap_payloads_apart (boot h : Heap) (hpmm : PmmInv boot.vm.pmm)
    (hinit : heapInit boot = (true, h)) (ops : List HeapOp)
    (hops : AllowedRun heapStep (fun y op => op.Allowed y) ⟨h, []⟩ ops) :
    ∃ y, runOps heapStep ⟨h, []⟩ ops = some y
      ∧ (∀ p ∈ y.live, ∀ q ∈ y.live, p ≠ q →
          p + liveSize y.heap p ≤ q ∨ q + liveSize y.heap q ≤ p)
      ∧ (∃ ts, BlockList y.heap ts ∧ ∀ p ∈ y.live, ∀ l t r, ts = l ++ t :: r →
          p + liveSize y.heap p ≤ y.heap.virtualStart + span 32 l
            ∨ y.heap.virtualStart + span 32 l + 32 ≤ p)
      ∧ ∀ op, op.Allowed y → ∃ y', heapStep y op = some y'
          ∧ ∀ p ∈ y.live, op.argument ≠ some p →
            ∀ x, p ≤ x → x < p + liveSize y.heap p → y'.heap.mem x = y.heap.mem x := by
  obtain ⟨y, hrun, ts, hi⟩ := heapRun_inv hpmm hinit hops
  refine ⟨y, hrun, ?_, ⟨ts, hi.heap.blockList, ?_⟩, ?_⟩
  · intro p hp q hq hne
    rcases used_apart (hi.mem_live hp) (hi.mem_live hq) with heq | hlow | hhigh
    · injection heq with heq
      exact absurd heq hne
    · dsimp only at hlow
      exact .inl (by omega)
    · dsimp only at hhigh
      exact .inr (by omega)
  · intro p hp l t r hts
    rw [hi.heap.start]
    have hmem := hi.mem_live hp
    rw [hts] at hmem
    exact used_header_apart hmem
  · intro op hop
    obtain ⟨y', ts', hstep, -, hkeeps⟩ := hi.step hop
    refine ⟨y', hstep, ?_⟩
    intro p hp hne x hlo hhi
    exact hkeeps _ (hi.mem_live hp) hne x hlo hhi

/-- A live block after three calls. -/
theorem heap_payloads_apart_three_calls :
    ∃ y, runOps heapStep ⟨(heapInit bootHeap).2, []⟩ threeCalls = some y
      ∧ ∀ op, op.Allowed y → ∃ y', heapStep y op = some y'
          ∧ ∀ p ∈ y.live, op.argument ≠ some p →
            ∀ x, p ≤ x → x < p + liveSize y.heap p → y'.heap.mem x = y.heap.mem x := by
  obtain ⟨y, hrun, -, -, hframe⟩ := heap_payloads_apart bootHeap (heapInit bootHeap).2
    bootHeap_pmm bootHeap_init threeCalls threeCalls_allowed
  exact ⟨y, hrun, hframe⟩

-- =============================================================== canonical

/-- Two heaps with the same blocks in use and the same end have the same
block list. -/
theorem SysInv.same_list (hi : SysInv y ts) (hi' : SysInv y' us) (hlive : y.live.Perm y'.live)
    (hsize : ∀ p ∈ y.live, liveSize y.heap p = liveSize y'.heap p)
    (hend : y.heap.committedEnd = y'.heap.committedEnd) : ts = us := by
  have hspan : span 32 ts = span 32 us := by
    rw [hi.heap.stop, hi'.heap.stop] at hend
    exact Nat.add_left_cancel hend
  have hmem : ∀ u, u ∈ payloads ts ↔ u ∈ payloads us := by
    intro u
    constructor
    · intro hu
      have hp := hi.live_of_mem (p := u.1) (n := u.2) hu
      have hu' := hi'.mem_live (hlive.mem_iff.mp hp)
      rw [← hsize u.1 hp, payload_unique (hi.mem_live hp) hu] at hu'
      exact hu'
    · intro hu
      have hp' := hi'.live_of_mem (p := u.1) (n := u.2) hu
      have hp := hlive.mem_iff.mpr hp'
      have hu' := hi.mem_live hp
      rw [hsize u.1 hp, payload_unique (hi'.mem_live hp') hu] at hu'
      exact hu'
  exact hi.canonical.unique (by decide) hi'.canonical hspan
    (used_eq_of_mem_iff (by decide) hmem)

/-- Freeing every pointer held, in any order. -/
theorem SysInv.free_all (hi : SysInv y ts) {order : List Nat} (horder : order.Perm y.live) :
    ∃ y' ts', runOps heapStep y (order.map .kfree) = some y' ∧ SysInv y' ts' ∧ y'.live = [] := by
  induction order generalizing y ts with
  | nil =>
      have hnil : y.live = [] := List.nil_perm.mp horder
      exact ⟨y, ts, rfl, hi, hnil⟩
  | cons p order ih =>
      have hp : p ∈ y.live := horder.mem_iff.mp List.mem_cons_self
      obtain ⟨y₁, ts₁, hstep, hi₁, -⟩ := hi.kfree (.inr hp)
      have hlive : y₁.live = y.live.erase p := by
        rw [heapStep] at hstep
        rw [← Option.some.inj hstep]
      have horder₁ : order.Perm y₁.live := by
        rw [hlive]
        exact (horder.trans (List.perm_cons_erase hp)).cons_inv
      obtain ⟨y', ts', hrun, hi', hnil⟩ := ih hi₁ horder₁
      refine ⟨y', ts', ?_, hi', hnil⟩
      rw [List.map_cons, runOps, hstep]
      exact hrun

/-- An allocation that commits nothing, undone at once. -/
theorem SysInv.kmalloc_kfree (hi : SysInv y ts) (hrun : Mm.kmalloc n y.heap = some (p, h'))
    (hend : h'.committedEnd = y.heap.committedEnd) : HeapInv (Mm.kfree p h') ts := by
  obtain ⟨q, h₁, ts₁, hrun₁, hi₁, halloc, -, hcan₁⟩ := hi.heap.kmalloc n
  rw [hrun₁] at hrun
  injection hrun with hrun
  injection hrun with hq hh
  subst hq hh
  have hspan₁ : span 32 ts₁ = span 32 ts := by
    rw [hi₁.stop, hi.heap.stop] at hend
    exact Nat.add_left_cancel hend
  have hsys₁ := hi.allocated hi₁ (hcan₁ hi.canonical) halloc
  rcases halloc with ⟨hnull, hused⟩ | ⟨hnull, s, -, hperm⟩
  · have heq : ts₁ = ts :=
      hsys₁.canonical.unique (by decide) hi.canonical hspan₁ hused
    rw [Mm.kfree, if_pos hnull, ← heq]
    exact hi₁
  · have hmem : (q, s) ∈ payloads ts₁ := hperm.mem_iff.mpr List.mem_cons_self
    obtain ⟨us, hi₂, hperm₂, -, hcan₂⟩ := hi₁.kfree hmem
    have hends : (Mm.kfree q h₁).committedEnd = h₁.committedEnd := by
      rw [Mm.kfree, if_neg hnull]
    have hspan : span 32 us = span 32 ts := by
      have hstop := hi₂.stop
      rw [hends, hi₁.stop] at hstop
      rw [← hspan₁]
      exact (Nat.add_left_cancel hstop).symm
    have hused : payloads us = payloads ts := by
      refine used_eq_of_mem_iff (by decide) fun u => ?_
      exact (hperm₂.symm.trans hperm).cons_inv.mem_iff
    rw [← (hcan₂ hsys₁.canonical).unique (by decide) hi.canonical hspan hused]
    exact hi₂

/-- With nothing held, the list is one free block. -/
theorem SysInv.list_of_free (hi : SysInv y ts) (hlive : y.live = []) :
    ts = [⟨y.heap.committedEnd - y.heap.virtualStart - 32, true⟩] := by
  have hused : payloads ts = [] := by
    have hperm := hi.live
    rw [hlive] at hperm
    exact List.map_eq_nil_iff.mp (List.nil_perm.mp hperm)
  have hspan : y.heap.committedEnd - y.heap.virtualStart = span 32 ts := by
    rw [hi.heap.stop, hi.heap.start, Nat.add_sub_cancel_left]
  rw [hspan]
  exact hi.canonical.eq_single hi.heap.ne_nil hused

/-- In every run no two neighbouring blocks are both free, and so: there
is nothing to coalesce; the blocks in use and the end of the heap
determine the list; an allocation that commits nothing is undone by a
free; and freeing everything, in any order, leaves one free block. -/
theorem heap_list_canonical (boot h : Heap) (hpmm : PmmInv boot.vm.pmm)
    (hinit : heapInit boot = (true, h)) (ops : List HeapOp)
    (hops : AllowedRun heapStep (fun y op => op.Allowed y) ⟨h, []⟩ ops) :
    ∃ y, runOps heapStep ⟨h, []⟩ ops = some y
      ∧ (∃ ts, BlockList y.heap ts ∧ Canonical ts)
      ∧ coalesceFreeBlocks y.heap = some y.heap
      ∧ (∀ boot' h' ops' y', PmmInv boot'.vm.pmm → heapInit boot' = (true, h') →
          AllowedRun heapStep (fun y op => op.Allowed y) ⟨h', []⟩ ops' →
          runOps heapStep ⟨h', []⟩ ops' = some y' → y.live.Perm y'.live →
          (∀ p ∈ y.live, liveSize y.heap p = liveSize y'.heap p) →
          y.heap.committedEnd = y'.heap.committedEnd →
          ∀ ts, BlockList y.heap ts ↔ BlockList y'.heap ts)
      ∧ (∀ n p h', kmalloc n y.heap = some (p, h') → h'.committedEnd = y.heap.committedEnd →
          ∀ ts, BlockList (kfree p h') ts ↔ BlockList y.heap ts)
      ∧ ∀ order : List Nat, order.Perm y.live →
          ∃ y', runOps heapStep y (order.map .kfree) = some y'
            ∧ BlockList y'.heap
              [⟨y'.heap.committedEnd - y'.heap.virtualStart - 32, true⟩] := by
  obtain ⟨y, hrun, ts, hi⟩ := heapRun_inv hpmm hinit hops
  refine ⟨y, hrun, ⟨ts, hi.heap.blockList, hi.canonical⟩, ?_, ?_, ?_, ?_⟩
  · obtain ⟨m, hcoalesce, -, -, hsame⟩ := hi.heap.coalesce
    rw [hcoalesce, hsame hi.canonical]
  · intro boot' h' ops' y' hpmm' hinit' hops' hrun' hlive hsize hend us
    obtain ⟨y'', hrun'', us', hi'⟩ := heapRun_inv hpmm' hinit' hops'
    obtain rfl : y'' = y' := Option.some.inj (hrun''.symm.trans hrun')
    have heq := hi.same_list hi' hlive hsize hend
    exact hi.heap.blockList_iff (heq ▸ hi'.heap)
  · intro n p h' halloc hend us
    exact (hi.kmalloc_kfree halloc hend).blockList_iff hi.heap
  · intro order horder
    obtain ⟨y', ts', hrun', hi', hlive⟩ := hi.free_all horder
    refine ⟨y', hrun', ?_⟩
    rw [← hi'.list_of_free hlive]
    exact hi'.heap.blockList

/-- Three calls, and what is live is freed. -/
theorem heap_list_canonical_three_calls :
    ∃ y, runOps heapStep ⟨(heapInit bootHeap).2, []⟩ threeCalls = some y
      ∧ coalesceFreeBlocks y.heap = some y.heap
      ∧ ∀ order : List Nat, order.Perm y.live →
          ∃ y', runOps heapStep y (order.map .kfree) = some y'
            ∧ BlockList y'.heap
              [⟨y'.heap.committedEnd - y'.heap.virtualStart - 32, true⟩] := by
  obtain ⟨y, hrun, -, hcoalesce, -, -, hfree⟩ := heap_list_canonical bootHeap
    (heapInit bootHeap).2 bootHeap_pmm bootHeap_init threeCalls threeCalls_allowed
  exact ⟨y, hrun, hcoalesce, hfree⟩

end ZenithOS.Mm
