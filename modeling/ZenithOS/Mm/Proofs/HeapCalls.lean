/-
Runs of the heap with `kcalloc`, and what its calls promise about the
blocks they return.

# Sizes

`align_size` wraps for the last fifteen sizes below `2 ^ 64`, and makes
them 0. Such a request gets any free block, cut to nothing, and fails
only where there is no free block and no page to make one of
(`RequestFits`). A `kcalloc` that falls for this clears all of memory
from the empty block on, so `HeapCall.Allowed` keeps it out of the runs.

# Contents

`kcalloc` clears inside its block and `krealloc` copies into the new one
before it frees the old, so both are steps of the invariant of the other
calls (`SysInv.call`).
-/
import ZenithOS.Mm.Proofs.HeapFit
import ZenithOS.Mm.Proofs.HeapRun

namespace ZenithOS.Mm

open Lib Klib Vmm

variable {y y' : HeapSys} {h h' : Heap} {ts us l r : List Tile} {n p q x size count : Nat}

-- ================================================================= requests

/-- The next `heap_expand` fails. -/
def ExpandFails (h : Heap) : Prop := (heapExpand h).map Prod.fst = some false

/-- The size rounds up to a block of that size, or the request comes to
nothing: no block is free, and none can be made. -/
def RequestFits (size : Nat) (h : Heap) : Prop :=
  size ≤ 2 ^ 64 - 16 ∨ (NoBlock size h ∧ ExpandFails h)

instance (size : Nat) (h : Heap) : Decidable (RequestFits size h) :=
  inferInstanceAs (Decidable (_ ∨ (((coalesceFreeBlocks h).bind fun h =>
    findFreeBlock h (alignSize size)) = some null ∧ (heapExpand h).map Prod.fst = some false)))

/-- The same of a `kcalloc`, which makes no request for nothing or for
more than `2 ^ 64` bytes. -/
def KcallocFits (count size : Nat) (h : Heap) : Prop :=
  count = 0 ∨ size = 0 ∨ 2 ^ 64 ≤ count * size ∨ RequestFits (count * size) h

instance (count size : Nat) (h : Heap) : Decidable (KcallocFits count size h) :=
  inferInstanceAs (Decidable (_ ∨ _ ∨ _ ∨ RequestFits (count * size) h))

/-- What a caller promises, and that a `kcalloc` is not one that clears
more than its block. -/
def HeapCall.Allowed (y : HeapSys) : HeapCall → Prop
  | .op o => o.Allowed y
  | .kcalloc count size => KcallocFits count size y.heap

instance (y : HeapSys) : ∀ call : HeapCall, Decidable (call.Allowed y)
  | .op o => inferInstanceAs (Decidable (o.Allowed y))
  | .kcalloc count size => inferInstanceAs (Decidable (KcallocFits count size y.heap))

/-- `kmalloc` finds no block exactly when no tile fits. -/
theorem HeapInv.noBlock_iff (hi : HeapInv h ts) (hcan : Canonical ts) :
    NoBlock size h ↔ ∀ t ∈ ts, ¬ Fits (alignSize size) t := by
  unfold NoBlock
  rw [hi.coalesce_same hcan, Option.bind_some]
  rcases hi.findFreeBlock (alignSize size) with ⟨hfind, hnone⟩ | ⟨l, s, r, rfl, hfit, -, hfind⟩
  · exact iff_of_true hfind hnone
  · rw [hfind]
    refine iff_of_false ?_ fun hnone => hnone ⟨s, true⟩ (by simp) ⟨rfl, hfit⟩
    intro heq
    exact absurd (Option.some.inj heq) (Nat.ne_of_gt (Nat.add_pos_left heapStart_pos _))

/-- A request that comes to nothing. -/
theorem HeapInv.kmalloc_nothing (hi : HeapInv h ts) (hcan : Canonical ts) (hsize : size ≠ 0)
    (hblock : NoBlock size h) (hfail : ExpandFails h) :
    ∃ h', Mm.kmalloc size h = some (null, h') := by
  have hnone := (hi.noBlock_iff hcan).mp hblock
  rcases hi.kmalloc_cases hcan hsize with ⟨l, s, r, rfl, hfit, -⟩ |
    ⟨-, k, result, hs, -, hroom, hrun, -, -, hgrows⟩
  · exact absurd ⟨rfl, hfit⟩ (hnone ⟨s, true⟩ (by simp))
  · rcases hgrows with ⟨g, l, s, hg, -⟩ | ⟨j, g, -, -, -, hnull⟩
    · cases k with
      | zero =>
          obtain ⟨t, ht, hfits⟩ := exists_fit_of_tailRoom (w := 32) hroom (by omega)
          exact absurd hfits (hnone t ht)
      | succ k =>
          obtain ⟨⟨done, h₁⟩, hexpand, hdone⟩ := Option.map_eq_some_iff.mp hfail
          obtain rfl : done = false := hdone
          rw [heapExpandTimes, hexpand] at hg
          cases hg
    · exact ⟨result.2, by rw [hrun, ← hnull]⟩

/-- A request whose size wraps fails only where it must. -/
theorem HeapInv.nothing_of_null (hi : HeapInv h ts) (hcan : Canonical ts) (hsize : size ≠ 0)
    (hwrap : alignSize size = 0) (hrun : Mm.kmalloc size h = some (null, h')) :
    NoBlock size h ∧ ExpandFails h := by
  rcases hi.kmalloc_cases hcan hsize with ⟨l, s, r, -, -, -, hrun', -⟩ |
    ⟨hnone, k, result, hs, hleast, -, hrun', -, -, hgrows⟩
  · rw [hrun] at hrun'
    have hnull := congrArg Prod.fst (Option.some.inj hrun')
    exact absurd hnull.symm (Nat.succ_ne_zero _)
  · obtain rfl : (null, h') = result := Option.some.inj (hrun.symm.trans hrun')
    refine ⟨(hi.noBlock_iff hcan).mpr hnone, ?_⟩
    rcases hgrows with ⟨g, l, s, -, -, -, -, -, hresult⟩ | ⟨j, g, hj, hg, hfail, -⟩
    · exact absurd (congrArg Prod.fst hresult).symm (Nat.succ_ne_zero _)
    · -- one page is enough for an empty block, so no page was added
      have hleast' := hleast (k - 1) (by omega)
      obtain rfl : j = 0 := by omega
      obtain rfl : h = g := (Prod.mk.inj (Option.some.inj hg)).2
      rw [ExpandFails, hfail]
      rfl

/-- A size near the end of the address space is rounded to 0. -/
theorem alignSize_wrapped (hwrap : ¬ size ≤ 2 ^ 64 - 16) (hlt : size < 2 ^ 64) :
    alignSize size = 0 := by
  show (size + 15) % 2 ^ 64 / 16 * 16 = 0
  omega

/-- Blocks are far smaller than the sizes that wrap. -/
theorem HeapInv.payload_le (hi : HeapInv h ts) (hp : (p, n) ∈ payloads ts) : n ≤ 2 ^ 33 := by
  obtain ⟨-, -, -, hlo, hhi⟩ := hi.payload_block hp
  have hroom := hi.room
  omega

/-- The size of a live block is in its header. -/
theorem HeapInv.liveSize_eq (hi : HeapInv h ts) (hp : (p, n) ∈ payloads ts) :
    liveSize h p = n := by
  obtain ⟨hblock, hsize, -⟩ := hi.payload_block hp
  rw [liveSize, hblock, hsize]

/-- What was returned, unless it is `NULL`, is a block of `size` bytes or
more. -/
def LargeEnough (size : Nat) (r : Nat × Heap) : Prop :=
  r.1 ≠ null → size ≤ liveSize r.2 r.1

/-- `kmalloc` keeps its promise just for the requests that fit. -/
theorem HeapInv.largeEnough_iff (hi : HeapInv h ts) (hcan : Canonical ts) (hsize : size ≠ 0)
    (hlt : size < 2 ^ 64) :
    ∃ r, Mm.kmalloc size h = some r ∧ (LargeEnough size r ↔ RequestFits size h) := by
  obtain ⟨p, h', us, hrun, hi', halloc, -⟩ := hi.kmalloc size
  refine ⟨(p, h'), hrun, ?_⟩
  by_cases hfits : size ≤ 2 ^ 64 - 16
  · refine iff_of_true (fun hp => ?_) (.inl hfits)
    obtain ⟨s, hs, hmem⟩ := halloc.new hp
    show size ≤ liveSize h' p
    rw [hi'.liveSize_eq hmem]
    exact Nat.le_trans (le_alignSize (by omega)) hs
  · rw [RequestFits, or_iff_right hfits]
    constructor
    · intro hlarge
      have hnull : p = null := by
        by_contra hp
        obtain ⟨s, -, hmem⟩ := halloc.new hp
        have hle : size ≤ liveSize h' p := hlarge hp
        rw [hi'.liveSize_eq hmem] at hle
        have hbound := hi'.payload_le hmem
        omega
      exact hi.nothing_of_null hcan hsize (alignSize_wrapped hfits hlt) (hnull ▸ hrun)
    · intro hnothing hp
      obtain ⟨h₁, hrun₁⟩ := hi.kmalloc_nothing hcan hsize hnothing.1 hnothing.2
      rw [hrun] at hrun₁
      exact absurd (congrArg Prod.fst (Option.some.inj hrun₁)) hp

-- ================================================================== kcalloc

/-- `kcalloc`: refused, or `kmalloc` of the product, cleared. -/
theorem kcalloc_cases (count size : Nat) (h : Heap) :
    ((count = 0 ∨ size = 0 ∨ 2 ^ 64 ≤ count * size) ∧ kcalloc count size h = some (null, h))
      ∨ (count * size ≠ 0 ∧ count * size < 2 ^ 64
        ∧ kcalloc count size h = (Mm.kmalloc (count * size) h).map fun r =>
          if r.1 = null then (null, r.2)
          else (r.1, { r.2 with mem := kMemset r.2.mem r.1 0#8 (count * size) })) := by
  rw [kcalloc]
  by_cases hzero : count = 0 ∨ size = 0
  · exact .inl ⟨hzero.elim .inl (fun hs => .inr (.inl hs)), by rw [if_pos hzero]⟩
  · obtain ⟨hcount, hsize⟩ := not_or.mp hzero
    have hover : count > (2 ^ 64 - 1) / size ↔ 2 ^ 64 ≤ count * size := by
      rw [gt_iff_lt, Nat.div_lt_iff_lt_mul (Nat.pos_of_ne_zero hsize)]
      omega
    rw [if_neg hzero]
    by_cases hwide : count > (2 ^ 64 - 1) / size
    · exact .inl ⟨.inr (.inr (hover.mp hwide)), by rw [if_pos hwide]⟩
    · have hlt : count * size < 2 ^ 64 := by
        rw [hover] at hwide
        omega
      refine .inr ⟨Nat.mul_ne_zero hcount hsize, hlt, ?_⟩
      rw [if_neg hwide, Nat.mod_eq_of_lt hlt]
      cases hrun : Mm.kmalloc (count * size) h with
      | none => simp only [hrun, Option.bind_eq_bind, Option.bind_none, Option.map_none]
      | some r =>
          simp only [hrun, Option.bind_eq_bind, Option.bind_some, Option.map_some]
          split_ifs
          · rfl
          · rfl

/-- `kcalloc` that fits: a new block with zeros, or nothing. -/
theorem HeapInv.kcalloc (hi : HeapInv h ts) (hcan : Canonical ts)
    (hfits : KcallocFits count size h) :
    ∃ p h' ts', kcalloc count size h = some (p, h') ∧ HeapInv h' ts' ∧ Canonical ts'
      ∧ Allocates (count * size) p ts ts' ∧ (∀ x, InUse ts x → h'.mem x = h.mem x)
      ∧ (p ≠ null → count * size < 2 ^ 64 ∧ (∀ i < count * size, h'.mem (p + i) = 0#8)
        ∧ ∃ h₁, Mm.kmalloc (count * size) h = some (p, h₁)
          ∧ ∀ x, ¬ (p ≤ x ∧ x < p + liveSize h' p) → h'.mem x = h₁.mem x) := by
  rcases kcalloc_cases count size h with ⟨-, hrun⟩ | ⟨hsize, hlt, hrun⟩
  · exact ⟨null, h, ts, hrun, hi, hcan, .inl ⟨rfl, rfl⟩, fun _ _ => rfl, fun hp => absurd rfl hp⟩
  · have hrequest : RequestFits (count * size) h := by
      rcases hfits with hzero | hzero | hwide | hrequest
      · exact absurd (by rw [hzero, Nat.zero_mul]) hsize
      · exact absurd (by rw [hzero, Nat.mul_zero]) hsize
      · omega
      · exact hrequest
    obtain ⟨p, h₁, us, hmalloc, hi₁, halloc, hframe, hcan₁⟩ := hi.kmalloc (count * size)
    rw [hmalloc, Option.map_some] at hrun
    by_cases hp : p = null
    · rw [if_pos hp] at hrun
      exact ⟨null, h₁, us, hrun, hi₁, hcan₁ hcan,
        .inl ⟨rfl, (halloc.resolve_right fun hne => hne.1 hp).2⟩, hframe,
        fun hne => absurd rfl hne⟩
    · rw [if_neg hp, kMemset_eq] at hrun
      obtain ⟨-, s, hs, hperm⟩ := halloc.resolve_left fun hnull => hp hnull.1
      have hmem : (p, s) ∈ payloads us := hperm.mem_iff.mpr List.mem_cons_self
      -- the block is as large as the product
      have hfit : count * size ≤ s := by
        obtain ⟨r, hr, hlarge⟩ := hi.largeEnough_iff hcan hsize hlt
        obtain rfl := Option.some.inj (hmalloc.symm.trans hr)
        have hle : count * size ≤ liveSize h₁ p := hlarge.mpr hrequest hp
        rwa [hi₁.liveSize_eq hmem] at hle
      have hi₂ : HeapInv { h₁ with mem := fill h₁.mem p 0#8 (count * size) } us := by
        refine hi₁.storeBlock hmem fun x hx => fill_outside ?_
        omega
      refine ⟨p, _, us, hrun, hi₂, hcan₁ hcan, .inr ⟨hp, s, hfit, hperm⟩, ?_, fun _ =>
        ⟨hlt, fun i hin => fill_inside (by omega) (by omega), h₁, hmalloc, ?_⟩⟩
      · intro x hx
        rw [← hframe x hx]
        apply fill_outside
        -- the new block is apart from those in use before
        obtain ⟨u, hu, hlo, hhi⟩ := hx
        have hu₁ : u ∈ payloads us := hperm.mem_iff.mpr (List.mem_cons_of_mem _ hu)
        have hne : u.1 ≠ p := Allocates.fresh (.inr ⟨hp, s, hs, hperm⟩) hp (s := u.2) hu
        rcases used_apart hu₁ hmem with heq | hlow | hhigh
        · exact absurd (congrArg Prod.fst heq) hne
        · dsimp only at hlow
          omega
        · dsimp only at hhigh
          omega
      · intro x hout
        rw [hi₂.liveSize_eq hmem] at hout
        apply fill_outside
        omega

-- ===================================================================== runs

/-- Every allowed call comes back and keeps the invariant. -/
theorem SysInv.call (hi : SysInv y ts) {call : HeapCall} (hcall : call.Allowed y) :
    ∃ y' ts', callStep y call = some y' ∧ SysInv y' ts' := by
  cases call with
  | op o =>
      obtain ⟨y', ts', hstep, hi', -⟩ := hi.step hcall
      exact ⟨y', ts', hstep, hi'⟩
  | kcalloc count size =>
      obtain ⟨p, h', ts', hrun, hi', hcan, halloc, -⟩ := hi.heap.kcalloc hi.canonical hcall
      refine ⟨⟨h', hold p y.live⟩, ts', ?_, hi.allocated hi' hcan halloc⟩
      simp only [callStep, hrun, Option.map_some]

/-- The run from a `heap_init` that succeeded. -/
theorem callRun_inv {boot : Heap} (hpmm : PmmInv boot.vm.pmm) (hinit : heapInit boot = (true, h))
    {calls : List HeapCall}
    (hcalls : AllowedRun callStep (fun y call => call.Allowed y) ⟨h, []⟩ calls) :
    ∃ y, runOps callStep ⟨h, []⟩ calls = some y ∧ ∃ ts, SysInv y ts := by
  refine run_total (P := fun y => ∃ ts, SysInv y ts) ?_ ?_ hcalls
  · intro y call hi hcall
    obtain ⟨ts, hi⟩ := hi
    obtain ⟨y', ts', hstep, hi'⟩ := hi.call hcall
    exact ⟨y', hstep, ts', hi'⟩
  · exact ⟨[⟨4064, true⟩], heapInit_inv hpmm hinit, List.isChain_singleton _, List.Perm.refl _⟩

/-- A block of 100 bytes, three zeroed words, a block that expands the
heap, and the first one resized. -/
def fourCalls : List HeapCall :=
  [.op (.kmalloc 100), .kcalloc 3 8, .op (.kmalloc 5000),
    .op (.krealloc 0xFFFF900000000020 200)]

theorem fourCalls_allowed : AllowedRun callStep (fun y call => call.Allowed y)
    ⟨(heapInit bootHeap).2, []⟩ fourCalls := by
  decide +kernel

-- ==================================================================== sizes

/-- A `kcalloc` that returned something: the product does not overflow,
the block is as large and cleared, and clearing it wrote nothing else. -/
def Cleared (y : HeapSys) (count size : Nat) (r : Nat × Heap) : Prop :=
  r.1 ≠ null →
    count * size < 2 ^ 64 ∧ count * size ≤ liveSize r.2 r.1
      ∧ (∀ i < count * size, r.2.mem (r.1 + i) = 0#8)
      ∧ (∃ h₁, kmalloc (count * size) y.heap = some (r.1, h₁)
        ∧ ∀ x, ¬ (r.1 ≤ x ∧ x < r.1 + liveSize r.2 r.1) → r.2.mem x = h₁.mem x)
      ∧ ∀ p ∈ y.live, ∀ i < liveSize y.heap p, r.2.mem (p + i) = y.heap.mem (p + i)

/-- A `krealloc` of `NULL` is a `kmalloc`, any other never looks for a
block where the size wraps. -/
def KreallocFits (ptr size : Nat) (h : Heap) : Prop :=
  size ≤ 2 ^ 64 - 16 ∨ (ptr = null ∧ NoBlock size h ∧ ExpandFails h)

/-- `kcalloc` keeps its promise exactly when its request fits. -/
theorem SysInv.cleared_iff (hi : SysInv y ts) (count size : Nat) :
    ∃ r, kcalloc count size y.heap = some r
      ∧ (Cleared y count size r ↔ KcallocFits count size y.heap) := by
  by_cases hfits : KcallocFits count size y.heap
  · obtain ⟨p, h', us, hrun, hi', -, halloc, hframe, hnew⟩ := hi.heap.kcalloc hi.canonical hfits
    refine ⟨(p, h'), hrun, iff_of_true (fun hp => ?_) hfits⟩
    obtain ⟨hlt, hzero, hwrites⟩ := hnew hp
    obtain ⟨s, hs, hmem⟩ := halloc.new hp
    refine ⟨hlt, ?_, hzero, hwrites, ?_⟩
    · show count * size ≤ liveSize h' p
      rw [hi'.liveSize_eq hmem]
      exact hs
    · intro q hq i hlt
      exact hframe (q + i) ⟨_, hi.mem_live hq, by dsimp only; omega, by dsimp only; omega⟩
  · rcases kcalloc_cases count size y.heap with ⟨hrefused, hrun⟩ | ⟨hsize, hlt, hrun⟩
    · exact absurd (hrefused.imp_right fun hor => hor.imp_right .inl) hfits
    · -- the block it clears is smaller than the product
      obtain ⟨r, hmalloc, hlarge⟩ := hi.heap.largeEnough_iff hi.canonical hsize hlt
      have hnot : ¬ LargeEnough (count * size) r := fun hl =>
        hfits (.inr (.inr (.inr (hlarge.mp hl))))
      obtain ⟨hp, hsmall⟩ : r.1 ≠ null ∧ ¬ count * size ≤ liveSize r.2 r.1 :=
        Classical.not_imp.mp hnot
      rw [hmalloc, Option.map_some, if_neg hp] at hrun
      refine ⟨_, hrun, iff_of_false (fun hcleared => ?_) hfits⟩
      obtain ⟨-, hle, -⟩ := hcleared hp
      obtain ⟨p, h₁, us, hrun₁, hi₁, halloc, -⟩ := hi.heap.kmalloc (count * size)
      obtain rfl : r = (p, h₁) := Option.some.inj (hmalloc.symm.trans hrun₁)
      obtain ⟨s, -, hmem⟩ := halloc.new hp
      obtain ⟨hblock, -, -, hlo, -⟩ := hi₁.payload_block hmem
      have hheader : liveSize { h₁ with mem := kMemset h₁.mem p 0#8 (count * size) } p
          = liveSize h₁ p := by
        rw [kMemset_eq, liveSize, liveSize, hblock]
        exact loadWord_fill_of_disjoint (.inl (by omega))
      have hle' : count * size
          ≤ liveSize { h₁ with mem := kMemset h₁.mem p 0#8 (count * size) } p := hle
      rw [hheader] at hle'
      exact hsmall hle'

/-- `krealloc` keeps its promise exactly when its request fits. -/
theorem SysInv.krealloc_iff (hi : SysInv y ts) (hq : q = null ∨ q ∈ y.live) (hsize : size ≠ 0)
    (hlt : size < 2 ^ 64) :
    ∃ r, Mm.krealloc q size y.heap = some r
      ∧ (LargeEnough size r ↔ KreallocFits q size y.heap) := by
  by_cases hnull : q = null
  · obtain ⟨r, hrun, hiff⟩ := hi.heap.largeEnough_iff hi.canonical hsize hlt
    refine ⟨r, by rw [Mm.krealloc, if_pos hnull, hrun], hiff.trans ?_⟩
    rw [RequestFits, KreallocFits, eq_true hnull, true_and]
  · have hmem := hi.mem_live (hq.resolve_left hnull)
    obtain ⟨p, h', us, hrun, hi', hre, -⟩ := hi.heap.krealloc hmem size
    refine ⟨(p, h'), hrun, ?_⟩
    rw [KreallocFits, or_iff_left fun h => hnull h.1]
    constructor
    · intro hlarge
      by_contra hwrap
      -- the block is always large enough for a size of 0
      have hzero : alignSize size = 0 := alignSize_wrapped hwrap hlt
      have hkept : Mm.krealloc q size y.heap = some (q, y.heap) := by
        rw [Mm.krealloc, if_neg hnull, if_neg hsize, hzero]
        exact if_pos (Nat.zero_le _)
      obtain ⟨rfl, rfl⟩ := Prod.mk.inj (Option.some.inj (hrun.symm.trans hkept))
      have hle : size ≤ liveSize y.heap p := hlarge hnull
      have hbound := hi.heap.payload_le hmem
      omega
    · intro hfits hp
      have halign : size ≤ alignSize size := le_alignSize (by omega)
      rcases hre with ⟨hz, -⟩ | ⟨-, heq, -⟩ | ⟨-, rfl, hle, hused⟩ | ⟨-, -, s, hs, hmore, hperm⟩
      · exact absurd hz hsize
      · exact absurd heq hp
      · show size ≤ liveSize h' p
        rw [hi'.liveSize_eq (hused ▸ hmem)]
        exact Nat.le_trans halign hle
      · have hnew : (p, s) ∈ payloads us := by
          apply (List.mem_cons.mp (hperm.mem_iff.mp List.mem_cons_self)).resolve_left
          intro heq
          exact absurd (congrArg Prod.snd heq) (Nat.ne_of_gt hmore)
        show size ≤ liveSize h' p
        rw [hi'.liveSize_eq hnew]
        exact Nat.le_trans halign hs

/-- In every heap reached, an allocation is as large as requested just
when the request fits. -/
theorem allocations_as_large_as_requested (boot h : Heap) (hpmm : PmmInv boot.vm.pmm)
    (hinit : heapInit boot = (true, h)) (calls : List HeapCall)
    (hcalls : AllowedRun callStep (fun y call => call.Allowed y) ⟨h, []⟩ calls) :
    ∃ y, runOps callStep ⟨h, []⟩ calls = some y
      ∧ (∀ n, 0 < n → n < 2 ^ 64 →
          ∃ r, kmalloc n y.heap = some r ∧ (LargeEnough n r ↔ RequestFits n y.heap))
      ∧ (∀ count size, count < 2 ^ 64 → size < 2 ^ 64 →
          ∃ r, kcalloc count size y.heap = some r
            ∧ (Cleared y count size r ↔ KcallocFits count size y.heap))
      ∧ ∀ q n, q = null ∨ q ∈ y.live → 0 < n → n < 2 ^ 64 →
          ∃ r, krealloc q n y.heap = some r
            ∧ (LargeEnough n r ↔ KreallocFits q n y.heap) := by
  obtain ⟨y, hrun, ts, hi⟩ := callRun_inv hpmm hinit hcalls
  refine ⟨y, hrun, ?_, fun count size _ _ => hi.cleared_iff count size, ?_⟩
  · intro n hpos hlt
    exact hi.heap.largeEnough_iff hi.canonical (Nat.ne_of_gt hpos) hlt
  · intro q n hq hpos hlt
    exact hi.krealloc_iff hq (Nat.ne_of_gt hpos) hlt

/-- `kmalloc(SIZE_MAX)` of a fresh heap is an empty block. -/
theorem kmalloc_size_max_is_empty :
    (kmalloc (2 ^ 64 - 1) (heapInit bootHeap).2).map (fun r => (r.1, liveSize r.2 r.1))
      = some (0xFFFF900000000020, 0) := by
  decide +kernel

/-- After four calls, one more `kcalloc`. -/
theorem allocations_as_large_as_requested_four_calls :
    ∃ y, runOps callStep ⟨(heapInit bootHeap).2, []⟩ fourCalls = some y
      ∧ ∃ r, kcalloc 3 100 y.heap = some r ∧ Cleared y 3 100 r := by
  obtain ⟨y, hrun, -, hcalloc, -⟩ := allocations_as_large_as_requested bootHeap
    (heapInit bootHeap).2 bootHeap_pmm bootHeap_init fourCalls fourCalls_allowed
  obtain ⟨r, hr, hiff⟩ := hcalloc 3 100 (by decide) (by decide)
  exact ⟨y, hrun, r, hr, hiff.mpr (.inr (.inr (.inr (.inl (by decide)))))⟩

-- ================================================================= first fit

/-- What `kmalloc` of `a` bytes does with the heap `h` of tiles `ts`. -/
structure FirstFit (ts : List Tile) (a : Nat) (h : Heap) (p : Nat) (h' : Heap) : Prop where
  /-- The lowest free block that is large enough is taken, and nothing
  else happens. -/
  found : ∀ l s r, ts = l ++ ⟨s, true⟩ :: r → a ≤ s → (∀ u ∈ l, ¬ Fits a u) →
    p = heapStartAddress + span 32 l + 32 ∧ h' = takeBlock (heapStartAddress + span 32 l) a h
  /-- If there is none, `k` pages is the least growth that makes the last
  block large enough: they are added and that block is taken, or one of
  them cannot be had. -/
  grown : (∀ t ∈ ts, ¬ Fits a t) → ∃ k, LastFits ts a k ∧ (∀ j < k, ¬ LastFits ts a j)
    ∧ ((∃ g l s, heapExpandTimes k h = some (true, g)
          ∧ g.committedEnd = h.committedEnd + 4096 * k
          ∧ BlockList g (l ++ [⟨s, true⟩]) ∧ a ≤ s ∧ LastStart ts (heapStartAddress + span 32 l)
          ∧ p = heapStartAddress + span 32 l + 32
          ∧ h' = takeBlock (heapStartAddress + span 32 l) a g)
      ∨ p = null ∧ ∃ j g, j < k ∧ heapExpandTimes j h = some (true, g)
          ∧ heapExpand g = some (false, h'))
  /-- Each round returns or takes a page. -/
  rounds : ∃ hs, KmallocRounds a h hs (p, h') ∧ PagesShrink hs

/-- `kmalloc` takes the first block that fits, and grows the heap no more
than it must. -/
theorem SysInv.firstFit (hi : SysInv y ts) (hsize : size ≠ 0) :
    ∃ p h', Mm.kmalloc size y.heap = some (p, h')
      ∧ FirstFit ts (alignSize size) y.heap p h' := by
  have hne := hi.heap.ne_nil
  rcases hi.heap.kmalloc_cases hi.canonical hsize with
    ⟨l, s, r, rfl, hfit, hfront, hrun, hrounds⟩ |
    ⟨hnone, k, result, hs, hleast, hroom, hrun, hrounds, hshrink, hgrows⟩
  · refine ⟨_, _, hrun, ?_, ?_, [y.heap], hrounds, List.isChain_singleton _⟩
    · intro l' s' r' heq hfit' hfront'
      obtain rfl := front_unique (P := Fits (alignSize size)) heq ⟨rfl, hfit⟩ ⟨rfl, hfit'⟩ hfront
        hfront'
      exact ⟨rfl, rfl⟩
    · intro hnone
      exact absurd ⟨rfl, hfit⟩ (hnone ⟨s, true⟩ (by simp))
  · refine ⟨result.1, result.2, hrun, ?_, ?_, hs, hrounds, hshrink⟩
    · intro l s r heq hfit
      exact absurd ⟨rfl, hfit⟩ (hnone ⟨s, true⟩ (by simp [heq]))
    · intro _
      refine ⟨k, (lastFits_iff hne).mpr hroom, ?_, ?_⟩
      · intro j hj hfits
        have hroom' := (lastFits_iff hne).mp hfits
        have hshort := hleast j hj
        omega
      · rcases hgrows with ⟨g, l, s, hg, hi', hfit, hspan, hstart, hresult⟩ |
          ⟨j, g, hj, hg, hfail, hnull⟩
        · refine .inl ⟨g, l, s, hg, ?_, hi'.blockList, hfit, (lastStart_iff hne _).mpr hstart,
            congrArg Prod.fst hresult, congrArg Prod.snd hresult⟩
          rw [hi'.stop, hi.heap.stop, hspan, Nat.add_assoc]
        · exact .inr ⟨hnull, j, g, hj, hg, hfail⟩

/-- In every heap reached `kmalloc` is first fit, and grows the heap no
more than it has to. -/
theorem kmalloc_first_fit_least_growth (boot h : Heap) (hpmm : PmmInv boot.vm.pmm)
    (hinit : heapInit boot = (true, h)) (calls : List HeapCall)
    (hcalls : AllowedRun callStep (fun y call => call.Allowed y) ⟨h, []⟩ calls) :
    ∃ y, runOps callStep ⟨h, []⟩ calls = some y
      ∧ ∃ ts, BlockList y.heap ts ∧ y.heap.virtualStart = heapStartAddress
        ∧ ∀ n, 0 < n → n ≤ 2 ^ 64 - 16 →
          ∃ p h', kmalloc n y.heap = some (p, h')
            ∧ FirstFit ts ((n + 15) / 16 * 16) y.heap p h' := by
  obtain ⟨y, hrun, ts, hi⟩ := callRun_inv hpmm hinit hcalls
  refine ⟨y, hrun, ts, hi.heap.blockList, hi.heap.start, ?_⟩
  intro n hpos hle
  have halign : alignSize n = (n + 15) / 16 * 16 := by
    have hsum : wordAdd n (heapAlignment - 1) = n + 15 :=
      wordAdd_eq (by show n + 15 < 2 ^ 64; omega)
    rw [alignSize, hsum]
    rfl
  obtain ⟨p, h', hmalloc, hfit⟩ := hi.firstFit (Nat.ne_of_gt hpos)
  exact ⟨p, h', hmalloc, halign ▸ hfit⟩

/-- After four calls, a block of three pages. -/
theorem kmalloc_first_fit_least_growth_four_calls :
    ∃ y, runOps callStep ⟨(heapInit bootHeap).2, []⟩ fourCalls = some y
      ∧ ∃ ts, BlockList y.heap ts ∧ ∃ p h', kmalloc 9000 y.heap = some (p, h')
        ∧ FirstFit ts 9008 y.heap p h' := by
  obtain ⟨y, hrun, ts, hlist, -, hfit⟩ := kmalloc_first_fit_least_growth bootHeap
    (heapInit bootHeap).2 bootHeap_pmm bootHeap_init fourCalls fourCalls_allowed
  exact ⟨y, hrun, ts, hlist, hfit 9000 (by decide) (by decide)⟩

-- ================================================================== contents

/-- The live block at `p` is live afterwards, with its size and its
bytes. -/
def LiveKept (h h' : Heap) (p : Nat) : Prop :=
  p ∈ liveAllocations h' ∧ liveSize h' p = liveSize h p
    ∧ ∀ i < liveSize h p, h'.mem (p + i) = h.mem (p + i)

/-- What `krealloc` of the live pointer `p` keeps when it returns `q`. -/
structure KeepsData (h : Heap) (p : Nat) (h' : Heap) (q : Nat) : Prop where
  moved : q ≠ null → (∀ i < min (liveSize h p) (liveSize h' q), h'.mem (q + i) = h.mem (p + i))
    ∧ q ∈ liveAllocations h' ∧ (p ∈ liveAllocations h' → q = p)
  failed : q = null → LiveKept h h' p
  others : ∀ u ∈ liveAllocations h, u ≠ p → LiveKept h h' u

/-- The live allocations are the payloads in use. -/
theorem HeapInv.mem_live_iff (hi : HeapInv h ts) :
    p ∈ liveAllocations h ↔ ∃ n, (p, n) ∈ payloads ts := by
  rw [hi.liveAllocations_eq, List.mem_map]
  constructor
  · intro hp
    obtain ⟨u, hu, rfl⟩ := hp
    exact ⟨u.2, hu⟩
  · intro hp
    obtain ⟨n, hn⟩ := hp
    exact ⟨_, hn, rfl⟩

/-- A payload in use before and after, with its bytes, is kept. -/
theorem HeapInv.liveKept (hi : HeapInv h ts) (hi' : HeapInv h' us) (hp : (p, n) ∈ payloads ts)
    (hp' : (p, n) ∈ payloads us) (hbytes : ∀ x, p ≤ x → x < p + n → h'.mem x = h.mem x) :
    LiveKept h h' p := by
  refine ⟨hi'.mem_live_iff.mpr ⟨n, hp'⟩, by rw [hi.liveSize_eq hp, hi'.liveSize_eq hp'], ?_⟩
  intro i hlt
  rw [hi.liveSize_eq hp] at hlt
  exact hbytes (p + i) (by omega) (by omega)

/-- A `krealloc` that fails is a `kmalloc` that fails. -/
theorem krealloc_null (hp : p ≠ null) (hsize : size ≠ 0)
    (hrun : krealloc p size h = some (null, h')) :
    kmalloc (alignSize size) h = some (null, h') := by
  rw [krealloc, if_neg hp, if_neg hsize] at hrun
  dsimp only at hrun
  split_ifs at hrun
  · exact absurd (congrArg Prod.fst (Option.some.inj hrun)) hp
  · obtain ⟨⟨q, h₁⟩, hmalloc, hrun⟩ := Option.bind_eq_some_iff.mp hrun
    dsimp only at hrun
    split_ifs at hrun with hq
    · cases hrun
      rw [hmalloc, hq]
    · exact absurd (congrArg Prod.fst (Option.some.inj hrun)) hq

/-- `krealloc` keeps the data. -/
theorem HeapInv.keepsData (hi : HeapInv h ts) (hp : (p, n) ∈ payloads ts) (hsize : size ≠ 0) :
    ∃ q h', Mm.krealloc p size h = some (q, h') ∧ KeepsData h p h' q := by
  obtain ⟨q, h', us, hrun, hi', hre, hothers, hbytes, -⟩ := hi.krealloc hp size
  refine ⟨q, h', hrun, ?_, ?_, ?_⟩
  · intro hq
    refine ⟨fun i hlt => hbytes hq i ?_, ?_⟩
    · rw [hi.liveSize_eq hp] at hlt
      omega
    · rcases hre with ⟨hz, -⟩ | ⟨-, heq, -⟩ | ⟨-, rfl, -, hused⟩ | ⟨-, -, s, -, hmore, hperm⟩
      · exact absurd hz hsize
      · exact absurd heq hq
      · exact ⟨hi'.mem_live_iff.mpr ⟨n, hused ▸ hp⟩, fun _ => rfl⟩
      · have hnew : (q, s) ∈ payloads us :=
          (List.mem_cons.mp (hperm.mem_iff.mp List.mem_cons_self)).resolve_left
            fun heq => absurd (congrArg Prod.snd heq) (Nat.ne_of_gt hmore)
        refine ⟨hi'.mem_live_iff.mpr ⟨s, hnew⟩, ?_⟩
        intro hlive
        obtain ⟨k, hk⟩ := hi'.mem_live_iff.mp hlive
        -- the old pointer is among the payloads once only
        by_contra hne
        have hcount := (hperm.map Prod.fst).count_eq p
        rw [List.map_cons, List.map_cons, List.count_cons_of_ne hne, List.count_cons_self,
          List.count_eq_one_of_mem (payloads_nodup ts) (List.mem_map.mpr ⟨_, hp, rfl⟩)] at hcount
        have hpos : 0 < ((payloads us).map Prod.fst).count p :=
          List.count_pos_iff.mpr (List.mem_map.mpr ⟨_, hk, rfl⟩)
        omega
  · rintro rfl
    obtain ⟨q, h₁, us₁, hmalloc, hi₁, halloc, hframe, -⟩ := hi.kmalloc (alignSize size)
    rw [krealloc_null (hi.payload_ne_null hp) hsize hrun] at hmalloc
    cases hmalloc
    exact hi.liveKept hi₁ hp (halloc.mono hp) fun x hlo hhi =>
      hframe x ⟨(p, n), hp, hlo, hhi⟩
  · intro u hu hne
    obtain ⟨k, hk⟩ := hi.mem_live_iff.mp hu
    have hdiff : (u, k) ≠ (p, n) := fun heq => hne (congrArg Prod.fst heq)
    refine hi.liveKept hi' hk ?_ (hothers _ hk hdiff)
    rcases hre with ⟨hz, -⟩ | ⟨-, -, hused⟩ | ⟨-, -, -, hused⟩ | ⟨-, -, s, -, -, hperm⟩
    · exact absurd hz hsize
    · exact hused ▸ hk
    · exact hused ▸ hk
    · exact (List.mem_cons.mp (hperm.mem_iff.mp (List.mem_cons_of_mem _ hk))).resolve_left hdiff

/-- In every heap reached `krealloc` keeps the data of its argument and
of every other live block. -/
theorem krealloc_keeps_data (boot h : Heap) (hpmm : PmmInv boot.vm.pmm)
    (hinit : heapInit boot = (true, h)) (calls : List HeapCall)
    (hcalls : AllowedRun callStep (fun y call => call.Allowed y) ⟨h, []⟩ calls) :
    ∃ y, runOps callStep ⟨h, []⟩ calls = some y
      ∧ (∀ p, p ∈ y.live ↔ p ∈ liveAllocations y.heap)
      ∧ ∀ p ∈ y.live, ∀ n, 0 < n → n ≤ 2 ^ 64 - 16 →
          ∃ q h', krealloc p n y.heap = some (q, h') ∧ KeepsData y.heap p h' q := by
  obtain ⟨y, hrun, ts, hi⟩ := callRun_inv hpmm hinit hcalls
  refine ⟨y, hrun, ?_, ?_⟩
  · intro p
    rw [hi.heap.liveAllocations_eq]
    exact hi.live.mem_iff
  · intro p hp n hpos _
    exact hi.heap.keepsData (hi.mem_live hp) (Nat.ne_of_gt hpos)

/-- After four calls, a block that has to move. -/
theorem krealloc_keeps_data_four_calls :
    ∃ y, runOps callStep ⟨(heapInit bootHeap).2, []⟩ fourCalls = some y
      ∧ ∃ q h', krealloc 0xFFFF9000000000B0 5000 y.heap = some (q, h')
        ∧ KeepsData y.heap 0xFFFF9000000000B0 h' q := by
  obtain ⟨y, hrun, -, hkeeps⟩ := krealloc_keeps_data bootHeap (heapInit bootHeap).2 bootHeap_pmm
    bootHeap_init fourCalls fourCalls_allowed
  have hlive : (runOps callStep ⟨(heapInit bootHeap).2, []⟩ fourCalls).map
      (fun y => decide (0xFFFF9000000000B0 ∈ y.live)) = some true := by decide +kernel
  rw [hrun] at hlive
  have hmem : 0xFFFF9000000000B0 ∈ y.live := by simpa using hlive
  exact ⟨y, hrun, hkeeps _ hmem 5000 (by decide) (by decide)⟩

end ZenithOS.Mm
