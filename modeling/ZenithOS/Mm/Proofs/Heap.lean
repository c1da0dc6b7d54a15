/-
The kernel heap tiles its memory.

`HeapInv h ts` says that the heap `h` is the tiling `ts` of its committed
range. What clients see of a heap is the list of payloads in use and the
bytes in them (`InUse`); each operation is specified by what it does to
these. `kmalloc` comes back because every round that finds no block adds
a page to the free space at the end (`tailRoom`), and the heap stays far
below the end of the address space because the page allocator has at most
4 GiB to give.
-/
import ZenithOS.Mm.Proofs.HeapList
import ZenithOS.Vmm.Proofs.Frames
import ZenithOS.Lib.Run

namespace ZenithOS.Mm

open Lib Vmm

-- ============================================================ the invariant

/-- The heap is the tiling `ts`. -/
structure HeapInv (h : Heap) (ts : List Tile) : Prop where
  head : h.head = heapStartAddress
  start : h.virtualStart = heapStartAddress
  blocks : BlocksAt h.mem null heapStartAddress ts null
  ne_nil : ts ≠ []
  sizes : ∀ t ∈ ts, 16 ∣ t.size
  stop : h.committedEnd = heapStartAddress + span 32 ts
  size : h.size = span 32 ts
  pmm : PmmInv h.vm.pmm
  room : span 32 ts + 4096 * h.vm.pmm.freePages ≤ 2 ^ 33

/-- The payloads in use. -/
abbrev payloads (ts : List Tile) : List (Nat × Nat) := used 32 heapStartAddress ts

/-- A byte of a payload in use. -/
def InUse (ts : List Tile) (x : Nat) : Prop :=
  ∃ u ∈ payloads ts, u.1 ≤ x ∧ x < u.1 + u.2

variable {h h' : Heap} {ts ts' l r : List Tile} {n p s x : Nat} {m : Mem}

/-- Bytes in use are among those the lists leave alone. -/
theorem InUse.untouched (hx : InUse ts x) : Untouched 32 heapStartAddress ts x :=
  .inr (.inr hx)

theorem heapStart_pos : 0 < heapStartAddress := by decide

/-- The heap ends far below the end of the address space. -/
theorem HeapInv.end_lt (hi : HeapInv h ts) : heapStartAddress + span 32 ts + 2 ^ 40 < 2 ^ 64 := by
  have hroom := hi.room
  show 0xFFFF900000000000 + span 32 ts + 2 ^ 40 < 2 ^ 64
  omega

/-- A block is no null pointer, and its payload is behind its header. -/
theorem HeapInv.payload {t : Tile} (hi : HeapInv h (l ++ t :: r)) :
    heapStartAddress + span 32 l ≠ null
      ∧ blockPayload (heapStartAddress + span 32 l) = heapStartAddress + span 32 l + 32 := by
  have hlt := hi.end_lt
  rw [span_append, span] at hlt
  refine ⟨Nat.ne_of_gt (Nat.add_pos_left heapStart_pos _), ?_⟩
  apply wordAdd_eq
  show heapStartAddress + span 32 l + 32 < 2 ^ 64
  omega

/-- Walks of the block list have enough fuel. -/
theorem HeapInv.length_lt_fuel (hi : HeapInv h ts) : ts.length < walkFuel h := by
  have hspan := length_mul_le_span (w := 32) ts
  show ts.length < h.size / 32 + 1
  rw [hi.size]
  omega

/-- Other memory and tiles for the same range. -/
theorem HeapInv.withMem (hi : HeapInv h ts) {ts' : List Tile}
    (hblocks : BlocksAt m null heapStartAddress ts' null) (hne : ts' ≠ [])
    (hsizes : ∀ t ∈ ts', 16 ∣ t.size) (hspan : span 32 ts' = span 32 ts) :
    HeapInv { h with mem := m } ts' :=
  ⟨hi.head, hi.start, hblocks, hne, hsizes, by rw [hspan]; exact hi.stop,
    by rw [hspan]; exact hi.size, hi.pmm, by rw [hspan]; exact hi.room⟩

/-- The page tables and the page allocator move on, and pages are only
taken. -/
theorem HeapInv.withVm (hi : HeapInv h ts) {vm : Vm} (hvm : PmmShrinks h.vm vm)
    (rs : List Refusal) : HeapInv { h with vm := vm, refusals := rs } ts := by
  have hfewer := freePages_le hi.pmm hvm.1 hvm.2
  have hroom := hi.room
  exact ⟨hi.head, hi.start, hi.blocks, hi.ne_nil, hi.sizes, hi.stop, hi.size, hvm.1,
    by show _ + 4096 * vm.pmm.freePages ≤ _; omega⟩

theorem dvd_span (hsizes : ∀ t ∈ ts, 16 ∣ t.size) : 16 ∣ span 32 ts := by
  induction ts with
  | nil => exact Nat.dvd_zero 16
  | cons t ts ih =>
      rw [span]
      have ht := hsizes t (by simp)
      have hrest := ih fun u hu => hsizes u (List.mem_cons_of_mem t hu)
      omega

/-- Payloads are 16-byte aligned. -/
theorem HeapInv.aligned (hi : HeapInv h ts) (hp : (p, n) ∈ payloads ts) : 16 ∣ p := by
  obtain ⟨l, r, rfl, rfl⟩ := mem_used.mp hp
  have hl := dvd_span fun t ht => hi.sizes t (List.mem_append_left _ ht)
  have hstart : 16 ∣ heapStartAddress := by decide
  omega

-- ============================================================== coalescing

/-- `coalesce_free_blocks` comes back. -/
theorem HeapInv.coalesce (hi : HeapInv h ts) :
    ∃ m, coalesceFreeBlocks h = some { h with mem := m }
      ∧ HeapInv { h with mem := m } (coalesce 32 ts)
      ∧ (∀ x, InUse ts x → m x = h.mem x) ∧ (Canonical ts → m = h.mem) := by
  have hlt := hi.end_lt
  obtain ⟨m, hrun, hblocks, hframe, hcan⟩ := coalesceFreeBlocksFrom_run hi.blocks heapStart_pos
    (by omega) hi.length_lt_fuel
  have hptr : ptrTo heapStartAddress ts null = h.head := by
    rw [hi.head]
    cases hts : ts with
    | nil => exact absurd hts hi.ne_nil
    | cons t ts => rfl
  refine ⟨m, ?_, ?_, fun x hx => hframe x hx.untouched, hcan⟩
  · rw [coalesceFreeBlocks, ← hptr, hrun]
    rfl
  · refine hi.withMem hblocks (coalesce_ne_nil hi.ne_nil) ?_ (used_coalesce 0 ts).2
    refine forall_coalesce ?_ ts hi.sizes
    intro n p hn hp
    omega

-- ================================================================== taking

/-- The first free tile that fits, cut to size and marked in use. -/
theorem HeapInv.take (hi : HeapInv h (l ++ ⟨s, true⟩ :: r)) (hn : n ≤ s) (hdvd : 16 ∣ n) :
    ∃ s' ts', n ≤ s'
      ∧ HeapInv { h with
          mem := setBlockFree (heapStartAddress + span 32 l) false
            (splitBlock (heapStartAddress + span 32 l) n h.mem) } ts'
      ∧ (payloads ts').Perm ((heapStartAddress + span 32 l + 32, s')
          :: payloads (l ++ ⟨s, true⟩ :: r))
      ∧ (∀ x, InUse (l ++ ⟨s, true⟩ :: r) x →
        setBlockFree (heapStartAddress + span 32 l) false
          (splitBlock (heapStartAddress + span 32 l) n h.mem) x = h.mem x)
      ∧ (Canonical (l ++ ⟨s, true⟩ :: r) → Canonical ts') := by
  have hlt := hi.end_lt
  have hsizes := hi.sizes
  have hs : 16 ∣ s := hsizes ⟨s, true⟩ (by simp)
  have hrun := hi.blocks.mid
  have hpos : 0 < heapStartAddress + span 32 l := Nat.add_pos_left heapStart_pos _
  have hlt' : heapStartAddress + span 32 l + span 32 (⟨s, true⟩ :: r) < 2 ^ 64 := by
    rw [span_append] at hlt
    omega
  have hout : ∀ x, InUse (l ++ ⟨s, true⟩ :: r) x →
      x < heapStartAddress + span 32 l ∨ heapStartAddress + span 32 l + 32 ≤ x :=
    fun x hx => untouched_ne_header hx.untouched rfl
  by_cases hsplit : n + 32 < s
  · obtain ⟨hblocks, hframe⟩ := splitBlock_front hrun hpos hsplit hlt'
    have hmarked := setBlockFree_front hblocks false
    refine ⟨n, l ++ ⟨n, false⟩ :: ⟨s - n - 32, true⟩ :: r, Nat.le_refl n, ?_, ?_, ?_,
      fun hcan => hcan.cut⟩
    · refine hi.withMem (hi.blocks.replace (by simp) (by simp) hmarked ?_) (by simp) ?_ ?_
      · intro x hx
        rw [setBlockFree_outside (.inl hx)]
        exact hframe x (.inl hx)
      · intro t ht
        simp only [List.mem_append, List.mem_cons] at ht
        rcases ht with hl | rfl | rfl | hr
        · exact hsizes t (by simp [hl])
        · exact hdvd
        · show 16 ∣ s - n - 32
          omega
        · exact hsizes t (by simp [hr])
      · simp only [span_append, span]
        omega
    · rw [payloads, payloads, used_take, used_release, used_cons_free]
      have hshift : heapStartAddress + span 32 l + 32 + n + 32 + (s - n - 32)
          = heapStartAddress + span 32 l + 32 + s := by omega
      rw [hshift]
      exact List.perm_middle
    · intro x hx
      rw [setBlockFree_outside (hout x hx)]
      exact hframe x (hx.untouched.suffix)
  · have hsame : splitBlock (heapStartAddress + span 32 l) n h.mem = h.mem := by
      have hsize : blockSize h.mem (heapStartAddress + span 32 l) = s := hrun.1.size
      have hlimit : wordAdd n heapBlockBytes = n + 32 :=
        wordAdd_eq (by show n + 32 < 2 ^ 64; simp only [span] at hlt'; omega)
      rw [splitBlock, hsize, hlimit, if_pos (by omega)]
    rw [hsame]
    have hmarked := setBlockFree_front hrun false
    refine ⟨s, l ++ ⟨s, false⟩ :: r, hn, ?_, ?_, ?_, fun hcan => hcan.take⟩
    · refine hi.withMem (hi.blocks.replace (by simp) (by simp) hmarked ?_) (by simp) ?_ ?_
      · intro x hx
        exact setBlockFree_outside (.inl hx)
      · intro t ht
        simp only [List.mem_append, List.mem_cons] at ht
        rcases ht with hl | rfl | hr
        · exact hsizes t (by simp [hl])
        · exact hs
        · exact hsizes t (by simp [hr])
      · simp only [span_append, span]
    · rw [payloads, payloads, used_take, used_release]
      exact List.perm_middle
    · intro x hx
      exact setBlockFree_outside (hout x hx)

-- =============================================================== releasing

/-- Clients see the same: the payloads in use and the bytes in them. -/
def SameUse (m : Mem) (ts : List Tile) (m' : Mem) (ts' : List Tile) : Prop :=
  payloads ts' = payloads ts ∧ ∀ x, InUse ts x → m' x = m x

theorem SameUse.refl (m : Mem) (ts : List Tile) : SameUse m ts m ts :=
  ⟨rfl, fun _ _ => rfl⟩

/-- Use that stays the same twice stays the same. -/
theorem SameUse.trans {m m' m'' : Mem} {ts ts' ts'' : List Tile}
    (h : SameUse m ts m' ts') (h' : SameUse m' ts' m'' ts'') : SameUse m ts m'' ts'' := by
  refine ⟨h'.1.trans h.1, ?_⟩
  intro x hx
  have hx' : InUse ts' x := by
    unfold InUse at hx ⊢
    rw [h.1]
    exact hx
  rw [h'.2 x hx', h.2 x hx]

/-- `merge_with_next` of a free block. -/
theorem HeapInv.mergeNext (hi : HeapInv h (l ++ ⟨s, true⟩ :: r)) :
    ∃ s' r', HeapInv { h with mem := mergeWithNext (heapStartAddress + span 32 l) h.mem }
        (l ++ ⟨s', true⟩ :: r')
      ∧ SameUse h.mem (l ++ ⟨s, true⟩ :: r)
          (mergeWithNext (heapStartAddress + span 32 l) h.mem) (l ++ ⟨s', true⟩ :: r')
      ∧ (Canonical r → Canonical (⟨s', true⟩ :: r')) := by
  have hrun := hi.blocks.mid
  have hpos : 0 < heapStartAddress + span 32 l := Nat.add_pos_left heapStart_pos _
  have hpos' : heapStartAddress + span 32 l ≠ null := Nat.ne_of_gt hpos
  have hstay : mergeWithNext (heapStartAddress + span 32 l) h.mem = h.mem →
      (∀ t ∈ r.head?, t.free = false) → ∃ s' r',
        HeapInv { h with mem := mergeWithNext (heapStartAddress + span 32 l) h.mem }
          (l ++ ⟨s', true⟩ :: r')
        ∧ SameUse h.mem (l ++ ⟨s, true⟩ :: r)
            (mergeWithNext (heapStartAddress + span 32 l) h.mem) (l ++ ⟨s', true⟩ :: r')
        ∧ (Canonical r → Canonical (⟨s', true⟩ :: r')) := by
    intro heq hfirst
    rw [heq]
    refine ⟨s, r, hi, SameUse.refl _ _, fun hcan => canonical_cons.mpr ⟨?_, hcan⟩⟩
    intro t ht hboth
    rw [hfirst t ht] at hboth
    cases hboth.2
  cases r with
  | nil =>
      refine hstay ?_ (by simp)
      have hnext : blockNext h.mem (heapStartAddress + span 32 l) = null := hrun.1.next
      simp [mergeWithNext, hnext]
  | cons t r =>
      obtain ⟨k, g⟩ := t
      have hnext : blockNext h.mem (heapStartAddress + span 32 l)
          = heapStartAddress + span 32 l + 32 + s := hrun.1.next
      cases g with
      | false =>
          refine hstay ?_ (by simp)
          have hfree : blockFree h.mem (heapStartAddress + span 32 l + 32 + s) = false :=
            hrun.2.1.free
          simp [mergeWithNext, hnext, hfree]
      | true =>
          have hlt := hi.end_lt
          rw [span_append] at hlt
          obtain ⟨hblocks, hframe⟩ := mergeWithNext_front hrun hpos (by omega)
          refine ⟨s + 32 + k, r, ?_, ⟨used_join.symm, ?_⟩, fun hcan => hcan.resize true⟩
          · refine hi.withMem (hi.blocks.replace (by simp) (by simp) hblocks ?_) (by simp)
              ?_ (span_join l r s k true true true).symm
            · intro x hx
              exact hframe x (.inl hx)
            · intro t ht
              have hs : 16 ∣ s := hi.sizes ⟨s, true⟩ (by simp)
              have hk : 16 ∣ k := hi.sizes ⟨k, true⟩ (by simp)
              simp only [List.mem_append, List.mem_cons] at ht
              rcases ht with hl | rfl | hr
              · exact hi.sizes t (by simp [hl])
              · show 16 ∣ s + 32 + k
                omega
              · exact hi.sizes t (by simp [hr])
          · intro x hx
            exact hframe x hx.untouched.suffix

/-- `merge_with_previous` of a free block. -/
theorem HeapInv.mergePrevious (hi : HeapInv h (l ++ ⟨s, true⟩ :: r)) :
    ∃ ts', HeapInv { h with mem := mergeWithPrevious (heapStartAddress + span 32 l) h.mem } ts'
      ∧ SameUse h.mem (l ++ ⟨s, true⟩ :: r)
          (mergeWithPrevious (heapStartAddress + span 32 l) h.mem) ts'
      ∧ (Canonical l → Canonical (⟨s, true⟩ :: r) → Canonical ts') := by
  have hrun := hi.blocks.mid
  have hpos : 0 < heapStartAddress + span 32 l := Nat.add_pos_left heapStart_pos _
  have hprev := hrun.1.prev
  have hstay : mergeWithPrevious (heapStartAddress + span 32 l) h.mem = h.mem →
      (∀ t ∈ l.getLast?, t.free = false) → ∃ ts', HeapInv
          { h with mem := mergeWithPrevious (heapStartAddress + span 32 l) h.mem } ts'
        ∧ SameUse h.mem (l ++ ⟨s, true⟩ :: r)
            (mergeWithPrevious (heapStartAddress + span 32 l) h.mem) ts'
        ∧ (Canonical l → Canonical (⟨s, true⟩ :: r) → Canonical ts') := by
    intro heq hlast
    rw [heq]
    exact ⟨_, hi, SameUse.refl _ _, fun hl hr => hl.join hr hlast⟩
  cases List.eq_nil_or_concat l with
  | inl hnil =>
      subst hnil
      refine hstay ?_ (by simp)
      have hnull : blockPrev h.mem (heapStartAddress + span 32 []) = null := hprev
      simp [mergeWithPrevious, hnull]
  | inr hsnoc =>
      obtain ⟨l', ⟨j, g⟩, hl⟩ := hsnoc
      rw [List.concat_eq_append] at hl
      subst hl
      rw [lastPtr_snoc] at hprev
      have hlist : l' ++ [⟨j, g⟩] ++ ⟨s, true⟩ :: r = l' ++ ⟨j, g⟩ :: ⟨s, true⟩ :: r := by simp
      have hrun' := (hlist ▸ hi.blocks).mid
      have hsum : heapStartAddress + span 32 (l' ++ [⟨j, g⟩])
          = heapStartAddress + span 32 l' + 32 + j := by
        simp only [span_append, span]
        omega
      cases g with
      | false => exact hstay (mergeWithPrevious_used hprev hrun'.1.free) (by simp)
      | true =>
          have hpos' : heapStartAddress + span 32 l' ≠ null :=
            Nat.ne_of_gt (Nat.add_pos_left heapStart_pos _)
          have hnext : blockNext h.mem (heapStartAddress + span 32 l')
              = heapStartAddress + span 32 (l' ++ [⟨j, true⟩]) := by
            rw [hsum]
            exact hrun'.1.next
          rw [mergeWithPrevious_eq hpos hprev hpos' hnext hrun.1.free hrun'.1.free, hlist]
          obtain ⟨s', r', hinv, hsame, hcan⟩ := (hlist ▸ hi).mergeNext
          refine ⟨_, hinv, hsame, ?_⟩
          intro hl hr
          obtain ⟨hl', -, hlink⟩ := canonical_append.mp hl
          apply hl'.join (hcan hr)
          intro t ht
          have hnot := hlink t ht ⟨j, true⟩ rfl
          simpa using hnot

/-- `kfree` of a payload in use takes it out of use. -/
theorem HeapInv.kfree (hi : HeapInv h ts) (hp : (p, n) ∈ payloads ts) :
    ∃ ts', HeapInv (kfree p h) ts' ∧ (payloads ts).Perm ((p, n) :: payloads ts')
      ∧ (∀ x, InUse ts' x → (Mm.kfree p h).mem x = h.mem x)
      ∧ (Canonical ts → Canonical ts') := by
  obtain ⟨l, r, rfl, rfl⟩ := mem_used.mp hp
  have hlt := hi.end_lt
  have hb := used_bounds hp
  have hpos : heapStartAddress + span 32 l + 32 ≠ null :=
    Nat.ne_of_gt (by show 0 < heapStartAddress + span 32 l + 32; omega)
  have hblock : payloadBlock (heapStartAddress + span 32 l + 32)
      = heapStartAddress + span 32 l := by
    have hsub : wordSub (heapStartAddress + span 32 l + 32) 32
        = heapStartAddress + span 32 l + 32 - 32 := wordSub_eq (by omega) (by omega)
    exact hsub.trans (by omega)
  -- marked free, it is one free tile more
  have hfreed : HeapInv { h with
      mem := setBlockFree (heapStartAddress + span 32 l) true h.mem } (l ++ ⟨n, true⟩ :: r) := by
    refine hi.withMem (hi.blocks.replace (by simp) (by simp)
      (setBlockFree_front hi.blocks.mid true) ?_) (by simp) ?_ ?_
    · intro x hx
      exact setBlockFree_outside (.inl hx)
    · intro t ht
      simp only [List.mem_append, List.mem_cons] at ht
      rcases ht with hl | rfl | hr
      · exact hi.sizes t (by simp [hl])
      · exact hi.sizes ⟨n, false⟩ (by simp)
      · exact hi.sizes t (by simp [hr])
    · simp only [span_append, span]
  obtain ⟨s', r', hmerged, hsame, hcan⟩ := hfreed.mergeNext
  obtain ⟨ts', hinv, hsame', hcan'⟩ := hmerged.mergePrevious
  have hall := hsame.trans hsame'
  have hkfree : Mm.kfree (heapStartAddress + span 32 l + 32) h
      = { h with
          mem := mergeWithPrevious (heapStartAddress + span 32 l)
            (mergeWithNext (heapStartAddress + span 32 l)
              (setBlockFree (heapStartAddress + span 32 l) true h.mem)) } := by
    rw [Mm.kfree, if_neg hpos, hblock]
  refine ⟨ts', ?_, ?_, ?_,
    fun hc => hcan' hc.left (hcan (canonical_cons.mp hc.right).2)⟩
  · rw [hkfree]
    exact hinv
  · rw [hall.1, payloads, payloads, used_take, used_release]
    exact List.perm_middle
  · intro x hx
    have hx' : InUse (l ++ ⟨n, true⟩ :: r) x := by
      unfold InUse at hx ⊢
      rw [← hall.1]
      exact hx
    rw [hkfree]
    show mergeWithPrevious _ _ x = h.mem x
    rw [hall.2 x hx']
    exact setBlockFree_outside (untouched_ne_header hx'.untouched rfl)

-- ================================================================== growth

/-- `heap_commit_page`: refused, or a page at the end of the heap. -/
theorem heapCommitPage_cases (hp : PmmInv h.vm.pmm) (va : Nat) :
    (∃ vm rs, heapCommitPage va h = (false, { h with vm := vm, refusals := rs })
        ∧ PmmShrinks h.vm vm)
      ∨ ∃ vm rs page, heapCommitPage va h
          = (true, { h with
              vm := vm
              refusals := rs
              mem := blit h.mem va page pageSize
              committedEnd := wordAdd h.committedEnd pageSize })
        ∧ PmmShrinks h.vm vm ∧ vm.pmm.freePages < h.vm.pmm.freePages := by
  have hrefl : PmmShrinks h.vm h.vm := ⟨hp, fun _ ha => ha⟩
  by_cases hpage : h.refusals.headD .granted = .noPage
  · refine .inl ⟨h.vm, h.refusals.tail, ?_, hrefl⟩
    simp only [heapCommitPage, hpage, if_true]
  · rcases hp.alloc_cases with hnull | ⟨g, pmm, halloc, hg, hinv, hclear⟩
    · refine .inl ⟨h.vm, h.refusals.tail, ?_, hrefl⟩
      simp only [heapCommitPage, hpage, hnull, if_false, true_or, if_true]
    · obtain ⟨-, hgnull, -⟩ := hp.clear_frame hg
      have halloc' : PmmShrinks h.vm { h.vm with pmm := pmm } :=
        ⟨hinv, fun a ha => ((hclear a).mp ha).1⟩
      by_cases hmap : h.refusals.headD .granted = .noMap
      · refine .inl ⟨{ h.vm with pmm := pmm }, h.refusals.tail, ?_, halloc'⟩
        simp only [heapCommitPage, hmap, halloc, or_true, if_true]
        rfl
      · have hmapped := pageTableMap_shrinks (v := { h.vm with pmm := pmm }) hinv va g
          pageWritable
        cases hr : pageTableMapPage { h.vm with pmm := pmm } va g true with
        | mk done vm =>
            have hvm : PmmShrinks { h.vm with pmm := pmm } vm := by
              have hsnd : (pageTableMapPage { h.vm with pmm := pmm } va g true).2 = vm := by
                rw [hr]
              rw [← hsnd]
              exact hmapped
            cases done with
            | false =>
                refine .inl ⟨vm, h.refusals.tail, ?_, halloc'.trans hvm⟩
                simp only [heapCommitPage, hpage, hmap, halloc, hgnull, hr, if_false, or_self]
            | true =>
                refine .inr ⟨vm, h.refusals.tail, fun i => vm.mem (g + i), ?_,
                  halloc'.trans hvm, ?_⟩
                · simp only [heapCommitPage, hpage, hmap, halloc, hgnull, hr, if_false,
                    or_self]
                · apply freePages_lt hp hvm.1 (halloc'.trans hvm).2 hg
                  intro hfree
                  exact ((hclear g).mp (hvm.2 g hfree)).2 rfl

/-- A page added at the end of the tiles: a free tile, joined to the last
one if that is free. -/
def growTiles (l : List Tile) (t : Tile) : List Tile :=
  if t.free then l ++ [⟨t.size + 4096, true⟩] else l ++ [t, ⟨4064, true⟩]

/-- Growth adds a page of room at the end and takes nothing. -/
theorem growTiles_spec (l : List Tile) (t : Tile) :
    payloads (growTiles l t) = payloads (l ++ [t])
      ∧ span 32 (growTiles l t) = span 32 (l ++ [t]) + 4096
      ∧ tailRoom 32 (growTiles l t) = tailRoom 32 (l ++ [t]) + 4096 := by
  obtain ⟨s, f⟩ := t
  cases f with
  | false =>
      have hlist : l ++ [⟨s, false⟩, ⟨4064, true⟩] = (l ++ [⟨s, false⟩]) ++ [⟨4064, true⟩] := by
        simp
      rw [growTiles, if_neg (by simp), hlist]
      refine ⟨?_, ?_, ?_⟩
      · rw [payloads, used_append]
        simp [used]
      · simp only [span_append, span]
      · rw [tailRoom_snoc, tailRoom_snoc]
        rfl
  | true =>
      rw [growTiles, if_pos rfl]
      refine ⟨?_, ?_, ?_⟩
      · rw [payloads, payloads, used_append, used_append]
        simp [used]
      · simp only [span_append, span]
        omega
      · rw [tailRoom_snoc, tailRoom_snoc, if_pos rfl, if_pos rfl]
        show 32 + (s + 4096) = 32 + s + 4096
        omega

/-- Growth leaves no two free blocks in a row. -/
theorem growTiles_canonical {l : List Tile} {t : Tile} (hcan : Canonical (l ++ [t])) :
    Canonical (growTiles l t) := by
  obtain ⟨s, f⟩ := t
  cases f with
  | false => exact hcan.snoc_free
  | true => exact hcan.snoc_resize

/-- The writes of `heap_expand` to a page at the end of the heap. -/
theorem growTiles_blocks {a : Nat} {t : Tile} {m : Mem}
    (hblocks : BlocksAt m null a (l ++ [t]) null) (ha : 0 < a)
    (hlt : a + span 32 (l ++ [t]) + 4096 < 2 ^ 64) :
    BlocksAt (heapLinkPage (a + span 32 l) (a + span 32 (l ++ [t])) m) null a
        (growTiles l t) null
      ∧ ∀ x, Untouched 32 a (l ++ [t]) x → x < a + span 32 (l ++ [t]) →
        heapLinkPage (a + span 32 l) (a + span 32 (l ++ [t])) m x = m x := by
  let m₁ := setBlockPrev (a + span 32 (l ++ [t])) (a + span 32 l)
    (setBlockNext (a + span 32 l) (a + span 32 (l ++ [t]))
      (heapCreateBlock (a + span 32 (l ++ [t])) pageSize m))
  have hcreate : heapCreateBlock (a + span 32 (l ++ [t])) pageSize m
      = newHeader (a + span 32 (l ++ [t])) 4064 null null m := rfl
  have hnew := appendBlock_blocks (n := 4064) hblocks (by omega) rfl
  rw [← hcreate] at hnew
  have hm₁ : BlocksAt m₁ null a (l ++ [t, ⟨4064, true⟩]) null := hnew
  have hframe₁ : ∀ x, Untouched 32 a (l ++ [t]) x → x < a + span 32 (l ++ [t]) →
      m₁ x = m x := by
    intro x hx hlo
    show setBlockPrev _ _ (setBlockNext _ _ (heapCreateBlock _ _ m)) x = m x
    rw [setBlockPrev_outside (.inl hlo), setBlockNext_outside (untouched_ne_header hx rfl),
      hcreate, newHeader_outside (.inl hlo)]
  have hrun := hm₁.mid
  have hfree : blockFree m₁ (a + span 32 l) = t.free := hrun.1.free
  obtain ⟨s, f⟩ := t
  cases f with
  | false =>
      have hm₂ : heapLinkPage (a + span 32 l) (a + span 32 (l ++ [⟨s, false⟩])) m = m₁ := by
        show (if blockFree m₁ (a + span 32 l) then _ else m₁) = m₁
        rw [hfree, if_neg (by simp)]
      rw [hm₂, growTiles, if_neg (by simp)]
      exact ⟨hm₁, hframe₁⟩
  | true =>
      have hm₂ : heapLinkPage (a + span 32 l) (a + span 32 (l ++ [⟨s, true⟩])) m
          = mergeWithNext (a + span 32 l) m₁ := by
        show (if blockFree m₁ (a + span 32 l) then _ else m₁) = _
        rw [hfree, if_pos rfl]
      have hpos : 0 < a + span 32 l := Nat.add_pos_left ha _
      have hfit : a + span 32 l + span 32 [⟨s, true⟩, ⟨4064, true⟩] < 2 ^ 64 := by
        have hspan : span 32 [⟨s, true⟩, ⟨4064, true⟩] = span 32 [⟨s, true⟩] + 4096 := rfl
        rw [hspan, ← Nat.add_assoc, Nat.add_assoc a, ← span_append]
        exact hlt
      obtain ⟨hmerged, hframe₂⟩ := mergeWithNext_front hrun hpos hfit
      rw [hm₂, growTiles, if_pos rfl]
      refine ⟨?_, ?_⟩
      · rw [show s + 32 + 4064 = s + 4096 from Nat.add_assoc s 32 4064] at hmerged
        exact hm₁.replace (by simp) (by simp) hmerged fun x hx => hframe₂ x (.inl hx)
      · intro x hx hlo
        rw [← hframe₁ x hx hlo]
        apply hframe₂ x
        rcases hx with hlt' | hge | ⟨u, hu, hulo, huhi⟩
        · exact .inl (by omega)
        · omega
        · rw [used_release, List.mem_append] at hu
          cases hu with
          | inl hl =>
              have hb := used_bounds (p := u.1) (n := u.2) hl
              exact .inl (by omega)
          | inr hr => cases hr

/-- `heap_expand` links the page that it has committed. -/
theorem heapExpand_eq {vma last : Nat} (hvma : h.heapVma = some vma)
    (hcommit : heapCommitPage h.committedEnd h = (true, h'))
    (hlast : findLastBlock h' = some last) :
    heapExpand h = some (true, { h' with
      mem := heapLinkPage last h.committedEnd h'.mem
      size := wordSub h'.committedEnd h'.virtualStart
      vma := (vmaResize h'.vma (h'.vma.entry vma).start
        (wordSub h'.committedEnd h'.virtualStart)).2 }) := by
  rw [heapExpand, hvma]
  simp only [hcommit, hlast]
  rfl

/-- `heap_expand`: nothing, or a page more. -/
theorem HeapInv.expand (hi : HeapInv h ts) :
    ∃ done h' ts', heapExpand h = some (done, h') ∧ HeapInv h' ts'
      ∧ SameUse h.mem ts h'.mem ts' ∧ (Canonical ts → Canonical ts')
      ∧ (done = true → span 32 ts' = span 32 ts + 4096
        ∧ tailRoom 32 ts' = tailRoom 32 ts + 4096) := by
  cases hvma : h.heapVma with
  | none => exact ⟨false, h, ts, by rw [heapExpand, hvma], hi, SameUse.refl _ _, id,
      by simp⟩
  | some vma =>
      rcases heapCommitPage_cases hi.pmm h.committedEnd with ⟨vm, rs, hcommit, hvm⟩ |
        ⟨vm, rs, page, hcommit, hvm, hfewer⟩
      · refine ⟨false, { h with vm := vm, refusals := rs }, ts, ?_, hi.withVm hvm rs,
          SameUse.refl _ _, id, by simp⟩
        simp only [heapExpand, hvma, hcommit]
      · obtain ⟨l, t, hsnoc⟩ := (List.eq_nil_or_concat ts).resolve_left hi.ne_nil
        rw [List.concat_eq_append] at hsnoc
        subst hsnoc
        have hlt := hi.end_lt
        have hstop := hi.stop
        have hroom := hi.room
        -- the heap's own range is as it was
        have hbelow : ∀ x, x < heapStartAddress + span 32 (l ++ [t]) →
            blit h.mem h.committedEnd page pageSize x = h.mem x := by
          intro x hx
          exact blit_outside (.inl (by rw [hstop]; exact hx))
        have hblocks : BlocksAt (blit h.mem h.committedEnd page pageSize) null
            heapStartAddress (l ++ [t]) null :=
          hi.blocks.congr_inside fun x _ hhi => hbelow x hhi
        have hlen : l.length < walkFuel h := by
          have hfuel := hi.length_lt_fuel
          rw [List.length_append] at hfuel
          omega
        have hlast : findLastBlockFrom (blit h.mem h.committedEnd page pageSize)
            (walkFuel h) h.head = some (heapStartAddress + span 32 l) := by
          rw [hi.head]
          exact findLastBlockFrom_run hblocks heapStart_pos hlen
        obtain ⟨hgrown, hframe⟩ := growTiles_blocks hblocks heapStart_pos (by omega)
        obtain ⟨hused, hspan, htail⟩ := growTiles_spec l t
        have hend : wordAdd h.committedEnd pageSize
            = heapStartAddress + span 32 (l ++ [t]) + 4096 := by
          rw [hstop]
          exact wordAdd_eq (by show _ + 4096 < 2 ^ 64; omega)
        have hnewSize : wordSub (wordAdd h.committedEnd pageSize) h.virtualStart
            = span 32 (growTiles l t) := by
          rw [hend, hi.start, wordSub_eq (by omega) (by omega), hspan]
          omega
        rw [← hstop] at hgrown hframe
        refine ⟨true, { h with
            vm := vm
            refusals := rs
            committedEnd := wordAdd h.committedEnd pageSize
            mem := heapLinkPage (heapStartAddress + span 32 l) h.committedEnd
              (blit h.mem h.committedEnd page pageSize)
            size := span 32 (growTiles l t)
            vma := (vmaResize h.vma (h.vma.entry vma).start (span 32 (growTiles l t))).2 },
          growTiles l t, ?_, ?_, ⟨hused, ?_⟩, fun hcan => growTiles_canonical hcan,
          fun _ => ⟨hspan, htail⟩⟩
        · rw [heapExpand_eq hvma hcommit hlast, hnewSize]
        · refine ⟨hi.head, hi.start, hgrown, ?_, ?_, ?_, rfl, hvm.1, ?_⟩
          · unfold growTiles
            split_ifs
            · simp
            · simp
          · have hsizes := hi.sizes
            have ht : 16 ∣ t.size := hsizes t (by simp)
            intro u hu
            unfold growTiles at hu
            split_ifs at hu
            · simp only [List.mem_append, List.mem_singleton] at hu
              cases hu with
              | inl hl => exact hsizes u (by simp [hl])
              | inr heq =>
                  rw [heq]
                  show 16 ∣ t.size + 4096
                  omega
            · simp only [List.mem_append, List.mem_cons, List.not_mem_nil, or_false] at hu
              rcases hu with hl | rfl | rfl
              · exact hsizes u (by simp [hl])
              · exact ht
              · exact (by decide : 16 ∣ 4064)
          · show wordAdd h.committedEnd pageSize = _
            rw [hend, hspan]
            omega
          · show _ + 4096 * vm.pmm.freePages ≤ _
            rw [hspan]
            omega
        · intro x hx
          have hb : x < heapStartAddress + span 32 (l ++ [t]) := by
            obtain ⟨u, hu, -, hhi⟩ := hx
            have hbounds := used_bounds (p := u.1) (n := u.2) hu
            omega
          rw [← hbelow x hb]
          exact hframe x hx.untouched (by rw [hstop]; exact hb)

/-- The committed size is what the blocks span. -/
theorem HeapInv.committed (hi : HeapInv h ts) : heapCommittedSize h = span 32 ts := by
  have hlt := hi.end_lt
  rw [heapCommittedSize, hi.stop, hi.start, wordSub_eq (by omega) (by omega)]
  omega

/-- `heap_grow` as `kmalloc` calls it is one `heap_expand`. -/
theorem HeapInv.grow_eq (hi : HeapInv h ts) :
    heapGrow (wordAdd (heapCommittedSize h) heapGrowSize) h = heapExpand h := by
  have hlt := hi.end_lt
  have hbytes : wordAdd (heapCommittedSize h) heapGrowSize = span 32 ts + 4096 := by
    rw [hi.committed]
    exact wordAdd_eq (by show _ + 4096 < 2 ^ 64; omega)
  have hfuel : (span 32 ts + 4096) / pageSize = span 32 ts / 4096 + 1 :=
    Nat.add_div_right (span 32 ts) (by decide)
  obtain ⟨done, h', ts', hexpand, hi', -, -, hgrown⟩ := hi.expand
  rw [heapGrow, hbytes, hfuel, heapGrowFrom, hi.committed, if_pos (by omega), hexpand]
  cases done with
  | false => rfl
  | true =>
      show heapGrowFrom _ _ h' = _
      rw [heapGrowFrom, hi'.committed, (hgrown rfl).1, if_neg (by omega)]

/-- `heap_grow` keeps the invariant and what is in use; when it succeeds
there is a page more at the end. -/
theorem HeapInv.grow (hi : HeapInv h ts) :
    ∃ done h' ts', heapGrow (wordAdd (heapCommittedSize h) heapGrowSize) h = some (done, h')
      ∧ HeapInv h' ts' ∧ SameUse h.mem ts h'.mem ts' ∧ (Canonical ts → Canonical ts')
      ∧ (done = true → tailRoom 32 ts' = tailRoom 32 ts + 4096) := by
  obtain ⟨done, h', ts', hexpand, hi', hsame, hcan, hgrown⟩ := hi.expand
  exact ⟨done, h', ts', hi.grow_eq.trans hexpand, hi', hsame, hcan, fun hd => (hgrown hd).2⟩

-- ================================================================= kmalloc

/-- What `kmalloc` does for the clients: nothing and `NULL`, or a new
payload of `n` bytes or more. -/
def Allocates (n p : Nat) (ts ts' : List Tile) : Prop :=
  (p = null ∧ payloads ts' = payloads ts)
    ∨ (p ≠ null ∧ ∃ s, n ≤ s ∧ (payloads ts').Perm ((p, s) :: payloads ts))

/-- Growth before an allocation adds nothing to it. -/
theorem Allocates.of_sameUse (hused : payloads ts' = payloads ts)
    {ts'' : List Tile} (ha : Allocates n p ts' ts'') : Allocates n p ts ts'' := by
  unfold Allocates at ha ⊢
  rw [hused] at ha
  exact ha

/-- What is in use stays so. -/
theorem Allocates.mono (ha : Allocates n p ts ts') {u : Nat × Nat} (hu : u ∈ payloads ts) :
    u ∈ payloads ts' := by
  rcases ha with ⟨-, heq⟩ | ⟨-, s, -, hperm⟩
  · rw [heq]
    exact hu
  · exact hperm.mem_iff.mpr (List.mem_cons_of_mem _ hu)

/-- The loop of `kmalloc` takes the block that it finds. -/
theorem kmallocFrom_found {fuel b : Nat} (hcoalesce : coalesceFreeBlocks h = some h')
    (hfind : findFreeBlock h' n = some b) (hb : b ≠ null) :
    kmallocFrom n (fuel + 1) h = some (blockPayload b,
      { h' with mem := setBlockFree b false (splitBlock b n h'.mem) }) := by
  rw [kmallocFrom, hcoalesce, Option.bind_eq_bind, Option.bind_some, hfind,
    Option.bind_eq_bind, Option.bind_some, if_pos hb]

/-- Where it finds none it grows the heap and tries again. -/
theorem kmallocFrom_grow {fuel : Nat} {done : Bool} {h'' : Heap}
    (hcoalesce : coalesceFreeBlocks h = some h') (hfind : findFreeBlock h' n = some null)
    (hgrow : heapGrow (wordAdd (heapCommittedSize h') heapGrowSize) h' = some (done, h'')) :
    kmallocFrom n (fuel + 1) h
      = if done then kmallocFrom n fuel h'' else some (null, h'') := by
  rw [kmallocFrom, hcoalesce, Option.bind_eq_bind, Option.bind_some, hfind,
    Option.bind_eq_bind, Option.bind_some, if_neg (by simp), hgrow, Option.bind_eq_bind,
    Option.bind_some]

/-- `find_free_block` finds the first free block of the size, if there is
one. -/
theorem HeapInv.findFreeBlock (hi : HeapInv h ts) (n : Nat) :
    (findFreeBlock h n = some null ∧ ∀ t ∈ ts, ¬ (t.free = true ∧ n ≤ t.size))
      ∨ ∃ l s r, ts = l ++ ⟨s, true⟩ :: r ∧ n ≤ s
        ∧ (∀ u ∈ l, ¬ (u.free = true ∧ n ≤ u.size))
        ∧ findFreeBlock h n = some (heapStartAddress + span 32 l) := by
  have hptr : ptrTo heapStartAddress ts null = h.head := by
    rw [hi.head]
    cases hts : ts with
    | nil => exact absurd hts hi.ne_nil
    | cons t ts => rfl
  rcases findFreeBlockFrom_run (n := n) hi.blocks heapStart_pos hi.length_lt_fuel with
    ⟨hfind, hnone⟩ | ⟨l, ⟨s, f⟩, r, hsplit, ⟨hfree, hfit⟩, hfront, hfind⟩
  · rw [hptr] at hfind
    exact .inl ⟨hfind, hnone⟩
  · rw [hptr] at hfind
    obtain rfl : f = true := hfree
    exact .inr ⟨l, s, r, hsplit, hfit, hfront, hfind⟩

/-- The loop of `kmalloc` comes back with a block of its own or `NULL`, and
changes nothing in use. -/
theorem HeapInv.kmallocFrom (hi : HeapInv h ts) (hdvd : 16 ∣ n) {fuel : Nat}
    (hfuel : n + 32 ≤ tailRoom 32 ts + 4096 * (fuel - 1)) (hpos : 0 < fuel) :
    ∃ p h' ts', kmallocFrom n fuel h = some (p, h') ∧ HeapInv h' ts'
      ∧ Allocates n p ts ts' ∧ (∀ x, InUse ts x → h'.mem x = h.mem x) ∧ Canonical ts' := by
  induction fuel generalizing h ts with
  | zero => omega
  | succ fuel ih =>
      obtain ⟨m, hcoalesce, hi₁, hframe₁, -⟩ := hi.coalesce
      have hcan₁ := canonical_coalesce (w := 32) ts
      have hused : payloads (Lib.coalesce 32 ts) = payloads ts := (used_coalesce _ ts).1
      have hsame₁ : SameUse h.mem ts m (Lib.coalesce 32 ts) := ⟨hused, hframe₁⟩
      have htail := tailRoom_coalesce (w := 32) ts
      rcases hi₁.findFreeBlock n with ⟨hfind, hnone⟩ | ⟨l, s, r, hsplit, hfit, -, hfind⟩
      · -- no block: the free space at the end is too small, so fuel is left
        have hshort : tailRoom 32 (Lib.coalesce 32 ts) < n + 32 := by
          refine Nat.lt_of_not_le fun hle => ?_
          obtain ⟨t, ht, hgood⟩ := exists_fit_of_tailRoom hle (by omega)
          exact hnone t ht hgood
        obtain ⟨done, h', ts', hgrow, hi', hsame₂, hcan₂, hgrown⟩ := hi₁.grow
        have hsame := hsame₁.trans hsame₂
        rw [kmallocFrom_grow hcoalesce hfind hgrow]
        cases done with
        | false =>
            exact ⟨null, h', ts', rfl, hi', .inl ⟨rfl, hsame.1⟩, hsame.2, hcan₂ hcan₁⟩
        | true =>
            have hmore := hgrown rfl
            obtain ⟨p, h'', ts'', hrun, hi'', halloc, hframe, hcan⟩ :=
              ih hi' (by omega) (by omega)
            refine ⟨p, h'', ts'', hrun, hi'', halloc.of_sameUse hsame.1, ?_, hcan⟩
            intro x hx
            have hx' : InUse ts' x := by
              unfold InUse at hx ⊢
              rw [hsame.1]
              exact hx
            rw [hframe x hx', hsame.2 x hx]
      · have hi₂ : HeapInv { h with mem := m } (l ++ ⟨s, true⟩ :: r) := hsplit ▸ hi₁
        obtain ⟨hpos', hpayload⟩ := hi₂.payload
        obtain ⟨s', ts', hn, hi', hperm, hframe, hcan⟩ := hi₂.take hfit hdvd
        rw [kmallocFrom_found hcoalesce hfind hpos', hpayload]
        refine ⟨heapStartAddress + span 32 l + 32, _, ts', rfl, hi', ?_, ?_,
          hcan (hsplit ▸ hcan₁)⟩
        · refine .inr ⟨Nat.ne_of_gt (Nat.succ_pos _), s', hn, ?_⟩
          rw [← hused, hsplit]
          exact hperm
        · intro x hx
          have hx' : InUse (l ++ ⟨s, true⟩ :: r) x := by
            unfold InUse at hx ⊢
            rw [← hsplit, hused]
            exact hx
          exact (hframe x hx').trans (hframe₁ x hx)

theorem alignSize_dvd (n : Nat) : 16 ∣ alignSize n := ⟨_, Nat.mul_comm _ 16⟩

/-- `align_size` rounds up, unless the sum overflows. -/
theorem le_alignSize (hn : n + 15 < 2 ^ 64) : n ≤ alignSize n := by
  have hsum : wordAdd n (heapAlignment - 1) = n + 15 := wordAdd_eq hn
  rw [alignSize, hsum]
  show n ≤ (n + 15) / 16 * 16
  omega

/-- `kmalloc` comes back, and what was in use keeps its place and its
bytes. -/
theorem HeapInv.kmalloc (hi : HeapInv h ts) (size : Nat) :
    ∃ p h' ts', kmalloc size h = some (p, h') ∧ HeapInv h' ts'
      ∧ Allocates (alignSize size) p ts ts' ∧ (∀ x, InUse ts x → h'.mem x = h.mem x)
      ∧ (Canonical ts → Canonical ts') := by
  by_cases hzero : size = 0
  · exact ⟨null, h, ts, by rw [Mm.kmalloc, if_pos hzero], hi, .inl ⟨rfl, rfl⟩,
      fun _ _ => rfl, id⟩
  · have hfuel : alignSize size + 32
        ≤ tailRoom 32 ts + 4096 * (alignSize size / pageSize + 3 - 1) := by
      show alignSize size + 32 ≤ _ + 4096 * (alignSize size / 4096 + 3 - 1)
      omega
    obtain ⟨p, h', ts', hrun, hi', halloc, hframe, hcan⟩ :=
      hi.kmallocFrom (alignSize_dvd size) hfuel (Nat.succ_pos _)
    rw [Mm.kmalloc, if_neg hzero]
    exact ⟨p, h', ts', hrun, hi', halloc, hframe, fun _ => hcan⟩

/-- The same when the call may be made to fail. -/
theorem kmallocUnless_spec (hi : HeapInv h ts) (refuse : Bool) (size : Nat) :
    ∃ p h' ts', kmallocUnless refuse size h = some (p, h') ∧ HeapInv h' ts'
      ∧ Allocates (alignSize size) p ts ts' ∧ ∀ x, InUse ts x → h'.mem x = h.mem x := by
  cases refuse with
  | true => exact ⟨null, h, ts, rfl, hi, .inl ⟨rfl, rfl⟩, fun _ _ => rfl⟩
  | false =>
      obtain ⟨p, h', ts', hrun, hi', halloc, hframe, -⟩ := hi.kmalloc size
      exact ⟨p, h', ts', hrun, hi', halloc, hframe⟩

-- ================================================================ krealloc

/-- Stores inside payloads in use. -/
theorem HeapInv.store (hi : HeapInv h ts) (hm : ∀ x, ¬ InUse ts x → m x = h.mem x) :
    HeapInv { h with mem := m } ts := by
  refine hi.withMem (hi.blocks.congr ?_) hi.ne_nil hi.sizes rfl
  intro l t r hts x hlo hhi
  refine hm x fun hx => ?_
  have hout := untouched_ne_header hx.untouched hts
  omega

/-- The block of a payload in use. -/
theorem HeapInv.payload_block (hi : HeapInv h ts) (hp : (p, n) ∈ payloads ts) :
    payloadBlock p = p - 32 ∧ blockSize h.mem (p - 32) = n ∧ blockFree h.mem (p - 32) = false
      ∧ heapStartAddress + 32 ≤ p ∧ p + n ≤ heapStartAddress + span 32 ts := by
  have hb := used_bounds hp
  have hlt := hi.end_lt
  obtain ⟨l, r, rfl, rfl⟩ := mem_used.mp hp
  have hrun := hi.blocks.mid
  rw [Nat.add_sub_cancel]
  refine ⟨?_, hrun.1.size, hrun.1.free, hb⟩
  have hsub : wordSub (heapStartAddress + span 32 l + 32) 32
      = heapStartAddress + span 32 l + 32 - 32 := wordSub_eq (by omega) (by omega)
  rw [Nat.add_sub_cancel] at hsub
  exact hsub

/-- No block in use is at 0. -/
theorem HeapInv.payload_ne_null (hi : HeapInv h ts) (hp : (p, n) ∈ payloads ts) :
    p ≠ null := by
  have hlo := (hi.payload_block hp).2.2.2.1
  exact Nat.ne_of_gt (by show 0 < p; omega)

/-- Aligning twice is aligning once. -/
theorem le_alignSize_alignSize (size : Nat) : alignSize size ≤ alignSize (alignSize size) := by
  apply le_alignSize
  have hmod : wordAdd size (heapAlignment - 1) < 2 ^ 64 := Nat.mod_lt _ (by decide)
  show wordAdd size (heapAlignment - 1) / 16 * 16 + 15 < 2 ^ 64
  omega

/-- What `krealloc` of the payload `(p, n)` does for the clients: it is
released; or nothing and `NULL`; or nothing and `p`, which is large
enough; or the payload moves. -/
def Reallocates (size p n q : Nat) (ts ts' : List Tile) : Prop :=
  (size = 0 ∧ q = null ∧ (payloads ts).Perm ((p, n) :: payloads ts'))
    ∨ (size ≠ 0 ∧ q = null ∧ payloads ts' = payloads ts)
    ∨ (size ≠ 0 ∧ q = p ∧ alignSize size ≤ n ∧ payloads ts' = payloads ts)
    ∨ (size ≠ 0 ∧ q ≠ null ∧ ∃ s, alignSize size ≤ s ∧ n < s
      ∧ ((q, s) :: payloads ts).Perm ((p, n) :: payloads ts'))

/-- `krealloc` takes a new block and copies where the old one is too small.
-/
theorem krealloc_move (hp : p ≠ null) {size q : Nat} (hsize : size ≠ 0)
    (hsmall : ¬ blockSize h.mem (payloadBlock p) ≥ alignSize size)
    (hrun : kmalloc (alignSize size) h = some (q, h')) :
    krealloc p size h
      = if q = null then some (null, h')
        else some (q, kfree p
          { h' with mem := Klib.kMemcpy h'.mem q p (blockSize h'.mem (payloadBlock p)) }) := by
  rw [krealloc, if_neg hp, if_neg hsize]
  simp only [if_neg hsmall, hrun, Option.bind_eq_bind, Option.bind_some]

/-- `krealloc` comes back; the other payloads in use keep their bytes. -/
theorem HeapInv.krealloc (hi : HeapInv h ts) (hp : (p, n) ∈ payloads ts) (size : Nat) :
    ∃ q h' ts', krealloc p size h = some (q, h') ∧ HeapInv h' ts' ∧ Reallocates size p n q ts ts'
      ∧ (∀ u ∈ payloads ts, u ≠ (p, n) → ∀ x, u.1 ≤ x → x < u.1 + u.2 → h'.mem x = h.mem x)
      ∧ (q ≠ null → ∀ i < n, h'.mem (q + i) = h.mem (p + i))
      ∧ (Canonical ts → Canonical ts') := by
  have hnull := hi.payload_ne_null hp
  obtain ⟨hblock, hsize, -, hlo, hhi⟩ := hi.payload_block hp
  by_cases hzero : size = 0
  · obtain ⟨ts', hi', hperm, hframe, hcan⟩ := hi.kfree hp
    refine ⟨null, _, ts', ?_, hi', .inl ⟨hzero, rfl, hperm⟩, ?_, fun hne => absurd rfl hne, hcan⟩
    · rw [Mm.krealloc, if_neg hnull, if_pos hzero]
    · intro u hu hne x hxlo hxhi
      refine hframe x ⟨u, ?_, hxlo, hxhi⟩
      cases List.mem_cons.mp (hperm.mem_iff.mp hu) with
      | inl heq => exact absurd heq hne
      | inr hmem => exact hmem
  · by_cases hfits : alignSize size ≤ n
    · refine ⟨p, h, ts, ?_, hi, .inr (.inr (.inl ⟨hzero, rfl, hfits, rfl⟩)),
        fun _ _ _ _ _ _ => rfl, fun _ _ _ => rfl, id⟩
      rw [Mm.krealloc, if_neg hnull, if_neg hzero]
      have hge : blockSize h.mem (payloadBlock p) ≥ alignSize size := by
        rw [hblock, hsize]
        exact hfits
      simp only [if_pos hge]
    · obtain ⟨q, h₁, ts₁, hrun, hi₁, halloc, hframe₁, hcan₁⟩ := hi.kmalloc (alignSize size)
      have hsmall : ¬ blockSize h.mem (payloadBlock p) ≥ alignSize size := by
        rw [hblock, hsize]
        exact hfits
      rw [krealloc_move hnull hzero hsmall hrun]
      rcases halloc with ⟨hq, hused⟩ | ⟨hq, s, hs, hperm⟩
      · refine ⟨null, h₁, ts₁, if_pos hq, hi₁, .inr (.inl ⟨hzero, rfl, hused⟩), ?_,
          fun hne => absurd rfl hne, hcan₁⟩
        intro u hu _ x hxlo hxhi
        exact hframe₁ x ⟨u, hu, hxlo, hxhi⟩
      · -- the old payload is copied into the new one, then released
        have hp₁ : (p, n) ∈ payloads ts₁ := hperm.mem_iff.mpr (List.mem_cons_of_mem _ hp)
        have hq₁ : (q, s) ∈ payloads ts₁ := hperm.mem_iff.mpr List.mem_cons_self
        have hsize₁ := (hi₁.payload_block hp₁).2.1
        have hns : n < s :=
          Nat.lt_of_lt_of_le (Nat.lt_of_not_le hfits)
            (Nat.le_trans (le_alignSize_alignSize size) hs)
        have hapart : q + s + 32 ≤ p ∨ p + n + 32 ≤ q := by
          rcases used_apart hq₁ hp₁ with heq | hcase
          · injection heq with _ heq
            omega
          · exact hcase
        have hcopy : Klib.kMemcpy h₁.mem q p n = blit h₁.mem q (fun i => h₁.mem (p + i)) n :=
          Klib.kMemcpy_eq h₁.mem (by omega)
        have hi₂ : HeapInv { h₁ with mem := Klib.kMemcpy h₁.mem q p n } ts₁ := by
          apply hi₁.store
          intro x hx
          rw [hcopy]
          apply blit_outside
          by_contra hin
          exact hx ⟨(q, s), hq₁, by dsimp only; omega, by dsimp only; omega⟩
        obtain ⟨ts', hi', hperm', hframe', hcan'⟩ := hi₂.kfree hp₁
        have hkept : ∀ u ∈ payloads ts₁, u ≠ (p, n) → ∀ x, u.1 ≤ x → x < u.1 + u.2 →
            (Mm.kfree p { h₁ with mem := Klib.kMemcpy h₁.mem q p n }).mem x
              = blit h₁.mem q (fun i => h₁.mem (p + i)) n x := by
          intro u hu hne x hxlo hxhi
          rw [← hcopy]
          refine hframe' x ⟨u, ?_, hxlo, hxhi⟩
          cases List.mem_cons.mp (hperm'.mem_iff.mp hu) with
          | inl heq => exact absurd heq hne
          | inr hmem => exact hmem
        rw [if_neg hq, (hi₁.payload_block hp₁).1, hsize₁]
        refine ⟨q, _, ts', rfl, hi',
          .inr (.inr (.inr ⟨hzero, hq, s, ?_, hns, hperm.symm.trans hperm'⟩)), ?_, ?_,
          fun hc => hcan' (hcan₁ hc)⟩
        · exact Nat.le_trans (le_alignSize_alignSize size) hs
        · intro u hu hne x hxlo hxhi
          have hu₁ : u ∈ payloads ts₁ := hperm.mem_iff.mpr (List.mem_cons_of_mem _ hu)
          have hdiff : u ≠ (q, s) := by
            rintro rfl
            have hnodup : ((payloads ts₁).map Prod.fst).Nodup :=
              used_nodup (by decide) heapStartAddress ts₁
            rw [(hperm.map Prod.fst).nodup_iff, List.map_cons, List.nodup_cons] at hnodup
            exact hnodup.1 (List.mem_map_of_mem hu)
          rw [hkept u hu₁ hne x hxlo hxhi]
          refine (blit_outside ?_).trans (hframe₁ x ⟨u, hu, hxlo, hxhi⟩)
          rcases used_apart hu₁ hq₁ with heq | hlow | hhigh
          · exact absurd heq hdiff
          · dsimp only at hlow
            omega
          · dsimp only at hhigh
            omega
        · intro _ i hin
          have hne : (q, s) ≠ (p, n) := by
            intro heq
            injection heq with _ heq
            omega
          rw [hkept (q, s) hq₁ hne (q + i) (by dsimp only; omega) (by dsimp only; omega),
            blit_inside (by omega) (by omega), Nat.add_sub_cancel_left]
          exact hframe₁ (p + i) ⟨(p, n), hp, by dsimp only; omega, by dsimp only; omega⟩

-- =============================================================== heap_init

/-- `heap_init` that reaches its end: one free block in one page. -/
theorem heapInit_inv (hpmm : PmmInv h.vm.pmm) (hinit : heapInit h = (true, h')) :
    HeapInv h' [⟨4064, true⟩] := by
  rw [heapInit] at hinit
  rcases hpmm.alloc_cases with hnull | ⟨g, pmm, halloc, hg, hinv, hclear⟩
  · simp only [hnull, if_true] at hinit
    cases hinit
  · obtain ⟨-, hgnull, -⟩ := hpmm.clear_frame hg
    simp only [halloc, if_neg hgnull] at hinit
    have hmapped := pageTableMap_shrinks (v := { h.vm with pmm := pmm }) hinv heapStartAddress g
      pageWritable
    cases hr : pageTableMapPage { h.vm with pmm := pmm } heapStartAddress g true with
    | mk done vm =>
        have hvm : PmmShrinks { h.vm with pmm := pmm } vm := by
          have hsnd : (pageTableMapPage { h.vm with pmm := pmm } heapStartAddress g true).2
              = vm := by
            rw [hr]
          rw [← hsnd]
          exact hmapped
        simp only [hr] at hinit
        cases done with
        | false => cases hinit
        | true =>
            cases hvma : vmaFind h.vma heapStartAddress with
            | none =>
                simp only [hvma] at hinit
                cases hinit
            | some e =>
                simp only [hvma] at hinit
                injection hinit with _ hh
                subst hh
                refine ⟨rfl, rfl, ⟨?_, trivial⟩, by simp, ?_, rfl, rfl, hvm.1, ?_⟩
                · exact blockAt_new _ heapStartAddress true (by decide) (by decide) (by decide)
                · intro t ht
                  rw [List.mem_singleton.mp ht]
                  exact (by decide : 16 ∣ 4064)
                · have hfree : vm.pmm.freePages ≤ 131072 * 8 := hvm.1.freePages_le
                  show 4096 + 4096 * vm.pmm.freePages ≤ 2 ^ 33
                  omega

end ZenithOS.Mm
