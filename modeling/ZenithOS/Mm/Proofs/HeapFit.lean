/-
Which block `kmalloc` returns, and how far it grows the heap for it.

# The search

In a canonical heap there is nothing to coalesce, so the first round
looks at the list as it is: it takes the lowest free block that is large
enough (`HeapInv.kmallocFrom_fits`).

# The growth

If there is none, each round that does not return adds one page to the
free space at the end (`HeapInv.expand_cases`); the blocks before it stay
too small. So the last block is the first to be large enough, after the
least number of pages that makes it so, and it starts where the free
space at the end started (`tailStart`), which growing does not move. The
induction of `HeapInv.kmallocFrom_grows` is on that number of pages.

# The rounds

`kmallocRound` is the loop's body. A round that is followed by another
has taken a page from the allocator, whose free pages are therefore the
measure of the loop.
-/
import ZenithOS.Mm.Proofs.HeapFrames

namespace ZenithOS.Mm

open Lib Vmm

variable {h h' g : Heap} {ts l r : List Tile} {t : Tile} {a p k n fuel : Nat}

-- ================================================================== a round

/-- One round of the loop of `kmalloc`: what it returns, or the heap of
the next round. -/
def kmallocRound (size : Nat) (h : Heap) : Option ((Nat × Heap) ⊕ Heap) := do
  let h ← coalesceFreeBlocks h
  let block ← findFreeBlock h size
  if block ≠ null then
    let m := splitBlock block size h.mem
    let m := setBlockFree block false m
    some (.inl (blockPayload block, { h with mem := m }))
  else
    let (grown, h) ← heapGrow (wordAdd (heapCommittedSize h) heapGrowSize) h
    if grown then some (.inr h) else some (.inl (null, h))

/-- The heaps the rounds of the loop start from, and what the last one
returns. -/
inductive KmallocRounds (size : Nat) : Heap → List Heap → Nat × Heap → Prop
  | last {h : Heap} {r : Nat × Heap} (hround : kmallocRound size h = some (.inl r)) :
      KmallocRounds size h [h] r
  | next {h h' : Heap} {hs : List Heap} {r : Nat × Heap}
      (hround : kmallocRound size h = some (.inr h')) (hrest : KmallocRounds size h' hs r) :
      KmallocRounds size h (h :: hs) r

/-- The loop is its rounds. -/
theorem kmallocFrom_round (size fuel : Nat) (h : Heap) :
    kmallocFrom size (fuel + 1) h = (kmallocRound size h).bind fun round =>
      match round with
      | .inl r => some r
      | .inr h => kmallocFrom size fuel h := by
  rw [kmallocFrom, kmallocRound]
  cases coalesceFreeBlocks h with
  | none => rfl
  | some h₁ =>
      simp only [Option.bind_eq_bind, Option.bind_some]
      cases findFreeBlock h₁ size with
      | none => rfl
      | some block =>
          simp only [Option.bind_some]
          split_ifs with hblock
          · rfl
          · cases heapGrow (wordAdd (heapCommittedSize h₁) heapGrowSize) h₁ with
            | none => rfl
            | some grown =>
                obtain ⟨grown, h₂⟩ := grown
                cases grown with
                | false => rfl
                | true => rfl

/-- `heap_expand`, `k` times or until it fails. -/
def heapExpandTimes : Nat → Heap → Option (Bool × Heap)
  | 0, h => some (true, h)
  | k + 1, h =>
      match heapExpand h with
      | some (true, h) => heapExpandTimes k h
      | r => r

/-- Once it fails it has failed. -/
theorem heapExpandTimes_failed {j : Nat} (hg : heapExpandTimes j h = some (true, g))
    (hfail : heapExpand g = some (false, h')) (hj : j < k) :
    heapExpandTimes k h = some (false, h') := by
  obtain ⟨k, rfl⟩ := Nat.exists_eq_succ_of_ne_zero (Nat.ne_of_gt (Nat.zero_lt_of_lt hj))
  induction j generalizing h k with
  | zero =>
      obtain rfl : h = g := (Prod.mk.inj (Option.some.inj hg)).2
      rw [heapExpandTimes, hfail]
  | succ j ih =>
      obtain ⟨k, rfl⟩ := Nat.exists_eq_succ_of_ne_zero (n := k) (by omega)
      rw [heapExpandTimes] at hg ⊢
      cases hrun : heapExpand h with
      | none =>
          rw [hrun] at hg
          cases hg
      | some r =>
          obtain ⟨done, h₁⟩ := r
          rw [hrun] at hg
          cases done with
          | false => cases hg
          | true => exact ih hg k (Nat.lt_of_succ_lt_succ hj)

-- ============================================================ the free space

/-- Tile `t` is a free block of `a` bytes or more. -/
def Fits (a : Nat) (t : Tile) : Prop := t.free = true ∧ a ≤ t.size

/-- The last block is free and of `a` bytes or more once `k` pages are
added: they extend it if it is free, and are a block by themselves
otherwise. -/
def LastFits (ts : List Tile) (a k : Nat) : Prop :=
  ∃ l t, ts = l ++ [t] ∧ if t.free then a ≤ t.size + 4096 * k else a + 32 ≤ 4096 * k

/-- Where the last block starts once a page is added: where it is, if it
is free, and otherwise at the end of the heap. -/
def LastStart (ts : List Tile) (b : Nat) : Prop :=
  ∃ l t, ts = l ++ [t] ∧ b = heapStartAddress + if t.free then span 32 l else span 32 ts

/-- The last block fits after some pages exactly when the room at the end
does. -/
theorem lastFits_iff (hne : ts ≠ []) : LastFits ts a k ↔ a + 32 ≤ tailRoom 32 ts + 4096 * k := by
  obtain ⟨l, t, rfl⟩ := (List.eq_nil_or_concat ts).resolve_left hne
  rw [List.concat_eq_append, tailRoom_snoc]
  constructor
  · intro hfits
    obtain ⟨l', t', heq, hfits⟩ := hfits
    obtain ⟨rfl, ht⟩ := List.append_inj' heq rfl
    obtain rfl : t = t' := List.head_eq_of_cons_eq ht
    split_ifs at hfits ⊢
    · omega
    · omega
  · intro hroom
    refine ⟨l, t, rfl, ?_⟩
    split_ifs at hroom ⊢
    · omega
    · omega

/-- The start of the free space at the end. -/
def tailStart (ts : List Tile) : Nat := heapStartAddress + (span 32 ts - tailRoom 32 ts)

theorem tailStart_snoc (l : List Tile) (t : Tile) :
    tailStart (l ++ [t])
      = heapStartAddress + if t.free then span 32 l else span 32 (l ++ [t]) := by
  rw [tailStart, tailRoom_snoc]
  split_ifs
  · rw [span_append, span, span]
    omega
  · omega

/-- The free room at the end begins at one place. -/
theorem lastStart_iff (hne : ts ≠ []) (b : Nat) : LastStart ts b ↔ b = tailStart ts := by
  obtain ⟨l, t, rfl⟩ := (List.eq_nil_or_concat ts).resolve_left hne
  rw [List.concat_eq_append]
  constructor
  · intro hstart
    obtain ⟨l', t', heq, rfl⟩ := hstart
    obtain ⟨rfl, ht⟩ := List.append_inj' heq rfl
    obtain rfl : t = t' := List.head_eq_of_cons_eq ht
    exact (tailStart_snoc l t).symm
  · intro hb
    exact ⟨l, t, rfl, hb.trans (tailStart_snoc l t)⟩

/-- Growing leaves the free space at the end where it starts. -/
theorem tailStart_grow (l : List Tile) (t : Tile) :
    tailStart (growTiles l t) = tailStart (l ++ [t]) := by
  obtain ⟨-, hspan, htail⟩ := growTiles_spec l t
  rw [tailStart, tailStart, hspan, htail, Nat.add_sub_add_right]

/-- The blocks before the last one are too small, and stay so. -/
theorem grow_front {a : Nat} (hfront : ∀ u ∈ l ++ [t], ¬ Fits a u) :
    ∃ l' t', growTiles l t = l' ++ [t'] ∧ ∀ u ∈ l', ¬ Fits a u := by
  cases hfree : t.free with
  | true =>
      refine ⟨l, ⟨t.size + 4096, true⟩, by rw [growTiles, if_pos hfree], ?_⟩
      intro u hu
      exact hfront u (List.mem_append_left _ hu)
  | false =>
      refine ⟨l ++ [t], ⟨4064, true⟩, ?_, hfront⟩
      rw [growTiles, if_neg (by simp [hfree]), List.append_assoc]
      rfl

-- ==================================================================== steps

/-- `heap_expand`: it only takes pages, or takes one for the heap. -/
theorem heapExpand_pages (hp : PmmInv h.vm.pmm) {done : Bool}
    (hrun : heapExpand h = some (done, h')) :
    done = false ∧ h' = { h with vm := h'.vm, refusals := h'.refusals } ∧ PmmShrinks h.vm h'.vm
      ∨ done = true ∧ h'.vm.pmm.freePages < h.vm.pmm.freePages := by
  rw [heapExpand] at hrun
  cases hvma : h.heapVma with
  | none =>
      simp only [hvma] at hrun
      cases hrun
      exact .inl ⟨rfl, by rw [← hvma], hp, fun _ ha => ha⟩
  | some vma =>
      simp only [hvma] at hrun
      rcases heapCommitPage_cases hp h.committedEnd with ⟨vm, rs, hcommit, hvm⟩ |
        ⟨vm, rs, page, hcommit, -, hfewer⟩
      · simp only [hcommit] at hrun
        cases hrun
        exact .inl ⟨rfl, by rw [← hvma], hvm⟩
      · simp only [hcommit] at hrun
        obtain ⟨last, -, hrun⟩ := Option.bind_eq_some_iff.mp hrun
        cases hrun
        exact .inr ⟨rfl, hfewer⟩

/-- `heap_expand` of a canonical heap: nothing but pages taken, or a page
more at the end. -/
theorem HeapInv.expand_cases (hi : HeapInv h (l ++ [t])) (hcan : Canonical (l ++ [t])) :
    (∃ h', heapExpand h = some (false, h') ∧ h' = { h with vm := h'.vm, refusals := h'.refusals }
        ∧ HeapInv h' (l ++ [t]))
      ∨ ∃ h', heapExpand h = some (true, h') ∧ HeapInv h' (growTiles l t)
        ∧ Canonical (growTiles l t) ∧ h'.vm.pmm.freePages < h.vm.pmm.freePages := by
  obtain ⟨done, h', ts', hrun, hi', hsame, hcan', hgrown⟩ := hi.expand
  rcases heapExpand_pages hi.pmm hrun with ⟨rfl, heq, hvm⟩ | ⟨rfl, hfewer⟩
  · refine .inl ⟨h', hrun, heq, ?_⟩
    rw [heq]
    exact hi.withVm hvm h'.refusals
  · -- the tiling is determined by its extent and the payloads in use
    obtain ⟨hused, hspan, -⟩ := growTiles_spec l t
    have hts : ts' = growTiles l t :=
      (hcan' hcan).unique (by decide) (growTiles_canonical hcan)
        ((hgrown rfl).1.trans hspan.symm) (hsame.1.trans hused.symm)
    exact .inr ⟨h', hrun, hts ▸ hi', growTiles_canonical hcan, hfewer⟩

/-- A canonical list is coalesced already. -/
theorem HeapInv.coalesce_same (hi : HeapInv h ts) (hcan : Canonical ts) :
    coalesceFreeBlocks h = some h := by
  obtain ⟨m, hrun, -, -, hsame⟩ := hi.coalesce
  rw [hrun, hsame hcan]

/-- There is one first tile of a kind. -/
theorem front_unique {P : Tile → Prop} {l' r' : List Tile} {t' : Tile}
    (heq : l ++ t :: r = l' ++ t' :: r') (ht : P t) (ht' : P t') (hl : ∀ u ∈ l, ¬ P u)
    (hl' : ∀ u ∈ l', ¬ P u) : l = l' := by
  induction l generalizing l' with
  | nil =>
      cases l' with
      | nil => rfl
      | cons u l' =>
          obtain ⟨rfl, -⟩ := List.cons.inj heq
          exact absurd ht (hl' t List.mem_cons_self)
  | cons u l ih =>
      cases l' with
      | nil =>
          obtain ⟨rfl, -⟩ := List.cons.inj heq
          exact absurd ht' (hl u List.mem_cons_self)
      | cons u' l' =>
          obtain ⟨rfl, htail⟩ := List.cons.inj heq
          rw [ih htail (fun v hv => hl v (List.mem_cons_of_mem u hv))
            fun v hv => hl' v (List.mem_cons_of_mem u hv)]

/-- What taking `a` bytes of the free block at `b` makes of the heap. -/
def takeBlock (b a : Nat) (h : Heap) : Heap :=
  { h with mem := setBlockFree b false (splitBlock b a h.mem) }

/-- A round that finds a block returns the first. -/
theorem HeapInv.round_found {s : Nat} (hi : HeapInv h (l ++ ⟨s, true⟩ :: r))
    (hcan : Canonical (l ++ ⟨s, true⟩ :: r)) (hfit : a ≤ s) (hfront : ∀ u ∈ l, ¬ Fits a u) :
    kmallocRound a h = some (.inl (heapStartAddress + span 32 l + 32,
      takeBlock (heapStartAddress + span 32 l) a h)) := by
  have hfind : Mm.findFreeBlock h a = some (heapStartAddress + span 32 l) := by
    rcases hi.findFreeBlock a with ⟨-, hnone⟩ | ⟨l', s', r', hsplit, hfit', hfront', hfind⟩
    · exact absurd ⟨rfl, hfit⟩ (hnone ⟨s, true⟩ (by simp))
    · rw [hfind, front_unique (P := Fits a) hsplit ⟨rfl, hfit⟩ ⟨rfl, hfit'⟩ hfront hfront']
  obtain ⟨hpos, hpayload⟩ := hi.payload
  rw [kmallocRound, hi.coalesce_same hcan]
  simp only [Option.bind_eq_bind, Option.bind_some, hfind, if_pos hpos, hpayload]
  rfl

/-- A round that finds no block expands the heap. -/
theorem HeapInv.round_none (hi : HeapInv h ts) (hcan : Canonical ts)
    (hnone : ∀ t ∈ ts, ¬ Fits a t) :
    kmallocRound a h = (heapExpand h).map fun grown =>
      if grown.1 then .inr grown.2 else .inl (null, grown.2) := by
  have hfind : Mm.findFreeBlock h a = some null := by
    rcases hi.findFreeBlock a with ⟨hfind, -⟩ | ⟨l, s, r, rfl, hfit, -⟩
    · exact hfind
    · exact absurd ⟨rfl, hfit⟩ (hnone ⟨s, true⟩ (by simp))
  rw [kmallocRound, hi.coalesce_same hcan]
  simp only [Option.bind_eq_bind, Option.bind_some, hfind, ne_eq, not_true_eq_false, if_false,
    hi.grow_eq]
  cases heapExpand h with
  | none => rfl
  | some grown =>
      obtain ⟨done, h'⟩ := grown
      cases done with
      | false => rfl
      | true => rfl

-- ================================================================ the growth

/-- The rounds begin with the heap they are given. -/
theorem KmallocRounds.head {size : Nat} {hs : List Heap} {result : Nat × Heap}
    (hrounds : KmallocRounds size h hs result) : hs.head? = some h := by
  cases hrounds with
  | last => rfl
  | next => rfl

/-- Each round that is followed by another takes a page. -/
def PagesShrink (hs : List Heap) : Prop :=
  hs.IsChain fun g g' => g'.vm.pmm.freePages < g.vm.pmm.freePages

/-- What the rounds come to when only the last block can become large
enough, after `k` pages. -/
def GrowsTo (ts : List Tile) (a k : Nat) (h : Heap) (result : Nat × Heap) : Prop :=
  (∃ g l s, heapExpandTimes k h = some (true, g) ∧ HeapInv g (l ++ [⟨s, true⟩]) ∧ a ≤ s
      ∧ span 32 (l ++ [⟨s, true⟩]) = span 32 ts + 4096 * k
      ∧ heapStartAddress + span 32 l = tailStart ts
      ∧ result = (heapStartAddress + span 32 l + 32, takeBlock (heapStartAddress + span 32 l) a g))
    ∨ ∃ j g, j < k ∧ heapExpandTimes j h = some (true, g)
      ∧ heapExpand g = some (false, result.2) ∧ result.1 = null

/-- One page more in front of the rounds. -/
theorem GrowsTo.expanded {us : List Tile} {result : Nat × Heap}
    (hrun : heapExpand h = some (true, h')) (hstart : tailStart us = tailStart ts)
    (hspan : span 32 us = span 32 ts + 4096)
    (hgrows : GrowsTo us a k h' result) : GrowsTo ts a (k + 1) h result := by
  have htimes : ∀ j, heapExpandTimes (j + 1) h = heapExpandTimes j h' := by
    intro j
    rw [heapExpandTimes, hrun]
  rcases hgrows with ⟨g, l, s, hg, hi, hfit, hmore, heq, hresult⟩ | ⟨j, g, hj, hg, hfail, hnull⟩
  · exact .inl ⟨g, l, s, (htimes k).trans hg, hi, hfit, by omega, heq.trans hstart, hresult⟩
  · exact .inr ⟨j + 1, g, by omega, (htimes j).trans hg, hfail, hnull⟩

/-- The loop grows the heap page by page up to where the last block fits. -/
theorem HeapInv.kmallocFrom_grows (hi : HeapInv h (l ++ [t])) (hcan : Canonical (l ++ [t]))
    (hfront : ∀ u ∈ l, ¬ Fits a u)
    (hleast : ∀ j < k, tailRoom 32 (l ++ [t]) + 4096 * j < a + 32)
    (hroom : a + 32 ≤ tailRoom 32 (l ++ [t]) + 4096 * k) (hfuel : k < fuel) :
    ∃ result hs, Mm.kmallocFrom a fuel h = some result ∧ KmallocRounds a h hs result
      ∧ PagesShrink hs ∧ GrowsTo (l ++ [t]) a k h result := by
  obtain ⟨fuel, rfl⟩ := Nat.exists_eq_succ_of_ne_zero (Nat.ne_of_gt (Nat.zero_lt_of_lt hfuel))
  induction k generalizing h l t fuel with
  | zero =>
      -- the last block is large enough
      obtain ⟨s, f⟩ := t
      rw [tailRoom_snoc] at hroom
      obtain rfl : f = true := by
        by_contra hused
        rw [if_neg hused] at hroom
        omega
      rw [if_pos rfl] at hroom
      have hfit : a ≤ s := by
        have hroom' : a + 32 ≤ 32 + s + 4096 * 0 := hroom
        omega
      have hround := hi.round_found hcan hfit hfront
      refine ⟨_, [h], ?_, .last hround, List.isChain_singleton h,
        .inl ⟨h, l, s, rfl, hi, hfit, rfl, ?_, rfl⟩⟩
      · rw [kmallocFrom_round, hround]
        rfl
      · rw [tailStart_snoc, if_pos rfl]
  | succ k ih =>
      have hnone : ∀ u ∈ l ++ [t], ¬ Fits a u := by
        intro u hu
        cases List.mem_append.mp hu with
        | inl hl => exact hfront u hl
        | inr hlast =>
            obtain rfl := List.mem_singleton.mp hlast
            rintro ⟨hfree, hsize⟩
            have hshort := hleast 0 (Nat.succ_pos k)
            rw [tailRoom_snoc, if_pos hfree] at hshort
            omega
      have hround := hi.round_none hcan hnone
      rcases hi.expand_cases hcan with ⟨h', hrun, -, -⟩ | ⟨h', hrun, hi', hcan', hfewer⟩
      · rw [hrun, Option.map_some, if_neg Bool.false_ne_true] at hround
        refine ⟨(null, h'), [h], ?_, .last hround, List.isChain_singleton h,
          .inr ⟨0, h, Nat.succ_pos k, rfl, hrun, rfl⟩⟩
        rw [kmallocFrom_round, hround]
        rfl
      · rw [hrun, Option.map_some, if_pos rfl] at hround
        obtain ⟨-, hspan, htail⟩ := growTiles_spec l t
        have hstart := tailStart_grow l t
        obtain ⟨l', t', hgrown, hfront'⟩ := grow_front hnone
        rw [hgrown] at hi' hcan' hspan htail hstart
        obtain ⟨fuel, rfl⟩ := Nat.exists_eq_succ_of_ne_zero (n := fuel) (by omega)
        obtain ⟨result, hs, hfrom, hrounds, hshrink, hgrows⟩ :=
          ih hi' hcan' hfront' (fun j hj => by have := hleast (j + 1) (by omega); omega)
            (by omega) fuel (by omega)
        refine ⟨result, h :: hs, ?_, .next hround hrounds, ?_, hgrows.expanded hrun hstart hspan⟩
        · rw [kmallocFrom_round, hround]
          exact hfrom
        · refine List.isChain_cons.mpr ⟨?_, hshrink⟩
          intro g hg
          rw [hrounds.head] at hg
          obtain rfl := Option.some.inj hg
          exact hfewer

/-- The pages the free space at the end lacks. -/
theorem exists_least_pages (room a : Nat) :
    ∃ k, (∀ j < k, room + 4096 * j < a + 32) ∧ a + 32 ≤ room + 4096 * k ∧ k < a / 4096 + 3 := by
  refine ⟨(a + 32 - room + 4095) / 4096, ?_, by omega, by omega⟩
  intro j hj
  omega

/-- `kmalloc` of a canonical heap: the first block that fits, or the
growth of the last one. -/
theorem HeapInv.kmalloc_cases (hi : HeapInv h ts) (hcan : Canonical ts) {size : Nat}
    (hsize : size ≠ 0) :
    (∃ l s r, ts = l ++ ⟨s, true⟩ :: r ∧ alignSize size ≤ s ∧ (∀ u ∈ l, ¬ Fits (alignSize size) u)
        ∧ Mm.kmalloc size h = some (heapStartAddress + span 32 l + 32,
          takeBlock (heapStartAddress + span 32 l) (alignSize size) h)
        ∧ KmallocRounds (alignSize size) h [h] (heapStartAddress + span 32 l + 32,
          takeBlock (heapStartAddress + span 32 l) (alignSize size) h))
      ∨ (∀ t ∈ ts, ¬ Fits (alignSize size) t) ∧ ∃ k result hs,
        (∀ j < k, tailRoom 32 ts + 4096 * j < alignSize size + 32)
        ∧ alignSize size + 32 ≤ tailRoom 32 ts + 4096 * k
        ∧ Mm.kmalloc size h = some result ∧ KmallocRounds (alignSize size) h hs result
        ∧ PagesShrink hs ∧ GrowsTo ts (alignSize size) k h result := by
  rw [Mm.kmalloc, if_neg hsize]
  rcases hi.findFreeBlock (alignSize size) with ⟨-, hnone⟩ | ⟨l, s, r, rfl, hfit, hfront, -⟩
  · obtain ⟨k, hleast, hroom, hfuel⟩ := exists_least_pages (tailRoom 32 ts) (alignSize size)
    obtain ⟨l, t, rfl⟩ := (List.eq_nil_or_concat ts).resolve_left hi.ne_nil
    rw [List.concat_eq_append] at *
    obtain ⟨result, hs, hrun, hrounds, hshrink, hgrows⟩ :=
      hi.kmallocFrom_grows hcan (fun u hu => hnone u (List.mem_append_left _ hu)) hleast hroom hfuel
    exact .inr ⟨hnone, k, result, hs, hleast, hroom, hrun, hrounds, hshrink, hgrows⟩
  · have hround := hi.round_found hcan hfit hfront
    refine .inl ⟨l, s, r, rfl, hfit, hfront, ?_, .last hround⟩
    rw [kmallocFrom_round, hround]
    rfl

end ZenithOS.Mm
