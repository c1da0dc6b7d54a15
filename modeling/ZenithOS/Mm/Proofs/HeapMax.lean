/-
The limit the heap declares, and when its calls keep to it.

`HEAP_MAX_SIZE` is declared and used nowhere: the loop of `kmalloc` grows
the heap until the request fits or no page is left. So a call passes the
limit when the pages it lacks can all be had and are too many; and when
they cannot all be had it keeps those it got before it failed. A call
does neither just when it lacks none, gets none, or gets them all and
stays below (`GrowsWithin`).
-/
import ZenithOS.Mm.Proofs.HeapCalls

namespace ZenithOS.Mm

open Lib Vmm

variable {y y' : HeapSys} {h h' : Heap} {ts : List Tile} {p k size : Nat} {call : HeapCall}

-- ================================================================ the request

/-- The heap lacks `k` pages for `a` bytes at its end. -/
def LacksPages (h : Heap) (a k : Nat) : Prop :=
  ∃ ts, BlockList h ts ∧ LastFits ts a k ∧ ∀ j < k, ¬ LastFits ts a j

/-- The request needs no page, or the heap can get no page at all, or it
gets all it lacks and stays within the limit. -/
def GrowsWithin (size : Nat) (h : Heap) : Prop :=
  size = 0 ∨ ¬ NoBlock size h ∨ NoPage h
    ∨ ∃ k g, LacksPages h (alignSize size) k ∧ heapExpandTimes k h = some (true, g)
      ∧ heapCommittedSize h + 4096 * k ≤ heapMaxSize

/-- The call's request, if it makes one, grows the heap within the limit. -/
def HeapCall.GrowsWithin (y : HeapSys) (call : HeapCall) : Prop :=
  ∀ size, call.request y = some size → Mm.GrowsWithin size y.heap

/-- After the call the heap is within the limit, and a request that
failed has not changed the number of free pages. -/
def RespectsLimit (y : HeapSys) (call : HeapCall) (y' : HeapSys) : Prop :=
  heapCommittedSize y'.heap ≤ heapMaxSize
    ∧ ∀ size h', call.request y = some size → kmalloc size y.heap = some (null, h') →
      y'.heap.vm.pmm.freePages = y.heap.vm.pmm.freePages

/-- The number of pages that lack is one number. -/
theorem HeapInv.lacksPages_unique (hi : HeapInv h ts) {a j k : Nat} (hj : LacksPages h a j)
    (hleast : ∀ i < k, tailRoom 32 ts + 4096 * i < a + 32)
    (hroom : a + 32 ≤ tailRoom 32 ts + 4096 * k) : j = k := by
  obtain ⟨us, hlist, hfits, hless⟩ := hj
  obtain rfl : us = ts := by
    have hblocks := hlist.blocks
    rw [hi.start] at hblocks
    exact hblocks.unique heapStart_pos hi.blocks hlist.ne_nil hi.ne_nil
  rw [lastFits_iff hi.ne_nil] at hfits
  refine Nat.le_antisymm (Nat.le_of_not_lt fun hlt => ?_) (Nat.le_of_not_lt fun hlt => ?_)
  · exact hless k hlt ((lastFits_iff hi.ne_nil).mpr hroom)
  · have hshort := hleast j hlt
    omega

/-- The pages that are needed at the end are those that the heap lacks,
and not none where no block is large enough. -/
theorem HeapInv.lacksPages (hi : HeapInv h ts) {a : Nat} (hnone : ∀ t ∈ ts, ¬ Fits a t)
    (hleast : ∀ i < k, tailRoom 32 ts + 4096 * i < a + 32)
    (hroom : a + 32 ≤ tailRoom 32 ts + 4096 * k) : LacksPages h a k ∧ k ≠ 0 := by
  refine ⟨⟨ts, hi.blockList, (lastFits_iff hi.ne_nil).mpr hroom, ?_⟩, ?_⟩
  · intro j hj hfits
    have hshort := hleast j hj
    rw [lastFits_iff hi.ne_nil] at hfits
    omega
  · rintro rfl
    obtain ⟨t, ht, hfits⟩ := exists_fit_of_tailRoom (w := 32) hroom (by omega)
    exact hnone t ht hfits

/-- A heap that gets a page is not without. -/
theorem not_noPage_of_times (hp : PmmInv h.vm.pmm) {g : Heap}
    (hg : heapExpandTimes (k + 1) h = some (true, g)) : ¬ NoPage h := by
  rw [heapExpandTimes] at hg
  cases hrun : heapExpand h with
  | none =>
      rw [hrun] at hg
      cases hg
  | some r =>
      obtain ⟨done, h₁⟩ := r
      rcases heapExpand_frame hp hrun with ⟨rfl, -, -⟩ | ⟨hpage, -⟩
      · rw [hrun] at hg
        cases hg
      · exact hpage

/-- What a `kmalloc` leaves committed, and the pages it has taken when it
fails, are within bounds just when its request is. -/
theorem SysInv.kmalloc_within (hi : SysInv y ts) (hmax : heapCommittedSize y.heap ≤ heapMaxSize)
    (hrun : Mm.kmalloc size y.heap = some (p, h')) :
    (heapCommittedSize h' ≤ heapMaxSize
        ∧ (p = null → h'.vm.pmm.freePages = y.heap.vm.pmm.freePages))
      ↔ GrowsWithin size y.heap := by
  by_cases hsize : size = 0
  · rw [Mm.kmalloc, if_pos hsize] at hrun
    cases hrun
    exact iff_of_true ⟨hmax, fun _ => rfl⟩ (.inl hsize)
  rw [GrowsWithin, or_iff_right hsize]
  rcases hi.heap.kmalloc_cases hi.canonical hsize with
    ⟨l, s, r, rfl, hfit, hfront, hrun', -⟩ |
    ⟨hnone, k, result, hs, hleast, hroom, hrun', -, -, hgrows⟩
  · -- a block is large enough: nothing is committed
    cases hrun.symm.trans hrun'
    refine iff_of_true ⟨hmax, fun hnull => absurd hnull (Nat.succ_ne_zero _)⟩ (.inl ?_)
    rw [hi.heap.noBlock_iff hi.canonical]
    exact fun hnone => hnone ⟨s, true⟩ (by simp) ⟨rfl, hfit⟩
  · obtain rfl : (p, h') = result := Option.some.inj (hrun.symm.trans hrun')
    have hblock : NoBlock size y.heap := (hi.heap.noBlock_iff hi.canonical).mpr hnone
    obtain ⟨hlacks, hk⟩ := hi.heap.lacksPages hnone hleast hroom
    obtain ⟨k, rfl⟩ := Nat.exists_eq_succ_of_ne_zero hk
    rw [or_iff_right (not_not.mpr hblock)]
    rcases hgrows with ⟨g, l, s, hg, hi', -, hspan, -, hresult⟩ | ⟨j, g, hj, hg, hfail, hnull⟩
    · -- all the pages were had
      obtain ⟨hp, rfl⟩ := Prod.mk.inj hresult
      have hne : p ≠ null := by
        rw [hp]
        exact Nat.succ_ne_zero _
      have hcommitted : heapCommittedSize (takeBlock (heapStartAddress + span 32 l)
          (alignSize size) g) = heapCommittedSize y.heap + 4096 * (k + 1) := by
        show heapCommittedSize g = _
        rw [hi'.committed, hi.heap.committed, hspan]
      rw [hcommitted, and_iff_left fun hnull => absurd hnull hne,
        or_iff_right (not_noPage_of_times hi.heap.pmm hg)]
      constructor
      · intro hle
        exact ⟨k + 1, g, hlacks, hg, hle⟩
      · intro hwithin
        obtain ⟨j, g', hj, -, hle⟩ := hwithin
        rwa [hi.heap.lacksPages_unique hj hleast hroom] at hle
    · -- one of them was not
      obtain rfl : p = null := hnull
      have hstop : ¬ ∃ k' g', LacksPages y.heap (alignSize size) k'
          ∧ heapExpandTimes k' y.heap = some (true, g')
          ∧ heapCommittedSize y.heap + 4096 * k' ≤ heapMaxSize := by
        intro hwithin
        obtain ⟨k', g', hk', hg', -⟩ := hwithin
        rw [hi.heap.lacksPages_unique hk' hleast hroom] at hg'
        rw [heapExpandTimes_failed hg hfail hj] at hg'
        cases hg'
      rw [or_iff_left hstop]
      obtain ⟨-, hframe⟩ := hi.heap.kmalloc_null hsize hrun
      rcases hframe with ⟨hpage, hvm⟩ | ⟨hpage, htaken⟩
      · refine iff_of_true ⟨?_, fun _ => by rw [hvm]⟩ hpage
        -- the first page was refused
        cases j with
        | zero =>
            obtain rfl : y.heap = g := (Prod.mk.inj (Option.some.inj hg)).2
            rcases heapExpand_pages hi.heap.pmm hfail with ⟨-, heq, -⟩ | ⟨hdone, -⟩
            · have hsame := congrArg heapCommittedSize heq
              exact hsame.trans_le hmax
            · cases hdone
        | succ j => exact absurd hpage (not_noPage_of_times hi.heap.pmm hg)
      · refine iff_of_false (fun hkept => ?_) hpage
        obtain ⟨a, ha, hused⟩ := htaken
        have hcall : kmallocUnless false size y.heap = some (null, h') := hrun
        have hwithin := kmallocUnless_keeps (takesOnly_within y.heap.vm.pmm)
          (PmmWithin.refl hi.heap.pmm) hcall
        have hfewer := freePages_lt hi.heap.pmm hwithin.1 hwithin.2 ha hused
        have hsame := hkept.2 rfl
        omega

-- =================================================================== a call

/-- From `y` to `h` the heap committed and took what the request of the
call does, if there is one. -/
def CommitsRequest (y : HeapSys) (call : HeapCall) (h : Heap) : Prop :=
  (call.request y = none ∧ heapCommittedSize h = heapCommittedSize y.heap)
    ∨ ∃ size p h', call.request y = some size ∧ Mm.kmalloc size y.heap = some (p, h')
      ∧ heapCommittedSize h = heapCommittedSize h' ∧ h.vm = h'.vm

/-- `kfree` gives no page back. -/
theorem heapCommittedSize_kfree (p : Nat) (h : Heap) :
    heapCommittedSize (kfree p h) = heapCommittedSize h := by
  rw [kfree]
  split_ifs
  · rfl
  · simp only [heapCommittedSize]

/-- `krealloc` commits what its request does. -/
theorem krealloc_commits {ptr : Nat} (hrun : krealloc ptr size y.heap = some (p, h)) :
    CommitsRequest y (.op (.krealloc ptr size)) h := by
  unfold CommitsRequest
  rw [HeapCall.request]
  rw [krealloc] at hrun
  by_cases hptr : ptr = null
  · rw [if_pos hptr] at hrun ⊢
    exact .inr ⟨size, p, h, rfl, hrun, rfl, rfl⟩
  rw [if_neg hptr] at hrun ⊢
  by_cases hsize : size = 0
  · rw [if_pos hsize] at hrun
    rw [if_pos (.inl hsize)]
    cases hrun
    exact .inl ⟨rfl, heapCommittedSize_kfree ptr y.heap⟩
  rw [if_neg hsize] at hrun
  dsimp only at hrun
  by_cases hlarge : liveSize y.heap ptr ≥ alignSize size
  · rw [if_pos (.inr hlarge)]
    rw [liveSize] at hlarge
    rw [if_pos hlarge] at hrun
    cases hrun
    exact .inl ⟨rfl, rfl⟩
  · rw [if_neg (not_or.mpr ⟨hsize, hlarge⟩)]
    rw [liveSize] at hlarge
    rw [if_neg hlarge] at hrun
    obtain ⟨⟨q, h'⟩, hmalloc, hrun⟩ := Option.bind_eq_some_iff.mp hrun
    refine .inr ⟨alignSize size, q, h', rfl, hmalloc, ?_⟩
    dsimp only at hrun
    split_ifs at hrun
    · cases hrun
      exact ⟨rfl, rfl⟩
    · cases hrun
      exact ⟨heapCommittedSize_kfree _ _, kfree_vm _ _⟩

/-- `kcalloc` commits what its request does. -/
theorem kcalloc_commits {count : Nat} (hrun : kcalloc count size y.heap = some (p, h)) :
    CommitsRequest y (.kcalloc count size) h := by
  unfold CommitsRequest
  rw [HeapCall.request]
  rw [kcalloc] at hrun
  by_cases hrefused : count = 0 ∨ size = 0 ∨ count > (2 ^ 64 - 1) / size
  · rw [if_pos hrefused]
    refine .inl ⟨rfl, ?_⟩
    split_ifs at hrun with hzero hwide
    · cases hrun
      rfl
    · cases hrun
      rfl
    · exact absurd hrefused (by tauto)
  · rw [if_neg hrefused]
    obtain ⟨hcount, hsize, hwide⟩ : count ≠ 0 ∧ size ≠ 0 ∧ ¬ count > (2 ^ 64 - 1) / size := by
      simpa only [not_or] using hrefused
    have hlt : count * size < 2 ^ 64 := by
      have hle := (Nat.le_div_iff_mul_le (Nat.pos_of_ne_zero hsize)).mp (Nat.le_of_not_lt hwide)
      omega
    rw [if_neg (not_or.mpr ⟨hcount, hsize⟩), if_neg hwide] at hrun
    obtain ⟨⟨q, h'⟩, hmalloc, hrun⟩ := Option.bind_eq_some_iff.mp hrun
    rw [Nat.mod_eq_of_lt hlt] at hmalloc
    refine .inr ⟨count * size, q, h', rfl, hmalloc, ?_⟩
    dsimp only at hrun
    split_ifs at hrun
    · cases hrun
      exact ⟨rfl, rfl⟩
    · cases hrun
      exact ⟨rfl, rfl⟩

/-- A call commits and takes what its request does. -/
theorem callStep_commits (hstep : callStep y call = some y') : CommitsRequest y call y'.heap := by
  cases call with
  | op o =>
      cases o with
      | kmalloc size =>
          obtain ⟨⟨p, h'⟩, hrun, rfl⟩ := Option.map_eq_some_iff.mp hstep
          exact .inr ⟨size, p, h', rfl, hrun, rfl, rfl⟩
      | kfree ptr =>
          cases hstep
          exact .inl ⟨rfl, heapCommittedSize_kfree ptr y.heap⟩
      | store ptr offset byte =>
          cases hstep
          exact .inl ⟨rfl, rfl⟩
      | krealloc ptr size =>
          obtain ⟨⟨p, h'⟩, hrun, rfl⟩ := Option.map_eq_some_iff.mp hstep
          exact krealloc_commits hrun
  | kcalloc count size =>
      obtain ⟨⟨p, h'⟩, hrun, rfl⟩ := Option.map_eq_some_iff.mp hstep
      exact kcalloc_commits hrun

/-- A call keeps to the limit just when its request does. -/
theorem SysInv.respects_iff (hi : SysInv y ts) (hmax : heapCommittedSize y.heap ≤ heapMaxSize)
    (hstep : callStep y call = some y') :
    RespectsLimit y call y' ↔ call.GrowsWithin y := by
  rcases callStep_commits hstep with ⟨hnone, hsame⟩ | ⟨size, p, h', hsome, hrun, hsame, hvm⟩
  · refine iff_of_true ⟨hsame ▸ hmax, ?_⟩ ?_
    · intro size h' hsome
      rw [hnone] at hsome
      cases hsome
    · intro size hsome
      rw [hnone] at hsome
      cases hsome
  · have hwithin : call.GrowsWithin y ↔ GrowsWithin size y.heap := by
      constructor
      · intro hall
        exact hall size hsome
      · intro hone size' hsome'
        obtain rfl := Option.some.inj (hsome.symm.trans hsome')
        exact hone
    rw [hwithin, ← hi.kmalloc_within hmax hrun, RespectsLimit, hsame, hvm]
    refine and_congr_right fun _ => ?_
    constructor
    · rintro hall rfl
      exact hall size h' hsome hrun
    · intro hnull size' h'' hsome' hrun'
      obtain rfl := Option.some.inj (hsome.symm.trans hsome')
      exact hnull (Prod.mk.inj (Option.some.inj (hrun.symm.trans hrun'))).1

-- ===================================================================== runs

/-- In every run whose requests grow the heap within the limit, the heap
is within the limit, and any further call keeps to it just when its
request does. -/
theorem heap_respects_limit (boot h : Heap) (hpmm : PmmInv boot.vm.pmm)
    (hinit : heapInit boot = (true, h)) (calls : List HeapCall)
    (hcalls : AllowedRun callStep (fun y call => call.Allowed y ∧ call.GrowsWithin y) ⟨h, []⟩
      calls) :
    ∃ y, runOps callStep ⟨h, []⟩ calls = some y
      ∧ heapCommittedSize y.heap ≤ heapMaxSize
      ∧ ∀ call, call.Allowed y → ∃ y', callStep y call = some y'
          ∧ (RespectsLimit y call y' ↔ call.GrowsWithin y) := by
  have hfirst : heapCommittedSize h ≤ heapMaxSize := by
    rw [(heapInit_inv hpmm hinit).committed]
    decide
  obtain ⟨y, hrun, ⟨ts, hi⟩, hmax⟩ := run_total
    (P := fun y => (∃ ts, SysInv y ts) ∧ heapCommittedSize y.heap ≤ heapMaxSize)
    (by
      intro y call hinv hcall
      obtain ⟨⟨ts, hi⟩, hmax⟩ := hinv
      obtain ⟨y', ts', hstep, hi'⟩ := hi.call hcall.1
      exact ⟨y', hstep, ⟨ts', hi'⟩, ((hi.respects_iff hmax hstep).mpr hcall.2).1⟩)
    ⟨⟨[⟨4064, true⟩], heapInit_inv hpmm hinit, List.isChain_singleton _, List.Perm.refl _⟩, hfirst⟩
    hcalls
  refine ⟨y, hrun, hmax, ?_⟩
  intro call hcall
  obtain ⟨y', -, hstep, -⟩ := hi.call hcall
  exact ⟨y', hstep, hi.respects_iff hmax hstep⟩

/-- The boot heap with its expansions granted, and four frames left. -/
def fourFrames : Heap := (heapInit { bootHeap with refusals := [] }).2

/-- A request for ten pages fails and leaves no frame. -/
theorem kmalloc_keeps_pages_of_failure :
    (heapInit { bootHeap with refusals := [] }).1 = true
      ∧ fourFrames.vm.pmm.freePages = 4
      ∧ (kmalloc 40000 fourFrames).map (fun r => (r.1, r.2.vm.pmm.freePages)) = some (null, 0) := by
  decide +kernel

/-- The call's request finds a block, so that it needs no page. -/
def HeapCall.FindsBlock (y : HeapSys) (call : HeapCall) : Prop :=
  ((call.request y).map fun size => (coalesceFreeBlocks y.heap).bind fun h =>
    findFreeBlock h (alignSize size)) ≠ some (some null)

instance (y : HeapSys) (call : HeapCall) : Decidable (call.FindsBlock y) :=
  inferInstanceAs (Decidable (_ ≠ _))

/-- A call that finds its block does not grow the heap. -/
theorem HeapCall.FindsBlock.growsWithin (hfinds : call.FindsBlock y) : call.GrowsWithin y := by
  intro size hsome
  refine .inr (.inl fun hblock => hfinds ?_)
  rw [hsome, Option.map_some]
  exact congrArg some hblock

/-- So it is with a request that is served within the limit. -/
theorem SysInv.growsWithin_of_served (hi : SysInv y ts)
    (hmax : heapCommittedSize y.heap ≤ heapMaxSize) (hstep : callStep y call = some y')
    (hmax' : heapCommittedSize y'.heap ≤ heapMaxSize)
    (hserved : ∀ size, call.request y = some size →
      (Mm.kmalloc size y.heap).map Prod.fst ≠ some null) : call.GrowsWithin y := by
  refine (hi.respects_iff hmax hstep).mp ⟨hmax', ?_⟩
  intro size h' hsome hnull
  exact absurd (by rw [hnull]; rfl) (hserved size hsome)

/-- A request larger than the first page, and what the second has left. -/
def secondPage : List HeapCall :=
  [.op (.kmalloc 5000), .op (.kmalloc 100), .kcalloc 3 8,
    .op (.krealloc 0xFFFF900000000020 200)]

/-- The heap is expanded once. -/
theorem heap_respects_limit_second_page :
    ∃ y, runOps callStep ⟨fourFrames, []⟩ secondPage = some y
      ∧ heapCommittedSize y.heap = 8192 ∧ heapCommittedSize y.heap ≤ heapMaxSize := by
  have hpmm : PmmInv { bootHeap with refusals := [] }.vm.pmm := bootHeap_pmm
  have hinit : heapInit { bootHeap with refusals := [] } = (true, fourFrames) :=
    Prod.ext (by decide) rfl
  have hinv : SysInv ⟨fourFrames, []⟩ [⟨4064, true⟩] :=
    ⟨heapInit_inv hpmm hinit, List.isChain_singleton _, List.Perm.refl _⟩
  have hvalues : (callStep ⟨fourFrames, []⟩ (.op (.kmalloc 5000))).map (fun y =>
      (decide (AllowedRun callStep (fun y call => call.Allowed y ∧ call.FindsBlock y) y
          secondPage.tail), heapCommittedSize y.heap)) = some (true, 8192) := by
    decide +kernel
  have hserved : (kmalloc 5000 fourFrames).map Prod.fst = some 0xFFFF900000000020 := by
    decide +kernel
  have hfinal : (runOps callStep ⟨fourFrames, []⟩ secondPage).map
      (fun y => heapCommittedSize y.heap) = some 8192 := by
    decide +kernel
  obtain ⟨y₁, hstep, hvalues⟩ := Option.map_eq_some_iff.mp hvalues
  injection hvalues with hrest hcommitted
  have hgrows : (HeapCall.op (.kmalloc 5000)).GrowsWithin ⟨fourFrames, []⟩ := by
    refine hinv.growsWithin_of_served (by decide +kernel) hstep (by rw [hcommitted]; decide) ?_
    intro size hsome
    obtain rfl : 5000 = size := Option.some.inj hsome
    rw [hserved]
    decide
  have hcalls : AllowedRun callStep (fun y call => call.Allowed y ∧ call.GrowsWithin y)
      ⟨fourFrames, []⟩ secondPage := by
    refine ⟨⟨trivial, hgrows⟩, ?_⟩
    rw [hstep]
    exact (of_decide_eq_true hrest).mono fun _ _ hcall => ⟨hcall.1, hcall.2.growsWithin⟩
  obtain ⟨y, hrun, hmax, -⟩ := heap_respects_limit { bootHeap with refusals := [] } fourFrames
    hpmm hinit secondPage hcalls
  rw [hrun, Option.map_some] at hfinal
  exact ⟨y, hrun, Option.some.inj hfinal, hmax⟩

end ZenithOS.Mm
