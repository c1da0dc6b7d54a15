/-
What the heap has and what it takes.

# Blocks

`HasBlocks h ps` is what a client that holds the pointers `ps` has to
know of the heap: it is sound, and they are allocated. `kmalloc`, `kfree`
and stores into a block are specified by what they do to it.

# Pages

Like the walks of the page tables, `kmalloc` only ever takes pages
(`TakesOnly`); the page of a commit that fails is not given back.
-/
import ZenithOS.Mm.HeapRun
import ZenithOS.Mm.Proofs.Heap

namespace ZenithOS.Mm

open Lib Vmm

variable {h h' : Heap} {ts : List Tile} {p a prev fuel : Nat} {m : Mem}

-- ========================================================= live allocations

/-- Along a run the walk finds the payloads in use. -/
theorem liveFrom_run (hblocks : BlocksAt m prev a ts null) (ha : 0 < a)
    (hlt : a + span 32 ts < 2 ^ 64) (hfuel : ts.length < fuel) :
    liveFrom m fuel (ptrTo a ts null) = (used 32 a ts).map Prod.fst := by
  induction ts generalizing prev a fuel with
  | nil =>
      cases fuel with
      | zero => exact absurd hfuel (Nat.not_lt_zero _)
      | succ fuel => rfl
  | cons t ts ih =>
      cases fuel with
      | zero => exact absurd hfuel (Nat.not_lt_zero _)
      | succ fuel =>
          have ha0 : a ≠ null := Nat.ne_of_gt ha
          rw [span] at hlt
          have hpayload : blockPayload a = a + 32 := wordAdd_eq (by show a + 32 < 2 ^ 64; omega)
          have hrest := ih hblocks.2 (by omega) (by omega) (Nat.lt_of_succ_lt_succ hfuel)
          rw [ptrTo, liveFrom, if_neg ha0, hblocks.1.free, hblocks.1.next, hrest, hpayload, used]
          cases t.free with
          | true => rfl
          | false => rfl

/-- The live allocations are the payloads' addresses. -/
theorem HeapInv.liveAllocations_eq (hi : HeapInv h ts) :
    liveAllocations h = (payloads ts).map Prod.fst := by
  have hlt := hi.end_lt
  have hptr : heapStartAddress = ptrTo heapStartAddress ts null := by
    cases hts : ts with
    | nil => exact absurd hts hi.ne_nil
    | cons t ts => rfl
  rw [liveAllocations, hi.head, hptr]
  exact liveFrom_run hi.blocks heapStart_pos (by omega) hi.length_lt_fuel

/-- An allocation that fails leaves the live allocations as they are. -/
theorem HeapInv.live_of_null {ts' : List Tile} {n : Nat} (hi : HeapInv h ts)
    (hi' : HeapInv h' ts') (halloc : Allocates n null ts ts') :
    liveAllocations h' = liveAllocations h := by
  rcases halloc with ⟨-, heq⟩ | ⟨hne, -⟩
  · rw [hi.liveAllocations_eq, hi'.liveAllocations_eq, heq]
  · exact absurd rfl hne

/-- An allocation that succeeds adds one. -/
theorem HeapInv.live_of_new {ts' : List Tile} {n : Nat} (hi : HeapInv h ts)
    (hi' : HeapInv h' ts') (halloc : Allocates n p ts ts') (hp : p ≠ null) :
    (liveAllocations h').Perm (p :: liveAllocations h) ∧ p ∉ liveAllocations h := by
  rcases halloc with ⟨heq, -⟩ | ⟨-, s, -, hperm⟩
  · exact absurd heq hp
  · rw [hi.liveAllocations_eq, hi'.liveAllocations_eq]
    have hmap := hperm.map Prod.fst
    have hnodup := hmap.nodup_iff.mp (used_nodup (by decide) heapStartAddress ts')
    exact ⟨hmap, (List.nodup_cons.mp hnodup).1⟩

-- ============================================================== pages taken

@[simp] theorem kfree_vm (p : Nat) (h : Heap) : (kfree p h).vm = h.vm := by
  rw [kfree]
  split_ifs
  · rfl
  · rfl

section Keeps

variable {P : Pmm → Prop} (hP : TakesOnly P)

include hP

/-- A commit keeps what taking pages keeps. -/
theorem heapCommitPage_keeps (hpmm : P h.vm.pmm) (va : Nat) :
    P (heapCommitPage va h).2.vm.pmm := by
  rw [heapCommitPage]
  dsimp only
  split_ifs
  · exact hpmm
  · exact hP.alloc h.vm.pmm hpmm
  · have hmap := pageTableMap_keeps hP (v := { h.vm with pmm := (pmmAllocPage h.vm.pmm).2 })
      (hP.alloc h.vm.pmm hpmm) va (pmmAllocPage h.vm.pmm).1 pageWritable
    cases hr : pageTableMapPage { h.vm with pmm := (pmmAllocPage h.vm.pmm).2 } va
        (pmmAllocPage h.vm.pmm).1 true with
    | mk done vm =>
        rw [pageTableMapPage, if_pos rfl] at hr
        rw [hr] at hmap
        cases done with
        | false => exact hmap
        | true => exact hmap

/-- So does `heap_expand`. -/
theorem heapExpand_keeps (hpmm : P h.vm.pmm) {done : Bool}
    (hrun : heapExpand h = some (done, h')) : P h'.vm.pmm := by
  rw [heapExpand] at hrun
  cases hvma : h.heapVma with
  | none =>
      simp only [hvma] at hrun
      cases hrun
      exact hpmm
  | some vma =>
      have hcommit := heapCommitPage_keeps hP hpmm h.committedEnd
      simp only [hvma] at hrun
      cases hr : heapCommitPage h.committedEnd h with
      | mk ok h₁ =>
          rw [hr] at hcommit
          simp only [hr] at hrun
          cases ok with
          | false =>
              cases hrun
              exact hcommit
          | true =>
              obtain ⟨last, -, hrun⟩ := Option.bind_eq_some_iff.mp hrun
              cases hrun
              exact hcommit

end Keeps

-- what `heap_expand` carries on, whatever the blocks are

section Carries

variable {Q : Vm → Nat → Prop}
  (hQ : ∀ h h' done, Q h.vm h.committedEnd → heapExpand h = some (done, h') →
    Q h'.vm h'.committedEnd)

include hQ

/-- What each growth carries over, `heap_grow` does. -/
theorem heapGrowFrom_carries (h₀ : Q h.vm h.committedEnd) {bytes : Nat} {done : Bool}
    (hrun : heapGrowFrom bytes fuel h = some (done, h')) : Q h'.vm h'.committedEnd := by
  induction fuel generalizing h with
  | zero => cases hrun
  | succ fuel ih =>
      rw [heapGrowFrom] at hrun
      split_ifs at hrun with hmore
      · cases hr : heapExpand h with
        | none =>
            simp only [hr] at hrun
            cases hrun
        | some r =>
            obtain ⟨ok, h₁⟩ := r
            have hexpand := hQ h h₁ ok h₀ hr
            simp only [hr] at hrun
            cases ok with
            | false =>
                cases hrun
                exact hexpand
            | true => exact ih hexpand hrun
      · cases hrun
        exact h₀

/-- What each growth carries over, the loop of `kmalloc` does. -/
theorem kmallocFrom_carries (h₀ : Q h.vm h.committedEnd) {size : Nat}
    (hrun : kmallocFrom size fuel h = some (p, h')) : Q h'.vm h'.committedEnd := by
  induction fuel generalizing h with
  | zero => cases hrun
  | succ fuel ih =>
      rw [kmallocFrom] at hrun
      obtain ⟨h₁, hcoalesce, hrun⟩ := Option.bind_eq_some_iff.mp hrun
      obtain ⟨block, -, hrun⟩ := Option.bind_eq_some_iff.mp hrun
      obtain ⟨m, -, rfl⟩ := Option.map_eq_some_iff.mp hcoalesce
      split_ifs at hrun with hblock
      · cases hrun
        exact h₀
      · obtain ⟨⟨grown, h₂⟩, hgrow, hrun⟩ := Option.bind_eq_some_iff.mp hrun
        have h₂' : Q h₂.vm h₂.committedEnd :=
          heapGrowFrom_carries hQ (h := { h with mem := m }) h₀ hgrow
        dsimp only at hrun
        split_ifs at hrun with hok
        · exact ih h₂' hrun
        · cases hrun
          exact h₂'

/-- What each growth carries over, an allocation does. -/
theorem kmallocUnless_carries (h₀ : Q h.vm h.committedEnd) {refuse : Bool} {size : Nat}
    (hrun : kmallocUnless refuse size h = some (p, h')) : Q h'.vm h'.committedEnd := by
  rw [kmallocUnless, kmalloc] at hrun
  split_ifs at hrun
  · cases hrun
    exact h₀
  · cases hrun
    exact h₀
  · exact kmallocFrom_carries hQ h₀ hrun

end Carries

/-- `kmalloc` takes pages. -/
theorem kmallocFrom_keeps {P : Pmm → Prop} (hP : TakesOnly P) (hpmm : P h.vm.pmm) {size : Nat}
    (hrun : kmallocFrom size fuel h = some (p, h')) : P h'.vm.pmm :=
  kmallocFrom_carries (Q := fun v _ => P v.pmm)
    (fun _ _ _ h₀ hexpand => heapExpand_keeps hP h₀ hexpand) hpmm hrun

/-- An allocation keeps what taking pages keeps. -/
theorem kmallocUnless_keeps {P : Pmm → Prop} (hP : TakesOnly P) (hpmm : P h.vm.pmm)
    {refuse : Bool} {size : Nat} (hrun : kmallocUnless refuse size h = some (p, h')) :
    P h'.vm.pmm :=
  kmallocUnless_carries (Q := fun v _ => P v.pmm)
    (fun _ _ _ h₀ hexpand => heapExpand_keeps hP h₀ hexpand) hpmm hrun

-- ======================================================= the page of a commit

/-- The heap cannot get a page. -/
def NoPage (h : Heap) : Prop :=
  h.heapVma = none ∨ h.refusals.headD .granted = .noPage ∨ ∀ a, ¬ PmmClear h.vm.pmm a

/-- From `v` to `v'` a frame came into use. -/
def TakesFrame (v v' : Vm) : Prop := ∃ a, PmmClear v.pmm a ∧ ¬ PmmClear v'.pmm a

/-- It stays so while frames are only taken. -/
theorem TakesFrame.within {v v' v'' : Vm} (ht : TakesFrame v v')
    (hv : PmmWithin v'.pmm v''.pmm) : TakesFrame v v'' := by
  obtain ⟨a, ha, hused⟩ := ht
  exact ⟨a, ha, fun hfree => hused (hv.2 a hfree)⟩

/-- A commit takes one frame, or fails for want of it, or loses it. -/
theorem heapCommitPage_frame (hp : PmmInv h.vm.pmm) {va : Nat} {done : Bool}
    (hrun : heapCommitPage va h = (done, h')) :
    done = false ∧ (h.refusals.headD .granted = .noPage ∨ ∀ a, ¬ PmmClear h.vm.pmm a)
        ∧ h'.vm = h.vm
      ∨ h.refusals.headD .granted ≠ .noPage ∧ TakesFrame h.vm h'.vm := by
  unfold heapCommitPage at hrun
  dsimp only at hrun
  by_cases hpage : h.refusals.headD .granted = .noPage
  · rw [if_pos hpage] at hrun
    cases hrun
    exact .inl ⟨rfl, .inl hpage, rfl⟩
  rw [if_neg hpage] at hrun
  rcases hp.alloc_cases with hnull | ⟨g, pmm, halloc, hg, hinv, hclear⟩
  · simp only [hnull, true_or, if_true] at hrun
    cases hrun
    refine .inl ⟨rfl, .inr (hp.alloc_null_iff.mp ?_), rfl⟩
    rw [hnull]
  · have htaken : TakesFrame h.vm { h.vm with pmm := pmm } :=
      ⟨g, hg, fun hfree => ((hclear g).mp hfree).2 rfl⟩
    simp only [halloc] at hrun
    split_ifs at hrun
    · cases hrun
      exact .inr ⟨hpage, htaken⟩
    · have hwithin := pageTableMap_keeps (takesOnly_within pmm)
        (v := { h.vm with pmm := pmm }) (PmmWithin.refl hinv) va g pageWritable
      cases hr : pageTableMapPage { h.vm with pmm := pmm } va g true with
      | mk mapped vm =>
          rw [pageTableMapPage, if_pos rfl] at hr
          rw [hr] at hwithin
          rw [pageTableMapPage, if_pos rfl, hr] at hrun
          cases mapped with
          | false =>
              cases hrun
              exact .inr ⟨hpage, htaken.within hwithin⟩
          | true =>
              cases hrun
              exact .inr ⟨hpage, htaken.within hwithin⟩

/-- `heap_expand` takes a frame whenever it can. -/
theorem heapExpand_frame (hp : PmmInv h.vm.pmm) {done : Bool}
    (hrun : heapExpand h = some (done, h')) :
    done = false ∧ NoPage h ∧ h'.vm = h.vm ∨ ¬ NoPage h ∧ TakesFrame h.vm h'.vm := by
  unfold heapExpand at hrun
  cases hvma : h.heapVma with
  | none =>
      simp only [hvma] at hrun
      cases hrun
      exact .inl ⟨rfl, .inl hvma, rfl⟩
  | some vma =>
      simp only [hvma] at hrun
      have hpage : h.refusals.headD .granted ≠ .noPage →
          ∀ v', TakesFrame h.vm v' → ¬ NoPage h := by
        rintro hne v' ⟨a, ha, -⟩ (hnone | hrefused | hnever)
        · rw [hvma] at hnone
          cases hnone
        · exact hne hrefused
        · exact hnever a ha
      cases hr : heapCommitPage h.committedEnd h with
      | mk ok h₁ =>
          simp only [hr] at hrun
          rcases heapCommitPage_frame hp hr with ⟨rfl, hnone, hvm⟩ | ⟨hne, htaken⟩
          · cases hrun
            exact .inl ⟨rfl, .inr hnone, hvm⟩
          · refine .inr ⟨hpage hne _ htaken, ?_⟩
            cases ok with
            | false =>
                cases hrun
                exact htaken
            | true =>
                obtain ⟨last, -, hrun⟩ := Option.bind_eq_some_iff.mp hrun
                cases hrun
                exact htaken

/-- `kmalloc` finds no block of the size, before it grows the heap. -/
def NoBlock (size : Nat) (h : Heap) : Prop :=
  ((coalesceFreeBlocks h).bind fun h => findFreeBlock h (alignSize size)) = some null

/-- A `kmalloc` that fails has found no block, and has taken a frame
unless it could not get one. -/
theorem HeapInv.kmalloc_null (hi : HeapInv h ts) {size : Nat} (hsize : size ≠ 0)
    (hrun : Mm.kmalloc size h = some (null, h')) :
    NoBlock size h ∧ (NoPage h ∧ h'.vm = h.vm ∨ ¬ NoPage h ∧ TakesFrame h.vm h'.vm) := by
  rw [Mm.kmalloc, if_neg hsize] at hrun
  obtain ⟨m, hcoalesce, hi₁, -⟩ := hi.coalesce
  unfold NoBlock
  rw [hcoalesce, Option.bind_some]
  rcases hi₁.findFreeBlock (alignSize size) with ⟨hfind, -⟩ | ⟨l, s, r, hsplit, -, -, hfind⟩
  · refine ⟨hfind, ?_⟩
    obtain ⟨done, h₁, ts', hexpand, hi', -⟩ := hi₁.expand
    have hframe := heapExpand_frame hi₁.pmm hexpand
    rw [kmallocFrom_grow hcoalesce hfind (hi₁.grow_eq.trans hexpand)] at hrun
    cases done with
    | false =>
        rw [if_neg Bool.false_ne_true] at hrun
        cases hrun
        exact hframe.imp_left And.right
    | true =>
        rw [if_pos rfl] at hrun
        rcases hframe with ⟨hdone, -⟩ | ⟨hpage, htaken⟩
        · cases hdone
        · exact .inr ⟨hpage, htaken.within
            (kmallocFrom_keeps (takesOnly_within h₁.vm.pmm) (PmmWithin.refl hi'.pmm) hrun)⟩
  · -- a block was found, and its payload is no null pointer
    obtain ⟨hpos, hpayload⟩ := HeapInv.payload (hsplit ▸ hi₁)
    rw [kmallocFrom_found hcoalesce hfind hpos, hpayload] at hrun
    have hnull := (Prod.mk.inj (Option.some.inj hrun)).1
    exact absurd hnull (Nat.succ_ne_zero _)

/-- Without a block and without a page `kmalloc` fails. -/
theorem HeapInv.kmalloc_of_none (hi : HeapInv h ts) {size : Nat} (hsize : size ≠ 0)
    (hblock : NoBlock size h) (hpage : NoPage h) : ∃ h', Mm.kmalloc size h = some (null, h') := by
  obtain ⟨m, hcoalesce, hi₁, -⟩ := hi.coalesce
  unfold NoBlock at hblock
  rw [hcoalesce, Option.bind_some] at hblock
  obtain ⟨done, h₁, ts', hexpand, -⟩ := hi₁.expand
  rcases heapExpand_frame hi₁.pmm hexpand with ⟨rfl, -, -⟩ | ⟨hnot, -⟩
  · refine ⟨h₁, ?_⟩
    rw [Mm.kmalloc, if_neg hsize, kmallocFrom_grow hcoalesce hblock (hi₁.grow_eq.trans hexpand),
      if_neg Bool.false_ne_true]
  · exact absurd hpage hnot

-- ================================================================== blocks

/-- The heap is sound, and the blocks at `ps` are allocated. -/
def HasBlocks (h : Heap) (ps : List Nat) : Prop :=
  ∃ ts, HeapInv h ts ∧ ∀ p ∈ ps, ∃ n, (p, n) ∈ payloads ts

variable {ps : List Nat}

/-- Stores inside one block in use. -/
theorem HeapInv.storeBlock {n : Nat} (hi : HeapInv h ts) (hp : (p, n) ∈ payloads ts)
    (hm : ∀ x, x < p ∨ p + n ≤ x → m x = h.mem x) : HeapInv { h with mem := m } ts := by
  apply hi.store
  intro x hx
  apply hm
  by_contra hin
  exact hx ⟨(p, n), hp, by dsimp only; omega, by dsimp only; omega⟩

/-- A block that is held is live. -/
theorem HasBlocks.live (hb : HasBlocks h ps) (hp : p ∈ ps) : p ∈ liveAllocations h := by
  obtain ⟨ts, hi, hall⟩ := hb
  obtain ⟨n, hn⟩ := hall p hp
  rw [hi.liveAllocations_eq]
  exact List.mem_map.mpr ⟨(p, n), hn, rfl⟩

/-- Fewer blocks are held too. -/
theorem HasBlocks.mono {ps' : List Nat} (hb : HasBlocks h ps) (hsub : ∀ p ∈ ps', p ∈ ps) :
    HasBlocks h ps' := by
  obtain ⟨ts, hi, hall⟩ := hb
  exact ⟨ts, hi, fun p hp => hall p (hsub p hp)⟩

/-- `kmalloc` adds a block that nobody holds. -/
theorem HasBlocks.kmalloc (hb : HasBlocks h ps) {refuse : Bool} {size : Nat}
    (hrun : kmallocUnless refuse size h = some (p, h')) :
    (p = null ∧ HasBlocks h' ps) ∨ p ≠ null ∧ p ∉ ps ∧ HasBlocks h' (p :: ps) := by
  obtain ⟨ts, hi, hall⟩ := hb
  obtain ⟨q, h₁, ts', hspec, hi', halloc, -⟩ := kmallocUnless_spec hi refuse size
  rw [hrun] at hspec
  cases hspec
  have hkept : ∀ p ∈ ps, ∃ n, (p, n) ∈ payloads ts' := by
    intro p hp
    obtain ⟨n, hn⟩ := hall p hp
    exact ⟨n, halloc.mono hn⟩
  by_cases hnull : p = null
  · exact .inl ⟨hnull, ts', hi', hkept⟩
  · obtain ⟨hperm, hfresh⟩ := hi.live_of_new hi' halloc hnull
    refine .inr ⟨hnull, ?_, ts', hi', ?_⟩
    · intro hp
      exact hfresh (HasBlocks.live ⟨ts, hi, hall⟩ hp)
    · intro q hq
      cases List.mem_cons.mp hq with
      | inr hold => exact hkept q hold
      | inl heq =>
          have hmem : p ∈ liveAllocations h' := hperm.mem_iff.mpr List.mem_cons_self
          rw [hi'.liveAllocations_eq] at hmem
          obtain ⟨u, hu, hfst⟩ := List.mem_map.mp hmem
          exact ⟨u.2, by rw [heq, ← hfst]; exact hu⟩

/-- `kfree` of a held block leaves the others. -/
theorem HasBlocks.kfree (hb : HasBlocks h ps) (hp : p ∈ ps) :
    HasBlocks (kfree p h) (ps.filter (· ≠ p)) := by
  obtain ⟨ts, hi, hall⟩ := hb
  obtain ⟨n, hn⟩ := hall p hp
  obtain ⟨ts', hi', hperm, -⟩ := hi.kfree hn
  refine ⟨ts', hi', ?_⟩
  intro q hq
  obtain ⟨hq, hne⟩ := List.mem_filter.mp hq
  obtain ⟨k, hk⟩ := hall q hq
  refine ⟨k, ?_⟩
  cases List.mem_cons.mp (hperm.mem_iff.mp hk) with
  | inl heq => exact absurd (congrArg Prod.fst heq) (of_decide_eq_true hne)
  | inr hmem => exact hmem

/-- A block just allocated is freed again. -/
theorem HasBlocks.kfree_new (hb : HasBlocks h (p :: ps)) (hp : p ∉ ps) :
    HasBlocks (Mm.kfree p h) ps := by
  apply (hb.kfree List.mem_cons_self).mono
  intro q hq
  refine List.mem_filter.mpr ⟨List.mem_cons_of_mem p hq, decide_eq_true ?_⟩
  intro heq
  exact hp (heq ▸ hq)

/-- The page tables and the page allocator move on, and pages are only
taken. -/
theorem HasBlocks.withVm {v : Vm} (hb : HasBlocks h ps) (hv : PmmWithin h.vm.pmm v.pmm) :
    HasBlocks { h with vm := v } ps := by
  obtain ⟨ts, hi, hall⟩ := hb
  have hfree := freePages_le hi.pmm hv.1 hv.2
  have hroom := hi.room
  exact ⟨ts, ⟨hi.head, hi.start, hi.blocks, hi.ne_nil, hi.sizes, hi.stop, hi.size, hv.1,
    by show span 32 ts + 4096 * v.pmm.freePages ≤ 2 ^ 33; omega⟩, hall⟩

end ZenithOS.Mm
