/-
The heap and its virtual memory area.

`heap_expand` has committed its page by the time it resizes the area, and
`heap_vma` is a pointer into a table whose entries move. What it takes
for the two to agree is a condition on the state before the call,
`AreaReady`: the pointer still leads to the heap's area, and no other
area is in the way of the new page. Calls on the other areas may come in
any order between the expansions.
-/
import ZenithOS.Mm.Proofs.HeapRun
import ZenithOS.Vmm.Proofs.Vma

namespace ZenithOS.Mm

open Lib Vmm

variable {h h' h₀ h₁ h₂ : Heap} {ts : List Tile} {done : Bool} {vma : Nat}

-- ============================================================ what is done

/-- Growth of the heap, and calls on the areas. -/
inductive AreaOp
  | heapExpand
  | vma (op : VmaOp)
  deriving DecidableEq, Repr

/-- One call; `none` when the code does not come back. -/
def areaStep (h : Heap) : AreaOp → Option Heap
  | .heapExpand => (heapExpand h).map Prod.snd
  | .vma op => some { h with vma := (vmaCall h.vma op).2 }

/-- The area at the heap's start is the committed heap, and no other area
meets it. -/
def ExactArea (h : Heap) : Prop :=
  ∃ i, vmaFind h.vma heapStartAddress = some i
    ∧ (h.vma.entry i).start = h.virtualStart ∧ (h.vma.entry i).stop = h.committedEnd
    ∧ ∀ j, j < h.vma.length → j ≠ i → ∀ a, h.virtualStart ≤ a → a < h.committedEnd →
        ¬ (h.vma.entry j).Covers a

/-- `heap_vma` leads to an area that starts with the heap, the first such
area is the one there, and the others leave room for a page. -/
structure AreaReady (h : Heap) : Prop where
  pointer : ∃ p, h.heapVma = some p ∧ (h.vma.entry p).start = heapStartAddress
  first : (h.vma.findIdx? fun v => v.start = heapStartAddress) = vmaFind h.vma heapStartAddress
  room : ∀ j, j < h.vma.length → vmaFind h.vma heapStartAddress ≠ some j →
    Clear heapStartAddress (h.committedEnd + pageSize) (h.vma.entry j)

-- ==================================================== what an expansion does

/-- A commit leaves the areas alone and moves the end by a page. -/
theorem heapCommitPage_areas {va : Nat} (hrun : heapCommitPage va h = (done, h')) :
    h'.vma = h.vma ∧ h'.heapVma = h.heapVma ∧ h'.virtualStart = h.virtualStart
      ∧ (done = true → h'.committedEnd = wordAdd h.committedEnd pageSize) := by
  rw [heapCommitPage] at hrun
  dsimp only at hrun
  split_ifs at hrun
  · cases hrun
    exact ⟨rfl, rfl, rfl, fun hd => by cases hd⟩
  · cases hrun
    exact ⟨rfl, rfl, rfl, fun hd => by cases hd⟩
  · cases hr : pageTableMapPage { h.vm with pmm := (pmmAllocPage h.vm.pmm).2 } va
        (pmmAllocPage h.vm.pmm).1 true with
    | mk mapped vm =>
        simp only [hr] at hrun
        cases mapped with
        | false =>
            cases hrun
            exact ⟨rfl, rfl, rfl, fun hd => by cases hd⟩
        | true =>
            cases hrun
            exact ⟨rfl, rfl, rfl, fun _ => rfl⟩

/-- `heap_expand` fails, or commits a page and resizes the heap's area. -/
theorem heapExpand_cases (hrun : heapExpand h = some (done, h')) :
    (done = false ∧ h'.vma = h.vma) ∨
    (done = true ∧ ∃ p, h.heapVma = some p ∧ h'.virtualStart = h.virtualStart
      ∧ h'.committedEnd = wordAdd h.committedEnd pageSize
      ∧ h'.vma = (vmaResize h.vma (h.vma.entry p).start
        (wordSub h'.committedEnd h'.virtualStart)).2) := by
  rw [heapExpand] at hrun
  cases hvma : h.heapVma with
  | none =>
      simp only [hvma] at hrun
      cases hrun
      exact .inl ⟨rfl, rfl⟩
  | some p =>
      simp only [hvma] at hrun
      cases hr : heapCommitPage h.committedEnd h with
      | mk ok h₁ =>
          obtain ⟨hareas, -, hstart, hend⟩ := heapCommitPage_areas hr
          simp only [hr] at hrun
          cases ok with
          | false =>
              cases hrun
              exact .inl ⟨rfl, hareas⟩
          | true =>
              obtain ⟨last, -, hrun⟩ := Option.bind_eq_some_iff.mp hrun
              cases hrun
              refine .inr ⟨rfl, p, rfl, hstart, hend rfl, ?_⟩
              dsimp only
              rw [hareas]

/-- `heap_init` leaves the areas alone. -/
theorem heapInit_vma (hinit : heapInit h = (done, h')) : h'.vma = h.vma := by
  rw [heapInit] at hinit
  dsimp only at hinit
  split_ifs at hinit
  · cases hinit
    rfl
  · cases hr : pageTableMapPage { h.vm with pmm := (pmmAllocPage h.vm.pmm).2 } heapStartAddress
        (pmmAllocPage h.vm.pmm).1 true with
    | mk mapped vm =>
        simp only [hr] at hinit
        cases mapped with
        | false =>
            cases hinit
            rfl
        | true =>
            cases hfind : vmaFind h.vma heapStartAddress with
            | none =>
                simp only [hfind] at hinit
                cases hinit
                rfl
            | some i =>
                simp only [hfind] at hinit
                cases hinit
                rfl

-- ============================================================ the invariant

/-- The heap is well formed and so is the table. -/
def AreaInv (h : Heap) : Prop := (∃ ts, HeapInv h ts) ∧ VmaInv h.vma

/-- The blocks do not depend on the areas. -/
theorem HeapInv.withVma (hi : HeapInv h ts) (t : VmaTable) : HeapInv { h with vma := t } ts :=
  ⟨hi.head, hi.start, hi.blocks, hi.ne_nil, hi.sizes, hi.stop, hi.size, hi.pmm, hi.room⟩

/-- Growth keeps the invariant. -/
theorem AreaInv.expand (hinv : AreaInv h) (hrun : heapExpand h = some (done, h')) :
    AreaInv h' := by
  obtain ⟨⟨ts, hi⟩, hareas⟩ := hinv
  obtain ⟨done', h'', ts', hrun', hi', -⟩ := hi.expand
  rw [hrun'] at hrun
  cases hrun
  refine ⟨⟨ts', hi'⟩, ?_⟩
  rcases heapExpand_cases hrun' with ⟨-, heq⟩ | ⟨-, p, -, -, -, heq⟩
  · rw [heq]
    exact hareas
  · rw [heq]
    exact hareas.resize rfl

/-- So does every step. -/
theorem AreaInv.step (hinv : AreaInv h) {op : AreaOp} (hs : areaStep h op = some h') :
    AreaInv h' := by
  cases op with
  | heapExpand =>
      obtain ⟨⟨done, u⟩, hrun, rfl⟩ := Option.map_eq_some_iff.mp hs
      exact hinv.expand hrun
  | vma op =>
      cases hs
      obtain ⟨⟨ts, hi⟩, hareas⟩ := hinv
      exact ⟨⟨ts, hi.withVma _⟩, hareas.call rfl⟩

/-- Where the area is ready the expansion makes it the committed heap. -/
theorem AreaInv.exact (hinv : AreaInv h) (hready : AreaReady h)
    (hrun : heapExpand h = some (true, h')) : ExactArea h' := by
  obtain ⟨⟨ts, hi⟩, hareas⟩ := hinv
  rcases heapExpand_cases hrun with ⟨hdone, -⟩ | ⟨-, p, hp, hstart, hend, hvma⟩
  · cases hdone
  obtain ⟨q, hq, hqstart⟩ := hready.pointer
  obtain rfl : p = q := Option.some.inj (hp.symm.trans hq)
  -- no sum wraps
  have hlt := hi.end_lt
  have hcommitted := hi.stop
  have hspan : wordAdd h.committedEnd pageSize = h.committedEnd + pageSize :=
    wordAdd_eq (by show _ + 4096 < 2 ^ 64; omega)
  have hvstart := hi.start
  have hsize : wordSub h'.committedEnd h'.virtualStart
      = h.committedEnd + pageSize - heapStartAddress := by
    rw [hend, hstart, hvstart, hspan]
    exact wordSub_eq (by omega) (by show _ + 4096 < 2 ^ 64; omega)
  have hstop : vmaStop heapStartAddress (h.committedEnd + pageSize - heapStartAddress)
      = h.committedEnd + pageSize := by
    unfold vmaStop
    rw [Nat.add_sub_of_le (by omega)]
    exact Nat.mod_eq_of_lt (by show _ + 4096 < 2 ^ 64; omega)
  rw [hsize, hqstart] at hvma
  -- the area at the heap's start is the one that is resized
  have hqlt : p < h.vma.length := by
    rcases Nat.lt_or_ge p h.vma.length with hlt | hge
    · exact hlt
    · rw [entry_of_length_le hge] at hqstart
      cases hqstart
  have hqmem := List.getElem_mem hqlt
  rw [entry_eq hqlt] at hqstart
  have hfirst := hready.first
  cases hf : h.vma.findIdx? fun v => decide (v.start = heapStartAddress) with
  | none =>
      have hnone := List.findIdx?_eq_none_iff.mp hf _ hqmem
      exact absurd hqstart (of_decide_eq_false hnone)
  | some i =>
      rw [hf] at hfirst
      have hroom := hready.room
      rw [← hfirst] at hroom
      have hareas' : VmaInv h'.vma := by
        rw [hvma]
        exact hareas.resize rfl
      obtain ⟨l, v, r, hcut, rfl, hv, hl⟩ := findIdx?_split hf
      rw [hcut] at hvma hroom
      have hclear : ¬ ∃ w ∈ l ++ r, ¬ Clear heapStartAddress
          (vmaStop heapStartAddress (h.committedEnd + pageSize - heapStartAddress)) w := by
        rintro ⟨w, hw, hnot⟩
        obtain ⟨j, hj, hne, rfl⟩ := others_entry (v := v) hw
        rw [hstop] at hnot
        exact hnot (hroom j hj fun heq => hne (Option.some.inj heq).symm)
      rw [vmaResize_middle (of_decide_eq_true hv) fun w hw => of_decide_eq_false (hl w hw),
        if_neg hclear, hstop] at hvma
      have hfind : vmaFind h'.vma heapStartAddress = some l.length := by
        rw [hareas'.find_iff, hvma, entry_middle, List.length_append, List.length_cons]
        refine ⟨by omega, Nat.le_of_eq (of_decide_eq_true hv), ?_⟩
        show heapStartAddress < h.committedEnd + 4096
        omega
      refine ⟨l.length, hfind, ?_, ?_, ?_⟩
      · rw [hvma, entry_middle, hstart, hvstart]
        exact of_decide_eq_true hv
      · rw [hvma, entry_middle, hend, hspan]
      · intro j hj hne a hlo hhi hcov
        have hi := (hareas'.find_iff.mp hfind).1
        have hown : (h'.vma.entry l.length).Covers a := by
          rw [hvma, entry_middle]
          rw [hend, hspan] at hhi
          rw [hstart, hvstart] at hlo
          exact ⟨(of_decide_eq_true hv : v.start = _) ▸ hlo, hhi⟩
        rw [entry_eq hi] at hown
        rw [entry_eq hj] at hcov
        exact hne (hareas'.exclusive.index_eq hj hi hcov hown)

-- ==================================================================== runs

/-- From any table of areas, in every run of expansions and calls on the
areas: an expansion for which the area is ready makes it exactly the
committed heap. -/
theorem heap_stays_in_area (boot : Heap) (areas : List VmaOp)
    (hareas : runOps vmaStep vmaInit areas = some boot.vma) (hpmm : PmmInv boot.vm.pmm)
    (hinit : heapInit boot = (true, h₀)) (ops : List AreaOp)
    (hrun : runOps areaStep h₀ ops = some h₁) (hready : AreaReady h₁)
    (hexpand : heapExpand h₁ = some (true, h₂)) : ExactArea h₂ := by
  have htable : VmaInv boot.vma := run_preserves
    (fun t op t' (ht : VmaInv t) _ hs => ht.step hs) vmaInit_inv
    (allowedRun_trivial vmaInit areas) hareas
  have hboot : AreaInv h₀ := by
    refine ⟨⟨_, heapInit_inv hpmm hinit⟩, ?_⟩
    rw [heapInit_vma hinit]
    exact htable
  have hinv : AreaInv h₁ := run_preserves
    (fun h op h' (hi : AreaInv h) _ hs => hi.step hs) hboot (allowedRun_trivial h₀ ops) hrun
  exact hinv.exact hready hexpand

/-- The table that `kmain` makes. -/
def bootArea : Heap := { bootHeap with vma := [⟨heapStartAddress, heapStartAddress + 4096, 11⟩] }

/-- Another area comes and goes, and one comes before the heap. -/
def otherAreas : List AreaOp :=
  [.vma (.create 0x5000 0x1000 1), .vma (.destroy 0x5000), .vma (.create 0x8000 0 1)]

/-- A growth next to another area. -/
theorem heap_stays_in_area_among_others :
    ∃ h₁ h₂, runOps areaStep (heapInit bootArea).2 otherAreas = some h₁
      ∧ heapExpand h₁ = some (true, h₂) ∧ ExactArea h₂ := by
  have hinit : heapInit bootArea = (true, (heapInit bootArea).2) := Prod.ext (by decide) rfl
  have hareas : runOps vmaStep vmaInit [.create heapStartAddress 4096 11] = some bootArea.vma := by
    decide
  have hvalues : ((runOps areaStep (heapInit bootArea).2 otherAreas).bind fun h₁ =>
      (heapExpand h₁).map fun r => (r.1, h₁.heapVma, h₁.vma, h₁.committedEnd))
      = some (true, some 0,
        [⟨heapStartAddress, heapStartAddress + 4096, 11⟩, ⟨0x8000, 0x8000, 1⟩],
        heapStartAddress + 4096) := by
    decide +kernel
  obtain ⟨h₁, hrun, hrest⟩ := Option.bind_eq_some_iff.mp hvalues
  obtain ⟨⟨done, h₂⟩, hexpand, heq⟩ := Option.map_eq_some_iff.mp hrest
  obtain ⟨rfl, hp, hvma, hend⟩ : done = true ∧ h₁.heapVma = some 0
      ∧ h₁.vma = [⟨heapStartAddress, heapStartAddress + 4096, 11⟩, ⟨0x8000, 0x8000, 1⟩]
      ∧ h₁.committedEnd = heapStartAddress + 4096 := by
    simpa using heq
  have hready : AreaReady h₁ := by
    constructor
    · exact ⟨0, hp, by rw [hvma]; decide⟩
    · rw [hvma]
      decide
    · rw [hvma, hend]
      decide
  exact ⟨h₁, h₂, hrun, hexpand,
    heap_stays_in_area bootArea _ hareas bootHeap_pmm hinit otherAreas hrun hready hexpand⟩

/-- With an area right behind the heap's, the heap grows into it. -/
theorem heap_grows_into_next_area :
    ∃ h₁ h₂, runOps areaStep (heapInit bootArea).2
        [.vma (.create (heapStartAddress + 4096) 4096 3)] = some h₁
      ∧ heapExpand h₁ = some (true, h₂)
      ∧ h₂.committedEnd = heapStartAddress + 8192
      ∧ h₂.vma = [⟨heapStartAddress, heapStartAddress + 4096, 11⟩,
        ⟨heapStartAddress + 4096, heapStartAddress + 8192, 3⟩]
      ∧ ¬ ExactArea h₂ := by
  have hvalues : ((runOps areaStep (heapInit bootArea).2
        [.vma (.create (heapStartAddress + 4096) 4096 3)]).bind fun h₁ =>
      (heapExpand h₁).map fun r => (r.1, r.2.committedEnd, r.2.vma))
      = some (true, heapStartAddress + 8192,
        [⟨heapStartAddress, heapStartAddress + 4096, 11⟩,
          ⟨heapStartAddress + 4096, heapStartAddress + 8192, 3⟩]) := by
    decide +kernel
  obtain ⟨h₁, hrun, hrest⟩ := Option.bind_eq_some_iff.mp hvalues
  obtain ⟨⟨done, h₂⟩, hexpand, heq⟩ := Option.map_eq_some_iff.mp hrest
  obtain ⟨rfl, hend, hvma⟩ : done = true ∧ h₂.committedEnd = heapStartAddress + 8192
      ∧ h₂.vma = [⟨heapStartAddress, heapStartAddress + 4096, 11⟩,
        ⟨heapStartAddress + 4096, heapStartAddress + 8192, 3⟩] := by
    simpa using heq
  refine ⟨h₁, h₂, hrun, hexpand, hend, hvma, ?_⟩
  rintro ⟨i, hfind, -, hstop, -⟩
  have hzero : vmaFind h₂.vma heapStartAddress = some 0 := by
    rw [hvma]
    decide
  obtain rfl : i = 0 := Option.some.inj (hfind.symm.trans hzero)
  rw [hend, hvma] at hstop
  exact absurd hstop (by decide)

end ZenithOS.Mm
