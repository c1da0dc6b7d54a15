/-
Who owns a frame.

# The invariant

`FramesOk v₀ roots₀ v roots filled held`: the roots are a forest, the
frames in the filled slots and the held frames are data (`DataFrame`:
neither free nor a table), no two of them are the same, and a present
entry leads to a table, is in a filled slot, or is one that was there at
the start.

# Steps

Four things happen to it: the forest grows, a slot is filled with a frame
just taken, a slot is cleared, or bytes are written into a data frame.
Each operation is a sequence of these.
-/
import ZenithOS.Proc.FrameRun
import ZenithOS.Vmm.Proofs.DemandPaging

namespace ZenithOS.Proc

open Lib Mm Vmm Klib

/-- Neither free nor a table. -/
def DataFrame (v : Vm) (roots : List Nat) (a : Nat) : Prop :=
  ¬ PmmClear v.pmm a ∧ ∀ n, ¬ TableBelow v.mem roots n a

/-- What every run of the frame-taking operations keeps, from the tables at
boot on. -/
structure FramesOk (v₀ : Vm) (roots₀ : List Nat) (v : Vm) (roots : List Nat)
    (filled : List Slot) (held : List Nat) : Prop where
  forest : Forest v roots
  active : ∀ k, pageTableActiveRoot v = some k → k ∈ roots
  table : ∀ s ∈ filled, TableBelow v.mem roots 3 s.1
  data : ∀ s ∈ filled, DataFrame v roots (slotFrame v.mem s)
  distinct : ∀ s ∈ filled, ∀ s' ∈ filled, slotFrame v.mem s = slotFrame v.mem s' → s = s'
  apart : ∀ a ∈ held, DataFrame v roots a ∧ ∀ s ∈ filled, slotFrame v.mem s ≠ a
  aligned : ∀ a ∈ held, 4096 ∣ a
  nodup : held.Nodup
  left : ∀ n f i, TableBelow v.mem roots n f → pageIsPresent (slots v.mem f i) = true →
    mmuNext (3 - n) (slots v.mem f i) ≠ none ∨ (f, i) ∈ filled
      ∨ TableBelow v₀.mem roots₀ n f ∧ slots v.mem f i = slots v₀.mem f i
  paths : PathsAlike v₀.mem roots₀ → PathsAlike v.mem roots

variable {v₀ v v' : Vm} {roots₀ roots : List Nat} {filled : List Slot} {held : List Nat}
  {m : Mem} {f g k n : Nat} {i : Fin 512}

-- ================================================================== growth

theorem activeRoot_config (h : v' = { v with mem := v'.mem, pmm := v'.pmm }) :
    pageTableActiveRoot v' = pageTableActiveRoot v := by
  rw [h]
  rfl

/-- Growth makes no table of a frame of data. -/
theorem DataFrame.grow (h : DataFrame v roots g) (hgrown : Grown roots v v') :
    DataFrame v' roots g :=
  ⟨fun hfree => h.1 (hgrown.clear g hfree), hgrown.data h.1 h.2⟩

/-- Growth leaves what is filled. -/
theorem FramesOk.slotFrame_grow (h : FramesOk v₀ roots₀ v roots filled held)
    (hgrown : Grown roots v v') {s : Slot} (hs : s ∈ filled) :
    slotFrame v'.mem s = slotFrame v.mem s := by
  rw [slotFrame, hgrown.pages s.1 s.2 (h.table s hs)]
  rfl

/-- Growth keeps the invariant. -/
theorem FramesOk.grow (h : FramesOk v₀ roots₀ v roots filled held) (hgrown : Grown roots v v')
    (hpaths : PathsAlike v.mem roots → PathsAlike v'.mem roots) :
    FramesOk v₀ roots₀ v' roots filled held := by
  refine ⟨hgrown.forest, ?_, fun s hs => hgrown.below (h.table s hs), ?_, ?_, ?_, h.aligned,
    h.nodup, ?_, fun h₀ => hpaths (h.paths h₀)⟩
  · rw [activeRoot_config hgrown.config]
    exact h.active
  · intro s hs
    rw [h.slotFrame_grow hgrown hs]
    exact (h.data s hs).grow hgrown
  · intro s hs s' hs' heq
    rw [h.slotFrame_grow hgrown hs, h.slotFrame_grow hgrown hs'] at heq
    exact h.distinct s hs s' hs' heq
  · intro a ha
    refine ⟨(h.apart a ha).1.grow hgrown, ?_⟩
    intro s hs
    rw [h.slotFrame_grow hgrown hs]
    exact (h.apart a ha).2 s hs
  · intro n f i hf hpresent
    cases hgrown.entries n f i hf hpresent with
    | inl hnext => exact .inl hnext
    | inr hold =>
        rw [hold.2] at hpresent ⊢
        exact h.left n f i hold.1 hpresent

/-- Extended tables keep it. -/
theorem FramesOk.extend (h : FramesOk v₀ roots₀ v roots filled held)
    (hext : Extended roots v v') : FramesOk v₀ roots₀ v' roots filled held :=
  h.grow hext.grown hext.paths

/-- A taken frame keeps it. -/
theorem FramesOk.take (h : FramesOk v₀ roots₀ v roots filled held) (htaken : Taken roots v v' g m) :
    FramesOk v₀ roots₀ v' roots filled held :=
  h.grow htaken.grown htaken.paths

-- ================================================================= data

/-- A frame nobody has. -/
structure Unclaimed (v : Vm) (roots : List Nat) (filled : List Slot) (held : List Nat)
    (g : Nat) : Prop where
  data : DataFrame v roots g
  slot : ∀ s ∈ filled, slotFrame v.mem s ≠ g
  held : g ∉ held

/-- A frame just taken is nobody's yet. -/
theorem FramesOk.unclaimed (h : FramesOk v₀ roots₀ v roots filled held)
    (htaken : Taken roots v v' g m) : Unclaimed v' roots filled held g := by
  refine ⟨⟨htaken.used, htaken.data⟩, ?_, ?_⟩
  · intro s hs heq
    rw [h.slotFrame_grow htaken.grown hs] at heq
    exact (h.data s hs).1 (heq ▸ htaken.clear)
  · intro hg
    exact (h.apart g hg).1.1 htaken.clear

/-- Tables are found by the walks. -/
theorem tableBelow_congr (hwalk : ∀ r ∈ roots, ∀ q, hwTable m r q = hwTable v.mem r q) :
    TableBelow m roots n f ↔ TableBelow v.mem roots n f := by
  constructor
  · intro hf
    obtain ⟨r, hr, p, hlen, hp⟩ := hf
    exact ⟨r, hr, p, hlen, (hwalk r hr p).symm.trans hp⟩
  · intro hf
    obtain ⟨r, hr, p, hlen, hp⟩ := hf
    exact ⟨r, hr, p, hlen, (hwalk r hr p).trans hp⟩

/-- A slot of a page table is written: with a frame nobody has, and then
it is a filled slot, or with nothing. -/
theorem FramesOk.write (h : FramesOk v₀ roots₀ v roots filled held)
    (htable : TableBelow v.mem roots 3 f) {e : Nat} (he : e < 2 ^ 64) {filled' : List Slot}
    (hold : ∀ s, s ≠ (f, i) → (s ∈ filled' ↔ s ∈ filled))
    (hnew : (f, i) ∈ filled' → Unclaimed v roots filled held (pageAddress e))
    (hpresent : pageIsPresent e = true → (f, i) ∈ filled') :
    FramesOk v₀ roots₀ (setPageEntry v f i e) roots filled' held := by
  obtain ⟨hforest, hwalk, -⟩ :=
    h.forest.write_page (h.forest.writesSlot (i := i) htable e) htable
  have hbelow : ∀ n f', TableBelow (setPageEntry v f i e).mem roots n f'
      ↔ TableBelow v.mem roots n f' := fun n f' => tableBelow_congr hwalk
  have hself : slots (setPageEntry v f i e).mem f i = e :=
    slots_store_self.trans (Nat.mod_eq_of_lt he)
  have hother : ∀ n s, TableBelow v.mem roots n s.1 → s ≠ (f, i) →
      slots (setPageEntry v f i e).mem s.1 s.2 = slots v.mem s.1 s.2 := by
    intro n s hs hne
    apply h.forest.writesSlot htable e n s.1 s.2 hs
    by_contra hboth
    rw [not_or, not_not, not_not] at hboth
    exact hne (Prod.ext hboth.1 hboth.2)
  -- the frames in the slots, after the write
  have hframe : ∀ s ∈ filled', s = (f, i) ∧ slotFrame (setPageEntry v f i e).mem s = pageAddress e
      ∨ s ≠ (f, i) ∧ s ∈ filled
        ∧ slotFrame (setPageEntry v f i e).mem s = slotFrame v.mem s := by
    intro s hs
    by_cases hslot : s = (f, i)
    · refine .inl ⟨hslot, ?_⟩
      rw [hslot, slotFrame, hself]
    · have hs' := (hold s hslot).mp hs
      refine .inr ⟨hslot, hs', ?_⟩
      rw [slotFrame, hother 3 s (h.table s hs') hslot]
      rfl
  have hdata : ∀ a, DataFrame v roots a → DataFrame (setPageEntry v f i e) roots a :=
    fun a ha => ⟨ha.1, fun n hf => ha.2 n ((hbelow n a).mp hf)⟩
  refine ⟨hforest, h.active, ?_, ?_, ?_, ?_, h.aligned, h.nodup, ?_,
    fun h₀ => (h.paths h₀).congr hwalk⟩
  · intro s hs
    rw [hbelow]
    rcases hframe s hs with ⟨hslot, -⟩ | ⟨-, hs', -⟩
    · rw [hslot]
      exact htable
    · exact h.table s hs'
  · intro s hs
    rcases hframe s hs with ⟨hslot, heq⟩ | ⟨-, hs', heq⟩
    · rw [heq]
      exact hdata _ (hnew (hslot ▸ hs)).data
    · rw [heq]
      exact hdata _ (h.data s hs')
  · intro s hs s' hs' heq
    rcases hframe s hs with ⟨hslot, he₁⟩ | ⟨-, hs₁, he₁⟩
    · rcases hframe s' hs' with ⟨hslot', -⟩ | ⟨-, hs₂, he₂⟩
      · rw [hslot, hslot']
      · rw [he₁, he₂] at heq
        exact absurd heq.symm ((hnew (hslot ▸ hs)).slot s' hs₂)
    · rcases hframe s' hs' with ⟨hslot', he₂⟩ | ⟨-, hs₂, he₂⟩
      · rw [he₁, he₂] at heq
        exact absurd heq ((hnew (hslot' ▸ hs')).slot s hs₁)
      · rw [he₁, he₂] at heq
        exact h.distinct s hs₁ s' hs₂ heq
  · intro a ha
    refine ⟨hdata a (h.apart a ha).1, ?_⟩
    intro s hs
    rcases hframe s hs with ⟨hslot, heq⟩ | ⟨-, hs', heq⟩
    · rw [heq]
      exact fun hsame => (hnew (hslot ▸ hs)).held (hsame ▸ ha)
    · rw [heq]
      exact (h.apart a ha).2 s hs'
  · intro n f' j hf hpres
    rw [hbelow] at hf
    by_cases hslot : (f', j) = (f, i)
    · obtain ⟨rfl, rfl⟩ := Prod.mk.inj hslot
      rw [hself] at hpres
      exact .inr (.inl (hpresent hpres))
    · have hsame := hother n (f', j) hf hslot
      dsimp only at hsame
      rw [hsame] at hpres ⊢
      rw [hold (f', j) hslot]
      exact h.left n f' j hf hpres

/-- Bytes are written into a frame that is no table. -/
theorem FramesOk.bytes (h : FramesOk v₀ roots₀ v roots filled held) (hgal : 4096 ∣ g)
    (hdata : ∀ n, ¬ TableBelow v.mem roots n g)
    (hm : ∀ a, a < g ∨ g + 4096 ≤ a → m a = v.mem a) :
    FramesOk v₀ roots₀ { v with mem := m } roots filled held := by
  have hslots : ∀ n f i, TableBelow v.mem roots n f → slots m f i = slots v.mem f i :=
    fun n f i hf => h.forest.slots_frame hgal hdata hm hf i
  have hwalk : ∀ r ∈ roots, ∀ q, hwTable m r q = hwTable v.mem r q :=
    fun r hr q => (h.forest.walk_frame hgal hdata hm hr q).1
  have hbelow : ∀ n f, TableBelow m roots n f ↔ TableBelow v.mem roots n f :=
    fun n f => tableBelow_congr hwalk
  have hframe : ∀ s ∈ filled, slotFrame m s = slotFrame v.mem s := by
    intro s hs
    rw [slotFrame, hslots 3 s.1 s.2 (h.table s hs)]
    rfl
  have hdata' : ∀ a, DataFrame v roots a → DataFrame { v with mem := m } roots a :=
    fun a ha => ⟨ha.1, fun n hf => ha.2 n ((hbelow n a).mp hf)⟩
  refine ⟨h.forest.of_tableAt h.forest.pmm h.forest.used hwalk, h.active, ?_, ?_, ?_, ?_,
    h.aligned, h.nodup, ?_, fun h₀ => (h.paths h₀).congr hwalk⟩
  · intro s hs
    exact (hbelow 3 s.1).mpr (h.table s hs)
  · intro s hs
    rw [hframe s hs]
    exact hdata' _ (h.data s hs)
  · intro s hs s' hs' heq
    rw [hframe s hs, hframe s' hs'] at heq
    exact h.distinct s hs s' hs' heq
  · intro a ha
    refine ⟨hdata' a (h.apart a ha).1, ?_⟩
    intro s hs
    rw [hframe s hs]
    exact (h.apart a ha).2 s hs
  · intro n f i hf hpresent
    have hf' := (hbelow n f).mp hf
    have hsame := hslots n f i hf'
    dsimp only at hpresent ⊢
    rw [hsame] at hpresent ⊢
    exact h.left n f i hf' hpresent

-- ==================================================== roots and other users

/-- A new root makes no table of a frame of data. -/
theorem DataFrame.addRoot {a : Nat} (h : DataFrame v roots a) (hcopy : CopiesRoots v.mem roots g)
    (hne : a ≠ g) : DataFrame v (g :: roots) a := by
  refine ⟨h.1, ?_⟩
  intro n hf
  cases hcopy.below hf with
  | inl hroot => exact hne hroot.2
  | inr hold => exact h.2 n hold

/-- A copied root joins. -/
theorem FramesOk.newRoot (h : FramesOk v₀ roots₀ v roots filled held)
    (hgrown : Grown roots v v') (hg : PmmClear v.pmm g) (hcopy : CopiesRoots v'.mem roots g)
    (hforest : Forest v' (g :: roots))
    (hpaths : PathsAlike v.mem roots → PathsAlike v'.mem (g :: roots)) :
    FramesOk v₀ roots₀ v' (g :: roots) filled held := by
  have h' := h.grow hgrown fun h₀ => (hpaths h₀).mono fun r hr => List.mem_cons_of_mem g hr
  -- what was data is not the new root, which was free
  have hdata : ∀ a, ¬ PmmClear v.pmm a → DataFrame v' roots a → DataFrame v' (g :: roots) a :=
    fun a hused ha => ha.addRoot hcopy fun heq => hused (heq ▸ hg)
  refine ⟨hforest, fun k hk => List.mem_cons_of_mem g (h'.active k hk),
    fun s hs => tableBelow_cons (h'.table s hs), ?_, h'.distinct, ?_, h'.aligned, h'.nodup, ?_,
    fun h₀ => hpaths (h.paths h₀)⟩
  · intro s hs
    refine hdata _ ?_ (h'.data s hs)
    rw [h.slotFrame_grow hgrown hs]
    exact (h.data s hs).1
  · intro a ha
    exact ⟨hdata a (h.apart a ha).1.1 (h'.apart a ha).1, (h'.apart a ha).2⟩
  · intro n f i hf hpresent
    cases hcopy.below hf with
    | inl hroot =>
        refine .inl ?_
        rw [hroot.1, mmuNext, if_pos ⟨by decide, hpresent, .inl rfl⟩]
        exact Option.some_ne_none _
    | inr hold => exact h'.left n f i hold hpresent

/-- Somebody keeps a frame. -/
theorem FramesOk.hold (h : FramesOk v₀ roots₀ v roots filled held)
    (hg : Unclaimed v roots filled held g) (hgal : 4096 ∣ g) :
    FramesOk v₀ roots₀ v roots filled (g :: held) :=
  { h with
    apart := List.forall_mem_cons.mpr ⟨⟨hg.data, hg.slot⟩, h.apart⟩
    aligned := List.forall_mem_cons.mpr ⟨hgal, h.aligned⟩
    nodup := List.nodup_cons.mpr ⟨hg.held, h.nodup⟩ }

/-- And gives it back. -/
theorem FramesOk.giveFrame (h : FramesOk v₀ roots₀ v roots filled held) (hg : g ∈ held) :
    FramesOk v₀ roots₀ { v with pmm := pmmFreePage g v.pmm } roots filled (held.erase g) := by
  have hfreed : ∀ a, PmmClear (pmmFreePage g v.pmm) a → PmmClear v.pmm a ∨ a = g :=
    fun a ha => h.forest.pmm.clear_of_freePage (h.aligned g hg) ha
  have hdata : ∀ a, a ≠ g → DataFrame v roots a →
      DataFrame { v with pmm := pmmFreePage g v.pmm } roots a := by
    intro a hne ha
    refine ⟨fun hfree => ?_, ha.2⟩
    cases hfreed a hfree with
    | inl hold => exact ha.1 hold
    | inr heq => exact hne heq
  have herase : ∀ a, a ∈ held.erase g → a ≠ g ∧ a ∈ held := by
    intro a ha
    exact (List.Nodup.mem_erase_iff h.nodup).mp ha
  refine ⟨⟨h.forest.pmm.markPageFree _, h.forest.aligned, ?_, h.forest.levels⟩, h.active, h.table,
    ?_, h.distinct, ?_, fun a ha => h.aligned a (herase a ha).2, h.nodup.erase g, h.left,
    h.paths⟩
  · intro n f hf hfree
    cases hfreed f hfree with
    | inl hold => exact h.forest.used n f hf hold
    | inr heq => exact (h.apart g hg).1.2 n (heq ▸ hf)
  · intro s hs
    exact hdata _ ((h.apart g hg).2 s hs) (h.data s hs)
  · intro a ha
    obtain ⟨hne, ha⟩ := herase a ha
    exact ⟨hdata a hne (h.apart a ha).1, (h.apart a ha).2⟩

-- ============================================================ filling slots

/-- `va` is mapped under `k` by now, and its slot a filled one; tables are
where they were. -/
structure Fills (v₀ : Vm) (roots₀ : List Nat) (v : Vm) (roots : List Nat) (filled : List Slot)
    (held : List Nat) (k va g : Nat) (v' : Vm) : Prop where
  root : k ∈ roots
  frames : ∃ slot, slotOf v'.mem k va = some slot
    ∧ FramesOk v₀ roots₀ v' roots (filled.insert slot) held
  tables : ∀ r ∈ roots, ∀ p f, hwTable v.mem r p = some f → hwTable v'.mem r p = some f
  config : v' = { v with mem := v'.mem, pmm := v'.pmm }
  aligned : 4096 ∣ g
  data : ∀ n, ¬ TableBelow v'.mem roots n g

/-- A slot is filled with a frame of its own. -/
theorem FramesOk.fill (h : FramesOk v₀ roots₀ v roots filled held)
    (htaken : Taken roots v v' g m) (hk : k ∈ roots) {va table e : Nat}
    (htable : hwTable v'.mem k (tablePath va) = some table) (he : e < 2 ^ 64)
    (haddress : pageAddress e = g) :
    Fills v₀ roots₀ v roots filled held k va g (setPageEntry v' table (ptDigit va) e) := by
  have h' := h.take htaken
  have hbelow : TableBelow v'.mem roots 3 table := ⟨k, hk, _, rfl, htable⟩
  obtain ⟨-, hwalk, -⟩ :=
    h'.forest.write_page (h'.forest.writesSlot (i := ptDigit va) hbelow e) hbelow
  refine ⟨hk, ⟨(table, ptDigit va), ?_, ?_⟩, ?_, ?_, ?_, ?_⟩
  · have hsame := (hwalk k hk (tablePath va)).trans htable
    show (hwTable _ k (tablePath va)).map _ = _
    rw [hsame]
    rfl
  · apply h'.write hbelow he
    · intro s hne
      rw [List.mem_insert_iff]
      exact or_iff_right hne
    · intro _
      rw [haddress]
      exact h.unclaimed htaken
    · intro _
      exact List.mem_insert_self
  · intro r hr p f hf
    exact (hwalk r hr p).trans (htaken.grown.tables r hr p f hf)
  · rw [htaken.grown.config]
    rfl
  · exact (h.forest.pmm.clear_frame htaken.clear).1
  · intro n hf
    exact htaken.data n ((tableBelow_congr hwalk).mp hf)

end ZenithOS.Proc
