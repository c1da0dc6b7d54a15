/-
The block list in memory.

`BlocksAt m prev a ts next` says that from address `a` on memory holds
the headers of the tiles `ts`, linked both ways, the first block's `prev`
and the last one's `next` being the given pointers. Each list operation
of `heap.c` is an operation on tiles, proved at the front of a run and
carried into the middle of a list by `BlocksAt.replace`; its frame says
that it touches neither the payloads in use nor anything outside the run
(`Untouched`).
-/
import ZenithOS.Lib.Tiling
import ZenithOS.Mm.Heap

namespace ZenithOS.Mm

open Lib

-- ================================================================= headers

/-- A block's header. -/
structure BlockAt (m : Mem) (b : Nat) (t : Tile) (next prev : Nat) : Prop where
  size : blockSize m b = t.size
  free : blockFree m b = t.free
  next : blockNext m b = next
  prev : blockPrev m b = prev

variable {m m' : Mem} {a b p n s x next prev : Nat} {f : Bool} {t : Tile}
  {ts l r : List Tile}

/-- A block is what its header's bytes say. -/
theorem BlockAt.congr (h : BlockAt m b t next prev) (m' : Mem)
    (heq : ∀ x, b ≤ x → x < b + 32 → m' x = m x) : BlockAt m' b t next prev := by
  refine ⟨?_, ?_, ?_, ?_⟩
  · rw [← h.size]
    exact loadWord_congr fun x hlo hhi => heq x hlo (by omega)
  · rw [← h.free, blockFree, blockFree, heq (b + 8) (by omega) (by omega)]
  · rw [← h.next]
    exact loadWord_congr fun x hlo hhi => heq x (by omega) (by omega)
  · rw [← h.prev]
    exact loadWord_congr fun x hlo hhi => heq x (by omega) (by omega)

theorem setBlockSize_outside (hx : x < b ∨ b + 32 ≤ x) : setBlockSize b n m x = m x :=
  storeWord_outside (by omega)

theorem setBlockFree_outside (hx : x < b ∨ b + 32 ≤ x) : setBlockFree b f m x = m x :=
  storeByte_of_ne (by omega)

theorem setBlockNext_outside (hx : x < b ∨ b + 32 ≤ x) : setBlockNext b n m x = m x :=
  storeWord_outside (by omega)

theorem setBlockPrev_outside (hx : x < b ∨ b + 32 ≤ x) : setBlockPrev b n m x = m x :=
  storeWord_outside (by omega)

/-- The size changes. -/
theorem BlockAt.setSize (h : BlockAt m b t next prev) (hn : n < 2 ^ 64) :
    BlockAt (setBlockSize b n m) b ⟨n, t.free⟩ next prev := by
  refine ⟨?_, ?_, ?_, ?_⟩
  · exact (loadWord_storeWord m b n).trans (Nat.mod_eq_of_lt hn)
  · rw [← h.free, blockFree, blockFree, setBlockSize, storeWord_outside (by omega)]
  · rw [← h.next]
    exact loadWord_storeWord_of_disjoint (by omega)
  · rw [← h.prev]
    exact loadWord_storeWord_of_disjoint (by omega)

/-- The flag changes. -/
theorem BlockAt.setFree (h : BlockAt m b t next prev) (f : Bool) :
    BlockAt (setBlockFree b f m) b ⟨t.size, f⟩ next prev := by
  refine ⟨?_, ?_, ?_, ?_⟩
  · rw [← h.size]
    exact loadWord_storeByte_of_disjoint (by omega)
  · rw [blockFree, setBlockFree, storeByte_self]
    cases f with
    | false => rfl
    | true => rfl
  · rw [← h.next]
    exact loadWord_storeByte_of_disjoint (by omega)
  · rw [← h.prev]
    exact loadWord_storeByte_of_disjoint (by omega)

/-- The next pointer changes. -/
theorem BlockAt.setNext (h : BlockAt m b t next prev) (hn : n < 2 ^ 64) :
    BlockAt (setBlockNext b n m) b t n prev := by
  refine ⟨?_, ?_, ?_, ?_⟩
  · rw [← h.size]
    exact loadWord_storeWord_of_disjoint (by omega)
  · rw [← h.free, blockFree, blockFree, setBlockNext, storeWord_outside (by omega)]
  · exact (loadWord_storeWord m _ n).trans (Nat.mod_eq_of_lt hn)
  · rw [← h.prev]
    exact loadWord_storeWord_of_disjoint (by omega)

/-- The previous pointer changes. -/
theorem BlockAt.setPrev (h : BlockAt m b t next prev) (hn : n < 2 ^ 64) :
    BlockAt (setBlockPrev b n m) b t next n := by
  refine ⟨?_, ?_, ?_, ?_⟩
  · rw [← h.size]
    exact loadWord_storeWord_of_disjoint (by omega)
  · rw [← h.free, blockFree, blockFree, setBlockPrev, storeWord_outside (by omega)]
  · rw [← h.next]
    exact loadWord_storeWord_of_disjoint (by omega)
  · exact (loadWord_storeWord m _ n).trans (Nat.mod_eq_of_lt hn)

/-- A header written from scratch. -/
theorem blockAt_new (m : Mem) (b : Nat) {size : Nat} (f : Bool) (hs : size < 2 ^ 64)
    (hn : next < 2 ^ 64) (hp : prev < 2 ^ 64) :
    BlockAt (setBlockPrev b prev (setBlockNext b next (setBlockFree b f
      (setBlockSize b size m)))) b ⟨size, f⟩ next prev := by
  have hold : BlockAt m b ⟨blockSize m b, blockFree m b⟩ (blockNext m b) (blockPrev m b) :=
    ⟨rfl, rfl, rfl, rfl⟩
  exact (((hold.setSize hs).setFree f).setNext hn).setPrev hp

-- ==================================================================== runs

/-- The pointer to a run of blocks at `a`, or to what follows it. -/
def ptrTo (a : Nat) : List Tile → Nat → Nat
  | [], next => next
  | _ :: _, _ => a

/-- The last block of a run, or what comes before it. -/
def lastPtr (prev a : Nat) : List Tile → Nat
  | [] => prev
  | t :: ts => lastPtr a (a + 32 + t.size) ts

/-- The blocks of a run, headers and links. -/
def BlocksAt (m : Mem) : Nat → Nat → List Tile → Nat → Prop
  | _, _, [], _ => True
  | prev, a, t :: ts, next =>
      BlockAt m a t (ptrTo (a + 32 + t.size) ts next) prev
        ∧ BlocksAt m a (a + 32 + t.size) ts next

theorem ptrTo_append (a : Nat) (l r : List Tile) (next : Nat) :
    ptrTo a (l ++ r) next = ptrTo a l (ptrTo (a + span 32 l) r next) := by
  cases l with
  | nil => rfl
  | cons t l => rfl

/-- A list of blocks in two parts. -/
theorem blocksAt_append : BlocksAt m prev a (l ++ r) next
    ↔ BlocksAt m prev a l (ptrTo (a + span 32 l) r next)
      ∧ BlocksAt m (lastPtr prev a l) (a + span 32 l) r next := by
  induction l generalizing prev a with
  | nil => simp [BlocksAt, lastPtr, span]
  | cons t l ih =>
      have hshift : a + 32 + t.size + span 32 l = a + span 32 (t :: l) := by
        rw [span]
        omega
      rw [List.cons_append, BlocksAt, BlocksAt, ih, ptrTo_append, hshift, lastPtr]
      exact and_assoc.symm

theorem lastPtr_snoc (prev a : Nat) (l : List Tile) (t : Tile) :
    lastPtr prev a (l ++ [t]) = a + span 32 l := by
  induction l generalizing prev a with
  | nil => rfl
  | cons u l ih =>
      rw [List.cons_append, lastPtr, ih, span]
      omega

/-- Only the headers matter. -/
theorem BlocksAt.congr (h : BlocksAt m prev a ts next)
    (heq : ∀ l t r, ts = l ++ t :: r → ∀ x, a + span 32 l ≤ x →
      x < a + span 32 l + 32 → m' x = m x) : BlocksAt m' prev a ts next := by
  induction ts generalizing prev a with
  | nil => trivial
  | cons t ts ih =>
      refine ⟨h.1.congr _ (heq [] t ts rfl), ih h.2 ?_⟩
      intro l t' r hts x hlo hhi
      apply heq (t :: l) t' r (by rw [hts]; rfl) x
      · rw [span]
        omega
      · rw [span]
        omega

/-- Memory that agrees inside the run. -/
theorem BlocksAt.congr_inside (h : BlocksAt m prev a ts next)
    (heq : ∀ x, a ≤ x → x < a + span 32 ts → m' x = m x) :
    BlocksAt m' prev a ts next := by
  apply h.congr
  intro l t r hts x hlo hhi
  apply heq x (by omega)
  rw [hts, span_append, span]
  omega

/-- A run changed from some block on. -/
theorem BlocksAt.replace (h : BlocksAt m prev a (l ++ r) next) {r' : List Tile}
    (hr : r ≠ []) (hr' : r' ≠ [])
    (hnew : BlocksAt m' (lastPtr prev a l) (a + span 32 l) r' next)
    (heq : ∀ x, x < a + span 32 l → m' x = m x) :
    BlocksAt m' prev a (l ++ r') next := by
  have hptr : ∀ q : List Tile, q ≠ [] → ptrTo (a + span 32 l) q next = a + span 32 l := by
    intro q hq
    cases q with
    | nil => exact absurd rfl hq
    | cons t q => rfl
  rw [blocksAt_append, hptr r' hr']
  rw [blocksAt_append, hptr r hr] at h
  exact ⟨h.1.congr_inside fun x _ hhi => heq x hhi, hnew⟩

/-- The second part by itself. -/
theorem BlocksAt.mid (h : BlocksAt m prev a (l ++ r) next) :
    BlocksAt m (lastPtr prev a l) (a + span 32 l) r next :=
  (blocksAt_append.mp h).2

/-- A run changed after its first block. -/
theorem BlocksAt.replace_tail (h : BlocksAt m prev a (t :: r) next) {r' : List Tile}
    (hr : r ≠ []) (hr' : r' ≠ []) (hnew : BlocksAt m' a (a + 32 + t.size) r' next)
    (heq : ∀ x, x < a + 32 + t.size → m' x = m x) :
    BlocksAt m' prev a (t :: r') next := by
  have hspan : a + span 32 [t] = a + 32 + t.size := by
    simp only [span]
    omega
  apply h.replace (l := [t]) hr hr'
  · rw [hspan]
    exact hnew
  · rw [hspan]
    exact heq

-- ============================================================= operations

/-- A write to the header of one of the run's blocks is no client's. -/
theorem untouched_ne_header (hx : Untouched 32 a ts x) (hts : ts = l ++ t :: r) :
    x < a + span 32 l ∨ a + span 32 l + 32 ≤ x := by
  by_contra hin
  rw [not_or, Nat.not_lt, Nat.not_le] at hin
  rw [hts] at hx
  exact not_untouched_header hin.1 hin.2 hx

/-- `merge_with_next` on two blocks whose headers are known. -/
theorem mergeWithNext_eq {c d pa pc : Nat} (hA : BlockAt m a ⟨s, f⟩ c pa)
    (hC : BlockAt m c ⟨n, true⟩ d pc) (ha : 0 < a) (hac : a + 32 ≤ c)
    (hsum : s + 32 + n < 2 ^ 64) :
    mergeWithNext a m
      = if d ≠ null then
          setBlockPrev d a (setBlockNext a d (setBlockSize a (s + 32 + n) m))
        else setBlockNext a d (setBlockSize a (s + 32 + n) m) := by
  have ha0 : a ≠ null := Nat.ne_of_gt ha
  have hc0 : c ≠ null := Nat.ne_of_gt (Nat.lt_of_lt_of_le (Nat.lt_add_right 32 ha) hac)
  have hsize : wordAdd s (wordAdd heapBlockBytes n) = s + 32 + n := by
    have hinner : wordAdd heapBlockBytes n = 32 + n := wordAdd_eq (by show 32 + n < _; omega)
    rw [hinner, wordAdd_eq (by omega)]
    omega
  have hC₁ : BlockAt (setBlockSize a (s + 32 + n) m) c ⟨n, true⟩ d pc :=
    hC.congr _ fun x hlo _ => setBlockSize_outside (by omega)
  have hC₂ : BlockAt (setBlockNext a d (setBlockSize a (s + 32 + n) m)) c ⟨n, true⟩ d pc :=
    hC₁.congr _ fun x hlo _ => setBlockNext_outside (by omega)
  unfold mergeWithNext
  simp only [ha0, hA.next, hc0, hC.free, hA.size, hC.size, hsize, hC₁.next, hC₂.next,
    if_false, Bool.not_true, Bool.false_eq_true]

/-- `merge_with_next` on the first of a run. -/
theorem mergeWithNext_front (h : BlocksAt m prev a (⟨s, f⟩ :: ⟨n, true⟩ :: r) null)
    (ha : 0 < a) (hlt : a + span 32 (⟨s, f⟩ :: ⟨n, true⟩ :: r) < 2 ^ 64) :
    BlocksAt (mergeWithNext a m) prev a (⟨s + 32 + n, f⟩ :: r) null
      ∧ ∀ x, Untouched 32 a (⟨s, f⟩ :: ⟨n, true⟩ :: r) x → mergeWithNext a m x = m x := by
  obtain ⟨hA, hC, hrest⟩ := h
  simp only [span] at hlt
  dsimp only at hC hrest
  rw [ptrTo] at hA
  have hrestAt : a + 32 + s + 32 + n = a + 32 + (s + 32 + n) := by omega
  rw [mergeWithNext_eq hA hC ha (by omega) (by omega)]
  have hA₁ := hA.setSize (show s + 32 + n < 2 ^ 64 by omega)
  have houtside : ∀ d x, x < a ∨ a + 32 ≤ x →
      setBlockNext a d (setBlockSize a (s + 32 + n) m) x = m x := fun d x hx =>
    (setBlockNext_outside hx).trans (setBlockSize_outside hx)
  rw [hrestAt] at hrest ⊢
  cases r with
  | nil =>
      refine ⟨⟨hA₁.setNext (show null < 2 ^ 64 by decide), trivial⟩, ?_⟩
      intro x hx
      exact houtside null x (untouched_ne_header (l := []) hx rfl)
  | cons t r =>
      obtain ⟨hR, hrest⟩ := hrest
      simp only [span] at hlt
      have hd : a + 32 + (s + 32 + n) < 2 ^ 64 := by omega
      rw [ptrTo, if_pos (Nat.ne_of_gt (by show 0 < a + 32 + (s + 32 + n); omega))]
      have hA₂ := hA₁.setNext hd
      refine ⟨⟨hA₂.congr _ ?_, ?_, ?_⟩, ?_⟩
      · intro x _ hhi
        exact setBlockPrev_outside (by omega)
      · have hR₂ := hR.congr _ fun x hlo _ => houtside (a + 32 + (s + 32 + n)) x (by omega)
        exact hR₂.setPrev (by omega)
      · apply hrest.congr_inside
        intro x hlo _
        exact (setBlockPrev_outside (by omega)).trans (houtside _ x (by omega))
      · intro x hx
        have hxa : x < a ∨ a + 32 ≤ x := untouched_ne_header (l := []) hx rfl
        have hxd := untouched_ne_header (l := [⟨s, f⟩, ⟨n, true⟩]) (r := r) hx rfl
        simp only [span] at hxd
        exact (setBlockPrev_outside (by omega)).trans (houtside _ x hxa)

/-- `merge_with_previous` of a free block is `merge_with_next` of the
block before it. -/
theorem mergeWithPrevious_eq {p : Nat} (hb : 0 < b) (hprev : blockPrev m b = p)
    (hp : p ≠ null) (hnext : blockNext m p = b) (hfree : blockFree m b = true)
    (hpfree : blockFree m p = true) : mergeWithPrevious b m = mergeWithNext p m := by
  have hb0 : b ≠ null := Nat.ne_of_gt hb
  simp only [mergeWithPrevious, mergeWithNext, hprev, hp, hnext, hb0, hfree, hpfree,
    if_false, Bool.not_true, Bool.false_eq_true]

/-- Nothing is merged into a block in use. -/
theorem mergeWithPrevious_used {p : Nat} (hprev : blockPrev m b = p)
    (hused : blockFree m p = false) : mergeWithPrevious b m = m := by
  simp [mergeWithPrevious, hprev, hused]

/-- A block's free flag. -/
theorem setBlockFree_front (h : BlocksAt m prev a (⟨s, f⟩ :: r) next) (g : Bool) :
    BlocksAt (setBlockFree a g m) prev a (⟨s, g⟩ :: r) next := by
  refine ⟨h.1.setFree g, h.2.congr_inside ?_⟩
  intro x hlo _
  exact setBlockFree_outside (by omega)

/-- `coalesce_free_blocks` along a run, with a unit of fuel for each of
its blocks. -/
theorem coalesceFreeBlocksFrom_run {fuel : Nat} (h : BlocksAt m prev a ts null) (ha : 0 < a)
    (hlt : a + span 32 ts < 2 ^ 64) (hfuel : ts.length < fuel) :
    ∃ m', coalesceFreeBlocksFrom fuel (ptrTo a ts null) m = some m'
      ∧ BlocksAt m' prev a (coalesce 32 ts) null
      ∧ (∀ x, Untouched 32 a ts x → m' x = m x) ∧ (Canonical ts → m' = m) := by
  induction fuel generalizing m prev a ts with
  | zero => omega
  | succ fuel ih =>
      cases ts with
      | nil => exact ⟨m, rfl, by simp [coalesce, BlocksAt], fun _ _ => rfl, fun _ => rfl⟩
      | cons t ts =>
          have ha0 : a ≠ null := Nat.ne_of_gt ha
          rw [List.length_cons] at hfuel
          cases ts with
          | nil =>
              -- the last block has no neighbour to join
              refine ⟨m, ?_, by simpa [coalesce] using h, fun _ _ => rfl, fun _ => rfl⟩
              have hnext : blockNext m a = null := h.1.next
              cases fuel with
              | zero => simp at hfuel
              | succ fuel => simp [coalesceFreeBlocksFrom, ptrTo, ha0, hnext]
          | cons t' ts =>
              obtain ⟨n, g⟩ := t
              obtain ⟨k, g'⟩ := t'
              have hnext : blockNext m a = a + 32 + n := h.1.next
              have hc0 : a + 32 + n ≠ null := Nat.ne_of_gt (by show 0 < a + 32 + n; omega)
              have hfree : blockFree m a = g := h.1.free
              have hfree' : blockFree m (a + 32 + n) = g' := h.2.1.free
              rw [ptrTo, coalesceFreeBlocksFrom, if_neg ha0, hnext, hfree, hfree']
              by_cases hboth : g = true ∧ g' = true
              · obtain ⟨rfl, rfl⟩ := hboth
                obtain ⟨hmerged, hframe⟩ := mergeWithNext_front h ha hlt
                have hspan := span_join (w := 32) [] ts n k true true true
                rw [List.nil_append, List.nil_append] at hspan
                obtain ⟨m', hrun, hblocks, hframe', -⟩ := ih
                  hmerged ha (by rw [← hspan]; exact hlt) (by simpa using hfuel)
                refine ⟨m', ?_, ?_, ?_, ?_⟩
                · rw [if_pos ⟨rfl, hc0, rfl⟩]
                  exact hrun
                · rw [coalesce_cons_free]
                  exact hblocks
                · intro x hx
                  rw [← hframe x hx]
                  exact hframe' x (hx.of_eq hspan.symm (used_join (l := [])).symm)
                · intro hcan
                  exact absurd ⟨rfl, rfl⟩ ((canonical_cons.mp hcan).1 ⟨k, true⟩ rfl)
              · have hstop : ¬ (g = true ∧ a + 32 + n ≠ null ∧ g' = true) :=
                  fun hand => hboth ⟨hand.1, hand.2.2⟩
                have hlt' : a + 32 + n + span 32 (⟨k, g'⟩ :: ts) < 2 ^ 64 := by
                  simp only [span] at hlt ⊢
                  omega
                obtain ⟨m', hrun, hblocks, hframe, hcan⟩ :=
                  ih h.2 (by omega) hlt' (by simpa using hfuel)
                refine ⟨m', ?_, ?_, ?_, fun hc => hcan (canonical_cons.mp hc).2⟩
                · rw [if_neg hstop]
                  exact hrun
                · rw [coalesce_cons_stop _ _ _ (show ¬ (g = true ∧ g' = true) from hboth)]
                  have hne : coalesce 32 (⟨k, g'⟩ :: ts) ≠ [] := coalesce_ne_nil (by simp)
                  exact h.replace_tail (by simp) hne hblocks fun x hx => hframe x (.inl hx)
                · intro x hx
                  exact hframe x hx.tail

/-- The header `split_block` writes for the new block at `b`. -/
def newHeader (b size next prev : Nat) (m : Mem) : Mem :=
  setBlockPrev b prev (setBlockNext b next (setBlockFree b true (setBlockSize b size m)))

theorem newHeader_outside {size : Nat} (hx : x < b ∨ b + 32 ≤ x) :
    newHeader b size next prev m x = m x :=
  (setBlockPrev_outside hx).trans ((setBlockNext_outside hx).trans
    ((setBlockFree_outside hx).trans (setBlockSize_outside hx)))

/-- `split_block` on a block whose header is known. -/
theorem splitBlock_eq {d pa : Nat} (hA : BlockAt m a ⟨s, f⟩ d pa) (hn : n + 32 < s)
    (hlt : a + 32 + s < 2 ^ 64) :
    splitBlock a n m
      = setBlockSize a n (setBlockNext a (a + 32 + n)
          (if d ≠ null then
            setBlockPrev d (a + 32 + n) (newHeader (a + 32 + n) (s - n - 32) d a m)
          else newHeader (a + 32 + n) (s - n - 32) d a m)) := by
  have hlimit : wordAdd n heapBlockBytes = n + 32 := wordAdd_eq (by show n + 32 < _; omega)
  have hpayload : blockPayload a = a + 32 := wordAdd_eq (by show a + 32 < _; omega)
  have hnew : wordAdd (a + 32) n = a + 32 + n := wordAdd_eq (by omega)
  have hsize : wordSub (wordSub s n) heapBlockBytes = s - n - 32 := by
    have hinner : wordSub s n = s - n := wordSub_eq (by omega) (by omega)
    rw [hinner, heapBlockBytes]
    exact wordSub_eq (by omega) (by omega)
  have hkeep : ∀ m', (∀ x, x < a + 32 + n → m' x = m x) → blockNext m' a = d := by
    intro m' heq
    exact (hA.congr _ fun x _ hhi => heq x (by omega)).next
  have hnext₁ : blockNext (setBlockFree (a + 32 + n) true
      (setBlockSize (a + 32 + n) (s - n - 32) m)) a = d := by
    refine hkeep _ fun x hx => ?_
    rw [setBlockFree_outside (.inl hx), setBlockSize_outside (.inl hx)]
  have hnext₂ : blockNext (newHeader (a + 32 + n) (s - n - 32) d a m) a = d :=
    hkeep _ fun x hx => newHeader_outside (.inl hx)
  unfold splitBlock
  rw [if_neg (by rw [hA.size, hlimit]; exact Nat.not_le.mpr hn)]
  simp only [hpayload, hnew, hA.size, hsize, hnext₁]
  rw [show setBlockPrev (a + 32 + n) a (setBlockNext (a + 32 + n) d (setBlockFree
    (a + 32 + n) true (setBlockSize (a + 32 + n) (s - n - 32) m)))
    = newHeader (a + 32 + n) (s - n - 32) d a m from rfl, hnext₂]

/-- `split_block` on the first of a run, when it is larger than needed. -/
theorem splitBlock_front (h : BlocksAt m prev a (⟨s, true⟩ :: r) null) (ha : 0 < a)
    (hn : n + 32 < s) (hlt : a + span 32 (⟨s, true⟩ :: r) < 2 ^ 64) :
    BlocksAt (splitBlock a n m) prev a (⟨n, true⟩ :: ⟨s - n - 32, true⟩ :: r) null
      ∧ ∀ x, Untouched 32 a (⟨s, true⟩ :: r) x → splitBlock a n m x = m x := by
  obtain ⟨hA, hrest⟩ := h
  dsimp only at hA hrest
  have hend : a + 32 + n + 32 + (s - n - 32) = a + 32 + s := by omega
  have hptr : ptrTo (a + 32 + s) r null < 2 ^ 64 := by
    cases r with
    | nil => exact (by decide : null < 2 ^ 64)
    | cons t r =>
        show a + 32 + s < 2 ^ 64
        simp only [span] at hlt
        omega
  have hfit : a + 32 + s < 2 ^ 64 := by
    simp only [span] at hlt
    omega
  have hfront : ∀ x, x < a ∨ a + 32 ≤ x → ∀ m' : Mem,
      setBlockSize a n (setBlockNext a (a + 32 + n) m') x = m' x := fun x hx m' =>
    (setBlockSize_outside hx).trans (setBlockNext_outside hx)
  have hN : BlockAt (newHeader (a + 32 + n) (s - n - 32) (ptrTo (a + 32 + s) r null) a m)
      (a + 32 + n) ⟨s - n - 32, true⟩ (ptrTo (a + 32 + s) r null) a :=
    blockAt_new m _ true (by omega) hptr (by omega)
  have huntouched : ∀ x, Untouched 32 a (⟨s, true⟩ :: r) x → x < a ∨ a + 32 + s ≤ x := by
    intro x hx
    by_contra hin
    rw [not_or, Nat.not_lt, Nat.not_le] at hin
    exact not_untouched_free (l := []) hin.1 (by simpa [span] using hin.2) hx
  cases r with
  | nil =>
      rw [splitBlock_eq hA hn hfit,
        if_neg (show ¬ ptrTo (a + 32 + s) [] null ≠ null from not_not.mpr rfl)]
      have hA₁ := hA.congr (newHeader (a + 32 + n) (s - n - 32) null a m)
        fun x _ hhi => newHeader_outside (.inl (by omega))
      refine ⟨⟨(hA₁.setNext (by omega)).setSize (by omega), ?_, trivial⟩, ?_⟩
      · refine hN.congr _ fun x hlo _ => hfront x (by omega) _
      · intro x hx
        have hout := huntouched x hx
        rw [hfront x (by omega), newHeader_outside (by omega)]
  | cons t r =>
      rw [ptrTo] at hA hN
      rw [splitBlock_eq hA hn hfit,
        if_pos (show a + 32 + s ≠ null from Nat.ne_of_gt (by show 0 < a + 32 + s; omega))]
      have hbefore : ∀ x, x < a + 32 + s → setBlockPrev (a + 32 + s) (a + 32 + n)
          (newHeader (a + 32 + n) (s - n - 32) (a + 32 + s) a m) x
          = newHeader (a + 32 + n) (s - n - 32) (a + 32 + s) a m x :=
        fun x hx => setBlockPrev_outside (.inl hx)
      have hA₁ := hA.congr _ fun x _ hhi =>
        (hbefore x (by omega)).trans (newHeader_outside (.inl (by omega)))
      refine ⟨⟨(hA₁.setNext (by omega)).setSize (by omega), ?_, ?_⟩, ?_⟩
      · dsimp only
        rw [hend]
        exact hN.congr _ fun x hlo hhi => (hfront x (by omega) _).trans (hbefore x (by omega))
      · dsimp only
        rw [hend]
        have hR := hrest.1.congr
          (newHeader (a + 32 + n) (s - n - 32) (a + 32 + s) a m)
          fun x hlo _ => newHeader_outside (.inr (by omega))
        refine ⟨(hR.setPrev (by omega)).congr _ fun x hlo _ => hfront x (by omega) _, ?_⟩
        refine hrest.2.congr_inside fun x hlo _ => ?_
        rw [hfront x (by omega), setBlockPrev_outside (by omega),
          newHeader_outside (by omega)]
      · intro x hx
        have hout := huntouched x hx
        have hxr : x < a + (32 + s + 0) ∨ a + (32 + s + 0) + 32 ≤ x :=
          untouched_ne_header (l := [⟨s, true⟩]) hx rfl
        rw [hfront x (by omega), setBlockPrev_outside (by omega),
          newHeader_outside (by omega)]

/-- A new block after the last one of a list. -/
theorem appendBlock_blocks {e : Nat} (h : BlocksAt m prev a (l ++ [t]) null)
    (hlt : a + span 32 (l ++ [t]) + 32 + n < 2 ^ 64) (he : e = a + span 32 (l ++ [t])) :
    BlocksAt (setBlockPrev e (a + span 32 l) (setBlockNext (a + span 32 l) e
      (newHeader e n null null m))) prev a (l ++ [t, ⟨n, true⟩]) null := by
  have hT := (blocksAt_append.mp h).2.1
  simp only [span_append, span] at hlt he
  have hnew : BlockAt (newHeader e n null null m) e ⟨n, true⟩ null null :=
    blockAt_new m e true (by omega) (by decide) (by decide)
  have hT₁ := hT.congr (newHeader e n null null m)
    fun x _ hhi => newHeader_outside (.inl (by omega))
  refine h.replace (by simp) (by simp) ⟨?_, ?_, trivial⟩ ?_
  · rw [ptrTo, show a + span 32 l + 32 + t.size = e by omega]
    apply (hT₁.setNext (show e < 2 ^ 64 by omega)).congr _
    intro x _ hhi
    exact setBlockPrev_outside (.inl (by omega))
  · rw [show a + span 32 l + 32 + t.size = e by omega]
    have hnew₁ := hnew.congr (setBlockNext (a + span 32 l) e (newHeader e n null null m))
      fun x hlo _ => setBlockNext_outside (.inr (by omega))
    exact hnew₁.setPrev (by omega)
  · intro x hx
    rw [setBlockPrev_outside (.inl (by omega)), setBlockNext_outside (.inl hx),
      newHeader_outside (.inl (by omega))]

-- =================================================================== walks

/-- `find_free_block` along a run: the first free tile that is large
enough. -/
theorem findFreeBlockFrom_run {fuel : Nat} (h : BlocksAt m prev a ts null) (ha : 0 < a)
    (hfuel : ts.length < fuel) :
    (findFreeBlockFrom m n fuel (ptrTo a ts null) = some null
        ∧ ∀ t ∈ ts, ¬ (t.free = true ∧ n ≤ t.size))
      ∨ ∃ l t r, ts = l ++ t :: r ∧ (t.free = true ∧ n ≤ t.size)
        ∧ (∀ u ∈ l, ¬ (u.free = true ∧ n ≤ u.size))
        ∧ findFreeBlockFrom m n fuel (ptrTo a ts null) = some (a + span 32 l) := by
  induction ts generalizing prev a fuel with
  | nil =>
      cases fuel with
      | zero => simp at hfuel
      | succ fuel => exact .inl ⟨by simp [findFreeBlockFrom, ptrTo], by simp⟩
  | cons t ts ih =>
      cases fuel with
      | zero => simp at hfuel
      | succ fuel =>
          have ha0 : a ≠ null := Nat.ne_of_gt ha
          rw [ptrTo, findFreeBlockFrom, if_neg ha0, h.1.free, h.1.size, h.1.next]
          by_cases hfit : t.free = true ∧ n ≤ t.size
          · refine .inr ⟨[], t, ts, rfl, hfit, by simp, ?_⟩
            rw [if_pos hfit, span, Nat.add_zero]
          · rw [if_neg hfit]
            rcases ih h.2 (by omega) (by simpa using hfuel) with ⟨hnone, hall⟩ |
              ⟨l, u, r, rfl, hu, hl, hfound⟩
            · refine .inl ⟨hnone, ?_⟩
              intro u hu
              cases List.mem_cons.mp hu with
              | inl heq => exact heq ▸ hfit
              | inr hmem => exact hall u hmem
            · refine .inr ⟨t :: l, u, r, rfl, hu, ?_, ?_⟩
              · intro v hv
                cases List.mem_cons.mp hv with
                | inl heq => exact heq ▸ hfit
                | inr hmem => exact hl v hmem
              · rw [hfound, span, show a + 32 + t.size + span 32 l
                  = a + (32 + t.size + span 32 l) by omega]

/-- `find_last_block` along a run. -/
theorem findLastBlockFrom_run {fuel : Nat} (h : BlocksAt m prev a (l ++ [t]) null)
    (ha : 0 < a) (hfuel : l.length < fuel) :
    findLastBlockFrom m fuel a = some (a + span 32 l) := by
  induction l generalizing prev a fuel with
  | nil =>
      cases fuel with
      | zero => simp at hfuel
      | succ fuel =>
          have hnext : blockNext m a = null := h.1.next
          simp [findLastBlockFrom, hnext, span]
  | cons u l ih =>
      cases fuel with
      | zero => simp at hfuel
      | succ fuel =>
          have hptr : ptrTo (a + 32 + u.size) (l ++ [t]) null = a + 32 + u.size := by
            cases l with
            | nil => rfl
            | cons u' l => rfl
          have hnext : blockNext m a = a + 32 + u.size := by
            rw [← hptr]
            exact h.1.next
          have hne : a + 32 + u.size ≠ null :=
            Nat.ne_of_gt (by show 0 < a + 32 + u.size; omega)
          rw [findLastBlockFrom, hnext, if_pos hne,
            ih h.2 (by omega) (by simpa using hfuel), span]
          rw [show a + 32 + u.size + span 32 l = a + (32 + u.size + span 32 l) by omega]

end ZenithOS.Mm
