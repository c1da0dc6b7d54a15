/-
The table of virtual memory areas over every history of calls.

# What a call can do

`vmaCreate_cases`, `vmaDestroy_cases` and `vmaResize_cases` say once what
each call returns and where the table is cut; all that follows is read off
them.

# No overlap

Whatever the arguments, no address comes to lie in two areas: the test
that `vma_create` and `vma_resize` share compares the stored ends, and
two areas with a common address fail it also when one is wrapped.

# The interval map

A wrapped area answers for none of its addresses, and an empty one does
not keep others from its start. `VmaOp.Proper` leaves these two out; then
the starts stay distinct and the table is a map from starts to areas.
-/
import Mathlib.Data.List.Nodup
import ZenithOS.Lib.Cover
import ZenithOS.Lib.Run
import ZenithOS.Vmm.Vma

namespace ZenithOS.Vmm

open Lib

/-- The address belongs to the area. -/
def Vma.Covers (v : Vma) (a : Nat) : Prop := v.start ≤ a ∧ a < v.stop

instance (v : Vma) (a : Nat) : Decidable (v.Covers a) := inferInstanceAs (Decidable (_ ∧ _))

/-- The area that `vma_find` answers with. -/
def vmaLookup (t : VmaTable) (a : Nat) : Option Vma := (vmaFind t a).map t.entry

variable {t t' t'' l r : VmaTable} {v w : Vma} {a i start size flags : Nat} {done : Bool}

-- ============================================================ cutting the table

theorem entry_eq (hi : i < t.length) : t.entry i = t[i] := by
  unfold VmaTable.entry
  rw [List.getD_eq_getElem?_getD, List.getElem?_eq_getElem hi, Option.getD_some]

theorem entry_of_length_le (hi : t.length ≤ i) : t.entry i = ⟨0, 0, 0⟩ := by
  unfold VmaTable.entry
  rw [List.getD_eq_getElem?_getD, List.getElem?_eq_none hi, Option.getD_none]

theorem entry_middle : VmaTable.entry (l ++ v :: r) l.length = v := by
  unfold VmaTable.entry
  simp

/-- An entry beside the cut has an index of its own. -/
theorem others_entry (hw : w ∈ l ++ r) :
    ∃ j, j < (l ++ v :: r).length ∧ j ≠ l.length ∧ VmaTable.entry (l ++ v :: r) j = w := by
  rw [List.length_append, List.length_cons]
  rcases List.mem_append.mp hw with hl | hr
  · obtain ⟨j, hj, rfl⟩ := List.getElem_of_mem hl
    refine ⟨j, by omega, Nat.ne_of_lt hj, ?_⟩
    rw [entry_eq (by simp; omega), List.getElem_append_left hj]
  · obtain ⟨j, hj, rfl⟩ := List.getElem_of_mem hr
    refine ⟨l.length + (j + 1), by omega, by omega, ?_⟩
    rw [entry_eq (by simp; omega), List.getElem_append_right (by omega)]
    simp

/-- The first place where a test succeeds cuts the table. -/
theorem findIdx?_split {p : Vma → Bool} (h : t.findIdx? p = some i) :
    ∃ l v r, t = l ++ v :: r ∧ l.length = i ∧ p v = true ∧ ∀ w ∈ l, p w = false := by
  obtain ⟨hi, hp, hbefore⟩ := List.findIdx?_eq_some_iff_getElem.mp h
  refine ⟨t.take i, t[i], t.drop (i + 1), ?_, ?_, hp, ?_⟩
  · rw [← List.drop_eq_getElem_cons hi, List.take_append_drop]
  · rw [List.length_take, Nat.min_eq_left (Nat.le_of_lt hi)]
  · intro w hw
    obtain ⟨j, hj, rfl⟩ := List.getElem_of_mem hw
    rw [List.length_take] at hj
    rw [List.getElem_take]
    simpa using hbefore j (by omega)

/-- `vma_lookup` finds the first area that covers the address. -/
theorem vmaLookup_eq : vmaLookup t a = t.find? fun v => v.Covers a := by
  unfold vmaLookup
  rw [List.find?_eq_bind_findIdx?_getElem?]
  show (vmaFind t a).map t.entry = (vmaFind t a).bind fun i => t[i]?
  cases hf : vmaFind t a with
  | none => rfl
  | some i =>
      have hi := (List.findIdx?_eq_some_iff_getElem.mp hf).1
      rw [Option.map_some, Option.bind_some, entry_eq hi, List.getElem?_eq_getElem hi]

-- ============================================================ what a call can do

/-- The test of `vma_create` and `vma_resize`: a range from `start` to
`stop` does not meet the area. -/
def Clear (start stop : Nat) (v : Vma) : Prop := ¬ (start < v.stop ∧ stop > v.start)

instance (start stop : Nat) (v : Vma) : Decidable (Clear start stop v) :=
  inferInstanceAs (Decidable (¬ _))

/-- A clear range is apart from the area. -/
theorem Clear.apart {stop : Nat} (h : Clear start stop w) (hs : v.start = start)
    (he : v.stop = stop) : Apart Vma.Covers v w := by
  intro a hv hw
  obtain ⟨hv₁, hv₂⟩ := hv
  obtain ⟨hw₁, hw₂⟩ := hw
  exact h ⟨by omega, by omega⟩

/-- The 64-bit end of a range. -/
def vmaStop (start size : Nat) : Nat := (start + size) % 2 ^ 64

/-- `vma_create` adds an area that meets no other, or fails. -/
theorem vmaCreate_cases (h : vmaCreate t start size flags = (done, t')) :
    (done = false ∧ t' = t) ∨
    (done = true ∧ t' = t ++ [⟨start, vmaStop start size, flags⟩]
      ∧ t.length < vmaMaxCount ∧ ∀ v ∈ t, Clear start (vmaStop start size) v) := by
  unfold vmaCreate at h
  by_cases hfull : t.length ≥ vmaMaxCount
  · rw [if_pos hfull] at h
    cases h
    exact .inl ⟨rfl, rfl⟩
  · rw [if_neg hfull] at h
    dsimp only at h
    split at h
    case isTrue hmeet =>
        cases h
        exact .inl ⟨rfl, rfl⟩
    case isFalse hmeet =>
        cases h
        refine .inr ⟨rfl, rfl, Nat.lt_of_not_ge hfull, ?_⟩
        intro v hv hboth
        exact hmeet (List.any_eq_true.mpr ⟨v, hv, decide_eq_true hboth⟩)

/-- `vma_destroy` takes the first area with the start away, or fails. -/
theorem vmaDestroy_cases (h : vmaDestroy t start = (done, t')) :
    (done = false ∧ t' = t ∧ ∀ v ∈ t, v.start ≠ start) ∨
    (done = true ∧ ∃ l v r, t = l ++ v :: r ∧ t' = l ++ r ∧ v.start = start
      ∧ ∀ w ∈ l, w.start ≠ start) := by
  unfold vmaDestroy at h
  cases hf : t.findIdx? fun v => decide (v.start = start) with
  | none =>
      rw [hf] at h
      cases h
      refine .inl ⟨rfl, rfl, ?_⟩
      intro v hv
      simpa using List.findIdx?_eq_none_iff.mp hf v hv
  | some i =>
      rw [hf] at h
      cases h
      obtain ⟨l, v, r, rfl, rfl, hv, hl⟩ := findIdx?_split hf
      refine .inr ⟨rfl, l, v, r, rfl, ?_, of_decide_eq_true hv, ?_⟩
      · rw [List.eraseIdx_append_of_length_le (Nat.le_refl _), Nat.sub_self,
          List.eraseIdx_cons_zero]
      · intro w hw
        simpa using hl w hw

/-- The entries other than the one at the cut. -/
theorem others_middle :
    ((l ++ v :: r).zipIdx.filter fun entry => entry.2 ≠ l.length).map Prod.fst = l ++ r := by
  have hl : l.zipIdx.filter (fun entry => entry.2 ≠ l.length) = l.zipIdx := by
    apply List.filter_eq_self.mpr
    intro entry hentry
    have hlt := List.snd_lt_of_mem_zipIdx hentry
    simpa using (by omega : entry.2 ≠ l.length)
  have hr : (r.zipIdx (l.length + 1)).filter (fun entry => entry.2 ≠ l.length)
      = r.zipIdx (l.length + 1) := by
    apply List.filter_eq_self.mpr
    intro entry hentry
    have hle := List.le_snd_of_mem_zipIdx hentry
    simpa using (by omega : entry.2 ≠ l.length)
  rw [List.zipIdx_append, List.filter_append, Nat.zero_add, hl, List.zipIdx_cons, List.filter_cons,
    if_neg (by simp), hr, List.map_append, List.zipIdx_map_fst, List.zipIdx_map_fst]

theorem findIdx?_middle {p : Vma → Bool} (hv : p v = true) (hl : ∀ w ∈ l, p w = false) :
    (l ++ v :: r).findIdx? p = some l.length := by
  rw [List.findIdx?_append, List.findIdx?_eq_none_iff.mpr hl, Option.none_or, List.findIdx?_cons,
    if_pos hv, Option.map_some, Nat.zero_add]

/-- `vma_resize` at the area it finds. -/
theorem vmaResize_middle (hv : v.start = start) (hl : ∀ w ∈ l, w.start ≠ start) :
    vmaResize (l ++ v :: r) start size
      = if ∃ w ∈ l ++ r, ¬ Clear start (vmaStop start size) w then (false, l ++ v :: r)
        else (true, l ++ { v with stop := vmaStop start size } :: r) := by
  unfold vmaResize
  rw [findIdx?_middle (decide_eq_true hv) fun w hw => decide_eq_false (hl w hw)]
  dsimp only
  have hmodify : (l ++ v :: r).modify l.length (fun v => { v with stop := vmaStop start size })
      = l ++ { v with stop := vmaStop start size } :: r := by
    rw [List.modify_eq_take_cons_drop (by simp)]
    simp
  have hmeet : (((l ++ v :: r).zipIdx.filter fun entry => entry.2 ≠ l.length).any fun entry =>
      start < entry.1.stop ∧ vmaStop start size > entry.1.start) = true
        ↔ ∃ w ∈ l ++ r, ¬ Clear start (vmaStop start size) w := by
    have hothers := others_middle (l := l) (v := v) (r := r)
    rw [List.any_eq_true]
    constructor
    · rintro ⟨entry, hentry, hboth⟩
      refine ⟨entry.1, ?_, fun hclear => hclear (of_decide_eq_true hboth)⟩
      rw [← hothers]
      exact List.mem_map_of_mem hentry
    · rintro ⟨w, hw, hnot⟩
      rw [← hothers] at hw
      obtain ⟨entry, hentry, rfl⟩ := List.mem_map.mp hw
      exact ⟨entry, hentry, decide_eq_true (not_not.mp hnot)⟩
  by_cases hex : ∃ w ∈ l ++ r, ¬ Clear start (vmaStop start size) w
  · rw [if_pos hex]
    exact if_pos (hmeet.mpr hex)
  · rw [if_neg hex, ← hmodify]
    exact if_neg fun hany => hex (hmeet.mp hany)

/-- `vma_resize` moves the end of the first area with the start, or fails.
-/
theorem vmaResize_cases (h : vmaResize t start size = (done, t')) :
    (done = false ∧ t' = t) ∨
    (done = true ∧ ∃ l v r, t = l ++ v :: r
      ∧ t' = l ++ { v with stop := vmaStop start size } :: r ∧ v.start = start
      ∧ (∀ w ∈ l, w.start ≠ start) ∧ ∀ w ∈ l ++ r, Clear start (vmaStop start size) w) := by
  cases hf : t.findIdx? fun v => decide (v.start = start) with
  | none =>
      unfold vmaResize at h
      rw [hf] at h
      cases h
      exact .inl ⟨rfl, rfl⟩
  | some i =>
      obtain ⟨l, v, r, rfl, rfl, hv, hl⟩ := findIdx?_split hf
      have hbefore : ∀ w ∈ l, w.start ≠ start := fun w hw => of_decide_eq_false (hl w hw)
      rw [vmaResize_middle (of_decide_eq_true hv) hbefore] at h
      split at h
      case isTrue hmeet =>
          cases h
          exact .inl ⟨rfl, rfl⟩
      case isFalse hmeet =>
          cases h
          refine .inr ⟨rfl, l, v, r, rfl, rfl, of_decide_eq_true hv, hbefore, ?_⟩
          intro w hw
          exact not_not.mp fun hnot => hmeet ⟨w, hw, hnot⟩

-- ================================================================ no overlap

/-- The table keeps to its size and its areas apart. -/
structure VmaInv (t : VmaTable) : Prop where
  exclusive : Exclusive Vma.Covers t
  count : t.length ≤ vmaMaxCount

theorem vmaInit_inv : VmaInv vmaInit := ⟨Exclusive.nil, Nat.zero_le _⟩

/-- `vma_create` keeps the invariant. -/
theorem VmaInv.create (h : VmaInv t) (hc : vmaCreate t start size flags = (done, t')) :
    VmaInv t' := by
  rcases vmaCreate_cases hc with ⟨-, rfl⟩ | ⟨-, rfl, hroom, hclear⟩
  · exact h
  · refine ⟨exclusive_middle.mpr ⟨?_, ?_⟩, ?_⟩
    · intro w hw
      rw [List.append_nil] at hw
      exact (hclear w hw).apart rfl rfl
    · rw [List.append_nil]
      exact h.exclusive
    · rw [List.length_append]
      exact hroom

/-- `vma_destroy` keeps it. -/
theorem VmaInv.destroy (h : VmaInv t) (hd : vmaDestroy t start = (done, t')) : VmaInv t' := by
  rcases vmaDestroy_cases hd with ⟨-, rfl, -⟩ | ⟨-, l, v, r, rfl, rfl, -, -⟩
  · exact h
  · have hcount := h.count
    rw [List.length_append, List.length_cons] at hcount
    refine ⟨h.exclusive.middle, ?_⟩
    rw [List.length_append]
    omega

/-- `vma_resize` keeps it. -/
theorem VmaInv.resize (h : VmaInv t) (hr : vmaResize t start size = (done, t')) : VmaInv t' := by
  rcases vmaResize_cases hr with ⟨-, rfl⟩ | ⟨-, l, v, r, rfl, rfl, hv, -, hclear⟩
  · exact h
  · have hcount := h.count
    rw [List.length_append, List.length_cons] at hcount
    refine ⟨exclusive_middle.mpr ⟨?_, h.exclusive.middle⟩, ?_⟩
    · intro w hw
      exact (hclear w hw).apart hv rfl
    · rw [List.length_append, List.length_cons]
      exact hcount

/-- Every call keeps it. -/
theorem VmaInv.call (h : VmaInv t) {op : VmaOp} (hc : vmaCall t op = (done, t')) : VmaInv t' := by
  cases op with
  | init =>
      cases hc
      exact vmaInit_inv
  | create start size flags => exact h.create hc
  | destroy start => exact h.destroy hc
  | resize start newSize => exact h.resize hc

theorem VmaInv.step (h : VmaInv t) {op : VmaOp} (hs : vmaStep t op = some t') : VmaInv t' := by
  cases hc : vmaCall t op with
  | mk done u =>
      unfold vmaStep at hs
      rw [hc] at hs
      cases hs
      exact h.call hc

/-- A call that is refused changes nothing. -/
theorem vmaCall_refused {op : VmaOp} (hc : vmaCall t op = (false, t')) : t' = t := by
  cases op with
  | init => cases hc
  | create start size flags =>
      rcases vmaCreate_cases hc with ⟨-, rfl⟩ | ⟨hdone, -⟩
      · rfl
      · cases hdone
  | destroy start =>
      rcases vmaDestroy_cases hc with ⟨-, rfl, -⟩ | ⟨hdone, -⟩
      · rfl
      · cases hdone
  | resize start newSize =>
      rcases vmaResize_cases hc with ⟨-, rfl⟩ | ⟨hdone, -⟩
      · rfl
      · cases hdone

/-- The index found is that of the area that covers the address. -/
theorem VmaInv.find_iff (h : VmaInv t) :
    vmaFind t a = some i ↔ i < t.length ∧ (t.entry i).Covers a := by
  unfold vmaFind
  rw [List.findIdx?_eq_some_iff_getElem]
  constructor
  · rintro ⟨hi, hcov, -⟩
    rw [entry_eq hi]
    exact ⟨hi, of_decide_eq_true hcov⟩
  · rintro ⟨hi, hcov⟩
    rw [entry_eq hi] at hcov
    refine ⟨hi, decide_eq_true hcov, ?_⟩
    intro j hj hcovj
    have heq := h.exclusive.index_eq (Nat.lt_trans hj hi) hi (of_decide_eq_true hcovj) hcov
    exact absurd heq (Nat.ne_of_lt hj)

/-- The area found is the one that covers the address. -/
theorem VmaInv.lookup_iff (h : VmaInv t) : vmaLookup t a = some v ↔ v ∈ t ∧ v.Covers a := by
  rw [vmaLookup_eq]
  exact h.exclusive.find?_eq_some

/-- Over every history of calls with any arguments: no address belongs to
two entries, `vma_find` answers with the one that has the address, in
whatever order the table is, there are at most 32 entries, and a call
that returns false changes nothing. -/
theorem vma_areas_never_overlap (ops : List VmaOp) :
    ∃ t, runOps vmaStep vmaInit ops = some t
      ∧ (∀ a i j, i < t.length → j < t.length → (t.entry i).Covers a → (t.entry j).Covers a →
        i = j)
      ∧ (∀ a i, vmaFind t a = some i ↔ i < t.length ∧ (t.entry i).Covers a)
      ∧ (∀ t' : VmaTable, t'.Perm t → ∀ a, vmaLookup t' a = vmaLookup t a)
      ∧ t.length ≤ vmaMaxCount
      ∧ ∀ op t', vmaCall t op = (false, t') → t' = t := by
  obtain ⟨t, hrun, hinv⟩ := run_total
    (fun t op (h : VmaInv t) _ => ⟨_, rfl, h.step rfl⟩) vmaInit_inv
    (allowedRun_trivial vmaInit ops)
  refine ⟨t, hrun, ?_, fun a i => hinv.find_iff, ?_, hinv.count, fun op t' => vmaCall_refused⟩
  · intro a i j hi hj hvi hvj
    rw [entry_eq hi] at hvi
    rw [entry_eq hj] at hvj
    exact hinv.exclusive.index_eq hi hj hvi hvj
  · intro t' hp a
    rw [vmaLookup_eq, vmaLookup_eq]
    exact hinv.exclusive.find?_perm hp a

-- ========================================================== the interval map

/-- The range does not wrap, and no area starts where this one would
while one of the two is empty. -/
def VmaOp.Proper (t : VmaTable) : VmaOp → Prop
  | .create start size _ =>
      start + size < 2 ^ 64 ∧ ∀ v ∈ t, v.start = start → v.start < v.stop ∧ 0 < size
  | .resize start newSize => start + newSize < 2 ^ 64
  | .init | .destroy _ => True

instance VmaOp.decidableProper (t : VmaTable) : ∀ op : VmaOp, Decidable (op.Proper t)
  | .create .. => inferInstanceAs (Decidable (_ ∧ ∀ _ ∈ _, _))
  | .resize .. => inferInstanceAs (Decidable (_ < _))
  | .init | .destroy _ => isTrue trivial

/-- The call ends the area that starts at `start`, or changes it. -/
def VmaOp.Ends (start : Nat) : VmaOp → Prop
  | .init => True
  | .create .. => False
  | .destroy start' | .resize start' _ => start' = start

/-- The area answers for its addresses, now and until it is resized or
destroyed. -/
def Answers (t : VmaTable) (v : Vma) : Prop :=
  ∀ later t', AllowedRun vmaStep (fun t op => op.Proper t) t later →
    (∀ op ∈ later, ¬ op.Ends v.start) → runOps vmaStep t later = some t' →
      ∀ a, v.start ≤ a → a < v.stop → vmaLookup t' a = some v

/-- A table of areas with distinct starts. -/
structure VmaMap (t : VmaTable) : Prop where
  inv : VmaInv t
  starts : (t.map Vma.start).Nodup

/-- The end of an area that does not wrap. -/
theorem vmaStop_eq (h : start + size < 2 ^ 64) : vmaStop start size = start + size :=
  Nat.mod_eq_of_lt h

/-- The start of an area against the others. -/
theorem starts_middle :
    ((l ++ v :: r).map Vma.start).Nodup
      ↔ (∀ w ∈ l ++ r, w.start ≠ v.start) ∧ ((l ++ r).map Vma.start).Nodup := by
  rw [List.map_append, List.map_cons, List.nodup_middle, List.nodup_cons, ← List.map_append,
    List.mem_map]
  constructor
  · rintro ⟨hnot, hnodup⟩
    exact ⟨fun w hw heq => hnot ⟨w, hw, heq⟩, hnodup⟩
  · rintro ⟨hne, hnodup⟩
    exact ⟨fun ⟨w, hw, heq⟩ => hne w hw heq, hnodup⟩

theorem vmaInit_map : VmaMap vmaInit := ⟨vmaInit_inv, List.nodup_nil⟩

/-- `vma_create` of a proper area keeps the map. -/
theorem VmaMap.create (h : VmaMap t) (hp : (VmaOp.create start size flags).Proper t)
    (hc : vmaCreate t start size flags = (done, t')) : VmaMap t' := by
  refine ⟨h.inv.create hc, ?_⟩
  rcases vmaCreate_cases hc with ⟨-, rfl⟩ | ⟨-, rfl, -, hclear⟩
  · exact h.starts
  · apply starts_middle.mpr
    rw [List.append_nil]
    refine ⟨?_, h.starts⟩
    -- an area with this start, neither empty, meets the range
    intro w hw heq
    obtain ⟨hnonempty, hsize⟩ := hp.2 w hw heq
    have hmeet := hclear w hw
    rw [vmaStop_eq hp.1] at hmeet
    unfold Clear at hmeet
    dsimp only at heq
    omega

/-- `vma_destroy` keeps it. -/
theorem VmaMap.destroy (h : VmaMap t) (hd : vmaDestroy t start = (done, t')) : VmaMap t' := by
  refine ⟨h.inv.destroy hd, ?_⟩
  rcases vmaDestroy_cases hd with ⟨-, rfl, -⟩ | ⟨-, l, v, r, rfl, rfl, -, -⟩
  · exact h.starts
  · exact (starts_middle.mp h.starts).2

/-- `vma_resize` keeps it. -/
theorem VmaMap.resize (h : VmaMap t) (hr : vmaResize t start size = (done, t')) : VmaMap t' := by
  refine ⟨h.inv.resize hr, ?_⟩
  rcases vmaResize_cases hr with ⟨-, rfl⟩ | ⟨-, l, v, r, rfl, rfl, -, -, -⟩
  · exact h.starts
  · have hstarts := h.starts
    rw [starts_middle] at hstarts
    exact starts_middle.mpr hstarts

/-- Every proper step keeps it. -/
theorem VmaMap.step (h : VmaMap t) {op : VmaOp} (hp : op.Proper t)
    (hs : vmaStep t op = some t') : VmaMap t' := by
  cases hc : vmaCall t op with
  | mk done u =>
      unfold vmaStep at hs
      rw [hc] at hs
      cases hs
      cases op with
      | init =>
          cases hc
          exact vmaInit_map
      | create start size flags => exact h.create hp hc
      | destroy start => exact h.destroy hc
      | resize start newSize => exact h.resize hc

/-- A call that does not end an area leaves it in the table. -/
theorem mem_vmaStep {op : VmaOp} (hv : v ∈ t) (hends : ¬ op.Ends v.start)
    (hs : vmaStep t op = some t') : v ∈ t' := by
  cases hc : vmaCall t op with
  | mk done u =>
      unfold vmaStep at hs
      rw [hc] at hs
      cases hs
      cases op with
      | init => exact absurd trivial hends
      | create start size flags =>
          rcases vmaCreate_cases hc with ⟨-, rfl⟩ | ⟨-, rfl, -, -⟩
          · exact hv
          · exact List.mem_append_left _ hv
      | destroy start =>
          rcases vmaDestroy_cases hc with ⟨-, rfl, -⟩ | ⟨-, l, w, r, rfl, rfl, hw, -⟩
          · exact hv
          · rcases List.mem_append.mp hv with hl | hr
            · exact List.mem_append_left r hl
            · rcases List.mem_cons.mp hr with rfl | hr
              · exact absurd hw.symm hends
              · exact List.mem_append_right l hr
      | resize start newSize =>
          rcases vmaResize_cases hc with ⟨-, rfl⟩ | ⟨-, l, w, r, rfl, rfl, hw, -, -⟩
          · exact hv
          · rcases List.mem_append.mp hv with hl | hr
            · exact List.mem_append_left _ hl
            · rcases List.mem_cons.mp hr with rfl | hr
              · exact absurd hw.symm hends
              · exact List.mem_append_right l (List.mem_cons_of_mem _ hr)

/-- An area is found at each of its addresses. -/
theorem VmaMap.lookup_of_mem (h : VmaMap t) (hv : v ∈ t) (ha : v.Covers a) :
    vmaLookup t a = some v :=
  h.inv.lookup_iff.mpr ⟨hv, ha⟩

/-- All calls answer for an area as they should. -/
theorem VmaMap.answers (h : VmaMap t) (hv : v ∈ t) : Answers t v := by
  intro later t' hops hkeeps hrun a hlo hhi
  obtain ⟨hmap, hmem⟩ := run_preserves (P := fun u => VmaMap u ∧ v ∈ u)
    (fun u op u' hu hop hs => ⟨hu.1.step hop.1 hs, mem_vmaStep hu.2 hop.2 hs⟩)
    ⟨h, hv⟩ (hops.and_forall hkeeps) hrun
  exact hmap.lookup_of_mem hmem ⟨hlo, hhi⟩


/-- What does not cover the address is passed over. -/
theorem lookup_middle (hv : ¬ v.Covers a) : vmaLookup (l ++ v :: r) a = vmaLookup (l ++ r) a := by
  rw [vmaLookup_eq, vmaLookup_eq]
  exact find?_middle_of_not hv

/-- A new area changes no other answer. -/
theorem VmaMap.create_answers (h : VmaMap t) (hp : (VmaOp.create start size flags).Proper t)
    (hc : vmaCreate t start size flags = (true, t')) :
    Answers t' ⟨start, start + size, flags⟩
      ∧ ∀ a, ¬ (start ≤ a ∧ a < start + size) → vmaLookup t' a = vmaLookup t a := by
  have hmap := h.create hp hc
  rcases vmaCreate_cases hc with ⟨hdone, -⟩ | ⟨-, rfl, -, -⟩
  · cases hdone
  · rw [vmaStop_eq hp.1] at hmap ⊢
    refine ⟨hmap.answers (List.mem_append_right t (List.mem_singleton_self _)), ?_⟩
    intro a ha
    have hnot : ¬ Vma.Covers ⟨start, start + size, flags⟩ a := ha
    rw [lookup_middle hnot, List.append_nil]

/-- A resized area keeps its flags and changes no other answer. -/
theorem VmaMap.resize_answers (h : VmaMap t) (hp : (VmaOp.resize start size).Proper t)
    (hr : vmaResize t start size = (true, t')) :
    ∃ v ∈ t, v.start = start ∧ Answers t' { v with stop := start + size }
      ∧ ∀ a, ¬ v.Covers a → ¬ (start ≤ a ∧ a < start + size) → vmaLookup t' a = vmaLookup t a := by
  have hmap := h.resize hr
  rcases vmaResize_cases hr with ⟨hdone, -⟩ | ⟨-, l, v, r, rfl, rfl, rfl, -, -⟩
  · cases hdone
  · rw [vmaStop_eq hp] at hmap ⊢
    refine ⟨v, List.mem_append_right l List.mem_cons_self, rfl, ?_, ?_⟩
    · exact hmap.answers (List.mem_append_right l List.mem_cons_self)
    · intro a hold hnew
      have hnot : ¬ Vma.Covers { v with stop := v.start + size } a := hnew
      rw [lookup_middle hnot, lookup_middle hold]

/-- The area that starts at `v.start`, and no other, goes. -/
theorem VmaMap.destroy_removes (h : VmaMap t) (hv : v ∈ t) :
    ∃ l r, t = l ++ v :: r ∧ vmaDestroy t v.start = (true, l ++ r)
      ∧ ∀ a, vmaLookup (l ++ r) a = if v.Covers a then none else vmaLookup t a := by
  obtain ⟨done, t', hd⟩ : ∃ done t', vmaDestroy t v.start = (done, t') := ⟨_, _, rfl⟩
  have hmap := h.destroy hd
  rcases vmaDestroy_cases hd with ⟨-, -, hnone⟩ | ⟨hdone, l, w, r, rfl, rfl, hw, -⟩
  · exact absurd rfl (hnone v hv)
  · obtain rfl : v = w := by
      have hother := (starts_middle.mp h.starts).1
      rcases List.mem_append.mp hv with hl | hr
      · exact absurd hw.symm (hother v (List.mem_append_left r hl))
      · rcases List.mem_cons.mp hr with rfl | hr
        · rfl
        · exact absurd hw.symm (hother v (List.mem_append_right l hr))
    refine ⟨l, r, rfl, hdone ▸ hd, ?_⟩
    intro a
    by_cases ha : v.Covers a
    · rw [if_pos ha]
      cases hfind : vmaLookup (l ++ r) a with
      | none => rfl
      | some u =>
          obtain ⟨hu, hcov⟩ := hmap.inv.lookup_iff.mp hfind
          exact absurd hcov ((exclusive_middle.mp h.inv.exclusive).1 u hu a ha)
    · rw [if_neg ha, lookup_middle ha]

/-- Over every history of proper calls the table is an interval map: no
two entries have one start; an area answers for all its addresses as soon
as it is made or resized and until it is resized or destroyed, and the
other answers stay; an area is destroyed by its start, and only it. -/
theorem vma_interval_map (ops : List VmaOp)
    (hops : AllowedRun vmaStep (fun t op => op.Proper t) vmaInit ops)
    (hrun : runOps vmaStep vmaInit ops = some t) :
    (t.map Vma.start).Nodup
      ∧ (∀ start size flags t', (VmaOp.create start size flags).Proper t →
        vmaCreate t start size flags = (true, t') →
          Answers t' ⟨start, start + size, flags⟩
            ∧ ∀ a, ¬ (start ≤ a ∧ a < start + size) → vmaLookup t' a = vmaLookup t a)
      ∧ (∀ start size t', (VmaOp.resize start size).Proper t →
        vmaResize t start size = (true, t') →
          ∃ v ∈ t, v.start = start ∧ Answers t' { v with stop := start + size }
            ∧ ∀ a, ¬ v.Covers a → ¬ (start ≤ a ∧ a < start + size) →
              vmaLookup t' a = vmaLookup t a)
      ∧ ∀ v ∈ t, ∃ l r, t = l ++ v :: r ∧ vmaDestroy t v.start = (true, l ++ r)
          ∧ ∀ a, vmaLookup (l ++ r) a = if v.Covers a then none else vmaLookup t a := by
  have hmap : VmaMap t := run_preserves
    (fun u op u' (hu : VmaMap u) hop hs => hu.step hop hs) vmaInit_map hops hrun
  exact ⟨hmap.starts, fun start size flags t' => hmap.create_answers,
    fun start size t' => hmap.resize_answers, fun v hv => hmap.destroy_removes hv⟩

/-- An area is made, resized, and another put next to it. -/
def adjacentAreas : List VmaOp :=
  [.create 0x1000 0x2000 1, .resize 0x1000 0x1000, .create 0x2000 0x1000 2]

/-- Two areas side by side. -/
theorem vma_interval_map_adjacent :
    (([⟨0x1000, 0x2000, 1⟩, ⟨0x2000, 0x3000, 2⟩] : VmaTable).map Vma.start).Nodup
      ∧ ∃ v ∈ ([⟨0x1000, 0x2000, 1⟩, ⟨0x2000, 0x3000, 2⟩] : VmaTable), v.start = 0x2000
        ∧ Answers [⟨0x1000, 0x2000, 1⟩, ⟨0x2000, 0x8000, 2⟩]
          { v with stop := 0x2000 + 0x6000 } := by
  have hops : AllowedRun vmaStep (fun t op => op.Proper t) vmaInit adjacentAreas := by
    decide
  obtain ⟨hstarts, -, hresize, -⟩ := vma_interval_map adjacentAreas hops rfl
  obtain ⟨v, hv, hstart, hanswers, -⟩ := hresize 0x2000 0x6000 _ (by decide) rfl
  exact ⟨hstarts, v, hv, hstart, hanswers⟩

/-- Two areas with one start, when the first is empty; and an area that
does not answer for its own start, when its end wraps. -/
theorem vma_empty_or_wrapped :
    (∃ t, runOps vmaStep vmaInit [.create 0x1000 0 1, .create 0x1000 0x1000 2] = some t
        ∧ ¬ (t.map Vma.start).Nodup)
      ∧ ∃ t, vmaCreate vmaInit 0xFFFFFFFFFFFFF000 0x1000 7 = (true, t)
        ∧ vmaFind t 0xFFFFFFFFFFFFF000 = none := by
  refine ⟨⟨_, rfl, ?_⟩, _, rfl, ?_⟩
  · decide
  · decide

end ZenithOS.Vmm
