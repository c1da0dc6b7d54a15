/-
User address spaces do not see each other.

A run creates roots with `page_table_create` and maps user pages into
them with `page_table_map_user`, in any order, each call allowed to fail.
The log keeps the calls that succeeded. `Isolated` says of a state of
such a run that each root's user half maps what the log says and that no
table belongs to two roots, or to a root and to the kernel; a call then
touches one root's tables and fresh frames only (`Confined`), and every
walk of another root reads what it read before.
-/
import ZenithOS.Vmm.Proofs.UserMap
import ZenithOS.Lib.Run

namespace ZenithOS.Vmm

open Lib Mm

-- ==================================================================== runs

/-- A successful `page_table_map_user`. -/
structure UserCall where
  root : Nat
  va : Nat
  pa : Nat
  writable : Bool
  deriving DecidableEq, Repr

/-- The machine with the roots made so far and the successful calls. -/
structure UserSys where
  vm : Vm
  roots : List Nat
  log : List UserCall

/-- Roots are made, and pages are mapped for users. -/
inductive UserOp
  | create
  | mapUser (root va pa : Nat) (writable : Bool)
  deriving DecidableEq, Repr

/-- Roots come from `page_table_create`; the addresses are user addresses
and the frames page frames. -/
def UserOp.Allowed (s : UserSys) : UserOp → Prop
  | .create => True
  | .mapUser root va pa _ =>
      root ∈ s.roots ∧ va < 2 ^ 47 ∧ 4096 ∣ pa ∧ pa < 2 ^ 52

instance (s : UserSys) : (op : UserOp) → Decidable (op.Allowed s)
  | .create => inferInstanceAs (Decidable True)
  | .mapUser root va pa _ => inferInstanceAs
      (Decidable (root ∈ s.roots ∧ va < 2 ^ 47 ∧ 4096 ∣ pa ∧ pa < 2 ^ 52))

/-- One call; a successful mapping is recorded. -/
def userStep (s : UserSys) : UserOp → Option UserSys
  | .create =>
      match pageTableCreate s.vm with
      | (none, v) => some { s with vm := v }
      | (some root, v) => some { s with vm := v, roots := root :: s.roots }
  | .mapUser root va pa writable =>
      match pageTableMapUser s.vm (some root) va pa writable with
      | (false, v) => some { s with vm := v }
      | (true, v) => some { s with vm := v, log := s.log ++ [⟨root, va, pa, writable⟩] }

/-- The last successful call for the page of indices `q` on `root`. -/
def lastCall (log : List UserCall) (root : Nat) (q : List (Fin 512)) : Option UserCall :=
  (log.filter fun c => c.root = root ∧ digits c.va = q).getLast?

/-- The pages that the last successful calls leave on a root. -/
def lastPages (log : List UserCall) (root : Nat) : UserPages := fun q =>
  (lastCall log root q).map fun c => (c.pa, c.writable)

/-- A call more changes one page of its root. -/
theorem lastPages_append (log : List UserCall) (c : UserCall) (root : Nat) :
    lastPages (log ++ [c]) root
      = if c.root = root then
          Function.update (lastPages log root) (digits c.va) (some (c.pa, c.writable))
        else lastPages log root := by
  funext q
  unfold lastPages lastCall
  by_cases hroot : c.root = root
  · rw [if_pos hroot]
    by_cases hq : q = digits c.va
    · rw [hq, Function.update_self]
      simp [hroot]
    · rw [Function.update_of_ne hq]
      simp [Ne.symm hq]
  · simp [hroot]

theorem lastCall_append_of_ne (log : List UserCall) {c : UserCall} {root : Nat}
    (hne : c.root ≠ root) (q : List (Fin 512)) :
    lastCall (log ++ [c]) root q = lastCall log root q := by
  simp [lastCall, hne]

/-- A root without calls has no pages. -/
theorem lastPages_nil_of_forall_ne {log : List UserCall} {root : Nat}
    (hlog : ∀ c ∈ log, c.root ≠ root) : lastPages log root = fun _ => none := by
  funext q
  have hnone : (log.filter fun c => c.root = root ∧ digits c.va = q) = [] := by
    rw [List.filter_eq_nil_iff]
    intro c hc
    simp [hlog c hc]
  rw [lastPages, lastCall, hnone]
  rfl

-- ============================================================== the kernel

/-- The tables the processor reaches from the kernel's root. -/
def KernelTable (v : Vm) (k f : Nat) : Prop :=
  Owned mmuNext (fun _ => True) (slots v.mem) 3 k f

/-- The kernel's root has nothing in its lower half and nothing for
users, and its tables are no free frames. -/
structure KernelHalf (v : Vm) (k : Nat) : Prop where
  aligned : 4096 ∣ k
  empty : ∀ i : Fin 512, i.val < 256 → pageIsPresent (slots v.mem k i) = false
  used : ∀ f, KernelTable v k f → ¬ PmmClear v.pmm f
  supervisor : ∀ w, userAccess v.mem k w = none

variable {v v' : Vm} {root k f w : Nat} {pages : UserPages}

/-- The kernel's tables are aligned. -/
theorem KernelHalf.table_aligned (h : KernelHalf v k) (hf : KernelTable v k f) :
    4096 ∣ f := by
  obtain ⟨p, -, hf⟩ := hf
  cases List.eq_nil_or_concat p with
  | inl hnil =>
      rw [hnil] at hf
      exact Option.some.inj hf ▸ h.aligned
  | inr hsnoc =>
      obtain ⟨q, i, rfl⟩ := hsnoc
      rw [List.concat_eq_append] at hf
      obtain ⟨g, hg⟩ := tableAt_prefix (List.prefix_append q [i]) hf
      rw [tableAt_snoc hg] at hf
      exact mmuNext_aligned hf

/-- The kernel's walks read only its tables. -/
theorem KernelHalf.walk_eq
    (hslots : ∀ f j, KernelTable v k f → slots v'.mem f j = slots v.mem f j)
    (p : List (Fin 512)) :
    tableAt mmuNext (slots v'.mem) 3 k p = tableAt mmuNext (slots v.mem) 3 k p
      ∧ trail mmuNext (slots v'.mem) 3 k p = trail mmuNext (slots v.mem) 3 k p :=
  walk_congr fun q i f _ hf => hslots f i ⟨q, trivial, hf⟩

/-- What the user may do is decided on the way. -/
theorem userAccess_congr {m m' : Mem} {r r' : Nat} (h : mmuTrail m' r' w = mmuTrail m r w) :
    userAccess m' r' w = userAccess m r w := by
  rw [userAccess, userAccess, h]

/-- Whatever leaves the kernel's slots leaves its half. -/
theorem KernelHalf.frame (h : KernelHalf v k)
    (hslots : ∀ f j, KernelTable v k f → slots v'.mem f j = slots v.mem f j)
    (hclear : ∀ f, PmmClear v'.pmm f → PmmClear v.pmm f) :
    KernelHalf v' k ∧ ∀ f, KernelTable v' k f ↔ KernelTable v k f := by
  have htables : ∀ f, KernelTable v' k f ↔ KernelTable v k f := by
    intro f
    unfold KernelTable Owned
    simp only [(KernelHalf.walk_eq hslots _).1]
  refine ⟨⟨h.aligned, ?_, ?_, ?_⟩, htables⟩
  · intro i hi
    rw [hslots k i ⟨[], trivial, rfl⟩]
    exact h.empty i hi
  · intro f hf hfree
    exact h.used f ((htables f).mp hf) (hclear f hfree)
  · intro w
    rw [userAccess_congr (KernelHalf.walk_eq hslots (digits w)).2]
    exact h.supervisor w

-- ============================================================== the access

/-- The processor takes the code's walk where that ends at a missing
entry or in a page table. -/
theorem mmu_trail_eq {hhdm n r : Nat} {S : Nat → Fin 512 → Nat} {p : List (Fin 512)}
    (h : DeadEnd (trail (nextTable hhdm) S n r p)
      ∨ (trail (nextTable hhdm) S n r p).length = n + 1) :
    trail mmuNext S n r p = trail (nextTable hhdm) S n r p := by
  induction p generalizing n r with
  | nil => rfl
  | cons i p ih =>
      cases hnext : nextTable hhdm n (S r i) with
      | none =>
          have hmmu : mmuNext n (S r i) = none := by
            simp only [trail, hnext] at h
            cases h with
            | inl hdead =>
                obtain ⟨l, e, hl, habsent⟩ := hdead
                obtain ⟨-, he⟩ := List.append_inj' (show [] ++ [S r i] = l ++ [e] from hl) rfl
                rw [← List.head_eq_of_cons_eq he] at habsent
                simp [mmuNext, habsent]
            | inr hlen =>
                have hn : n = 0 := by simpa using hlen.symm
                simp [mmuNext, hn]
          simp [trail, hnext, hmmu]
      | some g =>
          have hmmu : mmuNext n (S r i) = some g := by
            unfold nextTable pageTablePhysicalToVirtual at hnext
            split_ifs at hnext with hcond
            rw [mmuNext, if_pos hcond, Option.some.inj hnext]
          have hn : n ≠ 0 := by
            intro hn
            rw [hn, nextTable_leaf] at hnext
            cases hnext
          have hbelow : DeadEnd (trail (nextTable hhdm) S (n - 1) g p)
              ∨ (trail (nextTable hhdm) S (n - 1) g p).length = n - 1 + 1 := by
            simp only [trail, hnext] at h
            cases h with
            | inl hdead =>
                obtain ⟨l, e, hl, habsent⟩ := hdead
                cases l with
                | nil =>
                    have he := List.head_eq_of_cons_eq hl
                    rw [← he, (nextTable_eq_some hnext).2] at habsent
                    cases habsent
                | cons x l => exact .inl ⟨l, e, List.tail_eq_of_cons_eq hl, habsent⟩
            | inr hlen =>
                rw [List.length_cons] at hlen
                exact .inr (by omega)
          simp [trail, hnext, hmmu, ih hbelow]

/-- What users reach in the user half is what is mapped there. -/
theorem UserSpace.userAccess_eq (h : UserSpace v root pages)
    (hw : userHalf (digits w)) :
    userAccess v.mem root w
      = (pages (digits w)).map fun page => (.pt, page.1, page.2) := by
  cases hpage : pages (digits w) with
  | none =>
      have hdead := h.absent (digits w) hw rfl hpage
      have htrail : mmuTrail v.mem root w = v.trail root (digits w) :=
        mmu_trail_eq (.inl hdead)
      obtain ⟨l, e, hl, habsent⟩ := hdead
      rw [userAccess, htrail, hl, leafAt_append_absent habsent]
      rfl
  | some page =>
      obtain ⟨pa, wr⟩ := page
      obtain ⟨hpa, hlt, a, b, c, habc, hua, hub, huc⟩ := h.mapped (digits w) pa wr hw rfl hpage
      have hlen : (v.trail root (digits w)).length = 3 + 1 := by rw [habc]; rfl
      have htrail : mmuTrail v.mem root w = v.trail root (digits w) :=
        mmu_trail_eq (.inr hlen)
      obtain ⟨hpresent, huser, hwr⟩ := userEntry_bits hpa wr
      obtain ⟨hwa, hwb, hwc⟩ : pageIsWritable a = true ∧ pageIsWritable b = true
          ∧ pageIsWritable c = true := h.mapped_writable hw habc
      rw [userAccess, htrail, habc]
      simp [leafAt, hpresent, hua, hub, huc, huser, hwa, hwb, hwc, hwr, mmuFrame_pt,
        userEntry_address hpa hlt]

/-- A space whose tables are left alone. -/
theorem UserSpace.frame (h : UserSpace v root pages)
    (hconfig : v' = { v with mem := v'.mem, pmm := v'.pmm }) (hpmm : PmmInv v'.pmm)
    (hslots : ∀ f j, v.Owned userHalf root f → slots v'.mem f j = slots v.mem f j)
    (hclear : ∀ f, PmmClear v'.pmm f → PmmClear v.pmm f) :
    UserSpace v' root pages
      ∧ ∀ f, v'.Owned userHalf root f ↔ v.Owned userHalf root f := by
  have hhdm : v'.hhdmOffset = v.hhdmOffset := by rw [hconfig]
  have hwalk : ∀ q, userHalf q → v'.tableAt root q = v.tableAt root q
      ∧ v'.trail root q = v.trail root q := by
    intro q hq
    rw [Vm.tableAt, Vm.trail, hhdm]
    refine walk_congr fun q' i f hpre hf => hslots f i ⟨q', ?_, hf⟩
    exact userHalf_closed q' q ((List.prefix_append q' [i]).trans hpre) hq
  have howned : ∀ f, v'.Owned userHalf root f ↔ v.Owned userHalf root f := by
    intro f
    constructor
    · intro hf
      obtain ⟨p, hp, hf⟩ := hf
      exact ⟨p, hp, ((hwalk p hp).1.symm.trans hf :)⟩
    · intro hf
      obtain ⟨p, hp, hf⟩ := hf
      exact ⟨p, hp, ((hwalk p hp).1.trans hf :)⟩
  refine ⟨⟨⟨h.tables.aligned, userHalf_closed, ?_, hpmm, ?_⟩, ?_, ?_, ?_⟩, howned⟩
  · intro p q f hp hq hf hf'
    exact h.tables.tree p q f hp hq ((hwalk p hp).1.symm.trans hf)
      ((hwalk q hq).1.symm.trans hf')
  · intro f hf hfree
    exact h.tables.used f ((howned f).mp hf) (hclear f hfree)
  · intro p f i g hpath hf hnext
    have hp := userHalf_closed p _ (List.prefix_append p [i]) hpath
    rw [(hwalk p hp).1] at hf
    rw [hhdm, hslots f i ⟨p, hp, hf⟩] at hnext
    rw [hslots f i ⟨p, hp, hf⟩]
    exact h.writable p f i g hpath hf hnext
  · intro q hq hfour hnone
    rw [(hwalk q hq).2]
    exact h.absent q hq hfour hnone
  · intro q pa wr hq hfour hsome
    rw [(hwalk q hq).2]
    exact h.mapped q pa wr hq hfour hsome

-- ============================================================ the invariant

/-- The address spaces of a run are apart from each other and from the
kernel, whose half they share. -/
structure Isolated (k : Nat) (s : UserSys) : Prop where
  pmm : PmmInv s.vm.pmm
  kernelRoot : s.vm.kernelPml4 = some k
  kernel : KernelHalf s.vm k
  logged : ∀ c ∈ s.log, c.root ∈ s.roots ∧ c.va < 2 ^ 47
  spaces : ∀ r ∈ s.roots, UserSpace s.vm r (lastPages s.log r)
  apart : ∀ r ∈ s.roots, ∀ r' ∈ s.roots, r ≠ r' → ∀ f,
    s.vm.Owned userHalf r f → ¬ s.vm.Owned userHalf r' f
  offKernel : ∀ r ∈ s.roots, ∀ f, KernelTable s.vm k f → ¬ s.vm.Owned userHalf r f
  shared : ∀ r ∈ s.roots, ∀ i : Fin 512, 256 ≤ i.val →
    slots s.vm.mem r i = slots s.vm.mem k i

/-- An address with bit 47 set is the kernel's in every space. -/
theorem Isolated.upper_trail {s : UserSys} (h : Isolated k s) {r : Nat} (hr : r ∈ s.roots)
    (hw : 256 ≤ (pml4Digit w).val) : mmuTrail s.vm.mem r w = mmuTrail s.vm.mem k w := by
  simp only [mmuTrail, digits, trail, h.shared r hr _ hw]

/-- So users reach exactly the logged pages. -/
theorem Isolated.userAccess_eq {s : UserSys} (h : Isolated k s) {r : Nat}
    (hr : r ∈ s.roots) (w : Nat) :
    userAccess s.vm.mem r w
      = (lastCall s.log r (digits w)).map fun c => (.pt, c.pa, c.writable) := by
  by_cases hw : (pml4Digit w).val < 256
  · have hhalf : userHalf (digits w) := by
      intro i hi
      obtain rfl : pml4Digit w = i := Option.some.inj hi
      exact hw
    rw [(h.spaces r hr).userAccess_eq hhalf, lastPages, Option.map_map]
    rfl
  · rw [userAccess_congr (h.upper_trail hr (Nat.le_of_not_lt hw)), h.kernel.supervisor w]
    have hnone : (s.log.filter fun c => c.root = r ∧ digits c.va = digits w) = [] := by
      rw [List.filter_eq_nil_iff]
      intro c hc hpage
      have hdigits : digits c.va = digits w := (of_decide_eq_true hpage).2
      have hlow := pml4Digit_lt (h.logged c hc).2
      rw [List.head_eq_of_cons_eq hdigits] at hlow
      exact hw hlow
    rw [lastCall, hnone]
    rfl

section Step

variable {s : UserSys}

/-- A root is its own. -/
theorem owned_root (v : Vm) (r : Nat) : v.Owned userHalf r r :=
  ⟨[], fun _ hi => (nomatch hi), rfl⟩

/-- `page_table_map_user` on one of the roots. -/
theorem Isolated.mapUser (h : Isolated k s) {r va pa : Nat} (hr : r ∈ s.roots)
    (hva : va < 2 ^ 47) (hpa : 4096 ∣ pa) (hlt : pa < 2 ^ 52) (wr : Bool) :
    ∃ done v', pageTableMapUser s.vm (some r) va pa wr = (done, v')
      ∧ Isolated k ⟨v', s.roots, if done then s.log ++ [⟨r, va, pa, wr⟩] else s.log⟩ := by
  obtain ⟨done, v', heq, hconfig, hconf, hspace⟩ :=
    (h.spaces r hr).mapUser (userHalf_digits hva) hpa hlt wr
  refine ⟨done, v', heq, ?_⟩
  -- what is not a table of this root, or a free frame, keeps its entries
  have hkernel : ∀ f j, KernelTable s.vm k f → slots v'.mem f j = slots s.vm.mem f j := by
    intro f j hf
    apply hconf.slots f j (h.kernel.table_aligned hf) (h.kernel.used f hf)
    intro hslot
    obtain ⟨p, hp, hf'⟩ := hslot
    exact h.offKernel r hr f hf ⟨p, userHalf_closed p _ (List.prefix_append p [j]) hp, hf'⟩
  have hothers : ∀ r' ∈ s.roots, r ≠ r' → ∀ f j, s.vm.Owned userHalf r' f →
      slots v'.mem f j = slots s.vm.mem f j := by
    intro r' hr' hne f j hf
    have hspace' := (h.spaces r' hr').tables
    apply hconf.slots f j (hspace'.owned_aligned hf) (hspace'.used f hf)
    intro hslot
    obtain ⟨p, hp, hf'⟩ := hslot
    exact h.apart r hr r' hr' hne f
      ⟨p, userHalf_closed p _ (List.prefix_append p [j]) hp, hf'⟩ hf
  have hpmm := hspace.tables.pmm
  obtain ⟨hkernel', hkernelTables⟩ := h.kernel.frame hkernel hconf.clear
  have hframe := fun r' hr' hne =>
    (h.spaces r' hr').frame hconfig hpmm (hothers r' hr' hne) hconf.clear
  have hown : ∀ f, v'.Owned userHalf r f → s.vm.Owned userHalf r f ∨ PmmClear s.vm.pmm f := by
    intro f hf
    obtain ⟨p, hp, hf⟩ := hf
    cases hconf.tables p f hp hf with
    | inl hold => exact .inl ⟨p, hp, hold⟩
    | inr hfree => exact .inr hfree
  refine ⟨hpmm, ?_, hkernel', ?_, ?_, ?_, ?_, ?_⟩
  · show v'.kernelPml4 = some k
    rw [hconfig]
    exact h.kernelRoot
  · intro c hc
    cases done with
    | false => exact h.logged c hc
    | true =>
        cases List.mem_append.mp hc with
        | inl hold => exact h.logged c hold
        | inr hnew =>
            rw [List.mem_singleton] at hnew
            rw [hnew]
            exact ⟨hr, hva⟩
  · intro r' hr'
    by_cases hne : r = r'
    · subst hne
      cases done with
      | false => exact hspace
      | true =>
          show UserSpace v' r (lastPages (s.log ++ [_]) r)
          rw [lastPages_append, if_pos rfl]
          exact hspace
    · have hlog : lastPages (if done then s.log ++ [⟨r, va, pa, wr⟩] else s.log) r'
          = lastPages s.log r' := by
        cases done with
        | false => rfl
        | true =>
            show lastPages (s.log ++ [_]) r' = _
            rw [lastPages_append, if_neg hne]
      show UserSpace v' r' (lastPages (if done then s.log ++ [⟨r, va, pa, wr⟩] else s.log) r')
      rw [hlog]
      exact (hframe r' hr' hne).1
  · intro r₁ hr₁ r₂ hr₂ hne f hf₁ hf₂
    by_cases h₁ : r = r₁
    · subst h₁
      rw [(hframe r₂ hr₂ hne).2] at hf₂
      cases hown f hf₁ with
      | inl hold => exact h.apart r hr r₂ hr₂ hne f hold hf₂
      | inr hfree => exact (h.spaces r₂ hr₂).tables.used f hf₂ hfree
    · rw [(hframe r₁ hr₁ h₁).2] at hf₁
      by_cases h₂ : r = r₂
      · subst h₂
        cases hown f hf₂ with
        | inl hold => exact h.apart r₁ hr₁ r hr hne f hf₁ hold
        | inr hfree => exact (h.spaces r₁ hr₁).tables.used f hf₁ hfree
      · rw [(hframe r₂ hr₂ h₂).2] at hf₂
        exact h.apart r₁ hr₁ r₂ hr₂ hne f hf₁ hf₂
  · intro r' hr' f hf hown'
    rw [hkernelTables] at hf
    by_cases hne : r = r'
    · subst hne
      cases hown f hown' with
      | inl hold => exact h.offKernel r hr f hf hold
      | inr hfree => exact h.kernel.used f hf hfree
    · rw [(hframe r' hr' hne).2] at hown'
      exact h.offKernel r' hr' f hf hown'
  · intro r' hr' i hi
    show slots v'.mem r' i = slots v'.mem k i
    rw [hkernel k i ⟨[], trivial, rfl⟩, ← h.shared r' hr' i hi]
    by_cases hne : r = r'
    · subst hne
      have hspace' := (h.spaces r hr).tables
      apply hconf.slots r i hspace'.aligned (hspace'.used r (owned_root _ r))
      intro hslot
      obtain ⟨p, hp, hf⟩ := hslot
      -- only the empty path leads to the root
      have hnil : p = [] := hspace'.tree p [] r
        (userHalf_closed p _ (List.prefix_append p [i]) hp) (fun _ hj => (nomatch hj)) hf rfl
      rw [hnil] at hp
      exact absurd (hp i rfl) (Nat.not_lt.mpr hi)
    · exact hothers r' hr' hne r' i (owned_root _ r')

/-- A step that keeps every entry outside the free frames: the
allocator's, or a new table not linked anywhere. -/
theorem Isolated.fresh (h : Isolated k s) (v' : Vm)
    (hconfig : v' = { s.vm with mem := v'.mem, pmm := v'.pmm }) (hpmm : PmmInv v'.pmm)
    (hclear : ∀ f, PmmClear v'.pmm f → PmmClear s.vm.pmm f)
    (hslots : ∀ f j, 4096 ∣ f → ¬ PmmClear s.vm.pmm f →
      slots v'.mem f j = slots s.vm.mem f j) :
    Isolated k ⟨v', s.roots, s.log⟩
      ∧ (∀ r ∈ s.roots, ∀ f, v'.Owned userHalf r f ↔ s.vm.Owned userHalf r f)
      ∧ ∀ f, KernelTable v' k f ↔ KernelTable s.vm k f := by
  have hkernel : ∀ f j, KernelTable s.vm k f → slots v'.mem f j = slots s.vm.mem f j :=
    fun f j hf => hslots f j (h.kernel.table_aligned hf) (h.kernel.used f hf)
  have hspaces : ∀ r ∈ s.roots, ∀ f j, s.vm.Owned userHalf r f →
      slots v'.mem f j = slots s.vm.mem f j :=
    fun r hr f j hf => hslots f j ((h.spaces r hr).tables.owned_aligned hf)
      ((h.spaces r hr).tables.used f hf)
  obtain ⟨hkernel', hkernelTables⟩ := h.kernel.frame hkernel hclear
  have hframe := fun r hr => (h.spaces r hr).frame hconfig hpmm (hspaces r hr) hclear
  refine ⟨⟨hpmm, ?_, hkernel', h.logged, fun r hr => (hframe r hr).1, ?_, ?_, ?_⟩,
    fun r hr => (hframe r hr).2, hkernelTables⟩
  · show v'.kernelPml4 = some k
    rw [hconfig]
    exact h.kernelRoot
  · intro r hr r' hr' hne f hf hf'
    exact h.apart r hr r' hr' hne f (((hframe r hr).2 f).mp hf) (((hframe r' hr').2 f).mp hf')
  · intro r hr f hf hown
    exact h.offKernel r hr f ((hkernelTables f).mp hf) (((hframe r hr).2 f).mp hown)
  · intro r hr i hi
    show slots v'.mem r i = slots v'.mem k i
    rw [hspaces r hr r i (owned_root _ r), hkernel k i ⟨[], trivial, rfl⟩]
    exact h.shared r hr i hi

/-- A new root's user half is empty. -/
theorem userSpace_of_copy (v' : Vm) {g : Nat} (hg : 4096 ∣ g) (hpmm : PmmInv v'.pmm)
    (hused : ¬ PmmClear v'.pmm g)
    (hempty : ∀ i : Fin 512, i.val < 256 → pageIsPresent (slots v'.mem g i) = false) :
    UserSpace v' g (fun _ => none) ∧ ∀ f, v'.Owned userHalf g f → f = g := by
  have hslot : ∀ i, userHalf [i] → pageIsPresent (slots v'.mem g i) = false :=
    fun i hi => hempty i (hi i rfl)
  obtain ⟨htables, howned⟩ := tablesOk_of_empty hg userHalf_closed hslot hpmm hused
  refine ⟨⟨htables, ?_, ?_, ?_⟩, howned⟩
  · intro p f i g' hpath hf hnext
    have hp := userHalf_closed p _ (List.prefix_append p [i]) hpath
    obtain rfl : f = g := howned f ⟨p, hp, hf⟩
    obtain rfl : p = [] := htables.tree p [] f hp (fun _ hj => (nomatch hj)) hf rfl
    rw [nextTable_absent (hslot i hpath)] at hnext
    cases hnext
  · intro q hq hfour _
    cases q with
    | nil => cases hfour
    | cons i q =>
        have hi := hslot i (userHalf_closed [i] _ (List.prefix_append [i] q) hq)
        refine ⟨[], _, ?_, hi⟩
        simp [trail, nextTable_absent hi]
  · intro q pa wr _ _ hsome
    cases hsome

/-- A free frame that has become a copy of the kernel's root, and a root. -/
theorem Isolated.newRoot (h : Isolated k s) {g : Nat} {pmm : Pmm} {m : Mem}
    (hg : PmmClear s.vm.pmm g) (hinv : PmmInv pmm)
    (hclear : ∀ f, PmmClear pmm f ↔ PmmClear s.vm.pmm f ∧ f ≠ g)
    (hcopy : ∀ j, slots m g j = slots s.vm.mem k j)
    (hother : ∀ f j, 4096 ∣ f → f ≠ g → slots m f j = slots s.vm.mem f j) :
    Isolated k ⟨{ s.vm with pmm := pmm, mem := m }, g :: s.roots, s.log⟩ := by
  have hgal := (h.pmm.clear_frame hg).1
  obtain ⟨h', howned, hkernel⟩ := h.fresh { s.vm with pmm := pmm, mem := m } rfl hinv
    (fun f hf => ((hclear f).mp hf).1)
    (fun f j hf hfree => hother f j hf (fun heq => hfree (heq ▸ hg)))
  have hkslot : ∀ i, slots m k i = slots s.vm.mem k i := by
    intro i
    apply hother k i h.kernel.aligned
    intro heq
    exact h.kernel.used k ⟨[], trivial, rfl⟩ (heq ▸ hg)
  have hempty : ∀ i : Fin 512, i.val < 256 → pageIsPresent (slots m g i) = false := by
    intro i hi
    rw [hcopy]
    exact h.kernel.empty i hi
  obtain ⟨hspace, hownG⟩ := userSpace_of_copy { s.vm with pmm := pmm, mem := m } hgal
    hinv (fun hfree => ((hclear g).mp hfree).2 rfl) hempty
  -- no root had the frame for a table
  have hfree : ∀ r ∈ s.roots, ¬ s.vm.Owned userHalf r g :=
    fun r hr hf => (h.spaces r hr).tables.used g hf hg
  have hnew : ∀ c ∈ s.log, c.root ≠ g := by
    intro c hc heq
    exact hfree g (heq ▸ (h.logged c hc).1) (owned_root _ g)
  refine ⟨hinv, h.kernelRoot, h'.kernel, ?_, ?_, ?_, ?_, ?_⟩
  · intro c hc
    exact ⟨List.mem_cons_of_mem g (h.logged c hc).1, (h.logged c hc).2⟩
  · intro r hr
    cases List.mem_cons.mp hr with
    | inl heq =>
        rw [heq]
        show UserSpace _ g (lastPages s.log g)
        rw [lastPages_nil_of_forall_ne hnew]
        exact hspace
    | inr hold => exact h'.spaces r hold
  · intro r hr r' hr' hne f hf hf'
    cases List.mem_cons.mp hr with
    | inl heq =>
        cases List.mem_cons.mp hr' with
        | inl heq' => exact hne (heq.trans heq'.symm)
        | inr hold' =>
            rw [heq] at hf
            rw [hownG f hf, howned r' hold'] at hf'
            exact hfree r' hold' hf'
    | inr hold =>
        cases List.mem_cons.mp hr' with
        | inl heq' =>
            rw [heq'] at hf'
            rw [hownG f hf', howned r hold] at hf
            exact hfree r hold hf
        | inr hold' => exact h'.apart r hold r' hold' hne f hf hf'
  · intro r hr f hf hown
    cases List.mem_cons.mp hr with
    | inl heq =>
        rw [heq] at hown
        rw [hownG f hown, hkernel] at hf
        exact h.kernel.used g hf hg
    | inr hold => exact h'.offKernel r hold f hf hown
  · intro r hr i hi
    cases List.mem_cons.mp hr with
    | inl heq =>
        rw [heq]
        exact (hcopy i).trans (hkslot i).symm
    | inr hold => exact h'.shared r hold i hi

/-- `page_table_create`. -/
theorem Isolated.create (h : Isolated k s) :
    ∃ s', userStep s .create = some s' ∧ Isolated k s' := by
  rcases h.pmm.alloc_cases with hnull | ⟨g, pmm, halloc, hg, hinv, hclear⟩
  · refine ⟨s, ?_, h⟩
    simp [userStep, pageTableCreate, hnull]
  · obtain ⟨hgal, hgnull, -⟩ := h.pmm.clear_frame hg
    have hstay : ∀ f, PmmClear pmm f → PmmClear s.vm.pmm f := fun f hf => ((hclear f).mp hf).1
    cases hvirtual : pageTablePhysicalToVirtual s.vm.hhdmOffset g with
    | none =>
        refine ⟨⟨{ s.vm with pmm := pmmFreePage g pmm }, s.roots, s.log⟩, ?_, ?_⟩
        · simp [userStep, pageTableCreate, halloc, hgnull, hvirtual]
        · refine (h.fresh { s.vm with pmm := pmmFreePage g pmm } rfl (hinv.markPageFree _) ?_
            (fun _ _ _ _ => rfl)).1
          intro f hf
          cases hinv.clear_of_freePage hgal hf with
          | inl hold => exact hstay f hold
          | inr heq => exact heq ▸ hg
    | some g' =>
        obtain rfl : g = g' := by
          unfold pageTablePhysicalToVirtual at hvirtual
          split_ifs at hvirtual
          exact Option.some.inj hvirtual
        have hne : k ≠ g := by
          intro heq
          exact h.kernel.used k ⟨[], trivial, rfl⟩ (heq ▸ hg)
        obtain ⟨hcopy, hother⟩ := slots_create (m := s.vm.mem) hgal h.kernel.aligned hne
        refine ⟨_, ?_, h.newRoot hg hinv hclear hcopy hother⟩
        simp only [userStep, pageTableCreate, halloc, hgnull, hvirtual, h.kernelRoot,
          if_false]

/-- Every allowed step. -/
theorem Isolated.step (h : Isolated k s) (op : UserOp) (hop : op.Allowed s) :
    ∃ s', userStep s op = some s' ∧ Isolated k s' := by
  cases op with
  | create => exact h.create
  | mapUser r va pa wr =>
      obtain ⟨hr, hva, hpa, hlt⟩ := hop
      obtain ⟨done, v', heq, h'⟩ := h.mapUser hr hva hpa hlt wr
      cases done with
      | false => exact ⟨_, by rw [userStep, heq]; rfl, h'⟩
      | true => exact ⟨_, by rw [userStep, heq]; rfl, h'⟩

end Step

/-- No root yet. -/
theorem isolated_init (hk : v.kernelPml4 = some k) (hpmm : PmmInv v.pmm)
    (hkernel : KernelHalf v k) : Isolated k ⟨v, [], []⟩ :=
  ⟨hpmm, hk, hkernel, fun _ hc => (nomatch hc), fun _ hr => (nomatch hr),
    fun _ hr => (nomatch hr), fun _ hr => (nomatch hr), fun _ hr => (nomatch hr)⟩

/-- Whatever roots are made and whatever user pages are mapped into them,
in whatever order: users reach in each root the pages of the last
successful calls on that root and no others, a further call on one root
changes nothing in another, and nothing of the kernel's is theirs. -/
theorem user_spaces_isolated (hk : v.kernelPml4 = some k) (hpmm : PmmInv v.pmm)
    (hkernel : KernelHalf v k) (ops : List UserOp)
    (hops : AllowedRun userStep UserOp.Allowed ⟨v, [], []⟩ ops) :
    ∃ s, runOps userStep ⟨v, [], []⟩ ops = some s
      ∧ (∀ r ∈ s.roots, ∀ w, userAccess s.vm.mem r w
        = (lastCall s.log r (digits w)).map fun c => (.pt, c.pa, c.writable))
      ∧ (∀ r ∈ s.roots, ∀ va pa wr, va < 2 ^ 47 → 4096 ∣ pa → pa < 2 ^ 52 →
        ∀ r' ∈ s.roots, r' ≠ r → ∀ w,
          userAccess (pageTableMapUser s.vm (some r) va pa wr).2.mem r' w
            = userAccess s.vm.mem r' w)
      ∧ ∀ w, userAccess s.vm.mem k w = none := by
  obtain ⟨s, hrun, h⟩ := run_total (fun s op h hop => Isolated.step h op hop)
    (isolated_init hk hpmm hkernel) hops
  refine ⟨s, hrun, fun r hr w => h.userAccess_eq hr w, ?_, h.kernel.supervisor⟩
  intro r hr va pa wr hva hpa hlt r' hr' hne w
  obtain ⟨done, v', heq, h'⟩ := h.mapUser hr hva hpa hlt wr
  have hlog : lastCall (if done then s.log ++ [⟨r, va, pa, wr⟩] else s.log) r' (digits w)
      = lastCall s.log r' (digits w) := by
    cases done with
    | false => rfl
    | true => exact lastCall_append_of_ne _ hne.symm _
  rw [heq]
  show userAccess v'.mem r' w = userAccess s.vm.mem r' w
  rw [h.userAccess_eq hr' w, ← hlog]
  exact h'.userAccess_eq hr' w

/-- A kernel root in page 1 of sixteen: two roots are made and one page is
mapped in each, at the same address. -/
theorem user_spaces_isolated_two_roots :
    let pmm := (pmmInit ⟨⟨fun _ => 0#8, 0⟩, 0, 0, 0, 0⟩ [⟨0x2000, 0xE000, .usable⟩] none).2
    let v : Vm := ⟨fun _ => 0#8, pmm, 0xFFFF800000000000, true, some 0x1000, 0x1000,
      0x1000, 0x1000⟩
    let ops : List UserOp := [.create, .create, .mapUser 0x2000 0x400000 0x7000 true,
      .mapUser 0x3000 0x400000 0x9000 false]
    ∃ s, runOps userStep ⟨v, [], []⟩ ops = some s
      ∧ userAccess s.vm.mem 0x2000 0x400123 = some (.pt, 0x7000, true)
      ∧ userAccess s.vm.mem 0x3000 0x400123 = some (.pt, 0x9000, false) := by
  intro pmm v ops
  have hinit : pmmInit ⟨⟨fun _ => 0#8, 0⟩, 0, 0, 0, 0⟩ [⟨0x2000, 0xE000, .usable⟩] none
      = (true, pmm) := Prod.ext (by decide) rfl
  have hzero : ∀ f i, slots v.mem f i = 0 := by
    intro f i
    simp [v, slots, pageEntry, loadWord]
  have hkernel : KernelHalf v 0x1000 := by
    have hnone : ∀ i p, tableAt mmuNext (slots v.mem) 3 0x1000 (i :: p) = none := by
      intro i p
      rw [tableAt, hzero]
      rfl
    refine ⟨by decide, fun i _ => by rw [hzero]; rfl, ?_, ?_⟩
    · intro f hf hclear
      obtain ⟨p, -, hf⟩ := hf
      cases p with
      | nil =>
          obtain rfl : 0x1000 = f := Option.some.inj hf
          obtain ⟨page, hpage, hbit⟩ := hclear
          obtain rfl : page = 1 := by
            have hpage' : 0x1000 = page * 4096 := hpage
            omega
          revert hbit
          decide
      | cons i p =>
          rw [hnone] at hf
          cases hf
    · intro w
      have htrail : mmuTrail v.mem 0x1000 w = [0] := by
        rw [mmuTrail, digits, trail, hzero]
        rfl
      rw [userAccess, htrail]
      rfl
  have hops : AllowedRun userStep UserOp.Allowed ⟨v, [], []⟩ ops := by decide
  obtain ⟨s, hrun, haccess, -, -⟩ :=
    user_spaces_isolated rfl (pmmInit_inv hinit) hkernel ops hops
  have hroots : (runOps userStep ⟨v, [], []⟩ ops).map (fun s => (s.roots, s.log))
      = some ([0x3000, 0x2000],
        [⟨0x2000, 0x400000, 0x7000, true⟩, ⟨0x3000, 0x400000, 0x9000, false⟩]) := by
    decide
  rw [hrun, Option.map_some, Option.some.injEq, Prod.mk.injEq] at hroots
  refine ⟨s, hrun, ?_, ?_⟩
  · rw [haccess 0x2000 (by rw [hroots.1]; decide), hroots.2]
    decide
  · rw [haccess 0x3000 (by rw [hroots.1]; decide), hroots.2]
    decide

end ZenithOS.Vmm
