/-
`page_table_translate` against the processor's translation.

# The walks

The code walks through the direct map, and stops where a table's
direct-map address is `NULL`; otherwise it reads the entries the
processor reads (`leaf_reached`, `leaf_lost`).

# The leaf

The processor takes bits 51:12, 51:21 or 51:30 of the leaf, by the size
of the page. The code takes bits 51:12 of every leaf, so the attribute
bits of a huge entry from bit 12 up end in the address it computes. They
do no harm exactly where the offset has the same bits set
(`frame_offset_iff`).
-/
import ZenithOS.Vmm.Proofs.Translate
import ZenithOS.Vmm.Proofs.Forest

namespace ZenithOS.Vmm

open Lib Mm

variable {v : Vm} {root va e : Nat} {level : PageWalkLevel}

-- =============================================================== the walks

/-- The code gets to every table the processor goes through from table
`f` of level `n` along `p`. -/
def Reached (v : Vm) (n f : Nat) (p : List (Fin 512)) : Prop :=
  ∀ q g, q <+: p → q ≠ [] → Lib.tableAt mmuNext (slots v.mem) n f q = some g →
    pageTablePhysicalToVirtual v.hhdmOffset g = some g

/-- The code gets to every table of the processor's walk for `va`. -/
def TablesReached (v : Vm) (root va : Nat) : Prop :=
  Reached v 3 root (digits va)

/-- The first step of a walk. -/
theorem Reached.step {n f g : Nat} {i : Fin 512} {p : List (Fin 512)}
    (h : Reached v n f (i :: p)) (hnext : mmuNext n (slots v.mem f i) = some g) :
    pageTablePhysicalToVirtual v.hhdmOffset g = some g ∧ Reached v (n - 1) g p := by
  refine ⟨h [i] g ?_ (List.cons_ne_nil i []) ?_, ?_⟩
  · exact List.cons_prefix_cons.mpr ⟨rfl, List.nil_prefix⟩
  · simp [Lib.tableAt, hnext]
  · intro q g' hq hne hg'
    refine h (i :: q) g' (List.cons_prefix_cons.mpr ⟨rfl, hq⟩) (List.cons_ne_nil i q) ?_
    simp [Lib.tableAt, hnext, hg']

/-- What the two walks make of an entry. -/
theorem nextTable_eq_bind (a n e : Nat) :
    nextTable a n e = (mmuNext n e).bind (pageTablePhysicalToVirtual a) := by
  rw [nextTable, mmuNext]
  split_ifs
  · rfl
  · rfl

/-- A walk that is not lost reads what the processor reads. -/
theorem trail_reached {n f : Nat} {p : List (Fin 512)} (h : Reached v n f p) :
    trail (nextTable v.hhdmOffset) (slots v.mem) n f p
      = trail mmuNext (slots v.mem) n f p := by
  induction p generalizing n f with
  | nil => rfl
  | cons i p ih =>
      rw [trail, trail, nextTable_eq_bind]
      cases hnext : mmuNext n (slots v.mem f i) with
      | none => rfl
      | some g =>
          obtain ⟨hreach, hbelow⟩ := h.step hnext
          rw [Option.bind_some, hreach]
          exact congrArg _ (ih hbelow)

/-- An entry that leads on is no leaf. -/
theorem leafAt_next {n g : Nat} (h : mmuNext n e = some g) : leafAt n [e] = none := by
  unfold mmuNext at h
  split_ifs at h with hcond
  obtain ⟨hpos, -, hlevel⟩ := hcond
  match n with
  | 0 => exact absurd rfl hpos
  | 1 => simp [leafAt, hlevel.resolve_left (by decide)]
  | 2 => simp [leafAt, hlevel.resolve_left (by decide)]
  | n + 3 => rfl

/-- A walk that is lost on the way finds no leaf. -/
theorem leafAt_lost {n f : Nat} {p : List (Fin 512)} (hn : n < p.length)
    (h : ¬ Reached v n f p) :
    leafAt n (trail (nextTable v.hhdmOffset) (slots v.mem) n f p) = none := by
  induction p generalizing n f with
  | nil => exact absurd hn (Nat.not_lt_zero n)
  | cons i p ih =>
      rw [trail, nextTable_eq_bind]
      cases hnext : mmuNext n (slots v.mem f i) with
      | none =>
          refine absurd ?_ h
          intro q g hq hne hg
          obtain ⟨j, q, rfl⟩ := List.exists_cons_of_ne_nil hne
          obtain ⟨rfl, -⟩ := List.cons_prefix_cons.mp hq
          rw [Lib.tableAt, hnext] at hg
          cases hg
      | some g =>
          rw [Option.bind_some]
          cases hreach : pageTablePhysicalToVirtual v.hhdmOffset g with
          | none => exact leafAt_next hnext
          | some g' =>
              obtain rfl : g = g' := by
                unfold pageTablePhysicalToVirtual at hreach
                split_ifs at hreach
                exact Option.some.inj hreach
              have hpos : n ≠ 0 := by
                rintro rfl
                rw [mmuNext_leaf] at hnext
                cases hnext
              obtain ⟨n, rfl⟩ := Nat.exists_eq_succ_of_ne_zero hpos
              have hlen : n < p.length := Nat.lt_of_succ_lt_succ hn
              obtain ⟨j, p, rfl⟩ := List.exists_cons_of_length_pos (Nat.zero_lt_of_lt hlen)
              have hbelow : ¬ Reached v n g (j :: p) := by
                intro hbelow
                refine h fun q g' hq hne hg' => ?_
                obtain ⟨j', q, rfl⟩ := List.exists_cons_of_ne_nil hne
                obtain ⟨rfl, hpre⟩ := List.cons_prefix_cons.mp hq
                rw [Lib.tableAt, hnext] at hg'
                cases q with
                | nil => exact Option.some.inj hg' ▸ hreach
                | cons k q => exact hbelow (k :: q) g' hpre (List.cons_ne_nil k q) hg'
              have hrest := ih (n := n) (f := g) hlen hbelow
              simp only [trail] at hrest ⊢
              rw [leafAt_cons]
              exact hrest

/-- Where the tables are reached, the code finds the processor's leaf. -/
theorem leaf_reached (h : TablesReached v root va) :
    v.leaf root va = mmuLeaf v.mem root va :=
  congrArg (leafAt 3) (trail_reached h)

/-- Where they are not, it finds none. -/
theorem leaf_lost (h : ¬ TablesReached v root va) : v.leaf root va = none :=
  leafAt_lost (show 3 < 4 by decide) h

-- ================================================================ the leaf

/-- How many bits of an address are the offset in a page. -/
def pageBits : PageWalkLevel → Nat
  | .pt => 12
  | .pd => 21
  | .pdpt => 30
  | .none => 0

/-- The size of a page at its level. -/
theorem pageSizeForLevel_eq (hlevel : level ≠ .none) :
    pageSizeForLevel level = 2 ^ pageBits level := by
  cases level with
  | none => exact absurd rfl hlevel
  | pt => rfl
  | pd => rfl
  | pdpt => rfl

theorem pageBits_ge (hlevel : level ≠ .none) : 12 ≤ pageBits level := by
  cases level with
  | none => exact absurd rfl hlevel
  | pt => decide
  | pd => decide
  | pdpt => decide

theorem pageBits_le (level : PageWalkLevel) : pageBits level ≤ 52 := by
  cases level with
  | none => decide
  | pt => decide
  | pd => decide
  | pdpt => decide

/-- A leaf is an entry of a page table or of a directory. -/
theorem leafAt_level {n : Nat} {l : List Nat} (h : leafAt n l = some (level, e)) :
    level ≠ .none := by
  rintro rfl
  fun_induction leafAt n l with
  | case7 n e₁ e₂ l ih => exact ih h
  | _ => cases h

/-- A frame with the offset of `va`, bit by bit. -/
theorem testBit_frame_add (e va k i : Nat) :
    (e % 2 ^ 52 / 2 ^ k * 2 ^ k + va % 2 ^ k).testBit i
      = (e.testBit i && decide (k ≤ i ∧ i < 52) || (va.testBit i && decide (i < k))) := by
  have hlt : va % 2 ^ k < 2 ^ k := Nat.mod_lt _ (Nat.two_pow_pos k)
  rw [Nat.mul_comm, Nat.two_pow_add_eq_or_of_lt hlt, Nat.mul_comm, Nat.testBit_or,
    testBit_frameBits, Nat.testBit_mod_two_pow, Bool.and_comm (decide _)]

/-- What the code makes of a leaf is what the processor makes of it, just
where the bits of the leaf below its frame are bits of the offset. -/
theorem frame_offset_iff {k : Nat} (hk : 12 ≤ k) (hk' : k ≤ 52) (e va : Nat) :
    pageAddress e ||| (va &&& (2 ^ k - 1)) = e % 2 ^ 52 / 2 ^ k * 2 ^ k + va % 2 ^ k
      ↔ ∀ i, 12 ≤ i → i < k → e.testBit i = true → va.testBit i = true := by
  have hbits : ∀ i, (pageAddress e ||| (va &&& (2 ^ k - 1))).testBit i
      = (e.testBit i && decide (12 ≤ i ∧ i < 52) || (va.testBit i && decide (i < k))) := by
    intro i
    rw [Nat.testBit_or, testBit_pageAddress, Nat.testBit_and, Nat.testBit_two_pow_sub_one]
  constructor
  · intro heq i hlo hhi hbit
    have hboth := congrArg (fun x => x.testBit i) heq
    simp only [hbits, testBit_frame_add, hbit] at hboth
    simpa [hlo, hhi, Nat.not_le.mpr hhi, show i < 52 by omega] using hboth
  · intro hsub
    refine Nat.eq_of_testBit_eq fun i => ?_
    rw [hbits, testBit_frame_add]
    by_cases hlow : i < k
    · by_cases hlo : 12 ≤ i
      · cases hbit : e.testBit i with
        | false => rfl
        | true => simp [hsub i hlo hlow hbit, hlow]
      · simp [hlo, Nat.not_le.mpr hlow]
    · simp [hlow, Nat.le_of_not_lt hlow, Nat.le_trans hk (Nat.le_of_not_lt hlow)]

/-- What the code makes of a leaf on the way it walks: the two addresses
are the same where the attributes in the address bits are bits of the
offset (module doc). Where the walk is lost the code answers 0, which is
the address of physical page 0 only. -/
def LeafExact (v : Vm) (root va : Nat) : Prop :=
  ∀ level e, mmuLeaf v.mem root va = some (level, e) →
    (TablesReached v root va
        ∧ ∀ i, 12 ≤ i → i < pageBits level → e.testBit i = true → va.testBit i = true)
      ∨ (¬ TablesReached v root va
        ∧ mmuFrame level e = 0 ∧ va % pageSizeForLevel level = 0)

/-- `page_table_translate` gives the processor's address just for the
leaves that have no attribute among the address bits the code takes. -/
theorem page_table_translate_exact_iff (hroot : pageTableActiveRoot v = some root) (va : Nat) :
    pageTableTranslate v va = (mmuTranslate v.mem root va).getD 0 ↔ LeafExact v root va := by
  have htranslate : mmuTranslate v.mem root va
      = (mmuLeaf v.mem root va).map fun leaf =>
        mmuFrame leaf.1 leaf.2 + va % pageSizeForLevel leaf.1 := rfl
  rw [pageTableTranslate_eq hroot, htranslate]
  cases hleaf : mmuLeaf v.mem root va with
  | none =>
      have hcode : v.leaf root va = none := by
        by_cases hreach : TablesReached v root va
        · rw [leaf_reached hreach, hleaf]
        · exact leaf_lost hreach
      rw [hcode]
      refine iff_of_true rfl fun level e hsome => ?_
      rw [hleaf] at hsome
      cases hsome
  | some leaf =>
      obtain ⟨level, e⟩ := leaf
      have hlevel : level ≠ .none := leafAt_level hleaf
      have hexact : LeafExact v root va ↔ (TablesReached v root va ∧ ∀ i, 12 ≤ i →
          i < pageBits level → e.testBit i = true → va.testBit i = true)
          ∨ (¬ TablesReached v root va
            ∧ mmuFrame level e = 0 ∧ va % pageSizeForLevel level = 0) := by
        rw [LeafExact, hleaf]
        refine ⟨fun h => h level e rfl, fun h level' e' heq => ?_⟩
        obtain ⟨rfl, rfl⟩ := Prod.mk.inj (Option.some.inj heq)
        exact h
      rw [hexact, Option.map_some, Option.getD_some]
      by_cases hreach : TablesReached v root va
      · rw [leaf_reached hreach, hleaf, or_iff_left fun h => h.1 hreach, and_iff_right hreach]
        show pageAddress e ||| (va &&& (pageSizeForLevel level - 1))
          = e % 2 ^ 52 / pageSizeForLevel level * pageSizeForLevel level
            + va % pageSizeForLevel level ↔ _
        rw [pageSizeForLevel_eq hlevel]
        exact frame_offset_iff (pageBits_ge hlevel) (pageBits_le level) e va
      · rw [leaf_lost hreach, or_iff_right fun h => hreach h.1, and_iff_right hreach]
        show 0 = mmuFrame level e + va % pageSizeForLevel level ↔ _
        omega

/-- A boot loader's tables with one 2 MiB page: `entry` is entry 0 of the
page directory. -/
def hugeBoot (entry : Nat) : Vm :=
  { mem := storeWord (storeWord (storeWord (fun _ => 0#8) 0x1000 0x2003) 0x2000 0x3003)
      0x3000 entry
    pmm := ⟨⟨fun _ => 0#8, 0⟩, 0, 0, 0, 0⟩
    hhdmOffset := 0xFFFF800000000000
    hhdmReady := true
    kernelPml4 := none
    kernelPml4Physical := 0
    activePml4Physical := 0
    cr3 := 0x1000 }

/-- A 2 MiB page at 4 MiB with the PAT bit set: the code's address is a
page too high. -/
theorem translate_takes_pat_bit :
    pageTableActiveRoot (hugeBoot 0x401083) = some 0x1000
      ∧ mmuTranslate (hugeBoot 0x401083).mem 0x1000 0x123 = some 0x400123
      ∧ pageTableTranslate (hugeBoot 0x401083) 0x123 = 0x401123 := by
  decide +kernel

/-- With the PAT bit clear the two addresses are the same. -/
theorem page_table_translate_exact_plain_huge :
    pageTableTranslate (hugeBoot 0x400083) 0x123
      = (mmuTranslate (hugeBoot 0x400083).mem 0x1000 0x123).getD 0 := by
  apply (page_table_translate_exact_iff (by decide +kernel) 0x123).mpr
  intro level e hleaf
  have hpage : mmuLeaf (hugeBoot 0x400083).mem 0x1000 0x123 = some (.pd, 0x400083) := by
    decide +kernel
  rw [hpage] at hleaf
  obtain ⟨rfl, rfl⟩ := Prod.mk.inj (Option.some.inj hleaf)
  refine .inl ⟨?_, ?_⟩
  · have htables : ∀ k < 4, (hwTable (hugeBoot 0x400083).mem 0x1000 ((digits 0x123).take k)).all
        (fun g => pageTablePhysicalToVirtual 0xFFFF800000000000 g = some g) = true := by
      decide +kernel
    intro q g hq hne hg
    have hfound := htables q.length (Nat.lt_succ_of_le (hwTable_length hg))
    rw [← List.prefix_iff_eq_take.mp hq, hwTable, hg] at hfound
    rw [Option.all_some, decide_eq_true_eq] at hfound
    exact hfound
  · have hclear : ∀ i < 21, 12 ≤ i → (0x400083).testBit i = false := by decide +kernel
    intro i hlo hhi hbit
    rw [hclear i hhi hlo] at hbit
    cases hbit

end ZenithOS.Vmm
