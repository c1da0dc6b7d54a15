/-
`page_table_map_user` on one root.

`UserSpace v root pages` ties the user half of a root's tables to the
pages mapped there: the trail of a mapped page is three writable entries
for users and the page's own entry, the trail of any other page ends in
an entry that is not present. The call is a creating walk, three entries
marked for users and a leaf written, and each of these keeps the relation
with the pages it should (`UserSpace.mapUser`).
-/
import ZenithOS.Vmm.Proofs.Walk

namespace ZenithOS.Vmm

open Lib Mm

/-- The paths of the addresses with bit 47 clear. -/
def userHalf (p : List (Fin 512)) : Prop :=
  ∀ i ∈ p.head?, i.val < 256

/-- The way to a user page is of the user half. -/
theorem userHalf_closed : Closed userHalf := by
  intro p q hpre hq i hi
  cases p with
  | nil => cases hi
  | cons j p =>
      obtain ⟨l, rfl⟩ := hpre
      exact hq i hi

/-- User addresses are in the lower half. -/
theorem pml4Digit_lt {va : Nat} (hva : va < 2 ^ 47) : (pml4Digit va).val < 256 := by
  show (va >>> 39) &&& 0x1FF < 256
  have hshift : va >>> 39 < 2 ^ 8 := by
    rw [Nat.shiftRight_eq_div_pow]
    exact Nat.div_lt_of_lt_mul hva
  exact Nat.lt_of_le_of_lt Nat.and_le_left hshift

/-- The addresses below `2 ^ 47` are in the user half. -/
theorem userHalf_digits {va : Nat} (hva : va < 2 ^ 47) : userHalf (digits va) := by
  intro i hi
  obtain rfl : pml4Digit va = i := Option.some.inj hi
  exact pml4Digit_lt hva

/-- The entry `page_table_map_user` writes for a page. -/
def userEntry (pa : Nat) (writable : Bool) : Nat :=
  pa ||| (pagePresent ||| pageUser ||| if writable then pageWritable else 0)

theorem userEntry_present (pa : Nat) (wr : Bool) : pageIsPresent (userEntry pa wr) = true := by
  rw [pageIsPresent_eq, userEntry, Nat.testBit_or, Nat.testBit_or, Nat.testBit_or]
  simp [pagePresent]

section Entry

variable {pa : Nat} (hal : 4096 ∣ pa) (hlt : pa < 2 ^ 52)

include hlt in
theorem userEntry_lt (wr : Bool) : userEntry pa wr < 2 ^ 64 := by
  have hbig : pa < 2 ^ 64 := Nat.lt_trans hlt (by decide)
  apply Nat.or_lt_two_pow hbig
  cases wr with
  | false => decide
  | true => decide

include hal in

/-- The flags of a user page. -/
theorem userEntry_bits (wr : Bool) :
    pageIsPresent (userEntry pa wr) = true ∧ pageIsUser (userEntry pa wr) = true
      ∧ pageIsWritable (userEntry pa wr) = wr := by
  have hbit : ∀ i < 12, (userEntry pa wr).testBit i
      = (pagePresent ||| pageUser ||| if wr then pageWritable else 0).testBit i := by
    intro i hi
    rw [userEntry, Nat.testBit_or, testBit_of_aligned hal hi, Bool.false_or]
  rw [pageIsPresent_eq, pageIsUser_eq, pageIsWritable_eq, hbit 0 (by decide),
    hbit 1 (by decide), hbit 2 (by decide)]
  cases wr with
  | false => decide
  | true => decide

include hal hlt in
theorem userEntry_address (wr : Bool) : pageAddress (userEntry pa wr) = pa := by
  have hflags : pageAddress (pagePresent ||| pageUser ||| if wr then pageWritable else 0)
      = 0 := by
    cases wr with
    | false => decide
    | true => decide
  rw [userEntry, pageAddress_or, pageAddress_of_aligned hal hlt, hflags, Nat.or_zero]

end Entry

-- ============================================================== marking

/-- Marking an entry for users touches nothing else of it. -/
theorem markedEntry (e : Nat) :
    pageIsPresent (e ||| pageUser) = pageIsPresent e
      ∧ pageIsWritable (e ||| pageUser) = pageIsWritable e
      ∧ pageIsHuge (e ||| pageUser) = pageIsHuge e
      ∧ pageIsUser (e ||| pageUser) = true
      ∧ pageAddress (e ||| pageUser) = pageAddress e := by
  refine ⟨?_, ?_, ?_, ?_, ?_⟩
  · rw [pageIsPresent_eq, pageIsPresent_eq, Nat.testBit_or,
      show pageUser.testBit 0 = false by decide, Bool.or_false]
  · rw [pageIsWritable_eq, pageIsWritable_eq, Nat.testBit_or,
      show pageUser.testBit 1 = false by decide, Bool.or_false]
  · rw [pageIsHuge_eq, pageIsHuge_eq, Nat.testBit_or,
      show pageUser.testBit 7 = false by decide, Bool.or_false]
  · rw [pageIsUser_eq, Nat.testBit_or, show pageUser.testBit 2 = true by decide,
      Bool.or_true]
  · rw [pageAddress_or, show pageAddress pageUser = 0 by decide, Nat.or_zero]

theorem nextTable_marked (hhdm n e : Nat) :
    nextTable hhdm n (e ||| pageUser) = nextTable hhdm n e := by
  obtain ⟨hpresent, -, hhuge, -, haddress⟩ := markedEntry e
  rw [nextTable, nextTable, hpresent, hhuge, haddress]

theorem nextTable_eq_some {hhdm n e g : Nat} (h : nextTable hhdm n e = some g) :
    g = pageAddress e ∧ pageIsPresent e = true := by
  unfold nextTable pageTablePhysicalToVirtual at h
  split_ifs at h with hcond
  exact ⟨(Option.some.inj h).symm, hcond.2.1⟩

/-- Whether a trail ends in an entry that is not present does not depend
on the marks along it. -/
theorem DeadEnd.marked {l l' : List Nat} {e : Nat} (h : DeadEnd (l ++ e :: l')) :
    DeadEnd (l ++ (e ||| pageUser) :: l') := by
  obtain ⟨l₁, e₁, heq, habsent⟩ := h
  cases List.eq_nil_or_concat l' with
  | inl hnil =>
      rw [hnil] at heq ⊢
      obtain ⟨-, hlast⟩ := List.append_inj' heq rfl
      refine ⟨l, _, rfl, ?_⟩
      rw [(markedEntry e).1, List.head_eq_of_cons_eq hlast]
      exact habsent
  | inr hsnoc =>
      obtain ⟨l₂, e₂, rfl⟩ := hsnoc
      rw [List.concat_eq_append] at heq ⊢
      have hsplit : (l ++ e :: l₂) ++ [e₂] = l₁ ++ [e₁] := by simpa using heq
      obtain ⟨-, hlast⟩ := List.append_inj' hsplit rfl
      refine ⟨l ++ (e ||| pageUser) :: l₂, e₂, by simp, ?_⟩
      rw [List.head_eq_of_cons_eq hlast]
      exact habsent

-- =========================================================== the user space

/-- The user pages of a root: frame and whether users may write. -/
abbrev UserPages := List (Fin 512) → Option (Nat × Bool)

/-- The user half of the tables under `root` maps `pages`. -/
structure UserSpace (v : Vm) (root : Nat) (pages : UserPages) : Prop where
  tables : TablesOk v userHalf root
  writable : ∀ p f i g, userHalf (p ++ [i]) → v.tableAt root p = some f →
    nextTable v.hhdmOffset (3 - p.length) (slots v.mem f i) = some g →
    pageIsWritable (slots v.mem f i) = true
  absent : ∀ q, userHalf q → q.length = 4 → pages q = none → DeadEnd (v.trail root q)
  mapped : ∀ q pa wr, userHalf q → q.length = 4 → pages q = some (pa, wr) →
    4096 ∣ pa ∧ pa < 2 ^ 52
      ∧ ∃ a b c, v.trail root q = [a, b, c, userEntry pa wr]
        ∧ pageIsUser a = true ∧ pageIsUser b = true ∧ pageIsUser c = true

variable {v v' : Vm} {root va : Nat} {pages : UserPages} {p : List (Fin 512)}
  {i : Fin 512} {f : Nat}

/-- Creating a table maps nothing. -/
theorem UserSpace.linkStep (h : UserSpace v root pages)
    (hstep : LinkStep userHalf root v v') : UserSpace v' root pages := by
  have hsame := hstep.sameMap h.tables
  refine ⟨hstep.tablesOk h.tables, ?_, ?_, ?_⟩
  · cases hstep with
    | pmm pmm hinv hclear => exact h.writable
    | link pmm p i f g hpath hlen hf habsent hg hvirtual hinv hclear =>
        have hlinks := links_linkTable pmm h.tables hpath hlen hf habsent hg hvirtual
        obtain ⟨hself, hempty, hother⟩ := slots_linkTable pmm h.tables hpath hf hg
        intro p' f' i' g' hpath' hf' hnext
        have hokp' := userHalf_closed p' _ (List.prefix_append p' [i']) hpath'
        have htable := hlinks.tableAt_eq h.tables.tree hokp'
        split_ifs at htable with hnew
        · -- the new table leads nowhere
          obtain rfl : g = f' := Option.some.inj (htable.symm.trans hf')
          rw [hempty i', nextTable_absent rfl] at hnext
          cases hnext
        · have hold : v.tableAt root p' = some f' := htable.symm.trans hf'
          by_cases hslot : f' = f ∧ i' = i
          · rw [hslot.1, hslot.2, hself]
            exact (tableEntry_bits (h.tables.pmm.clear_frame hg).1).2.1
          · have hne : f' ≠ g := by
              intro heq
              exact hlinks.new ⟨p', hokp', heq ▸ hold⟩
            have hkeep := hother f' i' (tableAt_aligned h.tables.aligned hold) hne
              (not_and_or.mp hslot)
            rw [hkeep] at hnext ⊢
            exact h.writable p' f' i' g' hpath' hold hnext
  · intro q hq hlen hnone
    rcases hsame q hq hlen with heq | ⟨-, hdead⟩
    · rw [heq]
      exact h.absent q hq hlen hnone
    · exact hdead
  · intro q pa wr hq hlen hsome
    obtain ⟨hal, hlt, a, b, c, htrail, huser⟩ := h.mapped q pa wr hq hlen hsome
    refine ⟨hal, hlt, a, b, c, ?_, huser⟩
    rcases hsame q hq hlen with heq | ⟨⟨l, e, hl, habsent⟩, -⟩
    · rw [heq, htrail]
    · -- a mapped page's trail does not end in an absent entry
      rw [htrail] at hl
      obtain ⟨-, hlast⟩ := List.append_inj'
        (show [a, b, c] ++ [userEntry pa wr] = l ++ [e] from hl) rfl
      rw [← List.head_eq_of_cons_eq hlast, (userEntry_bits hal wr).1] at habsent
      cases habsent

/-- New tables leave the user space. -/
theorem UserSpace.linkSteps (h : UserSpace v root pages)
    (hsteps : LinkSteps userHalf root v v') : UserSpace v' root pages := by
  induction hsteps with
  | refl => exact h
  | tail _ hstep ih => exact ih.linkStep hstep

/-- What marking slot `i` of `f` does to a slot. -/
theorem slots_markUser (hf : 4096 ∣ f) {f' : Nat} (hf' : 4096 ∣ f') (j : Fin 512) :
    slots (markUser v f i).2.mem f' j
      = if f' = f ∧ j = i then slots v.mem f i ||| pageUser else slots v.mem f' j := by
  have hlt : slots v.mem f i ||| pageUser < 2 ^ 64 :=
    Nat.or_lt_two_pow (slots_lt v.mem f i) (by decide)
  split_ifs with hslot
  · rw [hslot.1, hslot.2]
    exact slots_store_self.trans (Nat.mod_eq_of_lt hlt)
  · exact slots_store_other hf hf' (not_and_or.mp hslot)

theorem markUser_config (hmark : (markUser v f i).2 = v') :
    v' = { v with mem := v'.mem } := by
  rw [← hmark]
  rfl

/-- Marking a directory entry of the user half for users: the tables and
the pages stay. -/
theorem UserSpace.markUser (h : UserSpace v root pages) (hpath : userHalf (p ++ [i]))
    (hlen : p.length ≤ 2) (hf : v.tableAt root p = some f) :
    UserSpace (markUser v f i).2 root pages
      ∧ (∀ q, userHalf q → (markUser v f i).2.tableAt root q = v.tableAt root q)
      ∧ Confined userHalf root v (markUser v f i).2 := by
  have hokp := userHalf_closed p _ (List.prefix_append p [i]) hpath
  have hal := tableAt_aligned h.tables.aligned hf
  have hlt : slots v.mem f i ||| pageUser < 2 ^ 64 :=
    Nat.or_lt_two_pow (slots_lt v.mem f i) (by decide)
  have hsame := nextTable_marked v.hhdmOffset (3 - p.length) (slots v.mem f i)
  obtain ⟨htables, htableAt⟩ := h.tables.rewrite (i := i) hokp hf hlt hsame
  have htableAt' : ∀ q, userHalf q →
      (Vmm.markUser v f i).2.tableAt root q = v.tableAt root q := htableAt
  have hwrites := h.tables.writesAt (i := i) hf (slots v.mem f i ||| pageUser)
  have hself : slots (Vmm.markUser v f i).2.mem f i = slots v.mem f i ||| pageUser := by
    rw [slots_markUser hal hal, if_pos ⟨rfl, rfl⟩]
  have htrail : ∀ q, userHalf q →
      (Vmm.markUser v f i).2.trail root q = v.trail root q
      ∨ ∃ l, v.trail root q = v.trail root p ++ slots v.mem f i :: l
        ∧ (Vmm.markUser v f i).2.trail root q
          = v.trail root p ++ (slots v.mem f i ||| pageUser) :: l := by
    intro q hq
    by_cases hpre : p ++ [i] <+: q
    · obtain ⟨q', rfl⟩ := hpre
      obtain ⟨l, hbefore, hafter⟩ := h.tables.tree.rewrite_trail userHalf_closed hokp hf
        hwrites (by rw [← hsame]; exact congrArg _ hself) hq
      exact .inr ⟨l, hbefore,
        hafter.trans (congrArg (fun e => v.trail root p ++ e :: l) hself)⟩
    · exact .inl (h.tables.tree.write_other userHalf_closed hokp hf hwrites hq hpre).2
  refine ⟨⟨htables, ?_, ?_, ?_⟩, htableAt',
    h.tables.confined_setPageEntry hpath hf htableAt⟩
  · intro p' f' i' g hpath' hf' hnext
    rw [htableAt' p' (userHalf_closed p' _ (List.prefix_append p' [i']) hpath')] at hf'
    have hslot := slots_markUser (v := v) (i := i) hal
      (tableAt_aligned h.tables.aligned hf') i'
    rw [hslot] at hnext ⊢
    split_ifs at hnext ⊢ with heq
    · rw [(markedEntry _).2.1, ← heq.1, ← heq.2]
      apply h.writable p' f' i' g hpath' hf'
      rw [heq.1, heq.2, ← nextTable_marked]
      exact hnext
    · exact h.writable p' f' i' g hpath' hf' hnext
  · intro q hq hfour hnone
    have hdead := h.absent q hq hfour hnone
    rcases htrail q hq with heq | ⟨l, hbefore, hafter⟩
    · rw [heq]
      exact hdead
    · rw [hafter]
      rw [hbefore] at hdead
      exact hdead.marked
  · intro q pa wr hq hfour hsome
    obtain ⟨hpa, hpalt, a, b, c, habc, hua, hub, huc⟩ := h.mapped q pa wr hq hfour hsome
    refine ⟨hpa, hpalt, ?_⟩
    rcases htrail q hq with heq | ⟨l, hbefore, hafter⟩
    · exact ⟨a, b, c, by rw [heq, habc], hua, hub, huc⟩
    · have hlength : (v.trail root p).length = p.length := trail_length hf
      have hmark := (markedEntry (slots v.mem f i)).2.2.2.1
      rw [habc] at hbefore
      rw [hafter]
      -- the marked entry is one of the first three
      match hp : v.trail root p with
      | [] =>
          rw [hp, List.nil_append, List.cons.injEq] at hbefore
          rw [← hbefore.2]
          exact ⟨_, b, c, rfl, hmark, hub, huc⟩
      | [x] =>
          rw [hp, List.singleton_append, List.cons.injEq, List.cons.injEq] at hbefore
          rw [← hbefore.1, ← hbefore.2.2]
          exact ⟨a, _, c, rfl, hua, hmark, huc⟩
      | [x, y] =>
          rw [hp, List.cons_append, List.singleton_append, List.cons.injEq,
            List.cons.injEq, List.cons.injEq] at hbefore
          rw [← hbefore.1, ← hbefore.2.1, ← hbefore.2.2.2]
          exact ⟨a, b, _, rfl, hua, hub, hmark⟩
      | x :: y :: z :: l' =>
          rw [hp] at hlength
          simp only [List.length_cons] at hlength
          omega

/-- Writing the leaf of a page whose tables are there and marked. -/
theorem UserSpace.write (h : UserSpace v root pages) (hva : userHalf (digits va))
    {table pa : Nat} (htable : v.tableAt root (tablePath va) = some table) (wr : Bool)
    (hpa : 4096 ∣ pa) (hlt : pa < 2 ^ 52)
    (huser : ∀ e ∈ v.trail root (tablePath va), pageIsUser e = true) :
    UserSpace (setPageEntry v table (ptDigit va) (userEntry pa wr)) root
        (Function.update pages (digits va) (some (pa, wr)))
      ∧ Confined userHalf root v
        (setPageEntry v table (ptDigit va) (userEntry pa wr)) := by
  have hp : userHalf (tablePath va) := userHalf_closed _ _ ⟨[ptDigit va], rfl⟩ hva
  have helt := userEntry_lt hlt wr
  have hleaf : nextTable v.hhdmOffset (3 - (tablePath va).length) (userEntry pa wr)
      = nextTable v.hhdmOffset (3 - (tablePath va).length)
        (slots v.mem table (ptDigit va)) := by
    show nextTable v.hhdmOffset 0 _ = nextTable v.hhdmOffset 0 _
    rw [nextTable_leaf, nextTable_leaf]
  obtain ⟨htables, htableAt⟩ := h.tables.rewrite hp htable helt hleaf
  have hal := tableAt_aligned h.tables.aligned htable
  have hother : ∀ q, userHalf q → q.length = 4 → q ≠ digits va →
      (setPageEntry v table (ptDigit va) (userEntry pa wr)).trail root q
        = v.trail root q := by
    intro q hq hfour hne
    apply h.tables.trail_setPageEntry_other hp htable hq
    intro hpre
    exact hne (hpre.eq_of_length (by rw [hfour]; rfl)).symm
  refine ⟨⟨htables, ?_, ?_, ?_⟩, h.tables.confined_setPageEntry hva htable htableAt⟩
  · intro p' f' i' g hpath' hf' hnext
    have hokp' := userHalf_closed p' _ (List.prefix_append p' [i']) hpath'
    rw [htableAt p' hokp'] at hf'
    have hne : f' ≠ table ∨ i' ≠ ptDigit va := by
      by_contra hboth
      rw [not_or, not_not, not_not] at hboth
      obtain rfl := h.tables.tree p' (tablePath va) table hokp' hp (hboth.1 ▸ hf') htable
      have hnone : nextTable v.hhdmOffset 0 _ = some g := hnext
      rw [nextTable_leaf] at hnone
      cases hnone
    have hkeep : slots (setPageEntry v table (ptDigit va) (userEntry pa wr)).mem f' i'
        = slots v.mem f' i' :=
      slots_store_other hal (tableAt_aligned h.tables.aligned hf') hne
    rw [hkeep] at hnext ⊢
    exact h.writable p' f' i' g hpath' hf' hnext
  · intro q hq hfour hnone
    have hne : q ≠ digits va := by
      intro heq
      rw [heq, Function.update_self] at hnone
      cases hnone
    rw [Function.update_of_ne hne] at hnone
    rw [hother q hq hfour hne]
    exact h.absent q hq hfour hnone
  · intro q pa' wr' hq hfour hsome
    by_cases heq : q = digits va
    · rw [heq, Function.update_self] at hsome
      obtain ⟨rfl, rfl⟩ := Prod.mk.inj (Option.some.inj hsome)
      obtain ⟨a, b, c, habc⟩ := List.length_eq_three.mp (trail_length htable)
      have habc' : v.trail root (tablePath va) = [a, b, c] := habc
      refine ⟨hpa, hlt, a, b, c, ?_, ?_⟩
      · rw [heq, digits_eq, h.tables.trail_setPageEntry_self hp htable helt, habc']
        rfl
      · rw [habc'] at huser
        exact ⟨huser a (by simp), huser b (by simp), huser c (by simp)⟩
    · rw [Function.update_of_ne heq] at hsome
      rw [hother q hq hfour heq]
      exact h.mapped q pa' wr' hq hfour hsome

/-- The tables on the way to a page table, and the entries between them. -/
theorem tablePath_tables {table : Nat}
    (htable : v.tableAt root (tablePath va) = some table) :
    ∃ pdpt pd, v.tableAt root [pml4Digit va] = some pdpt
      ∧ v.tableAt root [pml4Digit va, pdptDigit va] = some pd
      ∧ pdpt = pageAddress (slots v.mem root (pml4Digit va))
      ∧ pd = pageAddress (slots v.mem pdpt (pdptDigit va))
      ∧ v.trail root (tablePath va) = [slots v.mem root (pml4Digit va),
          slots v.mem pdpt (pdptDigit va), slots v.mem pd (pdDigit va)] := by
  obtain ⟨pdpt, hpdpt⟩ := tableAt_prefix
    (show [pml4Digit va] <+: tablePath va from ⟨[pdptDigit va, pdDigit va], rfl⟩) htable
  obtain ⟨pd, hpd⟩ := tableAt_prefix
    (show [pml4Digit va] ++ [pdptDigit va] <+: tablePath va from ⟨[pdDigit va], rfl⟩)
    htable
  have hnext₁ : nextTable v.hhdmOffset 3 (slots v.mem root (pml4Digit va)) = some pdpt := by
    rw [← hpdpt]
    exact (tableAt_snoc (p := []) rfl).symm
  have hnext₂ : nextTable v.hhdmOffset 2 (slots v.mem pdpt (pdptDigit va)) = some pd := by
    rw [← hpd]
    exact (tableAt_snoc hpdpt).symm
  have hnext₃ : nextTable v.hhdmOffset 1 (slots v.mem pd (pdDigit va)) = some table := by
    rw [← htable]
    exact (tableAt_snoc hpd).symm
  refine ⟨pdpt, pd, hpdpt, hpd, (nextTable_eq_some hnext₁).1, (nextTable_eq_some hnext₂).1,
    ?_⟩
  simp [tablePath, trail, hnext₁, hnext₂, hnext₃]

/-- A whole trail passes through a page table. -/
theorem tableAt_of_trail_length (hlen : (v.trail root (digits va)).length = 4) :
    ∃ table, v.tableAt root (tablePath va) = some table := by
  cases htable : v.tableAt root (tablePath va) with
  | some table => exact ⟨table, rfl⟩
  | none =>
      have hshort : (v.trail root (tablePath va)).length ≤ 3 := trail_length_le
      rw [Vm.trail, digits_eq, trail_append_none htable] at hlen
      rw [Vm.trail, hlen] at hshort
      omega

/-- The entries on the way to a mapped page are writable. -/
theorem UserSpace.mapped_writable (h : UserSpace v root pages)
    (hva : userHalf (digits va)) {a b c e : Nat}
    (htrail : v.trail root (digits va) = [a, b, c, e]) :
    pageIsWritable a = true ∧ pageIsWritable b = true ∧ pageIsWritable c = true := by
  obtain ⟨table, htable⟩ := tableAt_of_trail_length (by rw [htrail]; rfl)
  obtain ⟨pdpt, pd, hpdpt, hpd, -, -, hentries⟩ := tablePath_tables htable
  have hpath : ∀ l l', digits va = l ++ l' → userHalf l := fun l l' heq =>
    userHalf_closed l _ ⟨l', heq.symm⟩ hva
  rw [Vm.trail, digits_eq, trail_append htable] at htrail
  obtain ⟨habc, -⟩ := List.append_inj
    (show _ ++ _ = [a, b, c] ++ [e] from htrail) (trail_length htable)
  have habc' : v.trail root (tablePath va) = [a, b, c] := habc
  rw [hentries, List.cons.injEq, List.cons.injEq, List.cons.injEq] at habc'
  obtain ⟨rfl, rfl, rfl, -⟩ := habc'
  refine ⟨?_, ?_, ?_⟩
  · exact h.writable [] root _ pdpt (hpath _ _ rfl) rfl ((tableAt_snoc rfl).symm.trans hpdpt)
  · exact h.writable [pml4Digit va] pdpt _ pd (hpath _ _ rfl) hpdpt
      ((tableAt_snoc hpdpt).symm.trans hpd)
  · exact h.writable [pml4Digit va, pdptDigit va] pd _ table (hpath _ _ rfl) hpd
      ((tableAt_snoc hpd).symm.trans htable)

/-- Entries stay marked. -/
theorem slots_markUser_user (hf : 4096 ∣ f) {f' : Nat} (hf' : 4096 ∣ f') {j : Fin 512}
    (huser : pageIsUser (slots v.mem f' j) = true) :
    pageIsUser (slots (markUser v f i).2.mem f' j) = true := by
  rw [slots_markUser hf hf']
  split_ifs
  · exact (markedEntry _).2.2.2.1
  · exact huser

theorem slots_markUser_self (hf : 4096 ∣ f) :
    pageIsUser (slots (markUser v f i).2.mem f i) = true := by
  rw [slots_markUser hf hf, if_pos ⟨rfl, rfl⟩]
  exact (markedEntry _).2.2.2.1

/-- The three entries on the way to a page table marked for users. -/
theorem UserSpace.markPath (h : UserSpace v root pages) (hva : userHalf (digits va))
    {table : Nat} (htable : v.tableAt root (tablePath va) = some table) :
    ∃ pdpt pd v₁ v₂ v₃, Vmm.markUser v root (pml4Digit va) = (pdpt, v₁)
      ∧ Vmm.markUser v₁ pdpt (pdptDigit va) = (pd, v₂)
      ∧ (Vmm.markUser v₂ pd (pdDigit va)).2 = v₃
      ∧ v₃.tableAt root (tablePath va) = some table ∧ UserSpace v₃ root pages
      ∧ Confined userHalf root v v₃
      ∧ ∀ e ∈ v₃.trail root (tablePath va), pageIsUser e = true := by
  have hpath : ∀ l l', digits va = l ++ l' → userHalf l := fun l l' heq =>
    userHalf_closed l _ ⟨l', heq.symm⟩ hva
  have hpt := hpath (tablePath va) [ptDigit va] rfl
  have hok₁ := hpath [pml4Digit va] _ rfl
  have hok₂ := hpath [pml4Digit va, pdptDigit va] _ rfl
  obtain ⟨pdpt, pd, hpdpt, hpd, hpdptEq, -, -⟩ := tablePath_tables htable
  have hroot := h.tables.aligned
  have hpdptAl := tableAt_aligned hroot hpdpt
  have hpdAl := tableAt_aligned hroot hpd
  obtain ⟨h₁, hsame₁, hconf₁⟩ := h.markUser (p := []) hok₁ (by simp) rfl
  rw [← hsame₁ _ hok₁] at hpdpt
  rw [← hsame₁ _ hok₂] at hpd
  rw [← hsame₁ _ hpt] at htable
  have hmark₁ : Vmm.markUser v root (pml4Digit va)
      = (pdpt, (Vmm.markUser v root (pml4Digit va)).2) := Prod.ext hpdptEq.symm rfl
  have huser₁ := slots_markUser_self (v := v) (i := pml4Digit va) hroot
  generalize (Vmm.markUser v root (pml4Digit va)).2 = v₁ at *
  obtain ⟨h₂, hsame₂, hconf₂⟩ := h₁.markUser (p := [pml4Digit va]) hok₂ (by simp) hpdpt
  obtain ⟨pdpt', pd', hpdpt', hpd', -, hpdEq, -⟩ := tablePath_tables htable
  obtain rfl : pdpt' = pdpt := Option.some.inj (hpdpt'.symm.trans hpdpt)
  obtain rfl : pd' = pd := Option.some.inj (hpd'.symm.trans hpd)
  rw [← hsame₂ _ hok₁] at hpdpt
  rw [← hsame₂ _ hok₂] at hpd
  rw [← hsame₂ _ hpt] at htable
  have hmark₂ : Vmm.markUser v₁ pdpt' (pdptDigit va)
      = (pd', (Vmm.markUser v₁ pdpt' (pdptDigit va)).2) := Prod.ext hpdEq.symm rfl
  have huser₂ := slots_markUser_self (v := v₁) (i := pdptDigit va) hpdptAl
  replace huser₁ := slots_markUser_user (i := pdptDigit va) hpdptAl hroot huser₁
  generalize (Vmm.markUser v₁ pdpt' (pdptDigit va)).2 = v₂ at *
  obtain ⟨h₃, hsame₃, hconf₃⟩ :=
    h₂.markUser (p := [pml4Digit va, pdptDigit va]) hpt (by simp) hpd
  rw [← hsame₃ _ hok₁] at hpdpt
  rw [← hsame₃ _ hok₂] at hpd
  rw [← hsame₃ _ hpt] at htable
  refine ⟨pdpt', pd', v₁, v₂, _, hmark₁, hmark₂, rfl, htable, h₃,
    (hconf₁.trans userHalf_closed hconf₂).trans userHalf_closed hconf₃, ?_⟩
  obtain ⟨pdpt'', pd'', hpdpt'', hpd'', -, -, htrail⟩ := tablePath_tables htable
  obtain rfl : pdpt'' = pdpt' := Option.some.inj (hpdpt''.symm.trans hpdpt)
  obtain rfl : pd'' = pd' := Option.some.inj (hpd''.symm.trans hpd)
  rw [htrail]
  intro e he
  simp only [List.mem_cons, List.not_mem_nil, or_false] at he
  rcases he with rfl | rfl | rfl
  · exact slots_markUser_user hpdAl hroot huser₁
  · exact slots_markUser_user hpdAl hpdptAl huser₂
  · exact slots_markUser_self hpdAl

/-- `page_table_map_user`: the page is mapped, or nothing is; whatever
the outcome, only the user half of this root and free frames change. -/
theorem UserSpace.mapUser (h : UserSpace v root pages) (hva : userHalf (digits va))
    {pa : Nat} (hpa : 4096 ∣ pa) (hlt : pa < 2 ^ 52) (wr : Bool) :
    ∃ done v', pageTableMapUser v (some root) va pa wr = (done, v')
      ∧ v' = { v with mem := v'.mem, pmm := v'.pmm } ∧ Confined userHalf root v v'
      ∧ UserSpace v' root
        (if done then Function.update pages (digits va) (some (pa, wr)) else pages) := by
  have hcreates := h.tables.pageWalkInternal_creates hva
  cases hwalk : pageWalkInternal v (some root) va true with
  | mk r v₁ =>
      rw [hwalk] at hcreates
      obtain ⟨hsteps, hok⟩ := hcreates
      dsimp only at hsteps hok
      have h₁ := h.linkSteps hsteps
      have hconf := LinkSteps.confined hsteps h.tables
      have hconfig := LinkSteps.config hsteps
      cases r with
      | error status =>
          refine ⟨false, v₁, ?_, hconfig, hconf, h₁⟩
          simp only [pageTableMapUser, hwalk]
      | ok found =>
          obtain ⟨slot, level⟩ := found
          obtain ⟨rfl, table, rfl, htable⟩ := hok slot level rfl
          obtain ⟨pdpt, pd, v₂, v₃, v₄, hmark₁, hmark₂, hmark₃, htable₄, h₄, hconf₄, huser⟩ :=
            h₁.markPath hva htable
          obtain ⟨h₅, hconf₅⟩ := h₄.write hva htable₄ wr hpa hlt huser
          refine ⟨true, _, ?_, ?_,
            (hconf.trans userHalf_closed hconf₄).trans userHalf_closed hconf₅, h₅⟩
          · simp only [pageTableMapUser, hwalk, pml4Index_eq, pdptIndex_eq, pdIndex_eq,
              hmark₁, hmark₂, hmark₃]
            rfl
          · have hc₂ : v₂ = { v₁ with mem := v₂.mem } :=
              markUser_config (congrArg Prod.snd hmark₁)
            have hc₃ : v₃ = { v₂ with mem := v₃.mem } :=
              markUser_config (congrArg Prod.snd hmark₂)
            have hc₄ := markUser_config hmark₃
            rw [setPageEntry, hc₄, hc₃, hc₂, hconfig]

end ZenithOS.Vmm
