/-
The image that `elf_load_image` makes of the segments of a program.

# Where it writes

An address is written when its byte changes over some memory
(`CopyWrites`); the block is all addresses `base + k` with `k` below the
size, in 64 bits as the pointers are. The first loop sums `p_memsz`, the
second copies `p_filesz`, and neither looks at the other: what must hold
of the headers for the two to agree is `EndsAlike` and `FilesInside`.
Up to the first write that leaves the block the image itself is not
written, so that its headers are what they were.

# What it makes

Segments that are apart are written to different bytes, so each is found
in the block as it was copied, in whatever order the loop takes them.
-/
import ZenithOS.Proc.Proofs.Exec
import Mathlib.Order.Bounds.Basic

namespace ZenithOS.Proc

open Lib Mm Vmm Klib

variable {segments : List ElfProgramHeader} {ph qh : ElfProgramHeader} {elf elf' : Nat → Byte}
  {base block lowest j x size : Nat} {m m' : Mem}

-- ============================================================= one segment

/-- The fields are 64-bit words. -/
def WordFields (ph : ElfProgramHeader) : Prop :=
  ph.vaddr < 2 ^ 64 ∧ ph.filesz < 2 ^ 64 ∧ ph.memsz < 2 ^ 64

/-- The bytes that are written for a segment. -/
def writtenBytes (ph : ElfProgramHeader) : Nat := max ph.filesz ph.memsz

/-- Where byte `j` of a segment goes. -/
def segmentAddress (block lowest : Nat) (ph : ElfProgramHeader) (j : Nat) : Nat :=
  wordAdd (wordAdd block (wordSub ph.vaddr lowest)) j

/-- Byte `j` of a segment. -/
def segmentByte (elf : Nat → Byte) (ph : ElfProgramHeader) (j : Nat) : Byte :=
  if j < ph.filesz then elf (wordAdd ph.offset j) else 0#8

theorem wordAdd_assoc (a b c : Nat) : wordAdd (wordAdd a b) c = wordAdd a (b + c) := by
  unfold wordAdd
  omega

/-- Every byte of a segment goes to its address. -/
theorem copySegment_byte (hwords : WordFields ph) (hj : j < writtenBytes ph) :
    copySegment elf block lowest m ph (segmentAddress block lowest ph j)
      = segmentByte elf ph j := by
  obtain ⟨-, hfile, hmem⟩ := hwords
  unfold writtenBytes at hj
  unfold copySegment segmentAddress segmentByte
  generalize wordAdd block (wordSub ph.vaddr lowest) = dest
  by_cases hjf : j < ph.filesz
  · rw [if_pos hjf]
    have hcopied : wrapBlit m dest (fun j => elf (wordAdd ph.offset j)) ph.filesz (wordAdd dest j)
        = elf (wordAdd ph.offset j) := wrapBlit_byte hjf (by omega)
    split_ifs
    · rw [wrapBlit_outside, hcopied]
      intro i hi
      unfold wordAdd
      omega
    · exact hcopied
  · -- the rest of the segment is zero
    rw [if_neg hjf, if_pos (by omega)]
    have haddress : wordAdd dest j = wordAdd (wordAdd dest ph.filesz) (j - ph.filesz) := by
      unfold wordAdd
      omega
    rw [haddress]
    exact wrapBlit_byte (by omega) (by omega)

/-- Nothing else is written for it. -/
theorem copySegment_frame (hx : ∀ j < writtenBytes ph, x ≠ segmentAddress block lowest ph j) :
    copySegment elf block lowest m ph x = m x := by
  unfold writtenBytes segmentAddress at hx
  unfold copySegment
  generalize wordAdd block (wordSub ph.vaddr lowest) = dest at hx ⊢
  have hcopied : wrapBlit m dest (fun j => elf (wordAdd ph.offset j)) ph.filesz x = m x :=
    wrapBlit_outside fun j hj => hx j (by omega)
  split_ifs
  · rw [wrapBlit_outside, hcopied]
    intro j hj
    rw [wordAdd_assoc]
    exact hx (ph.filesz + j) (by omega)
  · exact hcopied

/-- A byte after the copy is the one before it, or is one of the
segment. -/
theorem copySegment_congr_byte (hwords : WordFields ph) (hx : m x = m' x) :
    copySegment elf block lowest m ph x = copySegment elf block lowest m' ph x := by
  by_cases hwritten : ∃ j < writtenBytes ph, x = segmentAddress block lowest ph j
  · obtain ⟨j, hj, rfl⟩ := hwritten
    rw [copySegment_byte hwords hj, copySegment_byte hwords hj]
  · have hout : ∀ j < writtenBytes ph, x ≠ segmentAddress block lowest ph j :=
      fun j hj heq => hwritten ⟨j, hj, heq⟩
    rw [copySegment_frame hout, copySegment_frame hout, hx]

-- ======================================================= where the loop writes

/-- A byte that no segment writes stays. -/
theorem copySegments_frame
    (hx : ∀ ph ∈ segments, ∀ j < writtenBytes ph, x ≠ segmentAddress block lowest ph j) :
    segments.foldl (copySegment elf block lowest) m x = m x := by
  induction segments generalizing m with
  | nil => rfl
  | cons ph segments ih =>
      rw [List.foldl_cons, ih fun qh hqh => hx qh (List.mem_cons_of_mem _ hqh)]
      exact copySegment_frame (hx ph List.mem_cons_self)

/-- The first addresses of the segments. -/
def segmentStarts (segments : List ElfProgramHeader) : Set Nat :=
  {a | ∃ ph ∈ segments, a = ph.vaddr}

/-- The addresses behind the segments, not cut to 64 bits. -/
def segmentEnds (segments : List ElfProgramHeader) : Set Nat :=
  {a | ∃ ph ∈ segments, a = ph.vaddr + ph.memsz}

/-- The bounds are those of segments, or the ones from before the loop. -/
theorem widenBounds_foldl_attained (segments : List ElfProgramHeader) (bounds : Nat × Nat) :
    ((segments.foldl widenBounds bounds).1 = bounds.1
        ∨ ∃ ph ∈ segments, (segments.foldl widenBounds bounds).1 = ph.vaddr)
      ∧ ((segments.foldl widenBounds bounds).2 = bounds.2
        ∨ ∃ ph ∈ segments, (segments.foldl widenBounds bounds).2 = wordAdd ph.vaddr ph.memsz) := by
  induction segments generalizing bounds with
  | nil => exact ⟨.inl rfl, .inl rfl⟩
  | cons ph segments ih =>
      rw [List.foldl_cons]
      obtain ⟨hlow, hhigh⟩ := ih (widenBounds bounds ph)
      have hlow' : (widenBounds bounds ph).1 = bounds.1
          ∨ (widenBounds bounds ph).1 = ph.vaddr := by
        show (if _ then _ else _) = _ ∨ (if _ then _ else _) = _
        split_ifs
        · exact .inr rfl
        · exact .inl rfl
      have hhigh' : (widenBounds bounds ph).2 = bounds.2
          ∨ (widenBounds bounds ph).2 = wordAdd ph.vaddr ph.memsz := by
        show (if _ then _ else _) = _ ∨ (if _ then _ else _) = _
        split_ifs
        · exact .inr rfl
        · exact .inl rfl
      constructor
      · rcases hlow with heq | ⟨qh, hqh, heq⟩
        · rw [heq]
          exact hlow'.imp_right fun hstart => ⟨ph, List.mem_cons_self, hstart⟩
        · exact .inr ⟨qh, List.mem_cons_of_mem _ hqh, heq⟩
      · rcases hhigh with heq | ⟨qh, hqh, heq⟩
        · rw [heq]
          exact hhigh'.imp_right fun hend => ⟨ph, List.mem_cons_self, hend⟩
        · exact .inr ⟨qh, List.mem_cons_of_mem _ hqh, heq⟩

/-- The first loop finds the least start. -/
theorem imageBounds_least (hsome : segments ≠ []) (hwords : ∀ ph ∈ segments, WordFields ph) :
    IsLeast (segmentStarts segments) (imageBounds segments).1 := by
  obtain ⟨-, -, hall, -⟩ := widenBounds_foldl segments (2 ^ 64 - 1, 0)
  obtain ⟨ph, hph⟩ := List.exists_mem_of_ne_nil segments hsome
  constructor
  · rcases (widenBounds_foldl_attained segments (2 ^ 64 - 1, 0)).1 with heq | hstart
    · have hlow := (hall ph hph).1
      have hword := (hwords ph hph).1
      refine ⟨ph, hph, ?_⟩
      show (segments.foldl widenBounds (2 ^ 64 - 1, 0)).1 = _
      rw [heq] at hlow ⊢
      dsimp only at hlow ⊢
      omega
    · exact hstart
  · rintro a ⟨qh, hqh, rfl⟩
    exact (hall qh hqh).1

/-- It finds the greatest end, of the ends as they are in 64 bits. -/
theorem imageBounds_greatest (hsome : segments ≠ []) :
    (∃ ph ∈ segments, (imageBounds segments).2 = wordAdd ph.vaddr ph.memsz)
      ∧ ∀ ph ∈ segments, wordAdd ph.vaddr ph.memsz ≤ (imageBounds segments).2 := by
  obtain ⟨-, -, hall, -⟩ := widenBounds_foldl segments (2 ^ 64 - 1, 0)
  obtain ⟨ph, hph⟩ := List.exists_mem_of_ne_nil segments hsome
  refine ⟨?_, fun qh hqh => (hall qh hqh).2⟩
  rcases (widenBounds_foldl_attained segments (2 ^ 64 - 1, 0)).2 with heq | hend
  · have hhigh := (hall ph hph).2
    refine ⟨ph, hph, ?_⟩
    show (segments.foldl widenBounds (2 ^ 64 - 1, 0)).2 = _
    rw [heq] at hhigh ⊢
    exact (Nat.le_zero.mp hhigh).symm
  · exact hend

/-- `size` is the distance from the lowest start to the highest end. -/
def ExactSize (segments : List ElfProgramHeader) (size : Nat) : Prop :=
  ∃ low high, IsLeast (segmentStarts segments) low ∧ IsGreatest (segmentEnds segments) high
    ∧ size = high - low

/-- The ends of the segments are all in the address space, or all behind
it, and then less than its size from each start. -/
def EndsAlike (segments : List ElfProgramHeader) : Prop :=
  (∀ ph ∈ segments, ph.vaddr + ph.memsz < 2 ^ 64)
    ∨ ∀ ph ∈ segments, 2 ^ 64 ≤ ph.vaddr + ph.memsz
      ∧ ∀ qh ∈ segments, ph.vaddr + ph.memsz < 2 ^ 64 + qh.vaddr

/-- The size that `elf_load_image` computes is exact if and only if the
ends are alike. -/
theorem exactSize_iff (hsome : segments ≠ []) (hwords : ∀ ph ∈ segments, WordFields ph) :
    ExactSize segments (wordSub (imageBounds segments).2 (imageBounds segments).1)
      ↔ EndsAlike segments := by
  have hleast := imageBounds_least hsome hwords
  obtain ⟨⟨top, htop, hstop⟩, hmax⟩ := imageBounds_greatest hsome
  obtain ⟨first, hfirst, hlow⟩ := hleast.1
  have hmin : ∀ ph ∈ segments, (imageBounds segments).1 ≤ ph.vaddr :=
    fun ph hph => hleast.2 ⟨ph, hph, rfl⟩
  generalize (imageBounds segments).1 = low at *
  generalize (imageBounds segments).2 = high at *
  have hlowWord := (hwords first hfirst).1
  constructor
  · rintro ⟨low', high', hleast', ⟨⟨last, hlast, hend⟩, hhighest⟩, hsize⟩
    cases hleast'.unique hleast
    have hlastWord := hwords last hlast
    have hlastStop := hmax last hlast
    have hlastStart := hmin last hlast
    have htopEnd : top.vaddr + top.memsz ≤ high' := hhighest ⟨top, htop, rfl⟩
    unfold WordFields at hlastWord
    unfold wordAdd at hstop hlastStop
    unfold wordSub at hsize
    by_cases hspace : high' < 2 ^ 64
    · refine .inl fun ph hph => ?_
      have hle : ph.vaddr + ph.memsz ≤ high' := hhighest ⟨ph, hph, rfl⟩
      omega
    · -- the greatest end is cut, so all are
      have hcut : high + 2 ^ 64 = high' ∧ high < low := by omega
      refine .inr fun ph hph => ?_
      have hle : ph.vaddr + ph.memsz ≤ high' := hhighest ⟨ph, hph, rfl⟩
      have hstart := hmin ph hph
      have hph' := hmax ph hph
      unfold wordAdd at hph'
      refine ⟨by omega, fun qh hqh => ?_⟩
      have hstart' := hmin qh hqh
      omega
  · intro halike
    rcases halike with hall | hall
    · refine ⟨low, high, hleast, ⟨⟨top, htop, ?_⟩, ?_⟩, ?_⟩
      · rw [hstop, wordAdd_eq (hall top htop)]
      · rintro a ⟨ph, hph, rfl⟩
        have hph' := hmax ph hph
        rwa [wordAdd_eq (hall ph hph)] at hph'
      · have htopStart := hmin top htop
        have htopEnd := hall top htop
        rw [hstop, wordAdd_eq htopEnd]
        exact wordSub_eq (by omega) htopEnd
    · have hcut : ∀ ph ∈ segments, wordAdd ph.vaddr ph.memsz + 2 ^ 64 = ph.vaddr + ph.memsz := by
        intro ph hph
        have hbehind := hall ph hph
        have hword := hwords ph hph
        unfold WordFields at hword
        unfold wordAdd
        omega
      refine ⟨low, high + 2 ^ 64, hleast, ⟨⟨top, htop, ?_⟩, ?_⟩, ?_⟩
      · rw [hstop, hcut top htop]
      · rintro a ⟨ph, hph, rfl⟩
        have hph' := hmax ph hph
        have hph'' := hcut ph hph
        omega
      · have htopEnd := (hall top htop).2 first hfirst
        have htopCut := hcut top htop
        unfold wordSub
        omega

-- ================================================================= the block

/-- Where byte `j` of a segment goes, from the start of the block. -/
theorem segmentAddress_eq (hlow : lowest ≤ ph.vaddr) (hwords : WordFields ph) :
    segmentAddress block lowest ph j = wordAdd block (ph.vaddr - lowest + j) := by
  unfold segmentAddress
  rw [wordAdd_assoc, wordSub_eq hlow hwords.1]

/-- The image that a call has loaded. -/
theorem elfLoadImage_loaded {h h' : Heap} {refuse : Bool} {image : ElfImage}
    (hrun : elfLoadImage refuse base elf h = some (kernelSuccess, image, h'))
    (hbase : image.base ≠ null) :
    loadSegments base elf ≠ []
      ∧ image.size = imageSize base elf
      ∧ image.imageBase = (imageBounds (loadSegments base elf)).1
      ∧ image.entry = (elfHeader elf).entry
      ∧ ∃ h₁, kmallocUnless refuse image.size h = some (image.base, h₁)
        ∧ h' = { h₁ with
          mem := (loadSegments base elf).foldl (copySegment elf image.base image.imageBase)
            h₁.mem } := by
  rcases elfLoadImage_cases hrun with ⟨-, hrc, -⟩ | ⟨-, -, ⟨-, -, rfl, -⟩ |
    ⟨hlowest, block, h₁, halloc, rfl, ⟨-, hrc, -⟩ | ⟨-, -, rfl⟩⟩⟩
  · exact absurd hrc einval_ne.symm
  · exact absurd rfl hbase
  · exact absurd hrc enomem_ne.symm
  · refine ⟨?_, rfl, rfl, rfl, h₁, halloc, rfl⟩
    intro hnil
    apply hlowest
    rw [hnil]
    rfl

/-- No address is in both segments. -/
def RangesApart (ph qh : ElfProgramHeader) : Prop :=
  ∀ a, ¬ (ph.vaddr ≤ a ∧ a < ph.vaddr + ph.memsz ∧ qh.vaddr ≤ a ∧ a < qh.vaddr + qh.memsz)

instance : Std.Symm RangesApart where
  symm _ _ hapart a := fun ⟨hlo, hhi, hlo', hhi'⟩ => hapart a ⟨hlo', hhi', hlo, hhi⟩

/-- A segment behind `low` that ends in the lower half of the address
space and has no more in the file than in memory. -/
structure InLowerHalf (low : Nat) (ph : ElfProgramHeader) : Prop where
  start : low ≤ ph.vaddr
  file : ph.filesz ≤ ph.memsz
  stop : ph.vaddr + ph.memsz ≤ 2 ^ 63

theorem InLowerHalf.words (hin : InLowerHalf lowest ph) : WordFields ph := by
  obtain ⟨-, hfile, hstop⟩ := hin
  exact ⟨by omega, by omega, by omega⟩

/-- A segment writes its size in memory. -/
theorem InLowerHalf.writtenBytes (hin : InLowerHalf lowest ph) : writtenBytes ph = ph.memsz :=
  max_eq_right hin.file

/-- Segments that are apart go to different addresses. -/
theorem segmentAddress_ne {i : Nat} (hin : InLowerHalf lowest ph) (hin' : InLowerHalf lowest qh)
    (hapart : RangesApart ph qh) (hi : i < ph.memsz) (hj : j < qh.memsz) :
    segmentAddress block lowest ph i ≠ segmentAddress block lowest qh j := by
  have hstart := hin.start
  have hstart' := hin'.start
  have hstop := hin.stop
  have hstop' := hin'.stop
  have hdiffer : ph.vaddr + i ≠ qh.vaddr + j :=
    fun heq => hapart (ph.vaddr + i) ⟨by omega, by omega, by omega, by omega⟩
  rw [segmentAddress_eq hstart hin.words, segmentAddress_eq hstart' hin'.words]
  unfold wordAdd
  omega

/-- Each segment is found as it was copied: the ones behind it are
elsewhere. -/
theorem copySegments_byte (hin : ∀ ph ∈ segments, InLowerHalf lowest ph)
    (hapart : segments.Pairwise RangesApart) (hph : ph ∈ segments) (hj : j < ph.memsz) :
    segments.foldl (copySegment elf block lowest) m (segmentAddress block lowest ph j)
      = segmentByte elf ph j := by
  induction segments generalizing m with
  | nil => exact absurd hph List.not_mem_nil
  | cons qh segments ih =>
      have hrest : ∀ ph ∈ segments, InLowerHalf lowest ph :=
        fun ph hph => hin ph (List.mem_cons_of_mem _ hph)
      obtain ⟨hfirst, hothers⟩ := List.pairwise_cons.mp hapart
      rw [List.foldl_cons]
      cases List.mem_cons.mp hph with
      | inl heq =>
          rw [← heq] at hfirst ⊢
          have hhere := hin ph hph
          rw [copySegments_frame, copySegment_byte hhere.words]
          · rw [hhere.writtenBytes]
            exact hj
          · intro rh hrh i hi
            rw [(hrest rh hrh).writtenBytes] at hi
            exact segmentAddress_ne hhere (hrest rh hrh) (hfirst rh hrh) hj hi
      | inr hmem => exact ih hrest hothers hmem

/-- Segments that are apart may be copied in either order. -/
theorem copySegment_comm (hin : InLowerHalf lowest ph) (hin' : InLowerHalf lowest qh)
    (hapart : RangesApart ph qh) (m : Mem) :
    copySegment elf block lowest (copySegment elf block lowest m ph) qh
      = copySegment elf block lowest (copySegment elf block lowest m qh) ph := by
  funext x
  by_cases hx : ∃ j < writtenBytes ph, x = segmentAddress block lowest ph j
  · obtain ⟨j, hj, rfl⟩ := hx
    rw [copySegment_frame, copySegment_byte hin.words hj, copySegment_byte hin.words hj]
    intro i hi
    rw [hin.writtenBytes] at hj
    rw [hin'.writtenBytes] at hi
    exact segmentAddress_ne hin hin' hapart hj hi
  · have hout : ∀ j < writtenBytes ph, x ≠ segmentAddress block lowest ph j :=
      fun j hj heq => hx ⟨j, hj, heq⟩
    rw [copySegment_frame hout]
    apply copySegment_congr_byte hin'.words
    exact copySegment_frame hout

/-- The order of segments that do not overlap does not matter. -/
theorem copySegments_perm {segments' : List ElfProgramHeader}
    (hin : ∀ ph ∈ segments, InLowerHalf lowest ph) (hapart : segments.Pairwise RangesApart)
    (hperm : segments.Perm segments') (m : Mem) :
    segments.foldl (copySegment elf block lowest) m
      = segments'.foldl (copySegment elf block lowest) m := by
  apply hperm.foldl_eq'
  intro ph hph qh hqh m
  by_cases hsame : ph = qh
  · rw [hsame]
  · exact copySegment_comm (hin ph hph) (hin qh hqh)
      (hapart.forall hph hqh hsame) m

/-- Only the bytes of the file are copied. -/
theorem copySegment_congr_file
    (hbytes : ∀ j < ph.filesz, elf' (wordAdd ph.offset j) = elf (wordAdd ph.offset j)) :
    copySegment elf' block lowest m ph = copySegment elf block lowest m ph := by
  have hcopied : ∀ dest, wrapBlit m dest (fun j => elf' (wordAdd ph.offset j)) ph.filesz
      = wrapBlit m dest (fun j => elf (wordAdd ph.offset j)) ph.filesz := by
    intro dest
    funext x
    unfold wrapBlit
    split_ifs with hx
    · exact hbytes _ hx.2
    · rfl
  unfold copySegment
  dsimp only
  rw [hcopied]

/-- Only the bytes of the segments are read. -/
theorem copySegments_congr_file
    (hbytes : ∀ ph ∈ segments, ∀ j < ph.filesz,
      elf' (wordAdd ph.offset j) = elf (wordAdd ph.offset j)) (m : Mem) :
    segments.foldl (copySegment elf' block lowest) m
      = segments.foldl (copySegment elf block lowest) m := by
  induction segments generalizing m with
  | nil => rfl
  | cons ph segments ih =>
      rw [List.foldl_cons, List.foldl_cons, copySegment_congr_file (hbytes ph List.mem_cons_self)]
      exact ih (fun qh hqh => hbytes qh (List.mem_cons_of_mem _ hqh)) _

/-- The bounds do not depend on the order. -/
theorem imageBounds_perm {segments' : List ElfProgramHeader} (hperm : segments.Perm segments') :
    imageBounds segments = imageBounds segments' := by
  apply hperm.foldl_eq'
  intro ph _ qh _ bounds
  unfold widenBounds
  apply Prod.ext
  · dsimp only
    split_ifs <;> omega
  · dsimp only
    split_ifs <;> omega

-- ========================================================= the program headers

/-- The program header at an offset in an image. -/
def programHeaderAt (elf : Nat → Byte) (offset : Nat) : ElfProgramHeader :=
  { type := loadWord elf offset % 2 ^ 32
    flags := loadWord elf (offset + 4) % 2 ^ 32
    offset := loadWord elf (offset + 8)
    vaddr := loadWord elf (offset + 16)
    filesz := loadWord elf (offset + 32)
    memsz := loadWord elf (offset + 40) }

/-- Where entry `i` of the table is, `e_phoff + i * e_phentsize`. -/
def tableOffset (elf : Nat → Byte) (i : Nat) : Nat :=
  wordAdd (elfHeader elf).phoff (i * (elfHeader elf).phentsize)

/-- The `PT_LOAD` headers of the table in their order; none is at the null
address. -/
def loadHeaders (base : Nat) (elf : Nat → Byte) : List ElfProgramHeader :=
  ((List.range (elfHeader elf).phnum).filterMap fun i =>
      if wordAdd base (tableOffset elf i) = null then none
      else some (programHeaderAt elf (tableOffset elf i))).filter
    fun ph => ph.type = ptLoad

/-- The product of an index and the entry size does not overflow. -/
theorem intWord_eq {n : Nat} (hn : n < 2 ^ 31) : intWord n = n := by
  unfold intWord
  have hpositive : (BitVec.ofNat 32 n).msb = false := by
    rw [BitVec.msb_eq_decide, BitVec.toNat_ofNat]
    exact decide_eq_false (by omega)
  rw [BitVec.signExtend_eq_setWidth_of_msb_false hpositive, BitVec.toNat_setWidth,
    BitVec.toNat_ofNat]
  omega

/-- The loops find the headers of the table. -/
theorem loadSegments_eq (htable : (elfHeader elf).phnum * (elfHeader elf).phentsize < 2 ^ 31) :
    loadSegments base elf = loadHeaders base elf := by
  have hentry : ∀ i ∈ List.range (elfHeader elf).phnum, elfProgramHeader base elf i
      = if wordAdd base (tableOffset elf i) = null then none
        else some (programHeaderAt elf (tableOffset elf i)) := by
    intro i hi
    have hindex := List.mem_range.mp hi
    have hproduct : i * (elfHeader elf).phentsize
        ≤ (elfHeader elf).phnum * (elfHeader elf).phentsize :=
      Nat.mul_le_mul_right _ (Nat.le_of_lt hindex)
    have hoffset : elfHeaderOffset (elfHeader elf) i = tableOffset elf i := by
      unfold elfHeaderOffset tableOffset
      rw [intWord_eq (by omega)]
    unfold elfProgramHeader
    dsimp only
    rw [hoffset, if_neg (by omega)]
    rfl
  unfold loadSegments loadHeaders
  rw [List.filterMap_congr hentry]

/-- What is asked of an image: it is valid, its table is not too long, and
its segments are apart, in the lower half of the address space and no
larger in the file than in memory. -/
structure WellFormed (base : Nat) (elf : Nat → Byte) : Prop where
  valid : elfValidate (elfHeader elf) = kernelSuccess
  table : (elfHeader elf).phnum * (elfHeader elf).phentsize < 2 ^ 31
  files : ∀ ph ∈ loadHeaders base elf, ph.filesz ≤ ph.memsz
  stops : ∀ ph ∈ loadHeaders base elf, ph.vaddr + ph.memsz ≤ 2 ^ 63
  apart : (loadHeaders base elf).Pairwise RangesApart

/-- The image at `base'` is the one at `base` with its program headers in
another order: it is valid, it has the same `PT_LOAD` headers and the same
entry, and the bytes of the file are where they were. -/
structure Reordered (base : Nat) (elf : Nat → Byte) (base' : Nat) (elf' : Nat → Byte) : Prop where
  given : base ≠ null ∧ base' ≠ null
  valid : elfValidate (elfHeader elf') = kernelSuccess
  table : (elfHeader elf').phnum * (elfHeader elf').phentsize < 2 ^ 31
  entry : (elfHeader elf').entry = (elfHeader elf).entry
  headers : (loadHeaders base' elf').Perm (loadHeaders base elf)
  bytes : ∀ ph ∈ loadHeaders base elf, ∀ j < ph.filesz,
    elf' (wordAdd ph.offset j) = elf (wordAdd ph.offset j)

/-- The image of the segments: its bounds are theirs, and each byte of a
segment is in the block, out of the file or zero. -/
structure ImageLoaded (base : Nat) (elf : Nat → Byte) (image : ElfImage) (m : Mem) : Prop where
  imageBase : IsLeast (segmentStarts (loadHeaders base elf)) image.imageBase
  size : ∃ high, IsGreatest (segmentEnds (loadHeaders base elf)) high
    ∧ image.size = high - image.imageBase
  entry : image.entry = (elfHeader elf).entry
  bytes : ∀ ph ∈ loadHeaders base elf, ∀ j < ph.memsz,
    m (wordAdd image.base (ph.vaddr - image.imageBase + j))
      = if j < ph.filesz then elf (wordAdd ph.offset j) else 0#8

/-- The segments of a well-formed image are in the lower half. -/
theorem WellFormed.inLowerHalf (hgood : WellFormed base elf)
    (hlow : ∀ ph ∈ loadHeaders base elf, lowest ≤ ph.vaddr) :
    ∀ ph ∈ loadHeaders base elf, InLowerHalf lowest ph :=
  fun ph hph => ⟨hlow ph hph, hgood.files ph hph, hgood.stops ph hph⟩

/-- With a segment there is a block on success. -/
theorem WellFormed.base_ne {h h' : Heap} {refuse : Bool} {image : ElfImage}
    (hgood : WellFormed base elf) (hsome : loadHeaders base elf ≠ [])
    (hrun : elfLoadImage refuse base elf h = some (kernelSuccess, image, h')) :
    image.base ≠ null := by
  have hsegments : loadSegments base elf = loadHeaders base elf := loadSegments_eq hgood.table
  rcases elfLoadImage_cases hrun with ⟨-, hrc, -⟩ | ⟨-, -, ⟨hnone, -⟩ |
    ⟨-, block, h₁, -, rfl, ⟨-, hrc, -⟩ | ⟨hnull, -⟩⟩⟩
  · exact absurd hrc einval_ne.symm
  · obtain ⟨ph, hph⟩ := List.exists_mem_of_ne_nil _ hsome
    have hlow := (widenBounds_foldl (loadSegments base elf) (2 ^ 64 - 1, 0)).2.2.1 ph
      (hsegments ▸ hph)
    have hstop := hgood.stops ph hph
    have hlow' : (imageBounds (loadSegments base elf)).1 ≤ ph.vaddr := hlow.1
    omega
  · exact absurd hrc enomem_ne.symm
  · exact hnull

/-- A well-formed image is loaded as it says. -/
theorem WellFormed.loaded {h h' : Heap} {refuse : Bool} {image : ElfImage}
    (hgood : WellFormed base elf) (hsome : loadHeaders base elf ≠ [])
    (hrun : elfLoadImage refuse base elf h = some (kernelSuccess, image, h')) :
    ImageLoaded base elf image h'.mem := by
  obtain ⟨-, hsize, hlowest, hentry, h₁, -, rfl⟩ := elfLoadImage_loaded hrun
    (hgood.base_ne hsome hrun)
  unfold imageSize at hsize
  rw [loadSegments_eq hgood.table] at hsize hlowest ⊢
  have hwords : ∀ ph ∈ loadHeaders base elf, WordFields ph :=
    fun ph hph => (hgood.inLowerHalf (fun _ _ => Nat.zero_le _) ph hph).words
  have hleast := imageBounds_least hsome hwords
  have halike : EndsAlike (loadHeaders base elf) := by
    refine .inl fun ph hph => ?_
    have hstop := hgood.stops ph hph
    omega
  obtain ⟨low, high, hleast', hgreatest, hdistance⟩ := (exactSize_iff hsome hwords).mpr halike
  cases hleast'.unique hleast
  rw [← hsize] at hdistance
  rw [← hlowest] at hleast hdistance
  have hin := hgood.inLowerHalf fun ph hph => hleast.2 ⟨ph, hph, rfl⟩
  refine ⟨hleast, ⟨high, hgreatest, hdistance⟩, hentry, ?_⟩
  intro ph hph j hj
  rw [← segmentAddress_eq (hin ph hph).start (hwords ph hph)]
  exact copySegments_byte hin hgood.apart hph hj

/-- The order of the program headers does not matter. -/
theorem Reordered.elfLoadImage {base' : Nat} (hsame : Reordered base elf base' elf')
    (hgood : WellFormed base elf) (refuse : Bool) (h : Heap) :
    elfLoadImage refuse base' elf' h = elfLoadImage refuse base elf h := by
  have hbounds := imageBounds_perm hsame.headers
  have hcopied : ∀ block m,
      (loadHeaders base' elf').foldl
          (copySegment elf' block (imageBounds (loadHeaders base elf)).1) m
        = (loadHeaders base elf).foldl
          (copySegment elf block (imageBounds (loadHeaders base elf)).1) m := by
    intro block m
    have hlow := (widenBounds_foldl (loadHeaders base elf) (2 ^ 64 - 1, 0)).2.2.1
    have hin := hgood.inLowerHalf fun ph hph => (hlow ph hph).1
    have hbytes : ∀ ph ∈ loadHeaders base' elf', ∀ j < ph.filesz,
        elf' (wordAdd ph.offset j) = elf (wordAdd ph.offset j) :=
      fun ph hph => hsame.bytes ph (hsame.headers.mem_iff.mp hph)
    rw [copySegments_congr_file hbytes]
    exact (copySegments_perm hin hgood.apart hsame.headers.symm m).symm
  unfold Proc.elfLoadImage
  rw [if_neg hsame.given.1, if_neg hsame.given.2, if_neg (not_not.mpr hsame.valid),
    if_neg (not_not.mpr hgood.valid), loadSegments_eq hsame.table, loadSegments_eq hgood.table,
    hsame.entry]
  dsimp only
  rw [hbounds]
  simp only [hcopied]

end ZenithOS.Proc
