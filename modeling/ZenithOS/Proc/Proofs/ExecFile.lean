/-
Which bytes of a file the loader reads.

# Why a condition

No function behind `process_exec_file` is told how many bytes there are.
The fields of the header and of the program headers say where to read,
and the loader follows them: it reads inside the file if and only if
they point inside it, or it stops before it gets there (`ReadsStay`).

# The image stays as it is

The segments are copied into a block of the heap, and the image is in
another. As long as a segment is not larger in the file than in memory
the copy stays in its block, and all loops read the same image
(`SameImage`).
-/
import ZenithOS.Proc.ExecFile
import ZenithOS.Fs.Proofs.Runs
import ZenithOS.Mm.Proofs.HeapRun
import ZenithOS.Proc.Proofs.ExecUndone

namespace ZenithOS.Proc

open Lib Mm Vmm Klib Scheduler
open Fs (Vfs fileClose vfsOpen vfsRead)

variable {n i base block lowest offset : Nat} {elf elf' : Nat → Byte} {m : Mem}
  {ph : ElfProgramHeader}

-- =================================================================== spans

/-- All bytes of the span are among the first `n`. -/
def Span.Inside (n : Nat) (s : Span) : Prop := ∀ j < s.length, wordAdd s.offset j < n

/-- All of the reads are of the first `n` bytes. -/
def AllInside (n : Nat) (reads : List Span) : Prop := ∀ s ∈ reads, s.Inside n

@[simp] theorem allInside_nil : AllInside n [] := fun _ hs => absurd hs List.not_mem_nil

@[simp] theorem allInside_cons {s : Span} {reads : List Span} :
    AllInside n (s :: reads) ↔ s.Inside n ∧ AllInside n reads := List.forall_mem_cons

@[simp] theorem allInside_append {reads reads' : List Span} :
    AllInside n (reads ++ reads') ↔ AllInside n reads ∧ AllInside n reads' :=
  List.forall_mem_append

/-- A span that ends inside is inside. -/
theorem Span.inside_of_le {s : Span} (hle : s.offset + s.length ≤ n) (hn : n ≤ 2 ^ 16) :
    s.Inside n := by
  intro j hj
  rw [wordAdd_eq (by omega)]
  omega

/-- A span that starts inside ends inside. -/
theorem Span.inside_iff {s : Span} (hoffset : s.offset < 2 ^ 64) (hn : n ≤ 2 ^ 16)
    (hlength : s.length ≠ 0) : s.Inside n ↔ s.offset + s.length ≤ n := by
  constructor
  · intro hinside
    have hfirst := hinside 0 (Nat.pos_of_ne_zero hlength)
    rw [wordAdd_eq (by omega)] at hfirst
    by_contra hlong
    -- the byte at `n` is one of them
    have hlast := hinside (n - s.offset) (by omega)
    rw [wordAdd_eq (by omega)] at hlast
    omega
  · exact fun hle => Span.inside_of_le hle hn

-- ============================================================ what must fit

/-- What the loops over the program headers look at of header `i` is
inside: its type, and all fields if it is that of a segment. -/
def EntryInside (n base : Nat) (elf : Nat → Byte) (i : Nat) : Prop :=
  ∀ ph, elfProgramHeader base elf i = some ph →
    elfHeaderOffset (elfHeader elf) i + 4 ≤ n
      ∧ (ph.type = ptLoad → elfHeaderOffset (elfHeader elf) i + 48 ≤ n)

/-- The bytes of a segment are inside. -/
def SegmentInside (n : Nat) (ph : ElfProgramHeader) : Prop :=
  ph.filesz = 0 ∨ ph.offset + ph.filesz ≤ n

/-- The header, the program headers and the segments are inside, as far
as the loader reads them. -/
structure ElfInside (n base : Nat) (elf : Nat → Byte) : Prop where
  header : 58 ≤ n
  table : ∀ i < (elfHeader elf).phnum, EntryInside n base elf i
  segments : ∀ ph ∈ loadSegments base elf, SegmentInside n ph

theorem elfHeaderOffset_lt (header : ElfHeader) (i : Nat) : elfHeaderOffset header i < 2 ^ 64 :=
  Nat.mod_lt _ (by decide)

/-- What every round reads again of the header. -/
theorem roundReads_inside (hn : n ≤ 2 ^ 16) : AllInside n roundReads ↔ 58 ≤ n := by
  have hphnum : ePhnum.Inside n ↔ 58 ≤ n :=
    Span.inside_iff (s := ePhnum) (by decide) hn (by decide)
  unfold roundReads
  simp only [allInside_cons, hphnum]
  constructor
  · exact fun h => h.1
  · intro h
    exact ⟨h, h, Span.inside_of_le (by show 32 + 8 ≤ n; omega) hn,
      Span.inside_of_le (by show 54 + 2 ≤ n; omega) hn, allInside_nil⟩

/-- The type of a program header. -/
theorem pType_inside (hn : n ≤ 2 ^ 16) (hoffset : offset < 2 ^ 64) :
    (pType offset).Inside n ↔ offset + 4 ≤ n :=
  Span.inside_iff (s := pType offset) hoffset hn (Nat.succ_ne_zero 3)

/-- The last field that is read decides for all. -/
theorem pMemsz_inside (hn : n ≤ 2 ^ 16) (htype : offset + 4 ≤ n) :
    (pMemsz offset).Inside n ↔ offset + 48 ≤ n :=
  Span.inside_iff (s := pMemsz offset) (by show offset + 40 < 2 ^ 64; omega) hn (Nat.succ_ne_zero 7)

/-- All fields of a program header. -/
def entryFields (offset : Nat) : List Span :=
  [pType offset, pFlags offset, pOffset offset, pVaddr offset, pFilesz offset, pMemsz offset]

/-- The fields of a program header. -/
theorem entryFields_inside (hn : n ≤ 2 ^ 16) (hle : offset + 48 ≤ n) :
    AllInside n (entryFields offset) := by
  unfold entryFields
  simp only [allInside_cons]
  refine ⟨?_, ?_, ?_, ?_, ?_, ?_, allInside_nil⟩
  · exact Span.inside_of_le (by show offset + 4 ≤ n; omega) hn
  · exact Span.inside_of_le (by show offset + 4 + 4 ≤ n; omega) hn
  · exact Span.inside_of_le (by show offset + 8 + 8 ≤ n; omega) hn
  · exact Span.inside_of_le (by show offset + 16 + 8 ≤ n; omega) hn
  · exact Span.inside_of_le (by show offset + 32 + 8 ≤ n; omega) hn
  · exact Span.inside_of_le (by show offset + 40 + 8 ≤ n; omega) hn

/-- The bytes of a segment. -/
theorem segment_inside (hn : n ≤ 2 ^ 16) (hoffset : ph.offset < 2 ^ 64) :
    Span.Inside n ⟨ph.offset, ph.filesz⟩ ↔ SegmentInside n ph := by
  unfold SegmentInside
  by_cases hzero : ph.filesz = 0
  · refine iff_of_true ?_ (.inl hzero)
    intro j hj
    rw [hzero] at hj
    exact absurd hj (Nat.not_lt_zero j)
  · rw [Span.inside_iff (s := ⟨ph.offset, ph.filesz⟩) hoffset hn hzero]
    exact ⟨.inr, fun h => h.resolve_left hzero⟩

/-- The part of a segment in one of its pages. -/
theorem segmentPage_inside (hn : n ≤ 2 ^ 16) (hinside : SegmentInside n ph) (i : Nat) :
    Span.Inside n ⟨wordAdd ph.offset (i * pageSize), bytesInPage ph.filesz (i * pageSize)⟩ := by
  intro j hj
  dsimp only at hj ⊢
  have hpage : bytesInPage ph.filesz (i * pageSize) ≤ ph.filesz - i * pageSize := by
    unfold bytesInPage
    split_ifs
    · omega
    · exact le_rfl
    · exact Nat.zero_le _
  rcases hinside with hzero | hle
  · omega
  · have hstart : wordAdd ph.offset (i * pageSize) = ph.offset + i * pageSize :=
      wordAdd_eq (by omega)
    rw [hstart, wordAdd_eq (by omega)]
    omega

-- ============================================================= the bounds

/-- The fields of a program header that a round has found. -/
theorem elfProgramHeader_offset_lt (h : elfProgramHeader base elf i = some ph) :
    ph.offset < 2 ^ 64 := by
  unfold elfProgramHeader at h
  dsimp only at h
  split_ifs at h
  cases h
  exact loadWord_lt ..

/-- A round of the first loop stays inside if and only if its program
header does. -/
theorem boundsRoundReads_inside (hn : n ≤ 2 ^ 16) :
    AllInside n (boundsRoundReads base elf i) ↔ 58 ≤ n ∧ EntryInside n base elf i := by
  unfold boundsRoundReads EntryInside
  rw [allInside_append, roundReads_inside hn]
  refine and_congr_right fun _ => ?_
  cases hentry : elfProgramHeader base elf i with
  | none =>
      apply iff_of_true allInside_nil
      intro ph hph
      cases hph
  | some ph =>
      dsimp only
      rw [allInside_cons, pType_inside hn (elfHeaderOffset_lt _ _)]
      constructor
      · rintro ⟨htype, hrest⟩ ph' hph'
        cases hph'
        refine ⟨htype, ?_⟩
        intro hload
        rw [if_pos hload] at hrest
        simp only [allInside_cons] at hrest
        exact (pMemsz_inside hn htype).mp hrest.2.1
      · intro hall
        obtain ⟨htype, hfields⟩ := hall ph rfl
        refine ⟨htype, ?_⟩
        by_cases hload : ph.type = ptLoad
        · rw [if_pos hload]
          have hinside := entryFields_inside hn (hfields hload)
          unfold entryFields at hinside
          simp only [allInside_cons] at hinside ⊢
          obtain ⟨-, -, hoffset, hvaddr, hfilesz, hmemsz, -⟩ := hinside
          exact ⟨hvaddr, hmemsz, hoffset, hfilesz, allInside_nil⟩
        · rw [if_neg hload]
          exact allInside_nil

/-- The first pass over the program headers. -/
theorem boundsReads_inside (hn : n ≤ 2 ^ 16) :
    AllInside n (boundsReads base elf)
      ↔ 58 ≤ n ∧ ∀ i < (elfHeader elf).phnum, EntryInside n base elf i := by
  have hphnum : AllInside n [ePhnum] ↔ 58 ≤ n := by
    rw [allInside_cons, Span.inside_iff (s := ePhnum) (by decide) hn (by decide)]
    exact and_iff_left allInside_nil
  unfold boundsReads
  rw [allInside_append, hphnum]
  constructor
  · rintro ⟨hrounds, hheader⟩
    refine ⟨hheader, ?_⟩
    intro i hi
    have hround : AllInside n (boundsRoundReads base elf i) := fun s hs =>
      hrounds s (List.mem_flatMap.mpr ⟨i, List.mem_range.mpr hi, hs⟩)
    exact ((boundsRoundReads_inside hn).mp hround).2
  · rintro ⟨hheader, hentries⟩
    refine ⟨?_, hheader⟩
    intro s hs
    obtain ⟨i, hi, hs⟩ := List.mem_flatMap.mp hs
    exact (boundsRoundReads_inside hn).mpr ⟨hheader, hentries i (List.mem_range.mp hi)⟩ s hs

-- ========================================================== the same image

/-- The bytes of the buffer are the same. -/
def SameImage (elf elf' : Nat → Byte) : Prop := ∀ j < execBufferSize, elf' j = elf j

theorem SameImage.refl (elf : Nat → Byte) : SameImage elf elf := fun _ _ => rfl

theorem SameImage.trans {elf'' : Nat → Byte} (h : SameImage elf elf') (h' : SameImage elf' elf'') :
    SameImage elf elf'' := fun j hj => (h' j hj).trans (h j hj)

/-- A field of eight bytes is the same. -/
theorem SameImage.word (h : SameImage elf elf') {a : Nat} (ha : a + 8 ≤ execBufferSize) :
    loadWord elf' a = loadWord elf a :=
  loadWord_congr fun x _ hx => h x (Nat.lt_of_lt_of_le hx ha)

/-- A field of four bytes is the same. -/
theorem SameImage.half (h : SameImage elf elf') {a : Nat} (ha : a + 4 ≤ execBufferSize) :
    loadWord elf' a % 2 ^ 32 = loadWord elf a % 2 ^ 32 := by
  unfold loadWord
  rw [h a (by omega), h (a + 1) (by omega), h (a + 2) (by omega), h (a + 3) (by omega)]
  omega

/-- The header is the same. -/
theorem SameImage.header (h : SameImage elf elf') : elfHeader elf' = elfHeader elf := by
  have hident : (List.range 6).map elf' = (List.range 6).map elf := by
    apply List.map_congr_left
    intro j hj
    have hj := List.mem_range.mp hj
    exact h j (by show j < 65536; omega)
  unfold elfHeader
  rw [hident, h.word (show 16 + 8 ≤ 65536 by decide), h.word (show 18 + 8 ≤ 65536 by decide),
    h.word (show 20 + 8 ≤ 65536 by decide), h.word (show 24 + 8 ≤ 65536 by decide),
    h.word (show 32 + 8 ≤ 65536 by decide), h.word (show 54 + 8 ≤ 65536 by decide),
    h.word (show 56 + 8 ≤ 65536 by decide)]

/-- A program header is the same as far as it is looked at. -/
theorem SameImage.entry (h : SameImage elf elf') (hn : n ≤ 2 ^ 16)
    (hinside : EntryInside n base elf i) :
    (elfProgramHeader base elf i = none ∧ elfProgramHeader base elf' i = none)
      ∨ ∃ ph ph', elfProgramHeader base elf i = some ph ∧ elfProgramHeader base elf' i = some ph'
        ∧ ph'.type = ph.type ∧ (ph.type = ptLoad → ph' = ph) := by
  unfold EntryInside at hinside
  unfold elfProgramHeader at hinside ⊢
  rw [h.header]
  dsimp only at hinside ⊢
  by_cases hindex : i ≥ (elfHeader elf).phnum
  · rw [if_pos hindex, if_pos hindex]
    exact .inl ⟨rfl, rfl⟩
  rw [if_neg hindex] at hinside ⊢
  rw [if_neg hindex]
  by_cases hnull : wordAdd base (elfHeaderOffset (elfHeader elf) i) = null
  · rw [if_pos hnull, if_pos hnull]
    exact .inl ⟨rfl, rfl⟩
  rw [if_neg hnull] at hinside ⊢
  rw [if_neg hnull]
  obtain ⟨htype, hfields⟩ := hinside _ rfl
  refine .inr ⟨_, _, rfl, rfl, h.half (by show _ ≤ 65536; omega), ?_⟩
  intro hload
  have hle := hfields hload
  rw [h.half (by show _ ≤ 65536; omega), h.half (by show _ ≤ 65536; omega),
    h.word (by show _ ≤ 65536; omega), h.word (by show _ ≤ 65536; omega),
    h.word (by show _ ≤ 65536; omega), h.word (by show _ ≤ 65536; omega)]

-- ================================================================ the copy

/-- A segment that is inside the block is copied inside the block, from
wherever it is. -/
theorem copySegmentAt_outside {size x : Nat} (hfits : SegmentFits ph) (hlow : lowest ≤ ph.vaddr)
    (hblock : ph.vaddr + ph.memsz - lowest ≤ size) (hend : block + size < 2 ^ 64)
    (hx : x < block ∨ block + size ≤ x) : copySegmentAt base block lowest ph m x = m x := by
  obtain ⟨hoffset, hdest, hrest⟩ := hfits.words hlow hblock hend
  obtain ⟨hfile, hspace⟩ := hfits
  unfold copySegmentAt
  rw [hoffset, hdest, hrest]
  split_ifs
  · rw [fill_outside (by omega), kMemcpy_outside (by omega)]
  · rw [kMemcpy_outside (by omega)]

section Copy

variable (hn : n ≤ 2 ^ 16) (hheader : 58 ≤ n)
  (htable : ∀ i < (elfHeader elf).phnum, EntryInside n base elf i)
  (hframe : ∀ ph ∈ loadSegments base elf, ∀ m,
    SameImage (elfAt base m) (elfAt base (copySegmentAt base block lowest ph m)))

include hn hheader htable hframe

/-- A round of the second loop leaves the image as it is; it stays inside
if and only if the segment does. -/
theorem copyRound_inside (hi : i < (elfHeader elf).phnum) (hsame : SameImage elf (elfAt base m)) :
    SameImage elf (elfAt base (copyRound base block lowest i m).2)
      ∧ (AllInside n (copyRound base block lowest i m).1
        ↔ ∀ ph, elfProgramHeader base elf i = some ph → ph.type = ptLoad →
          SegmentInside n ph) := by
  have hround := (roundReads_inside hn).mpr hheader
  have hinside := htable i hi
  unfold copyRound
  rw [hsame.header]
  dsimp only
  rcases hsame.entry hn hinside with ⟨hnone, hnone'⟩ | ⟨ph, ph', hentry, hentry', htype, hload⟩
  · rw [hnone']
    refine ⟨hsame, iff_of_true hround ?_⟩
    intro ph hph
    rw [hnone] at hph
    cases hph
  · rw [hentry']
    obtain ⟨hle, hfields⟩ := hinside ph hentry
    dsimp only
    by_cases hisload : ph.type = ptLoad
    · obtain rfl := hload hisload
      rw [if_pos hisload]
      refine ⟨hsame.trans (hframe ph' (mem_loadSegments.mpr ⟨i, hentry, hisload⟩) m), ?_⟩
      have hall := entryFields_inside hn (hfields hisload)
      unfold entryFields at hall
      simp only [allInside_cons] at hall
      obtain ⟨htype, hflags, hoffset, hvaddr, hfilesz, hmemsz, -⟩ := hall
      have hspan := segment_inside hn (elfProgramHeader_offset_lt hentry)
      simp only [allInside_append, allInside_cons, hspan]
      constructor
      · rintro ⟨-, -, -, -, -, hsegment, -⟩ ph hph -
        rw [hentry] at hph
        cases hph
        exact hsegment
      · intro hsegment
        exact ⟨hround, htype, hvaddr, hoffset, hfilesz, hsegment ph' hentry hisload, hmemsz,
          allInside_nil⟩
    · rw [if_neg (by rw [htype]; exact hisload)]
      refine ⟨hsame, iff_of_true ?_ ?_⟩
      · simp only [allInside_append, allInside_cons]
        exact ⟨hround, (pType_inside hn (elfHeaderOffset_lt _ _)).mpr hle, allInside_nil⟩
      · intro ph₁ hph₁ hisload₁
        rw [hentry] at hph₁
        cases hph₁
        exact absurd hisload₁ hisload

/-- So does the loop: the induction is on the rounds to go. -/
theorem copyLoop_inside (rounds i : Nat) (m : Mem) (hsame : SameImage elf (elfAt base m)) :
    SameImage elf (elfAt base (copyLoop base block lowest rounds i m).2)
      ∧ (AllInside n (copyLoop base block lowest rounds i m).1
        ↔ ∀ j, i ≤ j → j < i + rounds → ∀ ph, elfProgramHeader base elf j = some ph →
          ph.type = ptLoad → SegmentInside n ph) := by
  induction rounds generalizing i m with
  | zero =>
      refine ⟨hsame, iff_of_true allInside_nil ?_⟩
      intro j hlo hhi
      exact absurd hlo (by omega)
  | succ rounds ih =>
      rw [copyLoop, hsame.header]
      by_cases hi : i < (elfHeader elf).phnum
      · rw [if_pos hi]
        obtain ⟨hsame₁, hreads⟩ := copyRound_inside hn hheader htable hframe hi hsame
        obtain ⟨hsame₂, hrest⟩ := ih (i + 1) (copyRound base block lowest i m).2 hsame₁
        refine ⟨hsame₂, ?_⟩
        dsimp only
        rw [allInside_append, hreads, hrest]
        constructor
        · rintro ⟨hfirst, hlater⟩ j hlo hhi
          by_cases heq : j = i
          · rw [heq]
            exact hfirst
          · exact hlater j (by omega) (by omega)
        · intro hall
          exact ⟨hall i le_rfl (by omega), fun j hlo hhi => hall j (by omega) (by omega)⟩
      · rw [if_neg hi]
        refine ⟨hsame, iff_of_true ?_ ?_⟩
        · rw [allInside_cons]
          exact ⟨Span.inside_of_le hheader hn, allInside_nil⟩
        · intro j hlo hhi ph hph
          have hindex := elfProgramHeader_lt hph
          exact absurd hindex (by omega)

/-- The whole loop: all segments are read. -/
theorem copyLoop_segments (hsame : SameImage elf (elfAt base m)) :
    SameImage elf (elfAt base (copyLoop base block lowest phnumBound 0 m).2)
      ∧ (AllInside n (copyLoop base block lowest phnumBound 0 m).1
        ↔ ∀ ph ∈ loadSegments base elf, SegmentInside n ph) := by
  obtain ⟨hafter, hreads⟩ := copyLoop_inside hn hheader htable hframe phnumBound 0 m hsame
  refine ⟨hafter, hreads.trans ?_⟩
  constructor
  · intro hall ph hph
    obtain ⟨i, hentry, hload⟩ := mem_loadSegments.mp hph
    have hindex := elfProgramHeader_lt hentry
    have hbound : (elfHeader elf).phnum < 2 ^ 16 := Nat.mod_lt _ (by decide)
    exact hall i (Nat.zero_le i) (by show i < 0 + 2 ^ 16; omega) ph hentry hload
  · intro hall j _ _ ph hentry hload
    exact hall ph (mem_loadSegments.mpr ⟨j, hentry, hload⟩)

end Copy

-- ============================================================= the mapping

/-- `process_map_segment` reads fields and bytes of its segment. -/
theorem mapSegmentReads_inside (hn : n ≤ 2 ^ 16) (hfields : offset + 48 ≤ n)
    (hsegment : SegmentInside n ph) (pages : Nat) :
    AllInside n (mapSegmentReads offset ph pages) := by
  have hall := entryFields_inside hn hfields
  unfold entryFields at hall
  simp only [allInside_cons] at hall
  obtain ⟨-, hflags, hoffset, hvaddr, hfilesz, hmemsz, -⟩ := hall
  unfold mapSegmentReads
  rw [allInside_cons]
  refine ⟨hmemsz, ?_⟩
  intro s hs
  obtain ⟨i, -, hs⟩ := List.mem_flatMap.mp hs
  have hround : AllInside n (if i < pages then
      [pVaddr offset, pFlags offset, pFilesz offset, pOffset offset,
        ⟨wordAdd ph.offset (i * pageSize), bytesInPage ph.filesz (i * pageSize)⟩, pMemsz offset]
      else if i = pages then [pVaddr offset, pFlags offset] else []) := by
    split_ifs
    · simp only [allInside_cons]
      exact ⟨hvaddr, hflags, hfilesz, hoffset, segmentPage_inside hn hsegment i, hmemsz,
        allInside_nil⟩
    · simp only [allInside_cons]
      exact ⟨hvaddr, hflags, allInside_nil⟩
    · exact allInside_nil
  exact hround s hs

/-- The mapping of an image that is inside reads inside, however far it
gets. -/
theorem mapLoop_inside (hn : n ≤ 2 ^ 16) (hfits : ElfInside n base elf)
    (hsame : SameImage elf elf') (refusals : Nat → Nat → Refusal) (processes : Nat → Process)
    (process rounds i segment : Nat) (v : Vm) :
    AllInside n (mapLoop refusals processes process base elf' rounds i segment v).2.1 := by
  have hround := (roundReads_inside hn).mpr hfits.header
  induction rounds generalizing i segment v with
  | zero => exact allInside_nil
  | succ rounds ih =>
      rw [mapLoop, hsame.header]
      dsimp only
      by_cases hi : i < (elfHeader elf).phnum
      · rw [if_pos hi]
        have hinside := hfits.table i hi
        rcases hsame.entry hn hinside with ⟨-, hnone'⟩ | ⟨ph, ph', hentry, hentry', htype, hload⟩
        · rw [hnone']
          exact allInside_append.mpr ⟨hround, ih (i + 1) segment v⟩
        · rw [hentry']
          obtain ⟨hle, hfields⟩ := hinside ph hentry
          have hread := (pType_inside hn (elfHeaderOffset_lt _ _)).mpr hle
          dsimp only
          by_cases hisload : ph'.type = ptLoad
          · rw [if_pos hisload]
            have hisload' : ph.type = ptLoad := htype.symm.trans hisload
            obtain rfl := hload hisload'
            have hsegment := hfits.segments ph' (mem_loadSegments.mpr ⟨i, hentry, hisload⟩)
            cases hr : processMapSegment (refusals segment) processes process (some ph') base elf'
                v with
            | mk rc rest =>
                obtain ⟨pages, v'⟩ := rest
                have hmap := mapSegmentReads_inside hn (hfields hisload) hsegment pages
                dsimp only
                by_cases hrc : rc ≠ kernelSuccess
                · rw [if_pos hrc]
                  exact allInside_append.mpr ⟨hround, allInside_cons.mpr ⟨hread, hmap⟩⟩
                · rw [if_neg hrc]
                  refine allInside_append.mpr ⟨?_, ih (i + 1) (segment + 1) v'⟩
                  exact allInside_append.mpr ⟨hround, allInside_cons.mpr ⟨hread, hmap⟩⟩
          · rw [if_neg hisload]
            exact allInside_append.mpr
              ⟨hround, allInside_cons.mpr ⟨hread, ih (i + 1) segment v⟩⟩
      · rw [if_neg hi]
        exact allInside_cons.mpr ⟨Span.inside_of_le hfits.header hn, allInside_nil⟩

-- ================================================================ the loader

section Loader

variable {h h' h₁ : Heap} {ts : List Tile} {size : Nat} {refuse : Bool}

/-- There are segments, and no block for them. -/
def ImageBlockRefused (refuse : Bool) (base : Nat) (elf : Nat → Byte) (h : Heap) : Prop :=
  (imageBounds (loadSegments base elf)).1 ≠ 2 ^ 64 - 1
    ∧ (kmallocUnless refuse (imageSize base elf) h).map Prod.fst = some null

/-- What `elf_load_image` reads before it allocates the block. -/
def headReads (base : Nat) (elf : Nat → Byte) : List Span :=
  elfValidateReads elf ++ [eEntry] ++ boundsReads base elf

/-- What is read before any copy. -/
theorem headReads_inside (hn : n ≤ 2 ^ 16) :
    AllInside n (headReads base elf) ↔ AllInside n (elfValidateReads elf) ∧ 58 ≤ n
      ∧ ∀ i < (elfHeader elf).phnum, EntryInside n base elf i := by
  unfold headReads
  rw [allInside_append, allInside_append, boundsReads_inside hn, allInside_cons]
  constructor
  · rintro ⟨⟨hchecks, -⟩, hrest⟩
    exact ⟨hchecks, hrest⟩
  · rintro ⟨hchecks, hheader, htable⟩
    refine ⟨⟨hchecks, ?_, allInside_nil⟩, hheader, htable⟩
    exact Span.inside_of_le (by show 24 + 8 ≤ n; omega) hn

/-- The bytes of a payload of the size of the buffer. -/
theorem bufferByte (hi : HeapInv h ts) (hbuf : (base, size) ∈ payloads ts)
    (hsize : execBufferSize ≤ size) {j : Nat} (hj : j < execBufferSize) :
    wordAdd base j = base + j ∧ InUse ts (base + j) := by
  have hbounds := used_bounds hbuf
  have hend := hi.end_lt
  constructor
  · exact wordAdd_eq (by omega)
  · exact ⟨(base, size), hbuf, by dsimp only; omega, by dsimp only; omega⟩

/-- An allocation leaves the image as it is. -/
theorem kmalloc_sameImage (hi : HeapInv h ts) (hbuf : (base, size) ∈ payloads ts)
    (hsize : execBufferSize ≤ size) (hmem : ∀ x, InUse ts x → h₁.mem x = h.mem x) :
    SameImage (elfAt base h.mem) (elfAt base h₁.mem) := by
  intro j hj
  obtain ⟨hadd, huse⟩ := bufferByte hi hbuf hsize hj
  unfold elfAt
  rw [hadd]
  exact hmem _ huse

/-- A copy into another block leaves the image as it is. -/
theorem copySegmentAt_sameImage {room : Nat} (hi : HeapInv h ts)
    (hbuf : (base, size) ∈ payloads ts) (hsize : execBufferSize ≤ size)
    (hblock : (block, room) ∈ payloads ts) (hne : base ≠ block)
    (hfits : ∀ ph ∈ loadSegments base elf, SegmentFits ph)
    (hroom : alignSize (imageSize base elf) ≤ room) :
    ∀ ph ∈ loadSegments base elf, ∀ m, SameImage (elfAt base m) (elfAt base
      (copySegmentAt base block (imageBounds (loadSegments base elf)).1 ph m)) := by
  intro ph hph m j hj
  obtain ⟨hadd, -⟩ := bufferByte hi hbuf hsize hj
  obtain ⟨hfit, hlow, hinblock⟩ := imageSize_fits hfits hroom ph hph
  have hbounds := used_bounds hblock
  have hend := hi.end_lt
  unfold elfAt
  rw [hadd]
  apply copySegmentAt_outside hfit hlow hinblock (by omega)
  rcases used_apart hbuf hblock with heq | hbefore | hafter
  · exact absurd (congrArg Prod.fst heq) hne
  · exact .inl (by dsimp only at hbefore; omega)
  · exact .inr (by dsimp only at hafter; omega)

/-- What `elf_load_image` returns and reads: it turns the image down, or
has no block for it, or copies all segments; the copy leaves an image
whose segments fit as it is. -/
theorem elfLoadImageAt_spec (hi : HeapInv h ts) (hbuf : (base, size) ∈ payloads ts)
    (hsize : execBufferSize ≤ size) (hn : n ≤ 2 ^ 16) (refuse : Bool) :
    ∃ rc image reads h', elfLoadImageAt refuse base h = some (rc, image, reads, h')
      ∧ (elfValidate (elfHeader (elfAt base h.mem)) ≠ kernelSuccess ∧ rc = kernelEinval
          ∧ reads = elfValidateReads (elfAt base h.mem)
        ∨ elfValidate (elfHeader (elfAt base h.mem)) = kernelSuccess
          ∧ (ImageBlockRefused refuse base (elfAt base h.mem) h ∧ rc = kernelEnomem
              ∧ reads = headReads base (elfAt base h.mem)
            ∨ ¬ ImageBlockRefused refuse base (elfAt base h.mem) h ∧ rc = kernelSuccess
              ∧ ∃ copyReads, reads = headReads base (elfAt base h.mem) ++ copyReads
                ∧ (58 ≤ n → (∀ i < (elfHeader (elfAt base h.mem)).phnum,
                    EntryInside n base (elfAt base h.mem) i) →
                  (∀ ph ∈ loadSegments base (elfAt base h.mem), SegmentFits ph) →
                  SameImage (elfAt base h.mem) (elfAt base h'.mem)
                    ∧ (AllInside n copyReads ↔ ∀ ph ∈ loadSegments base (elfAt base h.mem),
                      SegmentInside n ph)))) := by
  have hbase : base ≠ null := by
    have hbounds := used_bounds hbuf
    have hstart := heapStart_pos
    show base ≠ 0
    omega
  unfold elfLoadImageAt
  dsimp only
  rw [if_neg hbase]
  by_cases hvalid : elfValidate (elfHeader (elfAt base h.mem)) ≠ kernelSuccess
  · rw [if_pos hvalid]
    exact ⟨_, _, _, _, rfl, .inl ⟨hvalid, rfl, rfl⟩⟩
  rw [if_neg hvalid]
  by_cases hnone : (imageBounds (loadSegments base (elfAt base h.mem))).1 = 2 ^ 64 - 1
  · rw [if_pos hnone]
    refine ⟨_, _, _, _, rfl, .inr ⟨not_not.mp hvalid, .inr ⟨fun hrefused => hrefused.1 hnone, rfl,
      _, rfl, ?_⟩⟩⟩
    intro hheader htable hfits
    have hnil := loadSegments_nil hfits hnone
    apply copyLoop_segments hn hheader htable ?_ (SameImage.refl _)
    intro ph hph
    rw [hnil] at hph
    exact absurd hph List.not_mem_nil
  rw [if_neg hnone]
  obtain ⟨block, h₁, ts₁, halloc, hi₁, hallocates, hmem⟩ :=
    kmallocUnless_spec hi refuse (imageSize base (elfAt base h.mem))
  have hsame := kmalloc_sameImage hi hbuf hsize hmem
  have hrefused : ImageBlockRefused refuse base (elfAt base h.mem) h ↔ block = null := by
    unfold ImageBlockRefused
    rw [halloc]
    exact ⟨fun hr => Option.some.inj hr.2, fun hnull => ⟨hnone, congrArg some hnull⟩⟩
  unfold imageSize at halloc
  rw [halloc]
  dsimp only [Option.bind_eq_bind, Option.bind_some]
  by_cases hnull : block = null
  · rw [if_pos hnull]
    exact ⟨_, _, _, _, rfl, .inr ⟨not_not.mp hvalid, .inl ⟨hrefused.mpr hnull, rfl, rfl⟩⟩⟩
  · rw [if_neg hnull]
    refine ⟨_, _, _, _, rfl, .inr ⟨not_not.mp hvalid, .inr
      ⟨fun hr => hnull (hrefused.mp hr), rfl, _, rfl, ?_⟩⟩⟩
    intro hheader htable hfits
    obtain ⟨room, hroom, hblock⟩ := hallocates.new hnull
    have hne : base ≠ block := by
      intro heq
      obtain ⟨-, hfresh⟩ := hi.live_of_new hi₁ hallocates hnull
      rw [hi.liveAllocations_eq, ← heq] at hfresh
      exact hfresh (List.mem_map.mpr ⟨(base, size), hbuf, rfl⟩)
    exact copyLoop_segments hn hheader htable
      (copySegmentAt_sameImage hi₁ (hallocates.mono hbuf) hsize hblock hne hfits hroom) hsame

/-- The loader stays inside a file of `length` bytes, of which `n` are in
the buffer: what `elf_validate` compares up to the first difference is
inside; and if there is none, so are the header and the program headers;
and if the block for the image is not refused, the file is no longer than
the buffer, the segments are inside, and each fits in memory what it has
in the file and leaves the kernel's pages alone. -/
def ReadsStay (n length : Nat) (refuse : Bool) (base : Nat) (elf : Nat → Byte) (h : Heap) :
    Prop :=
  AllInside n (elfValidateReads elf)
    ∧ (elfValidate (elfHeader elf) = kernelSuccess →
      58 ≤ n ∧ (∀ i < (elfHeader elf).phnum, EntryInside n base elf i)
        ∧ (ImageBlockRefused refuse base elf h
          ∨ length ≤ execBufferSize
            ∧ ∀ ph ∈ loadSegments base elf, UserSegment ph ∧ SegmentInside n ph))

/-- What is read is inside, and what is not inside, or longer than the
buffer, is not run. -/
def LoadsSafely (n length base : Nat) (elf : Nat → Byte) (rc : Int) (reads : List Span) : Prop :=
  AllInside n reads
    ∧ (¬ (length ≤ execBufferSize ∧ ElfInside n base elf) → rc ≠ kernelSuccess)

section Exec

variable {k : Kernel} {failures : ExecFailures} {process : Nat} {image : ElfImage} {heap : Heap}
  {status rc : Int} {loadReads mapReads : List Span} {v : Vm}

/-- `process_exec` ends where `elf_load_image` fails. -/
theorem processExecAt_turnedDown (hprocess : process ≠ null) (hbase : base ≠ null)
    (hload : elfLoadImageAt failures.image base k.heap = some (status, image, loadReads, heap))
    (hstatus : status ≠ kernelSuccess) :
    processExecAt failures process base k = some (status, loadReads, { k with heap := heap }) := by
  unfold processExecAt
  rw [if_neg (not_or.mpr ⟨hprocess, hbase⟩), hload, Option.bind_eq_bind, Option.bind_some]
  exact if_pos hstatus

/-- Behind a loaded image `process_exec` reads what the mapping reads. -/
theorem processExecAt_loaded (hprocess : process ≠ null) (hbase : base ≠ null)
    (hload : elfLoadImageAt failures.image base k.heap
      = some (kernelSuccess, image, loadReads, heap))
    (hmap : mapLoop failures.pages k.sched.processes process base (elfAt base heap.mem)
      phnumBound 0 0 heap.vm = (rc, mapReads, v)) :
    ∃ rc' k', processExecAt failures process base k = some (rc', loadReads ++ mapReads, k') := by
  unfold processExecAt
  rw [if_neg (not_or.mpr ⟨hprocess, hbase⟩), hload, Option.bind_eq_bind, Option.bind_some]
  dsimp only
  rw [if_neg (not_not.mpr rfl), hmap]
  dsimp only
  split_ifs
  · exact ⟨_, _, rfl⟩
  · exact ⟨_, _, rfl⟩

end Exec

/-- `process_exec` of an image in the heap loads it safely if it stays
inside, and of images whose segments fit below the kernel only then. -/
theorem processExecAt_safe_iff {k : Kernel} (hi : HeapInv k.heap ts)
    (hbuf : (base, size) ∈ payloads ts) (hsize : execBufferSize ≤ size) (hn : n ≤ 2 ^ 16)
    (failures : ExecFailures) {process : Nat} (hprocess : process ≠ null) (length : Nat) :
    ∃ rc reads k', processExecAt failures process base k = some (rc, reads, k')
      ∧ (ReadsStay n length failures.image base (elfAt base k.heap.mem) k.heap →
        LoadsSafely n length base (elfAt base k.heap.mem) rc reads)
      ∧ (length ≤ execBufferSize →
        (∀ ph ∈ loadSegments base (elfAt base k.heap.mem), UserSegment ph) →
        LoadsSafely n length base (elfAt base k.heap.mem) rc reads →
        ReadsStay n length failures.image base (elfAt base k.heap.mem) k.heap) := by
  have hbase : base ≠ null := by
    have hbounds := used_bounds hbuf
    have hstart := heapStart_pos
    show base ≠ 0
    omega
  obtain ⟨status, image, loadReads, heap, hload, hcases⟩ :=
    elfLoadImageAt_spec hi hbuf hsize hn failures.image
  rcases hcases with ⟨hinvalid, hstatus, hreads⟩ | ⟨hvalid, ⟨hrefused, hstatus, hreads⟩ |
    ⟨hallowed, hstatus, copyReads, hreads, hcopy⟩⟩
  · rw [hstatus, hreads] at hload
    refine ⟨_, _, _, processExecAt_turnedDown hprocess hbase hload einval_ne, ?_, ?_⟩
    · intro hstay
      exact ⟨hstay.1, fun _ => einval_ne⟩
    · intro _ _ hsafe
      exact ⟨hsafe.1, fun hvalid => absurd hvalid hinvalid⟩
  · rw [hstatus, hreads] at hload
    refine ⟨_, _, _, processExecAt_turnedDown hprocess hbase hload enomem_ne, ?_, ?_⟩
    · rintro ⟨hchecks, hstay⟩
      obtain ⟨hheader, htable, -⟩ := hstay hvalid
      exact ⟨(headReads_inside hn).mpr ⟨hchecks, hheader, htable⟩, fun _ => enomem_ne⟩
    · intro _ _ hsafe
      obtain ⟨hchecks, hheader, htable⟩ := (headReads_inside hn).mp hsafe.1
      exact ⟨hchecks, fun _ => ⟨hheader, htable, .inl hrefused⟩⟩
  · rw [hstatus] at hload
    cases hr : mapLoop failures.pages k.sched.processes process base (elfAt base heap.mem)
        phnumBound 0 0 heap.vm with
    | mk rc rest =>
        obtain ⟨mapReads, v⟩ := rest
        obtain ⟨rc', k', hrun⟩ := processExecAt_loaded hprocess hbase hload hr
        rw [hreads] at hrun
        refine ⟨rc', _, k', hrun, ?_, ?_⟩
        · rintro ⟨hchecks, hstay⟩
          obtain ⟨hheader, htable, hcase⟩ := hstay hvalid
          obtain ⟨hlength, hsegments⟩ := hcase.resolve_left hallowed
          have hinside : ElfInside n base (elfAt base k.heap.mem) :=
            ⟨hheader, htable, fun ph hph => (hsegments ph hph).2⟩
          obtain ⟨hsame, hcopied⟩ := hcopy hheader htable fun ph hph => (hsegments ph hph).1.fits
          have hmapped := mapLoop_inside hn hinside hsame failures.pages k.sched.processes process
            phnumBound 0 0 heap.vm
          rw [hr] at hmapped
          refine ⟨?_, fun hnot => absurd ⟨hlength, hinside⟩ hnot⟩
          rw [allInside_append, allInside_append]
          exact ⟨⟨(headReads_inside hn).mpr ⟨hchecks, hheader, htable⟩,
            hcopied.mpr hinside.segments⟩, hmapped⟩
        · intro hlength hfits hsafe
          have hall := hsafe.1
          rw [allInside_append, allInside_append, headReads_inside hn] at hall
          obtain ⟨⟨⟨hchecks, hheader, htable⟩, hcopied⟩, -⟩ := hall
          have hsegments := (hcopy hheader htable fun ph hph => (hfits ph hph).fits).2.mp hcopied
          exact ⟨hchecks, fun _ => ⟨hheader, htable, .inr ⟨hlength, fun ph hph =>
            ⟨hfits ph hph, hsegments ph hph⟩⟩⟩⟩

end Loader

-- ================================================================== the file

section File

variable {v v' : Vfs} {ts : List Tile}

/-- The length of an open file. -/
def fileLength (v : Vfs) (file : Nat) : Nat :=
  (v.nodes (v.nodes (v.files file).node).vnode.privateData).vnode.size

/-- `vfs_open` keeps the heap's invariant. -/
theorem vfsOpen_heap (hi : HeapInv v.heap ts) (path : Option (List Byte)) (refuse : Bool) :
    ∃ rc file v' ts', vfsOpen path refuse v = some (rc, file, v') ∧ HeapInv v'.heap ts' := by
  obtain ⟨rc, node, hlook, -⟩ := Fs.vfsLookup_total v path
  unfold vfsOpen
  rw [hlook, Option.bind_eq_bind, Option.bind_some]
  cases node with
  | none => exact ⟨rc, none, v, ts, rfl, hi⟩
  | some node =>
      dsimp only
      by_cases hrc : rc ≠ kernelSuccess
      · rw [if_pos hrc]
        exact ⟨rc, none, v, ts, rfl, hi⟩
      rw [if_neg hrc]
      unfold Fs.fileOpen
      by_cases hnode : node = null
      · rw [if_pos hnode]
        exact ⟨kernelEinval, none, v, ts, rfl, hi⟩
      rw [if_neg hnode]
      obtain ⟨file, h', ts', halloc, hi', -⟩ := kmallocUnless_spec hi refuse Fs.fileBytes
      rw [halloc, Option.bind_eq_bind, Option.bind_some]
      dsimp only
      by_cases hfile : file = null
      · rw [if_pos hfile]
        exact ⟨kernelEnomem, none, _, ts', rfl, hi'⟩
      · rw [if_neg hfile]
        exact ⟨kernelSuccess, some file, _, ts', rfl, hi'⟩

/-- A read leaves the heap as it is, and delivers no more than asked for. -/
theorem vfsRead_bounds (file buffer size : Nat) (v : Vfs) :
    (vfsRead file buffer size v).2.2.heap = v.heap
      ∧ (vfsRead file buffer size v).2.1.length ≤ size := by
  unfold vfsRead
  split_ifs
  · exact ⟨rfl, Nat.zero_le _⟩
  · exact ⟨rfl, Nat.zero_le _⟩
  · cases (v.nodes (v.files file).node).vnode.ops with
    | none => exact ⟨rfl, Nat.zero_le _⟩
    | some ops =>
        cases ops with
        | ramfsVnodeOps =>
            unfold Fs.ramfsRead
            dsimp only
            split_ifs
            · exact ⟨rfl, Nat.zero_le _⟩
            · exact ⟨rfl, Nat.zero_le _⟩
            · exact ⟨rfl, Nat.zero_le _⟩
            · exact ⟨rfl, Nat.zero_le _⟩
            · rw [List.length_map, List.length_range]
              exact ⟨rfl, by omega⟩
            · rw [List.length_map, List.length_range]
              exact ⟨rfl, le_rfl⟩

/-- Before `process_exec` a call either fails or has a block of the size
of the buffer, and no more of the file than fits there. -/
theorem execFileRead_spec (hi : HeapInv v.heap ts) (failures : ExecFileFailures)
    (path : List Byte) :
    ∃ stage v', execFileRead failures path v = some (stage, v')
      ∧ ((∃ status, stage = .error status ∧ status ≠ kernelSuccess)
        ∨ ∃ b ts' size, stage = .ok b ∧ HeapInv v'.heap ts' ∧ (b.buffer, size) ∈ payloads ts'
          ∧ execBufferSize ≤ size ∧ b.delivered ≤ 2 ^ 16) := by
  obtain ⟨status, file, v₁, ts₁, hopen, hi₁⟩ := vfsOpen_heap hi (some path) failures.file
  unfold execFileRead
  rw [hopen, Option.bind_eq_bind, Option.bind_some]
  dsimp only
  by_cases hstatus : status ≠ kernelSuccess
  · rw [if_pos hstatus]
    exact ⟨_, _, rfl, .inl ⟨status, rfl, hstatus⟩⟩
  rw [if_neg hstatus]
  obtain ⟨buffer, h₂, ts₂, halloc, hi₂, hallocates, -⟩ :=
    kmallocUnless_spec hi₁ failures.buffer execBufferSize
  rw [halloc, Option.bind_eq_bind, Option.bind_some]
  dsimp only
  by_cases hbuffer : buffer = null
  · rw [if_pos hbuffer]
    exact ⟨_, _, rfl, .inl ⟨_, rfl, enomem_ne⟩⟩
  rw [if_neg hbuffer]
  obtain ⟨size, hsize, hmem⟩ := hallocates.new hbuffer
  have hroom : execBufferSize ≤ size := (le_alignSize (by decide)).trans hsize
  have hzeroed : HeapInv { h₂ with mem := fill h₂.mem buffer 0#8 execBufferSize } ts₂ := by
    apply hi₂.storeBlock hmem
    intro x hx
    exact fill_outside (by omega)
  have hread := vfsRead_bounds (file.getD null) buffer execBufferSize
    { v₁ with heap := { h₂ with mem := fill h₂.mem buffer 0#8 execBufferSize } }
  cases hr : vfsRead (file.getD null) buffer execBufferSize
      { v₁ with heap := { h₂ with mem := fill h₂.mem buffer 0#8 execBufferSize } } with
  | mk bytes rest =>
      obtain ⟨content, v₃⟩ := rest
      rw [hr] at hread
      obtain ⟨hheap, hlength⟩ := hread
      dsimp only at hheap hlength
      dsimp only
      by_cases hbytes : bytes < 0
      · rw [if_pos hbytes]
        refine ⟨_, _, rfl, .inl ⟨bytes, rfl, ?_⟩⟩
        intro hzero
        rw [hzero] at hbytes
        exact absurd hbytes (by decide)
      · rw [if_neg hbytes]
        refine ⟨_, _, rfl, .inr ⟨⟨file.getD null, buffer, content.length⟩, ts₂, size, rfl, ?_, hmem,
          hroom, hlength⟩⟩
        dsimp only
        rw [hheap]
        apply hzeroed.storeBlock hmem
        intro x hx
        exact blit_outside (by omega)

variable {k : Kernel} {failures : ExecFileFailures} {process delivered : Nat}
  {path : Option (List Byte)} {rc : Int} {reads : List Span}

/-- The buffer `process_exec` gets, with the state it gets it in. -/
def Delivers (failures : ExecFileFailures) (process : Nat) (path : Option (List Byte))
    (k : Kernel) (v : Vfs) (b : ExecBuffer) (v' : Vfs) : Prop :=
  process ≠ null ∧ ∃ p, path = some p
    ∧ execFileRead failures p { v with heap := k.heap } = some (.ok b, v')

/-- The file's image stays inside what was delivered of it, if it gets as
far as that. -/
def FileReadsStay (failures : ExecFileFailures) (process : Nat) (path : Option (List Byte))
    (k : Kernel) (v : Vfs) : Prop :=
  ∀ b v', Delivers failures process path k v b v' →
    ReadsStay b.delivered (fileLength v' b.file) failures.exec.image b.buffer
      (elfAt b.buffer v'.heap.mem) v'.heap

/-- There is a file no longer than the buffer, with an image inside it. -/
def FileFits (failures : ExecFileFailures) (process : Nat) (path : Option (List Byte))
    (k : Kernel) (v : Vfs) : Prop :=
  ∃ b v', Delivers failures process path k v b v'
    ∧ fileLength v' b.file ≤ execBufferSize
    ∧ ElfInside b.delivered b.buffer (elfAt b.buffer v'.heap.mem)

/-- Only delivered bytes are read, and a file that does not fit is
rejected. -/
def FileLoadsSafely (failures : ExecFileFailures) (process : Nat) (path : Option (List Byte))
    (k : Kernel) (v : Vfs) (rc : Int) (delivered : Nat) (reads : List Span) : Prop :=
  AllInside delivered reads ∧ (¬ FileFits failures process path k v → rc ≠ kernelSuccess)

/-- `process_exec_file` reads only delivered bytes and rejects what does
not fit if the image stays inside, and of files that fit the buffer, with
segments that fit in memory below the kernel, only then. -/
theorem process_exec_file_safe_iff (hi : HeapInv k.heap ts) (failures : ExecFileFailures)
    (process : Nat) (path : Option (List Byte)) (v : Vfs) :
    ∃ rc delivered reads k' v', processExecFile failures process path k v
        = some (rc, delivered, reads, k', v')
      ∧ (FileReadsStay failures process path k v →
        FileLoadsSafely failures process path k v rc delivered reads)
      ∧ ((∀ b v', Delivers failures process path k v b v' →
          fileLength v' b.file ≤ execBufferSize
            ∧ ∀ ph ∈ loadSegments b.buffer (elfAt b.buffer v'.heap.mem), UserSegment ph) →
        FileLoadsSafely failures process path k v rc delivered reads →
        FileReadsStay failures process path k v) := by
  have hstopped : ∀ rc, rc ≠ kernelSuccess →
      FileLoadsSafely failures process path k v rc 0 [] :=
    fun _ hrc => ⟨allInside_nil, fun _ => hrc⟩
  unfold processExecFile
  cases path with
  | none =>
      refine ⟨_, _, _, _, _, rfl, fun _ => hstopped _ einval_ne, ?_⟩
      rintro - - b v' ⟨-, p, hp, -⟩
      cases hp
  | some path =>
      dsimp only
      by_cases hprocess : process = null
      · rw [if_pos hprocess]
        refine ⟨_, _, _, _, _, rfl, fun _ => hstopped _ einval_ne, ?_⟩
        rintro - - b v' ⟨hne, -⟩
        exact absurd hprocess hne
      rw [if_neg hprocess]
      obtain ⟨stage, v₁, hread, hcases⟩ :=
        execFileRead_spec (v := { v with heap := k.heap }) hi failures path
      rw [hread, Option.bind_eq_bind, Option.bind_some]
      rcases hcases with ⟨status, rfl, hstatus⟩ | ⟨b, ts', size, rfl, hi', hbuf, hsize, hn⟩
      · refine ⟨_, _, _, _, _, rfl, fun _ => hstopped _ hstatus, ?_⟩
        rintro - - b v' ⟨-, p, hp, hok⟩
        cases hp
        rw [hread] at hok
        cases hok
      · have hdelivers : ∀ b' v', Delivers failures process (some path) k v b' v' ↔
            b' = b ∧ v' = v₁ := by
          intro b' v'
          unfold Delivers
          constructor
          · rintro ⟨-, p, hp, hok⟩
            cases hp
            rw [hread] at hok
            cases hok
            exact ⟨rfl, rfl⟩
          · rintro ⟨rfl, rfl⟩
            exact ⟨hprocess, path, rfl, hread⟩
        have hstay : FileReadsStay failures process (some path) k v
            ↔ ReadsStay b.delivered (fileLength v₁ b.file) failures.exec.image b.buffer
              (elfAt b.buffer v₁.heap.mem) v₁.heap := by
          unfold FileReadsStay
          simp only [hdelivers]
          exact ⟨fun h => h b v₁ ⟨rfl, rfl⟩, fun h b' v' hb => by rw [hb.1, hb.2]; exact h⟩
        have hfits : FileFits failures process (some path) k v
            ↔ fileLength v₁ b.file ≤ execBufferSize
              ∧ ElfInside b.delivered b.buffer (elfAt b.buffer v₁.heap.mem) := by
          unfold FileFits
          simp only [hdelivers]
          constructor
          · rintro ⟨b', v', ⟨rfl, rfl⟩, hfits⟩
            exact hfits
          · exact fun hfits => ⟨b, v₁, ⟨rfl, rfl⟩, hfits⟩
        obtain ⟨rc, reads, k', hexec, hsafe, honly⟩ := processExecAt_safe_iff
          (k := { k with heap := v₁.heap }) hi' hbuf hsize hn
          failures.exec hprocess (fileLength v₁ b.file)
        obtain ⟨file, buffer, delivered⟩ := b
        dsimp only at hexec ⊢
        rw [hexec, Option.bind_eq_bind, Option.bind_some]
        refine ⟨_, _, _, _, _, rfl, ?_, ?_⟩
        · intro hin
          obtain ⟨hreads, hrejects⟩ := hsafe (hstay.mp hin)
          exact ⟨hreads, fun hnot => hrejects fun hfit => hnot (hfits.mpr hfit)⟩
        · intro hassumed hin
          obtain ⟨hlength, hsegments⟩ := hassumed _ v₁ ((hdelivers _ _).mpr ⟨rfl, rfl⟩)
          exact hstay.mpr (honly hlength hsegments
            ⟨hin.1, fun hnot => hin.2 fun hfit => hnot (hfits.mp hfit)⟩)

end File

-- ================================================================== one run

instance Span.decidableInside (n : Nat) (s : Span) : Decidable (s.Inside n) :=
  inferInstanceAs (Decidable (∀ _ < _, _))

instance decidableAllInside (n : Nat) (reads : List Span) : Decidable (AllInside n reads) :=
  inferInstanceAs (Decidable (∀ _ ∈ _, _))

instance decidableEntryInside (n base : Nat) (elf : Nat → Byte) (i : Nat) :
    Decidable (EntryInside n base elf i) :=
  decidable_of_iff (∀ ph ∈ elfProgramHeader base elf i,
    elfHeaderOffset (elfHeader elf) i + 4 ≤ n
      ∧ (ph.type = ptLoad → elfHeaderOffset (elfHeader elf) i + 48 ≤ n)) Iff.rfl

instance decidableSegmentInside (n : Nat) (ph : ElfProgramHeader) :
    Decidable (SegmentInside n ph) :=
  inferInstanceAs (Decidable (_ ∨ _))

instance decidableImageBlockRefused (refuse : Bool) (base : Nat) (elf : Nat → Byte) (h : Heap) :
    Decidable (ImageBlockRefused refuse base elf h) :=
  inferInstanceAs (Decidable (_ ∧ _))

instance decidableReadsStay (n length : Nat) (refuse : Bool) (base : Nat) (elf : Nat → Byte)
    (h : Heap) : Decidable (ReadsStay n length refuse base elf h) :=
  inferInstanceAs (Decidable (_ ∧ (_ → _)))

/-- A heap of 32 pages. -/
def programHeap : Heap :=
  { processBootHeap with
    mem := heapCreateBlock heapStartAddress 0x20000 fun _ => 0#8
    head := heapStartAddress
    size := 0x20000
    virtualStart := heapStartAddress
    committedEnd := heapStartAddress + 0x20000
    heapVma := some 0 }

/-- The heap of the examples. -/
theorem programHeap_inv : HeapInv programHeap [⟨131040, true⟩] := by
  have hpmm : PmmInv processBootHeap.vm.pmm :=
    pmmInit_inv (Prod.ext (by decide +kernel) rfl)
  have hroom : ∀ free, free ≤ 131072 * 8 → 131072 + 4096 * free ≤ 2 ^ 33 := by
    intro free hfree
    omega
  refine ⟨rfl, rfl, ⟨?_, trivial⟩, by simp, ?_, rfl, rfl, hpmm, ?_⟩
  · exact blockAt_new _ heapStartAddress true (by decide) (by decide) (by decide)
  · intro t ht
    rw [List.mem_singleton.mp ht]
    exact (by decide : 16 ∣ 131040)
  · rw [show span 32 [(⟨131040, true⟩ : Tile)] = 131072 by simp only [span]]
    exact hroom _ hpmm.freePages_le

/-- The root file system on that heap. -/
def programVfs : Vfs :=
  ((Fs.fsBoot programHeap 0x5000 false (Fs.emptyVfs programHeap)).getD
    (kernelSuccess, Fs.emptyVfs programHeap)).2

/-- The file system of the examples. -/
theorem programVfs_boot : Fs.fsBoot programHeap 0x5000 false (Fs.emptyVfs programHeap)
    = some (kernelSuccess, programVfs) := by
  have hrc : (Fs.fsBoot programHeap 0x5000 false (Fs.emptyVfs programHeap)).map Prod.fst
      = some kernelSuccess := by decide +kernel
  obtain ⟨⟨rc, v⟩, hboot, rfl⟩ := Option.map_eq_some_iff.mp hrc
  unfold programVfs
  rw [hboot]
  rfl

/-- The file `/p` of 120 bytes: the header, a program header, and what the
segment has at `offset`. -/
def programOps (offset : Nat) : List Fs.FsOp :=
  [.create Fs.ramfsRoot (some [0x70#8]) false, .openFile (some [Fs.slash, 0x70#8]) false,
    .write 0xFFFF900000000320 (some (storeWord (oneSegment 0x400000) 72 offset)) 120 false]

/-- A process is made next to that file. -/
def programBoot (offset : Nat) : Option (Nat × Kernel × Vfs) := do
  let y ← runOps Fs.fsStep (Fs.fsSysInit programVfs) (programOps offset)
  let (process, _, k) ← processCreate {} [0x70#8] 0x100 { processBoot with heap := y.vfs.heap }
  some (process, k, y.vfs)

/-- The kernel with the program's file. -/
theorem programBoot_heap {offset process : Nat} {k : Kernel} {v : Vfs}
    (hops : AllowedRun Fs.fsStep (fun y op => op.Allowed y) (Fs.fsSysInit programVfs)
      (programOps offset))
    (hboot : programBoot offset = some (process, k, v)) : ∃ ts, HeapInv k.heap ts := by
  obtain ⟨y, hrun, ts, hi⟩ := run_total (P := fun y => ∃ ts, Fs.FsInv y ts)
    (fun y op hi hop => by
      obtain ⟨ts, hi⟩ := hi
      exact hi.step hop)
    (Fs.fsBoot_inv programHeap_inv programVfs_boot) hops
  unfold programBoot at hboot
  rw [hrun, Option.bind_eq_bind, Option.bind_some] at hboot
  obtain ⟨⟨process', frames, k'⟩, hcreate, hboot⟩ := Option.bind_eq_some_iff.mp hboot
  cases hboot
  have hblocks : HasBlocks ({ processBoot with heap := y.vfs.heap } : Kernel).heap [] :=
    ⟨ts, hi.heap, fun _ hp => absurd hp List.not_mem_nil⟩
  rcases processCreate_creates hblocks hcreate with ⟨-, ⟨ts, hi, -⟩, -⟩ | ⟨-, ⟨ts, hi, -⟩, -⟩
  · exact ⟨ts, hi⟩
  · exact ⟨ts, hi⟩

/-- The segment is inside the file. -/
theorem process_exec_file_safe_inside :
    ∃ process k v, programBoot 0 = some (process, k, v)
      ∧ ∃ rc delivered reads k' v', processExecFile {} process (some [Fs.slash, 0x70#8]) k v
          = some (rc, delivered, reads, k', v')
        ∧ FileLoadsSafely {} process (some [Fs.slash, 0x70#8]) k v rc delivered reads := by
  have hops : AllowedRun Fs.fsStep (fun y op => op.Allowed y) (Fs.fsSysInit programVfs)
      (programOps 0) := by
    decide +kernel
  have hvalues : ((programBoot 0).bind fun s =>
      (execFileRead {} [Fs.slash, 0x70#8] { s.2.2 with heap := s.2.1.heap }).map fun r =>
        r.1.toOption.map fun b => decide (ReadsStay b.delivered (fileLength r.2 b.file) false
          b.buffer (elfAt b.buffer r.2.heap.mem) r.2.heap)) = some (some true) := by
    decide +kernel
  obtain ⟨⟨process, k, v⟩, hboot, hvalues⟩ := Option.bind_eq_some_iff.mp hvalues
  obtain ⟨⟨stage, v₁⟩, hread, hvalues⟩ := Option.map_eq_some_iff.mp hvalues
  obtain ⟨b, hstage, hstay⟩ := Option.map_eq_some_iff.mp hvalues
  obtain ⟨ts, hi⟩ := programBoot_heap hops hboot
  have hfile : FileReadsStay {} process (some [Fs.slash, 0x70#8]) k v := by
    rintro b' v' ⟨-, p, hp, hok⟩
    cases hp
    dsimp only at hread
    rw [hread] at hok
    cases hok
    cases hstage
    exact of_decide_eq_true hstay
  obtain ⟨rc, delivered, reads, k', v', hrun, hsafe, -⟩ := process_exec_file_safe_iff hi {} process
    (some [Fs.slash, 0x70#8]) v
  exact ⟨process, k, v, hboot, rc, delivered, reads, k', v', hrun, hsafe hfile⟩

/-- The segment is far behind the end of the file: it is read there, and
the program is run. -/
theorem process_exec_file_reads_outside :
    ∃ process k v reads k' v', programBoot 0x8000 = some (process, k, v)
      ∧ processExecFile {} process (some [Fs.slash, 0x70#8]) k v
        = some (kernelSuccess, 120, reads, k', v')
      ∧ ⟨0x8000, 8⟩ ∈ reads
      ∧ ¬ FileLoadsSafely {} process (some [Fs.slash, 0x70#8]) k v kernelSuccess 120 reads := by
  have hvalues : ((programBoot 0x8000).bind fun s =>
      (processExecFile {} s.1 (some [Fs.slash, 0x70#8]) s.2.1 s.2.2).map fun r =>
        (r.1, r.2.1, decide (⟨0x8000, 8⟩ ∈ r.2.2.1))) = some (kernelSuccess, 120, true) := by
    decide +kernel
  obtain ⟨⟨process, k, v⟩, hboot, hvalues⟩ := Option.bind_eq_some_iff.mp hvalues
  obtain ⟨⟨rc, delivered, reads, k', v'⟩, hrun, hvalues⟩ := Option.map_eq_some_iff.mp hvalues
  injection hvalues with hrc hvalues
  injection hvalues with hdelivered hmem
  dsimp only at hrc hdelivered hmem hrun
  rw [hrc, hdelivered] at hrun
  have hread : ⟨0x8000, 8⟩ ∈ reads := of_decide_eq_true hmem
  refine ⟨process, k, v, reads, k', v', hboot, hrun, hread, ?_⟩
  intro hsafe
  have hfirst := hsafe.1 _ hread 0 (by decide)
  rw [wordAdd_eq (by decide)] at hfirst
  dsimp only at hfirst
  omega

end ZenithOS.Proc
