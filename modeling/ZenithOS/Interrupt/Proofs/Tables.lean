/-
The processor reads in its tables what the kernel has written there.

One lemma reads back each kind of descriptor (`idtSetGate_gate`,
`gdtSetEntry_segment`, `gdtSetTssDescriptor_segment`), with the other
descriptors untouched; from these, every interrupt that is delivered
through the tables is delivered through the gate and to the stack that
`Interrupt.Isr` takes for granted (`tables_deliver`).
-/
import ZenithOS.Interrupt.Tables

namespace ZenithOS.Interrupt

open Lib Lib.X86 Scheduler

variable {m m' : Mem} {idt gdt vector handler selector typeAttributes : Nat}

-- ================================================================= masks

/-- Some bits of a number, as the code has them. -/
theorem shift_mask {x mask : Nat} (i n : Nat) (hmask : mask = 2 ^ n - 1) :
    (x >>> i) &&& mask = bitField x i n := by
  rw [hmask, Nat.and_two_pow_sub_one_eq_mod, Nat.shiftRight_eq_div_pow, bitField]

/-- A mask of the low bits. -/
theorem mask_low {x mask : Nat} (n : Nat) (hmask : mask = 2 ^ n - 1) :
    x &&& mask = bitField x 0 n := by
  rw [← shift_mask 0 n hmask, Nat.shiftRight_zero]

/-- A mask of upper bits. -/
theorem and_mask_shift (x mask i : Nat) : x &&& (mask <<< i) = ((x >>> i) &&& mask) <<< i := by
  apply Nat.eq_of_testBit_eq
  intro j
  rw [Nat.testBit_and, Nat.testBit_shiftLeft, Nat.testBit_shiftLeft, Nat.testBit_and,
    Nat.testBit_shiftRight]
  by_cases hj : i ≤ j
  · simp [hj]
  · simp [hj]

/-- A field above another one. -/
theorem or_above {x y : Nat} (n : Nat) (hx : x < 2 ^ n) : x ||| (y <<< n) = x + 2 ^ n * y := by
  rw [Nat.or_comm, Nat.shiftLeft_eq, Nat.mul_comm y, ← Nat.two_pow_add_eq_or_of_lt hx, Nat.add_comm]

-- ================================================================= gates

/-- The fields of the first word of a gate. -/
theorem gate_word (m : Mem) (a : Nat) : loadField m a 8
    = loadField m a 2 + 2 ^ 16 * loadField m (a + 2) 2 + 2 ^ 32 * loadField m (a + 4) 1
      + 2 ^ 40 * loadField m (a + 5) 1 + 2 ^ 48 * loadField m (a + 6) 2 := by
  have h : loadField m a 8 = _ := loadField_add m a 2 6
  have h₂ : loadField m (a + 2) 6 = _ := loadField_add m (a + 2) 2 4
  have h₄ : loadField m (a + 4) 4 = _ := loadField_add m (a + 4) 1 3
  have h₅ : loadField m (a + 5) 3 = _ := loadField_add m (a + 5) 1 2
  rw [h, h₂, Nat.add_assoc a 2 2, h₄, Nat.add_assoc a 4 1, h₅, Nat.add_assoc a 5 1]
  ring

theorem bitField_lt (w i n : Nat) : bitField w i n < 2 ^ n := Nat.mod_lt _ (Nat.two_pow_pos n)

/-- The gate of words made of fields. -/
theorem gateOf_fields {low middle high : Nat} (hlow : low < 2 ^ 16) (hmiddle : middle < 2 ^ 16)
    (hhigh : high < 2 ^ 32) (hselector : selector < 2 ^ 16) (hattributes : typeAttributes < 2 ^ 8) :
    gateOf (low + 2 ^ 16 * selector + 2 ^ 40 * typeAttributes + 2 ^ 48 * middle) high
      = { offset := low + 2 ^ 16 * middle + 2 ^ 32 * high, selector := selector, ist := 0
          kind := bitField typeAttributes 0 5, dpl := bitField typeAttributes 5 2
          present := bitField typeAttributes 7 1 == 1 } := by
  simp only [gateOf, bitField, IdtGate.mk.injEq, Nat.reducePow, Nat.div_one] at *
  refine ⟨by omega, by omega, by omega, by omega, by omega, ?_⟩
  exact congrArg (· == 1) (by omega)

/-- `idt_set_gate` and the processor agree on the format of a gate. -/
theorem idtSetGate_gate (hhandler : handler < 2 ^ 64) (hselector : selector < 2 ^ 16)
    (hattributes : typeAttributes < 2 ^ 8) :
    gateOf (loadField (idtSetGate m idt vector handler selector typeAttributes)
        (idt + 16 * vector) 8)
      (loadField (idtSetGate m idt vector handler selector typeAttributes)
        (idt + 16 * vector + 8) 8)
      = { offset := handler, selector := selector, ist := 0, kind := bitField typeAttributes 0 5
          dpl := bitField typeAttributes 5 2, present := bitField typeAttributes 7 1 == 1 } := by
  have hlow : loadField (idtSetGate m idt vector handler selector typeAttributes)
      (idt + 16 * vector) 8 = bitField handler 0 16 + 2 ^ 16 * selector + 2 ^ 40 * typeAttributes
        + 2 ^ 48 * bitField handler 16 16 := by
    have h₀ : bitField handler 0 16 < 256 ^ 2 := bitField_lt handler 0 16
    have h₁ : bitField handler 16 16 < 256 ^ 2 := bitField_lt handler 16 16
    have hs : selector < 256 ^ 2 := hselector
    have ht : typeAttributes < 256 ^ 1 := hattributes
    rw [gate_word]
    simp (disch := omega) only [idtSetGate, loadField_storeField_of_disjoint, loadField_storeField,
      shift_mask 16 16, mask_low 16]
    rw [Nat.mod_eq_of_lt h₀, Nat.mod_eq_of_lt h₁, Nat.mod_eq_of_lt hs, Nat.mod_eq_of_lt ht]
    rfl
  have hhigh : loadField (idtSetGate m idt vector handler selector typeAttributes)
      (idt + 16 * vector + 8) 8 = bitField handler 32 32 := by
    have h₂ : bitField handler 32 32 < 256 ^ 4 := bitField_lt handler 32 32
    have hsplit : loadField (idtSetGate m idt vector handler selector typeAttributes)
      (idt + 16 * vector + 8) 8 = _ := loadField_add _ _ 4 4
    rw [hsplit, Nat.add_assoc (idt + 16 * vector) 8 4]
    simp (disch := omega) only [idtSetGate, loadField_storeField_of_disjoint, loadField_storeField,
      shift_mask 32 32]
    rw [Nat.mod_eq_of_lt h₂]
    rfl
  have hwhole : bitField handler 0 16 + 2 ^ 16 * bitField handler 16 16
      + 2 ^ 32 * bitField handler 32 32 = handler := by
    simp only [bitField, Nat.reducePow, Nat.div_one] at hhandler ⊢
    omega
  rw [hlow, hhigh, gateOf_fields (bitField_lt ..) (bitField_lt ..) (bitField_lt ..) hselector
    hattributes, hwhole]

/-- A gate is written where it is. -/
theorem idtSetGate_outside {x : Nat} (hout : x < idt + 16 * vector ∨ idt + 16 * vector + 16 ≤ x) :
    idtSetGate m idt vector handler selector typeAttributes x = m x := by
  simp (disch := omega) only [idtSetGate, storeField_outside]

/-- Every gate after `idt_init`. -/
theorem idtInit_gate (m : Mem) (idt : Nat) {isrTable : Nat → Nat}
    (htable : ∀ vector < isrVectorCount, isrTable vector < 2 ^ 64) (vector : Nat) :
    gateOf (loadField (idtInit m idt isrTable).1 (idt + 16 * vector) 8)
        (loadField (idtInit m idt isrTable).1 (idt + 16 * vector + 8) 8)
      = if vector < isrVectorCount then
          { offset := isrTable vector, selector := 0x08, ist := 0, kind := interruptGateKind
            dpl := 0, present := true }
        else
          gateOf (loadField m (idt + 16 * vector) 8) (loadField m (idt + 16 * vector + 8) 8) := by
  have hloop := forUp_each
    (f := fun vector m => idtSetGate m idt vector (isrTable vector) 0x08 0x8E)
    (g := fun m vector =>
      gateOf (loadField m (idt + 16 * vector) 8) (loadField m (idt + 16 * vector + 8) 8))
    (v := fun vector =>
      { offset := isrTable vector, selector := 0x08, ist := 0, kind := interruptGateKind
        dpl := 0, present := true })
    (a := 0) (n := isrVectorCount) (s := m) ?_ ?_ vector
  · unfold idtInit
    simpa only [Nat.zero_le, true_and, Nat.zero_add] using hloop
  · intro i t _ hi _
    exact idtSetGate_gate (htable i (by omega)) (by decide) (by decide)
  · intro i t j _ _ hne
    rw [loadField_congr fun x hlo hhi => idtSetGate_outside (by omega),
      loadField_congr fun x hlo hhi => idtSetGate_outside (by omega)]

-- ============================================================== segments

/-- The fields of a segment descriptor. -/
theorem segment_word (m : Mem) (a : Nat) : loadField m a 8
    = loadField m a 2 + 2 ^ 16 * loadField m (a + 2) 2 + 2 ^ 32 * loadField m (a + 4) 1
      + 2 ^ 40 * loadField m (a + 5) 1 + 2 ^ 48 * loadField m (a + 6) 1
      + 2 ^ 56 * loadField m (a + 7) 1 := by
  have h₆ : loadField m (a + 6) 2 = _ := loadField_add m (a + 6) 1 1
  rw [gate_word, h₆, Nat.add_assoc a 6 1]
  ring

/-- The descriptor of words made of fields. -/
theorem segmentOf_fields {baseLow baseHigh baseTop limitLow limitHigh access flags : Nat}
    (h₀ : limitLow < 2 ^ 16) (h₁ : baseLow < 2 ^ 24) (h₂ : access < 2 ^ 8) (h₃ : limitHigh < 2 ^ 4)
    (h₄ : flags < 2 ^ 4) (h₅ : baseHigh < 2 ^ 8) (h₆ : baseTop < 2 ^ 32) :
    segmentOf (limitLow + 2 ^ 16 * baseLow + 2 ^ 40 * access + 2 ^ 48 * limitHigh + 2 ^ 52 * flags
        + 2 ^ 56 * baseHigh) baseTop
      = { base := baseLow + 2 ^ 24 * baseHigh + 2 ^ 32 * baseTop
          limit := limitLow + 2 ^ 16 * limitHigh, kind := bitField access 0 5
          dpl := bitField access 5 2, present := bitField access 7 1 == 1, flags := flags } := by
  simp only [segmentOf, bitField, Segment.mk.injEq, Nat.reducePow, Nat.div_one] at *
  refine ⟨by omega, by omega, by omega, by omega, ?_, by omega⟩
  exact congrArg (· == 1) (by omega)

/-- `gdt_set_entry` and the processor agree on the format of a segment
descriptor. -/
theorem gdtSetEntry_segment {index base limit access granularity : Nat} (hbase : base < 2 ^ 32)
    (hlimit : limit < 2 ^ 20) (haccess : access < 2 ^ 8) :
    segmentOf (loadField (gdtSetEntry m gdt index base limit access granularity)
        (gdt + 8 * index) 8) 0
      = { base := base, limit := limit, kind := bitField access 0 5, dpl := bitField access 5 2
          present := bitField access 7 1 == 1, flags := bitField granularity 4 4 } := by
  have h₀ : bitField limit 0 16 < 256 ^ 2 := bitField_lt limit 0 16
  have h₁ : bitField base 0 16 < 256 ^ 2 := bitField_lt base 0 16
  have h₂ : bitField base 16 8 < 256 ^ 1 := bitField_lt base 16 8
  have h₃ : access < 256 ^ 1 := haccess
  have h₄ := bitField_lt limit 16 4
  have h₅ : bitField limit 16 4 < 256 ^ 1 := h₄.trans (by decide)
  have h₆ : bitField base 24 8 < 256 ^ 1 := bitField_lt base 24 8
  have h₇ := bitField_lt granularity 4 4
  have hflags : granularity &&& 0xF0 = bitField granularity 4 4 <<< 4 := by
    have hmask : (0xF0 : Nat) = 0xF <<< 4 := by decide
    rw [hmask, and_mask_shift, shift_mask 4 4 (by decide)]
  have hbyte : bitField limit 16 4 ||| (granularity &&& 0xF0)
      = bitField limit 16 4 + 2 ^ 4 * bitField granularity 4 4 := by
    rw [hflags, or_above 4 h₄]
  have h₈ : bitField limit 16 4 + 2 ^ 4 * bitField granularity 4 4 < 256 ^ 1 := by
    simp only [Nat.reducePow] at *
    omega
  have hword : loadField (gdtSetEntry m gdt index base limit access granularity)
      (gdt + 8 * index) 8
      = bitField limit 0 16 + 2 ^ 16 * (bitField base 0 16 + 2 ^ 16 * bitField base 16 8)
        + 2 ^ 40 * access + 2 ^ 48 * bitField limit 16 4 + 2 ^ 52 * bitField granularity 4 4
        + 2 ^ 56 * bitField base 24 8 := by
    rw [segment_word]
    simp (disch := omega) only [gdtSetEntry, loadField_storeField_of_disjoint,
      loadField_storeField, shift_mask 16 8, shift_mask 24 8, shift_mask 16 4, mask_low 16]
    rw [Nat.mod_eq_of_lt h₀, Nat.mod_eq_of_lt h₁, Nat.mod_eq_of_lt h₂, Nat.mod_eq_of_lt h₃,
      Nat.mod_eq_of_lt h₅, Nat.mod_eq_of_lt h₆, hbyte, Nat.mod_eq_of_lt h₈]
    ring
  have hbaseWhole : bitField base 0 16 + 2 ^ 16 * bitField base 16 8
      + 2 ^ 24 * bitField base 24 8 = base := by
    simp only [bitField, Nat.reducePow, Nat.div_one] at hbase ⊢
    omega
  have hlimitWhole : bitField limit 0 16 + 2 ^ 16 * bitField limit 16 4 = limit := by
    simp only [bitField, Nat.reducePow, Nat.div_one] at hlimit ⊢
    omega
  have hbaseLow : bitField base 0 16 + 2 ^ 16 * bitField base 16 8 < 2 ^ 24 := by
    simp only [Nat.reducePow] at *
    omega
  rw [hword, segmentOf_fields h₀ hbaseLow haccess h₄ h₇ h₆ (Nat.two_pow_pos 32), Nat.mul_zero,
    Nat.add_zero, hbaseWhole, hlimitWhole]

/-- An entry is written where it is. -/
theorem gdtSetEntry_outside {index base limit access granularity x : Nat}
    (hout : x < gdt + 8 * index ∨ gdt + 8 * index + 8 ≤ x) :
    gdtSetEntry m gdt index base limit access granularity x = m x := by
  simp (disch := omega) only [gdtSetEntry, storeField_outside]

-- ================================================================== TSS

/-- The first word of a TSS descriptor. -/
theorem descriptorLow_eq {base limit : Nat} :
    0 ||| (limit &&& 0xFFFF) ||| ((base &&& 0xFFFFFF) <<< 16) ||| (0x89 <<< 40)
        ||| (((limit >>> 16) &&& 0xF) <<< 48) ||| (((base >>> 24) &&& 0xFF) <<< 56)
      = bitField limit 0 16 + 2 ^ 16 * bitField base 0 24 + 2 ^ 40 * 0x89
        + 2 ^ 48 * bitField limit 16 4 + 2 ^ 52 * 0 + 2 ^ 56 * bitField base 24 8 := by
  have h₀ := bitField_lt limit 0 16
  have h₁ := bitField_lt base 0 24
  have h₂ := bitField_lt limit 16 4
  have h₃ := bitField_lt base 24 8
  rw [shift_mask 16 4 (by decide), shift_mask 24 8 (by decide), mask_low 16 (by decide),
    mask_low 24 (by decide), Nat.zero_or]
  simp only [Nat.reducePow] at h₀ h₁ h₂ h₃
  rw [or_above 16 h₀, or_above 40 (by simp only [Nat.reducePow]; omega),
    or_above 48 (by simp only [Nat.reducePow]; omega),
    or_above 56 (by simp only [Nat.reducePow]; omega), Nat.mul_zero, Nat.add_zero]

/-- `gdt_set_tss_descriptor` and the processor agree on the format of a
TSS descriptor. -/
theorem gdtSetTssDescriptor_segment {index base limit : Nat} (hbase : base < 2 ^ 64)
    (hlimit : limit < 2 ^ 20) :
    segmentOf (loadField (gdtSetTssDescriptor m gdt index base limit) (gdt + 8 * index) 8)
        (loadField (gdtSetTssDescriptor m gdt index base limit) (gdt + 8 * index + 8) 8)
      = { base := base, limit := limit, kind := availableTssKind, dpl := 0, present := true
          flags := 0 } := by
  have h₀ := bitField_lt limit 0 16
  have h₁ := bitField_lt base 0 24
  have h₂ := bitField_lt limit 16 4
  have h₃ := bitField_lt base 24 8
  have h₄ : base >>> 32 < 2 ^ 32 := by
    rw [Nat.shiftRight_eq_div_pow]
    simp only [Nat.reducePow] at *
    omega
  have hlow : loadField (gdtSetTssDescriptor m gdt index base limit) (gdt + 8 * index) 8
      = bitField limit 0 16 + 2 ^ 16 * bitField base 0 24 + 2 ^ 40 * 0x89
        + 2 ^ 48 * bitField limit 16 4 + 2 ^ 52 * 0 + 2 ^ 56 * bitField base 24 8 := by
    simp (disch := omega) only [gdtSetTssDescriptor, loadField_storeField_of_disjoint,
      loadField_storeField]
    rw [descriptorLow_eq]
    simp only [Nat.reducePow] at *
    omega
  have hhigh : loadField (gdtSetTssDescriptor m gdt index base limit) (gdt + 8 * index + 8) 8
      = base >>> 32 := by
    have haddr : gdt + 8 * (index + 1) = gdt + 8 * index + 8 := by omega
    simp only [gdtSetTssDescriptor, haddr, loadField_storeField]
    exact Nat.mod_eq_of_lt (h₄.trans (by decide))
  have hbaseWhole : bitField base 0 24 + 2 ^ 24 * bitField base 24 8 + 2 ^ 32 * (base >>> 32)
      = base := by
    rw [Nat.shiftRight_eq_div_pow]
    simp only [bitField, Nat.reducePow, Nat.div_one]
    omega
  have hlimitWhole : bitField limit 0 16 + 2 ^ 16 * bitField limit 16 4 = limit := by
    simp only [bitField, Nat.reducePow, Nat.div_one] at hlimit ⊢
    omega
  rw [hlow, hhigh, segmentOf_fields h₀ h₁ (by decide) h₂ (by decide) h₃ h₄, hbaseWhole,
    hlimitWhole]
  rfl

/-- No other descriptor is written. -/
theorem gdtSetTssDescriptor_outside {index base limit x : Nat}
    (hout : x < gdt + 8 * index ∨ gdt + 8 * index + 16 ≤ x) :
    gdtSetTssDescriptor m gdt index base limit x = m x := by
  simp (disch := omega) only [gdtSetTssDescriptor, storeField_outside]

-- ============================================================== the boot

/-- The flat segment of an index: code and data of the kernel, then of
the user. -/
def flatSegment (index : Nat) : Segment where
  base := 0
  limit := 0xFFFFF
  kind := if index % 2 = 1 then 0b11010 else 0b10010
  dpl := if index < 3 then 0 else 3
  present := true
  flags := 0b1010

/-- The TSS as `ltr` finds it. -/
def kernelTssSegment (kernelTss : Nat) : Segment where
  base := kernelTss
  limit := tssSize - 1
  kind := availableTssKind
  dpl := 0
  present := true
  flags := 0

/-- The flat segments, and the TSS, after `gdt_init`. -/
theorem gdtInit_eq (m : Mem) (gdt : Nat) {kernelTss : Nat} (htss : kernelTss < 2 ^ 64) :
    ∃ m', gdtInit m gdt kernelTss
        = some (m', { base := gdt, limit := 8 * gdtEntries - 1 }, kernelTssSegment kernelTss)
      ∧ (∀ i, 0 < i → i < 5 → segmentOf (loadField m' (gdt + 8 * i) 8) 0 = flatSegment i)
      ∧ ∀ x, x < gdt ∨ gdt + 8 * gdtEntries ≤ x → m' x = m x := by
  obtain ⟨m₁, hm₁⟩ : ∃ m₁, m₁ = gdtSetEntry m gdt 0 0 0 0 0 := ⟨_, rfl⟩
  obtain ⟨m₂, hm₂⟩ : ∃ m₂, m₂ = gdtSetEntry m₁ gdt 1 0 0xFFFFF 0x9A 0xA0 := ⟨_, rfl⟩
  obtain ⟨m₃, hm₃⟩ : ∃ m₃, m₃ = gdtSetEntry m₂ gdt 2 0 0xFFFFF 0x92 0xA0 := ⟨_, rfl⟩
  obtain ⟨m₄, hm₄⟩ : ∃ m₄, m₄ = gdtSetEntry m₃ gdt 3 0 0xFFFFF 0xFA 0xA0 := ⟨_, rfl⟩
  obtain ⟨m₅, hm₅⟩ : ∃ m₅, m₅ = gdtSetEntry m₄ gdt 4 0 0xFFFFF 0xF2 0xA0 := ⟨_, rfl⟩
  obtain ⟨m₆, hm₆⟩ : ∃ m₆, m₆ = gdtSetTssDescriptor m₅ gdt 5 kernelTss (tssSize - 1) := ⟨_, rfl⟩
  have htssRead : readSystemSegment m₆ { base := gdt, limit := 8 * gdtEntries - 1 } tssSelector
      = some (kernelTssSegment kernelTss) := by
    have hread : segmentOf (loadField m₆ (gdt + 8 * 5) 8) (loadField m₆ (gdt + 8 * 5 + 8) 8)
        = kernelTssSegment kernelTss := by
      rw [hm₆]
      exact gdtSetTssDescriptor_segment htss (by decide)
    unfold readSystemSegment
    rw [if_pos (show 8 * (tssSelector / 8) + 15 ≤ 8 * gdtEntries - 1 by decide)]
    exact congrArg some hread
  obtain ⟨m', hm'⟩ : ∃ m', m' = storeField m₆ (gdt + 8 * (tssSelector / 8) + 5) 1
      (loadField m₆ (gdt + 8 * (tssSelector / 8) + 5) 1 ||| 0b10) := ⟨_, rfl⟩
  have hfive : tssSelector / 8 = 5 := by decide
  refine ⟨m', ?_, ?_, ?_⟩
  · unfold gdtInit
    dsimp only
    rw [← hm₁, ← hm₂, ← hm₃, ← hm₄, ← hm₅, ← hm₆]
    unfold loadTaskRegister
    rw [htssRead]
    dsimp only
    rw [if_pos ⟨rfl, rfl⟩, ← hm']
    rfl
  · intro i hpos hlt
    -- later entries are elsewhere
    have hlast : loadField m' (gdt + 8 * i) 8 = loadField m₅ (gdt + 8 * i) 8 := by
      rw [hm', hfive, loadField_storeField_of_disjoint (by omega), hm₆]
      exact loadField_congr fun x hlo hhi => gdtSetTssDescriptor_outside (by omega)
    have hafter : ∀ {t : Mem} {j limit access granularity : Nat}, i ≠ j →
        loadField (gdtSetEntry t gdt j 0 limit access granularity) (gdt + 8 * i) 8
          = loadField t (gdt + 8 * i) 8 := fun hne =>
      loadField_congr fun x hlo hhi => gdtSetEntry_outside (by omega)
    rw [hlast]
    obtain rfl | rfl | rfl | rfl : i = 1 ∨ i = 2 ∨ i = 3 ∨ i = 4 := by omega
    · rw [hm₅, hafter (by decide), hm₄, hafter (by decide), hm₃, hafter (by decide), hm₂]
      exact gdtSetEntry_segment (by decide) (by decide) (by decide)
    · rw [hm₅, hafter (by decide), hm₄, hafter (by decide), hm₃]
      exact gdtSetEntry_segment (by decide) (by decide) (by decide)
    · rw [hm₅, hafter (by decide), hm₄]
      exact gdtSetEntry_segment (by decide) (by decide) (by decide)
    · rw [hm₅]
      exact gdtSetEntry_segment (by decide) (by decide) (by decide)
  · intro x hx
    unfold gdtEntries at hx
    rw [hm', hfive, storeField_outside (by omega), hm₆, gdtSetTssDescriptor_outside (by omega), hm₅,
      gdtSetEntry_outside (by omega), hm₄, gdtSetEntry_outside (by omega), hm₃,
      gdtSetEntry_outside (by omega), hm₂, gdtSetEntry_outside (by omega), hm₁,
      gdtSetEntry_outside (by omega)]

/-- Nothing outside the table is written. -/
theorem idtInit_outside {isrTable : Nat → Nat} {x : Nat}
    (hout : x < idt ∨ idt + 16 * idtEntries ≤ x) : (idtInit m idt isrTable).1 x = m x := by
  unfold idtInit
  refine forUp_preserves (P := fun t : Mem => t x = m x) rfl fun i t _ hi ht => ?_
  unfold isrVectorCount at hi
  unfold idtEntries at hout
  rw [idtSetGate_outside (by omega), ht]

/-- What the processor is given at boot. -/
def TableLayout.tables (layout : TableLayout) : Tables where
  idtr := { base := layout.idt, limit := 16 * idtEntries - 1 }
  gdtr := { base := layout.gdt, limit := 8 * gdtEntries - 1 }
  tr := kernelTssSegment layout.kernelTss

/-- A byte of the GDT or of the IDT. -/
def TableLayout.Within (layout : TableLayout) (x : Nat) : Prop :=
  layout.gdt ≤ x ∧ x < layout.gdt + 8 * gdtEntries
    ∨ layout.idt ≤ x ∧ x < layout.idt + 16 * idtEntries

/-- Wherever the tables are, and whatever memory holds besides, from
`gdt_init` and `idt_init` on the processor enters the kernel through the
stub of the vector, at ring 0, on the stack `tss_set_rsp0` was last given
if it was not in ring 0, and through no other vector than the stubs'; and
the selectors of kernel and user are of flat segments of their rings. -/
theorem tables_deliver (layout : TableLayout) (m : Mem) (isrTable : Nat → Nat)
    (htable : ∀ vector < isrVectorCount, isrTable vector < 2 ^ 64) :
    ∃ m₁, tablesInit m layout isrTable = some (m₁, layout.tables)
      ∧ ∀ m₂, (∀ x, layout.Within x → m₂ x = m₁ x) → ∀ rsp0 < 2 ^ 64,
        (∀ i, 0 < i → i < 5 → ∀ rpl < 4,
          readSegment (tssSetRsp0 m₂ layout.kernelTss rsp0) layout.tables.gdtr (8 * i + rpl)
            = some (flatSegment i))
        ∧ ∀ vector error k,
          (vector < isrVectorCount →
            deliverThrough layout.tables vector error k (tssSetRsp0 m₂ layout.kernelTss rsp0)
              = some (deliver rsp0 ⟨isrTable vector, kernelCodeSelector⟩ error k
                (tssSetRsp0 m₂ layout.kernelTss rsp0)))
          ∧ (isrVectorCount ≤ vector →
            (∀ x, layout.idt ≤ x → x < layout.idt + 16 * idtEntries → m x = 0) →
            deliverThrough layout.tables vector error k (tssSetRsp0 m₂ layout.kernelTss rsp0)
              = none) := by
  obtain ⟨m', hgdt, hsegments, hkept⟩ := gdtInit_eq m layout.gdt layout.tss_lt
  obtain ⟨m₁, hm₁⟩ : ∃ m₁, m₁ = (idtInit m' layout.idt isrTable).1 := ⟨_, rfl⟩
  refine ⟨m₁, ?_, ?_⟩
  · unfold tablesInit
    rw [hgdt, hm₁]
    rfl
  intro m₂ hm₂ rsp0 hrsp0
  have hgdt_idt := layout.gdt_idt
  have hgdt_tss := layout.gdt_tss
  have hidt_tss := layout.idt_tss
  obtain ⟨M, hM⟩ : ∃ M, M = tssSetRsp0 m₂ layout.kernelTss rsp0 := ⟨_, rfl⟩
  rw [← hM]
  have hwithin : ∀ x, layout.Within x → M x = m₁ x := by
    intro x hx
    rw [← hm₂ x hx, hM]
    unfold TableLayout.Within gdtEntries idtEntries at hx
    unfold gdtEntries idtEntries tssSize at *
    exact storeField_outside (by omega)
  -- the GDT is as `gdt_init` left it
  have hsegment : ∀ i, 0 < i → i < 5 → ∀ rpl < 4,
      readSegment M layout.tables.gdtr (8 * i + rpl) = some (flatSegment i) := by
    intro i hpos hlt rpl hrpl
    have hindex : (8 * i + rpl) / 8 = i := by omega
    have hsame : loadField M (layout.gdt + 8 * i) 8 = loadField m' (layout.gdt + 8 * i) 8 := by
      apply loadField_congr
      intro x hlo hhi
      unfold gdtEntries at hgdt_idt
      rw [hwithin x (.inl ⟨by omega, by unfold gdtEntries; omega⟩), hm₁,
        idtInit_outside (by omega)]
    have hlimit : 8 * i + 7 ≤ layout.tables.gdtr.limit := by
      show 8 * i + 7 ≤ 8 * gdtEntries - 1
      unfold gdtEntries
      omega
    unfold readSegment
    rw [hindex, if_pos hlimit]
    dsimp only [TableLayout.tables]
    rw [hsame, hsegments i hpos hlt]
  refine ⟨hsegment, ?_⟩
  intro vector error k
  have hgate : ∀ v < idtEntries,
      readGate M layout.tables.idtr v
        = some (if v < isrVectorCount then
            { offset := isrTable v, selector := 0x08, ist := 0, kind := interruptGateKind
              dpl := 0, present := true }
          else gateOf (loadField m' (layout.idt + 16 * v) 8)
            (loadField m' (layout.idt + 16 * v + 8) 8)) := by
    intro v hv
    have hsame : ∀ o, o + 8 ≤ 16 → loadField M (layout.idt + 16 * v + o) 8
        = loadField m₁ (layout.idt + 16 * v + o) 8 := by
      intro o ho
      apply loadField_congr
      intro x hlo hhi
      exact hwithin x (.inr ⟨by omega, by omega⟩)
    have hlow := hsame 0 (by decide)
    rw [Nat.add_zero] at hlow
    have hlimit : 16 * v + 15 ≤ layout.tables.idtr.limit := by
      show 16 * v + 15 ≤ 16 * idtEntries - 1
      omega
    unfold readGate
    rw [if_pos hlimit]
    dsimp only [TableLayout.tables]
    rw [hlow, hsame 8 (by decide), hm₁, idtInit_gate m' layout.idt htable v]
  have hstack : readRsp0 M layout.tables.tr = some rsp0 := by
    have hread : loadField M (layout.kernelTss + 4) 8 = rsp0 := by
      rw [hM, tssSetRsp0, loadField_storeField]
      exact Nat.mod_eq_of_lt hrsp0
    have hlimit : 11 ≤ layout.tables.tr.limit := (by decide : 11 ≤ tssSize - 1)
    unfold readRsp0
    rw [if_pos hlimit]
    exact congrArg some hread
  refine ⟨?_, ?_⟩
  · intro hvector
    have hlt : vector < idtEntries := hvector.trans (by decide)
    have hread := hgate vector hlt
    rw [if_pos hvector] at hread
    have hcode := hsegment 1 (by decide) (by decide) 0 (by decide)
    have henter : (flatSegment 1).Enterable := by decide
    exact deliverThrough_eq hread hcode hstack rfl rfl rfl henter error k
  · intro hvector hzero
    by_cases hlt : vector < idtEntries
    · have hread := hgate vector hlt
      rw [if_neg (by omega)] at hread
      -- what `gdt_init` has left there is zero still
      have hnone : ∀ o, o + 8 ≤ 16 → loadField m' (layout.idt + 16 * vector + o) 8 = 0 := by
        intro o ho
        apply loadField_zero
        intro x hlo hhi
        rw [hkept x (by omega)]
        exact hzero x (by omega) (by omega)
      have hlow := hnone 0 (by decide)
      rw [Nat.add_zero] at hlow
      rw [hlow, hnone 8 (by decide)] at hread
      exact deliverThrough_absent hread rfl error k
    · have hlimit : ¬ 16 * vector + 15 ≤ layout.tables.idtr.limit := by
        show ¬ 16 * vector + 15 ≤ 16 * idtEntries - 1
        omega
      unfold deliverThrough readGate
      rw [if_neg hlimit]
      rfl

/-- Tables at low addresses. -/
def lowTables : TableLayout where
  gdt := 0x1000
  idt := 0x2000
  kernelTss := 0x4000
  gdt_idt := by decide
  gdt_tss := by decide
  idt_tss := by decide
  tss_lt := by decide

/-- The timer's vector, from ring 3. -/
theorem tables_deliver_timer : ∃ m₁,
    tablesInit (fun _ => 0) lowTables (fun vector => 0x100000 + 16 * vector)
        = some (m₁, lowTables.tables)
      ∧ ∀ k, deliverThrough lowTables.tables 32 none k (tssSetRsp0 m₁ lowTables.kernelTss 0x8000)
        = some (deliver 0x8000 ⟨0x100200, kernelCodeSelector⟩ none k
          (tssSetRsp0 m₁ lowTables.kernelTss 0x8000)) := by
  obtain ⟨m₁, hinit, hdeliver⟩ := tables_deliver lowTables (fun _ => 0)
    (fun vector => 0x100000 + 16 * vector) (by unfold isrVectorCount; omega)
  refine ⟨m₁, hinit, ?_⟩
  intro k
  exact ((hdeliver m₁ (fun _ _ => rfl) 0x8000 (by decide)).2 32 none k).1 (by decide)

end ZenithOS.Interrupt
