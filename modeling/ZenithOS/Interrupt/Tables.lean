/-
The processor's tables: `cpu/idt.c`, `cpu/gdt.c` and `gdt.asm`,
`cpu/tss.c`.

The tables are in memory, where the linker has put them; the packed
structures are written field by field. `idt_load` and `gdt_load` give
the processor its registers. Reloading the segment registers and the
messages on the terminal are left out.
-/
import ZenithOS.Lib.Descriptor
import ZenithOS.Interrupt.Isr

namespace ZenithOS.Interrupt

open Lib Lib.X86 Scheduler

/-- The entries of `gdt`: the TSS has two. -/
def gdtEntries : Nat := 7

/-- The entries of `idt`. -/
def idtEntries : Nat := 256

/-- `sizeof(tss_t)`. -/
def tssSize : Nat := 104

/-- Where `gdt`, `idt` and `kernel_tss` are. -/
structure TableLayout where
  gdt : Nat
  idt : Nat
  kernelTss : Nat
  gdt_idt : gdt + 8 * gdtEntries ≤ idt ∨ idt + 16 * idtEntries ≤ gdt
  gdt_tss : gdt + 8 * gdtEntries ≤ kernelTss ∨ kernelTss + tssSize ≤ gdt
  idt_tss : idt + 16 * idtEntries ≤ kernelTss ∨ kernelTss + tssSize ≤ idt
  tss_lt : kernelTss < 2 ^ 64

-- ================================================================ idt.c

/-- `idt_set_gate`. -/
def idtSetGate (m : Mem) (idt vector handler selector typeAttributes : Nat) : Mem :=
  let entry := idt + 16 * vector
  let address := handler
  let m := storeField m entry 2 (address &&& 0xFFFF)
  let m := storeField m (entry + 2) 2 selector
  let m := storeField m (entry + 4) 1 0
  let m := storeField m (entry + 5) 1 typeAttributes
  let m := storeField m (entry + 6) 2 ((address >>> 16) &&& 0xFFFF)
  let m := storeField m (entry + 8) 4 ((address >>> 32) &&& 0xFFFFFFFF)
  storeField m (entry + 12) 4 0

/-- `idt_init`: the table, and what `idt_load` loads. -/
def idtInit (m : Mem) (idt : Nat) (isrTable : Nat → Nat) : Mem × TableRegister :=
  (forUp (fun vector m => idtSetGate m idt vector (isrTable vector) 0x08 0x8E) 0 isrVectorCount m,
    { base := idt, limit := 16 * idtEntries - 1 })

-- ================================================================ gdt.c

/-- `gdt_set_entry`. -/
def gdtSetEntry (m : Mem) (gdt index base limit access granularity : Nat) : Mem :=
  let entry := gdt + 8 * index
  let m := storeField m entry 2 (limit &&& 0xFFFF)
  let m := storeField m (entry + 2) 2 (base &&& 0xFFFF)
  let m := storeField m (entry + 4) 1 ((base >>> 16) &&& 0xFF)
  let m := storeField m (entry + 7) 1 ((base >>> 24) &&& 0xFF)
  let m := storeField m (entry + 5) 1 access
  let m := storeField m (entry + 6) 1 ((limit >>> 16) &&& 0x0F)
  storeField m (entry + 6) 1 (loadField m (entry + 6) 1 ||| (granularity &&& 0xF0))

/-- `gdt_set_tss_descriptor`. -/
def gdtSetTssDescriptor (m : Mem) (gdt index base limit : Nat) : Mem :=
  let descriptorLow := 0
  let descriptorLow := descriptorLow ||| (limit &&& 0xFFFF)
  let descriptorLow := descriptorLow ||| ((base &&& 0xFFFFFF) <<< 16)
  let descriptorLow := descriptorLow ||| (0x89 <<< 40)
  let descriptorLow := descriptorLow ||| (((limit >>> 16) &&& 0xF) <<< 48)
  let descriptorLow := descriptorLow ||| (((base >>> 24) &&& 0xFF) <<< 56)
  let descriptorHigh := base >>> 32
  let m := storeField m (gdt + 8 * index) 8 descriptorLow
  storeField m (gdt + 8 * (index + 1)) 8 descriptorHigh

/-- `TSS_SELECTR`. -/
def tssSelector : Nat := 0x28

/-- `gdt_init`, with `gdt_load`: the table, `GDTR`, and `TR`. -/
def gdtInit (m : Mem) (gdt kernelTss : Nat) : Option (Mem × TableRegister × Segment) :=
  let m := gdtSetEntry m gdt 0 0 0 0 0
  let m := gdtSetEntry m gdt 1 0 0xFFFFF 0x9A 0xA0
  let m := gdtSetEntry m gdt 2 0 0xFFFFF 0x92 0xA0
  let m := gdtSetEntry m gdt 3 0 0xFFFFF 0xFA 0xA0
  let m := gdtSetEntry m gdt 4 0 0xFFFFF 0xF2 0xA0
  let m := gdtSetTssDescriptor m gdt 5 kernelTss (tssSize - 1)
  let gdtr := { base := gdt, limit := 8 * gdtEntries - 1 }
  (loadTaskRegister m gdtr tssSelector).map fun p => (p.2, gdtr, p.1)

-- ================================================================ tss.c

/-- `tss_set_rsp0`. -/
def tssSetRsp0 (m : Mem) (kernelTss rsp0 : Nat) : Mem := storeField m (kernelTss + 4) 8 rsp0

-- ============================================================== the boot

/-- `gdt_init` and `idt_init`, as at boot. -/
def tablesInit (m : Mem) (layout : TableLayout) (isrTable : Nat → Nat) : Option (Mem × Tables) :=
  (gdtInit m layout.gdt layout.kernelTss).map fun (m, gdtr, tr) =>
    let (m, idtr) := idtInit m layout.idt isrTable
    (m, { idtr := idtr, gdtr := gdtr, tr := tr })

end ZenithOS.Interrupt
