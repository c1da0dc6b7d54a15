/-
Demand paging: `vmm/demand_paging.c`.

As everywhere in the page tables, a pointer made with
`page_table_physical_to_virtual` is its frame. The console output is not
modelled.
-/
import ZenithOS.Vmm.PageTable
import ZenithOS.Vmm.Vma

namespace ZenithOS.Vmm

open Lib Mm

/-- `VMA_DEMAND_PAGED`. -/
def vmaDemandPaged : Nat := 1 <<< 3

/-- `~(PAGE_SIZE - 1)`. -/
def pageBaseMask : Nat := 0xFFFFFFFFFFFFF000

/-- `vmm_handle_page_fault`. -/
def vmmHandlePageFault (vma : VmaTable) (faultAddress errorCode : Nat) (v : Vm) : Bool × Vm :=
  if errorCode &&& (1 <<< 0) ≠ 0 then (false, v)
  else
    match vmaFind vma faultAddress with
    | none => (false, v)
    | some area =>
        if (vma.entry area).flags &&& vmaDemandPaged = 0 then (false, v)
        else
          let pageBase := faultAddress &&& pageBaseMask
          let (physicalPage, pmm) := pmmAllocPage v.pmm
          if physicalPage = null then (false, { v with pmm := pmm })
          else
            let v := { v with pmm := pmm, mem := fill v.mem physicalPage 0#8 pageSize }
            match pageTableMap v pageBase physicalPage pageWritable with
            | (true, v) => (true, v)
            | (false, v) => (false, { v with pmm := pmmFreePage physicalPage v.pmm })

end ZenithOS.Vmm
