import ZenithOS.Lib.Loop
import ZenithOS.Lib.Mem
import ZenithOS.Lib.Intrusive
import ZenithOS.Lib.Run
import ZenithOS.Mm.Pmm
import ZenithOS.Mm.Proofs.Pmm
import ZenithOS.Mm.Proofs.PmmBoot
import ZenithOS.Mm.Proofs.PmmAccounts
import ZenithOS.Proc.Types
import ZenithOS.Scheduler.Basic
import ZenithOS.Scheduler.Run
import ZenithOS.Scheduler.Proofs.Calls
import ZenithOS.Scheduler.Proofs.Partition
import ZenithOS.Scheduler.Proofs.AddressSpace
import ZenithOS.Lib.Radix
import ZenithOS.Lib.Cover
import ZenithOS.Vmm.Proofs.Vma
import ZenithOS.Vmm.Proofs.Translate
import ZenithOS.Vmm.Proofs.Isolation
import ZenithOS.Vmm.Proofs.DemandPaging
import ZenithOS.Proc.Memory
import ZenithOS.Proc.FrameRun
import ZenithOS.Proc.Proofs.Frames
import ZenithOS.Proc.Proofs.FrameRun
import ZenithOS.Proc.Proofs.FrameLoss
import ZenithOS.Proc.Proofs.Create
import ZenithOS.Proc.Proofs.KernelRun
import ZenithOS.Proc.Proofs.ExecUndone
import ZenithOS.Proc.ExecFile
import ZenithOS.Proc.Proofs.ExecFile
import ZenithOS.Lib.Tiling
import ZenithOS.Mm.Proofs.Heap
import ZenithOS.Mm.Proofs.HeapRun
import ZenithOS.Mm.Proofs.HeapArea
import ZenithOS.Mm.Proofs.HeapShared
import ZenithOS.Sync.Mutex
import ZenithOS.Sync.Proofs.Mutex
import ZenithOS.Sync.Proofs.Waiting
import ZenithOS.Sync.Nesting
import ZenithOS.Sync.Proofs.Nesting
import ZenithOS.Fs.Vfs
import ZenithOS.Fs.Run
import ZenithOS.Fs.Proofs.Tree
import ZenithOS.Fs.Proofs.Lookup
import ZenithOS.Fs.Proofs.Store
import ZenithOS.Fs.Proofs.Runs
import ZenithOS.Fs.Proofs.Names
import ZenithOS.Fs.Proofs.Mount
import ZenithOS.Fs.Proofs.Descriptors
import ZenithOS.Scheduler.Proofs.Order
import ZenithOS.Scheduler.Proofs.Unblock
import ZenithOS.Sync.Proofs.IrqSpinlock
import ZenithOS.Scheduler.Proofs.InterruptFlag
import ZenithOS.Sync.Proofs.Resume
import ZenithOS.Mm.Proofs.PmmReserve
import ZenithOS.Mm.Proofs.HeapMax
import ZenithOS.Vmm.Proofs.Hardware
import ZenithOS.Proc.Proofs.ElfImage
import ZenithOS.Proc.UserRun
import ZenithOS.Proc.Proofs.UserHalves
import ZenithOS.Proc.Proofs.UserRun
import ZenithOS.Proc.Proofs.HeapGrowth
import ZenithOS.Proc.Proofs.Startable
import ZenithOS.Lib.Numeral
import ZenithOS.Klib.Convert
import ZenithOS.Term.Terminal
import ZenithOS.Term.Proofs.Contents
import ZenithOS.Stdio.Printf
import ZenithOS.Stdio.Proofs.Printf
import ZenithOS.Stdio.Proofs.Values
import ZenithOS.Drivers.Mouse
import ZenithOS.Drivers.Proofs.Mouse
import ZenithOS.Drivers.Keyboard
import ZenithOS.Drivers.Proofs.Keyboard
import ZenithOS.Fs.Proofs.Reading
import ZenithOS.Proc.Table
import ZenithOS.Proc.Proofs.Table
import ZenithOS.Scheduler.Proofs.WakeUp
import ZenithOS.Scheduler.Proofs.Sleep
import ZenithOS.Lib.X86
import ZenithOS.Scheduler.Context
import ZenithOS.Scheduler.Proofs.Context
import ZenithOS.Klib.Proofs.Convert
import ZenithOS.Lib.Dword
import ZenithOS.Graphics.Framebuffer
import ZenithOS.Graphics.Proofs.Scroll
import ZenithOS.Graphics.Draw
import ZenithOS.Graphics.Proofs.FillRect
import ZenithOS.Lib.Rounding
import ZenithOS.Graphics.Proofs.Line
import ZenithOS.Gui.WindowManager
import ZenithOS.Gui.Proofs.Dragging
import ZenithOS.Gui.Draw
import ZenithOS.Gui.Proofs.Draw
import ZenithOS.Interrupt.Proofs.Preemption
import ZenithOS.Interrupt.Proofs.Pic
import ZenithOS.Interrupt.Proofs.Tables
import ZenithOS.Interrupt.Proofs.Waiting
import ZenithOS.Lib.PathTree
import ZenithOS.Lib.Refinement
import ZenithOS.Fs.Spec
import ZenithOS.Fs.Calls
import ZenithOS.Fs.Proofs.Refinement
import ZenithOS.Lib.Painting
import ZenithOS.Font.Font
import ZenithOS.Graphics.Proofs.Layers
import ZenithOS.Font.Proofs.Glyph
import ZenithOS.Term.Render
import ZenithOS.Term.Proofs.Render
