/-
A suspended task resumes the same whichever way it is resumed.

`context_switch` loads the `cpu_context_t` itself. An interrupt that
ends in another task cannot: it leaves through `iretq`, off a frame
`scheduler_build_context_interrupt_rsp` has put below the task's stack
pointer, which only carries `rdi` and the address of
`context_resume_from_interrupt`; that routine then loads the context.
The frame is popped word by word against the pushes' order, and the
rest of the stack is not touched (`commonIsrExit_run`,
`restoreContext_ret`).
-/
import ZenithOS.Scheduler.Context
import ZenithOS.Scheduler.Proofs.Partition

namespace ZenithOS.Scheduler.Asm

open Lib Lib.X86

variable {calls : Extern → Cpu → Cpu} {c : Cpu} {m m' : Mem} {s : Sched} {t : TaskPtr}
  {base : Reg} {trampoline depth : Nat}

/-- Two words down the stack. -/
theorem wordSub_two {a : Nat} (h : 16 ≤ a) (ha : a < 2 ^ 64) :
    wordSub (wordSub a 8) 8 = a - 16 := by
  rw [wordSub_eq (by omega) ha, wordSub_eq (by omega) (by omega)]
  omega

-- ====================================================== cpu_context_t

/-- A `cpu_context_t` by what it has for each register. -/
def contextOf (word : Reg → Nat) : CpuContext where
  rsp := word .rsp
  rbx := word .rbx
  rbp := word .rbp
  r12 := word .r12
  r13 := word .r13
  r14 := word .r14
  r15 := word .r15

/-- Where it has it. -/
def contextOffset : Reg → Nat
  | .rbx => ctxRbx
  | .rbp => ctxRbp
  | .r12 => ctxR12
  | .r13 => ctxR13
  | .r14 => ctxR14
  | .r15 => ctxR15
  | _ => ctxRsp

/-- The registers of a context, with their offsets. -/
def contextFields : List (Reg × Nat) := calleeSaved.map fun r => (r, contextOffset r)

/-- A context is the callee-saved registers. -/
theorem contextOf_congr {f g : Reg → Nat} (h : ∀ r ∈ calleeSaved, f r = g r) :
    contextOf f = contextOf g := by
  simp only [calleeSaved, List.forall_mem_cons] at h
  obtain ⟨hrsp, hrbx, hrbp, h12, h13, h14, h15, -⟩ := h
  unfold contextOf
  rw [hrsp, hrbx, hrbp, h12, h13, h14, h15]

theorem contextRegs_eq (c : Cpu) : contextRegs c = contextOf c.regs := rfl

theorem loadContext_eq (m : Mem) (a : Nat) :
    loadContext m a = contextOf fun r => loadWord m (a + contextOffset r) := rfl

theorem contextOffset_fits : ∀ r ∈ calleeSaved, contextOffset r + 8 ≤ cpuContextSize := by
  decide

/-- A context is read from its own bytes. -/
theorem loadContext_congr {a : Nat}
    (heq : ∀ x, a ≤ x → x < a + cpuContextSize → m' x = m x) :
    loadContext m' a = loadContext m a := by
  rw [loadContext_eq, loadContext_eq]
  apply contextOf_congr
  intro r hr
  have hfits := contextOffset_fits r hr
  exact loadWord_congr fun x hlo hhi => heq x (by omega) (by omega)

theorem restoreContext_eq (base : Reg) : restoreContext base = loads base contextFields := rfl

/-- `RESTORE_CONTEXT` puts the object at `base` into the registers. -/
theorem restoreContext_regs (calls : Extern → Cpu → Cpu) (hbase : base ∉ calleeSaved)
    (hend : c.regs base + cpuContextSize ≤ 2 ^ 64) :
    contextRegs (execAll calls (restoreContext base) c) = loadContext c.mem (c.regs base) := by
  rw [contextRegs_eq, loadContext_eq]
  apply contextOf_congr
  intro r hr
  have hfits := contextOffset_fits r hr
  have hfield : (r, contextOffset r) ∈ contextFields := List.mem_map_of_mem hr
  rw [restoreContext_eq, loads_get hbase (by decide) hfield, wordAdd_eq (by omega)]

/-- `SAVE_CONTEXT` stores `rsp` by way of `rax`. -/
theorem saveContext_eq (base : Reg) :
    saveContext base = .lea .rax .rsp 0 :: stores base ((.rax, ctxRsp) :: contextFields.tail) :=
  rfl

/-- Saving changes no register but its own. -/
theorem saveContext_regs {r : Reg} (hr : r ≠ .rax) :
    (execAll calls (saveContext base) c).regs r = c.regs r := by
  rw [saveContext_eq, execAll_cons, stores_regs]
  exact set_of_ne hr

/-- Saving writes to the context alone. -/
theorem saveContext_outside {x : Nat} (hbase : base ≠ .rax)
    (hend : c.regs base + cpuContextSize ≤ 2 ^ 64)
    (hout : x < c.regs base ∨ c.regs base + cpuContextSize ≤ x) :
    (execAll calls (saveContext base) c).mem x = c.mem x := by
  have hsame : (exec calls (.lea .rax .rsp 0) c).regs base = c.regs base := set_of_ne hbase
  rw [saveContext_eq, execAll_cons]
  refine (stores_outside (n := cpuContextSize) (by decide) ?_ ?_).trans rfl
  · rwa [hsame]
  · rwa [hsame]

/-- `SAVE_CONTEXT` leaves the registers in the object at `base`. -/
theorem saveContext_mem (hbase : base ≠ .rax) (hregs : ∀ r ∈ calleeSaved, c.regs r < 2 ^ 64)
    (hend : c.regs base + cpuContextSize ≤ 2 ^ 64) :
    loadContext (execAll calls (saveContext base) c).mem (c.regs base) = contextRegs c := by
  have hsame : (exec calls (.lea .rax .rsp 0) c).regs base = c.regs base := set_of_ne hbase
  have hget : ∀ r o, (r, o) ∈ (Reg.rax, ctxRsp) :: contextFields.tail →
      loadWord (execAll calls (saveContext base) c).mem (c.regs base + o)
        = (exec calls (.lea .rax .rsp 0) c).regs r % 2 ^ 64 := by
    intro r o hf
    rw [saveContext_eq, execAll_cons, ← hsame]
    exact stores_get (n := cpuContextSize) (by decide) (by rwa [hsame]) (by decide) hf
  rw [contextRegs_eq, loadContext_eq]
  apply contextOf_congr
  intro r hr
  have hlt := hregs r hr
  have hfield : (r, contextOffset r) ∈ contextFields := List.mem_map_of_mem hr
  by_cases hrsp : r = .rsp
  · subst hrsp
    refine (hget .rax ctxRsp List.mem_cons_self).trans ?_
    simp only [exec, set_self]
    rw [wordAdd_eq (by omega)]
    omega
  · rcases List.mem_cons.mp hfield with heq | htail
    · exact absurd (congrArg Prod.fst heq) hrsp
    · have hrax : r ≠ .rax := by
        rintro rfl
        simp [calleeSaved] at hr
      rw [hget r _ (List.mem_cons_of_mem _ htail)]
      refine (congrArg (· % 2 ^ 64) (set_of_ne hrax)).trans ?_
      exact Nat.mod_eq_of_lt hlt

-- ==================================================== the two endings

/-- The rest of both routines that load a context: `base` holds its
address. -/
theorem restoreContext_ret (calls : Extern → Cpu → Cpu) (hbase : base ∉ calleeSaved)
    (hend : c.regs base + cpuContextSize ≤ 2 ^ 64)
    (hrsp : loadWord c.mem (c.regs base) + 8 < 2 ^ 64) :
    ∃ d, Routine.run calls ⟨restoreContext base ++ [.sti], .ret⟩ c = some d
      ∧ contextRegs d
        = { loadContext c.mem (c.regs base) with rsp := loadWord c.mem (c.regs base) + 8 }
      ∧ d.rip = loadWord c.mem (loadWord c.mem (c.regs base))
      ∧ d.interruptFlag = true ∧ d.mem = c.mem := by
  have hregs := restoreContext_regs calls hbase hend
  have hmem := loads_mem calls base contextFields c
  rw [run_append, restoreContext_eq] at *
  generalize execAll calls (loads base contextFields) c = e at hregs hmem
  have hsp : e.regs .rsp = loadWord c.mem (c.regs base) := congrArg CpuContext.rsp hregs
  refine ⟨_, rfl, ?_, ?_, rfl, hmem⟩
  · rw [← hregs, ← hsp]
    simp only [contextRegs, exec, execAll_cons, execAll_nil]
    rw [set_self, wordAdd_eq (by omega), set_of_ne (by decide), set_of_ne (by decide),
      set_of_ne (by decide), set_of_ne (by decide), set_of_ne (by decide), set_of_ne (by decide)]
  · rw [← hsp, ← hmem]
    rfl

/-- The registers below the vector and the error code, in the order they
are popped. -/
def poppedRegs : List Reg :=
  [.r15, .r14, .r13, .r12, .r11, .r10, .r9, .r8, .rdi, .rsi, .rbp, .rdx, .rcx, .rbx, .rax]

theorem popInterruptRegs_eq : popInterruptRegs = pops poppedRegs := rfl

/-- `rdi` is the ninth of the registers popped. -/
theorem popInterruptRegs_rdi (hend : c.regs .rsp + 64 < 2 ^ 64) :
    (execAll calls popInterruptRegs c).regs .rdi = loadWord c.mem (c.regs .rsp + 64) :=
  pops_get [.r15, .r14, .r13, .r12, .r11, .r10, .r9, .r8] [.rsi, .rbp, .rdx, .rcx, .rbx, .rax]
    (by decide) (by decide) hend

/-- `common_isr_exit` goes where the frame at `r12` says, with the `rdi`
of the frame and the memory as it is. -/
theorem commonIsrExit_run (calls : Extern → Cpu → Cpu)
    (hend : c.regs .r12 + interruptFrameSize ≤ 2 ^ 64)
    (hcs : loadWord c.mem (c.regs .r12 + 144) = kernelCodeSelector) :
    ∃ d, commonIsrExit.run calls c = some d
      ∧ d.rip = loadWord c.mem (c.regs .r12 + 136)
      ∧ d.interruptFlag = (loadWord c.mem (c.regs .r12 + 152)).testBit 9
      ∧ d.regs .rdi = loadWord c.mem (c.regs .r12 + 64) ∧ d.mem = c.mem := by
  have hframe : c.regs .r12 + 176 ≤ 2 ^ 64 := hend
  -- the registers, then the vector and the error code
  have hbody : ∃ e, execAll calls commonIsrExit.body c = e ∧ e.regs .rsp = c.regs .r12 + 136
      ∧ e.regs .rdi = loadWord c.mem (c.regs .r12 + 64) ∧ e.mem = c.mem := by
    refine ⟨_, rfl, ?_⟩
    have hsp : (exec calls (.mov .rsp .r12) c).regs .rsp = c.regs .r12 := set_self ..
    have hbody : commonIsrExit.body = [.mov .rsp .r12] ++ popInterruptRegs ++ [.add .rsp 16] := rfl
    rw [hbody, execAll_append, execAll_append, execAll_cons, execAll_nil, execAll_cons,
      execAll_nil]
    have hpops : (execAll calls popInterruptRegs (exec calls (.mov .rsp .r12) c)).regs .rsp
        = c.regs .r12 + 120 := by
      rw [popInterruptRegs_eq, pops_rsp (by decide) (by rw [hsp]; simp [poppedRegs]; omega), hsp]
      rfl
    refine ⟨?_, ?_, ?_⟩
    · refine (set_self ..).trans ?_
      rw [hpops, wordAdd_eq (by omega)]
    · refine (set_of_ne (by decide)).trans ?_
      rw [popInterruptRegs_rdi (by omega), hsp]
      rfl
    · refine Eq.trans ?_ (pops_mem calls poppedRegs _)
      rfl
  obtain ⟨e, he, hsp, hrdi, hmem⟩ := hbody
  -- the kernel's code selector: ring 0, so a null SS is no fault
  have hring : ∀ ss, ¬ (nullSelector (kernelCodeSelector % 2 ^ 16) = true
      ∨ nullSelector ss = true ∧ kernelCodeSelector % 2 ^ 16 % 4 = 3) := by
    intro ss
    simp [nullSelector, kernelCodeSelector]
  unfold Routine.run
  rw [he]
  simp only [commonIsrExit, leave]
  have hword : ∀ i, i ≤ 32 → wordAdd (c.regs .r12 + 136) i = c.regs .r12 + (136 + i) := by
    intro i hi
    rw [wordAdd_eq (by omega), Nat.add_assoc]
  rw [hsp, hmem, hword 8 (by decide), hword 16 (by decide), hword 24 (by decide),
    hword 32 (by decide), hcs, if_neg (hring _)]
  have hkept : ∀ v, (e.set .rsp v).regs .rdi = e.regs .rdi := fun v => set_of_ne (by decide)
  refine ⟨_, rfl, rfl, rfl, ?_, hmem⟩
  dsimp only
  rw [hkept, hrdi]

-- ===================================================== a task at rest

/-- A task that does not run a user process. -/
def KernelTask (s : Sched) (t : TaskPtr) : Prop :=
  ∀ pr, (s.tasks t).process = some pr → (s.processes pr).isUserProcess = false

/-- The end of the block `task_create` allocated for the stack. -/
def stackEnd (s : Sched) (t : TaskPtr) : Nat :=
  (s.tasks t).kernelStack + (s.tasks t).kernelStackSize

/-- A kernel task that is resumed from its context: the object and the
stack lie apart in the address space, the stack pointer is at a return
address on the stack, and there is room for a frame below it. -/
structure Suspended (s : Sched) (t : TaskPtr) : Prop where
  kernel : KernelTask s t
  mode : (s.tasks t).resumeMode = .context
  held : loadContext s.stack (taskContextAddress t) = (s.tasks t).context
  objectEnd : taskContextAddress t + cpuContextSize ≤ 2 ^ 64
  stackFits : stackEnd s t < 2 ^ 64
  apart : taskContextAddress t + cpuContextSize ≤ (s.tasks t).kernelStack
    ∨ stackEnd s t ≤ taskContextAddress t
  room : (s.tasks t).kernelStack + interruptFrameSize ≤ (s.tasks t).context.rsp
  inside : (s.tasks t).context.rsp + 8 ≤ stackEnd s t

/-- The bytes of a task's context and stack. -/
def Owns (s : Sched) (t : TaskPtr) (x : Nat) : Prop :=
  taskContextAddress t ≤ x ∧ x < taskContextAddress t + cpuContextSize
    ∨ (s.tasks t).kernelStack ≤ x ∧ x < stackEnd s t

/-- Nothing has written to the task's bytes between `m` and `m'`. -/
def SameOwn (s : Sched) (t : TaskPtr) (m m' : Mem) : Prop :=
  ∀ x, Owns s t x → m' x = m x

/-- `context_switch(old, &task->context)` about to run, on a stack with
room for the two pushes and the call, that is not the task's; nor is the
old context. -/
structure AtContextSwitch (s : Sched) (t : TaskPtr) (depth : Nat) (c : Cpu) : Prop where
  new : c.regs .rsi = taskContextAddress t
  mem : SameOwn s t s.stack c.mem
  room : depth + 16 ≤ c.regs .rsp
  rsp : c.regs .rsp < 2 ^ 64
  stackApart : ∀ x, c.regs .rsp - (depth + 16) ≤ x → x < c.regs .rsp → ¬ Owns s t x
  oldEnd : c.regs .rdi + cpuContextSize ≤ 2 ^ 64
  oldApart : ∀ x, c.regs .rdi ≤ x → x < c.regs .rdi + cpuContextSize → ¬ Owns s t x

/-- `common_isr_exit` about to run on the frame
`scheduler_build_context_interrupt_rsp` has made for the task. -/
structure AtIsrExit (trampoline : Nat) (s : Sched) (t : TaskPtr) (c : Cpu) : Prop where
  frame : c.regs .r12 = (schedulerBuildContextInterruptRsp trampoline s t).1
  mem : SameOwn s t (schedulerBuildContextInterruptRsp trampoline s t).2.stack c.mem

/-- The processor as the task left it, past the return address its stack
pointer was at, with interrupts enabled. -/
structure Resumed (s : Sched) (t : TaskPtr) (c : Cpu) : Prop where
  rip : c.rip = loadWord s.stack (s.tasks t).context.rsp
  regs : contextRegs c
    = { (s.tasks t).context with rsp := (s.tasks t).context.rsp + 8 }
  interruptFlag : c.interruptFlag = true
  stack : ∀ x, (s.tasks t).context.rsp ≤ x → x < stackEnd s t → c.mem x = s.stack x

/-- The task's context is the same. -/
theorem SameOwn.context (h : SameOwn s t m m') :
    loadContext m' (taskContextAddress t) = loadContext m (taskContextAddress t) :=
  loadContext_congr fun x hlo hhi => h x (.inl ⟨hlo, hhi⟩)

/-- A word on the task's stack is the same. -/
theorem SameOwn.word (h : SameOwn s t m m') {a : Nat} (hlo : (s.tasks t).kernelStack ≤ a)
    (hhi : a + 8 ≤ stackEnd s t) : loadWord m' a = loadWord m a :=
  loadWord_congr fun x _ _ => h x (.inr ⟨by omega, by omega⟩)

/-- Loading the context out of a memory that agrees on the task's bytes
resumes the task. -/
theorem Suspended.restore (h : Suspended s t) (calls : Extern → Cpu → Cpu)
    (hbase : base ∉ calleeSaved)
    (haddr : c.regs base = taskContextAddress t)
    (hheld : loadContext c.mem (taskContextAddress t) = (s.tasks t).context)
    (hstack : ∀ x, (s.tasks t).context.rsp ≤ x → x < stackEnd s t → c.mem x = s.stack x) :
    ∃ d, Routine.run calls ⟨restoreContext base ++ [.sti], .ret⟩ c = some d ∧ Resumed s t d := by
  have hinside := h.inside
  have hend := h.stackFits
  have hrsp : loadWord c.mem (c.regs base) = (s.tasks t).context.rsp := by
    rw [haddr]
    exact congrArg CpuContext.rsp hheld
  obtain ⟨d, hrun, hregs, hrip, hflag, hmem⟩ :=
    restoreContext_ret calls (c := c) hbase (by rw [haddr]; exact h.objectEnd)
      (by rw [hrsp]; omega)
  rw [haddr, hheld, ← haddr, hrsp] at hregs
  rw [hrsp] at hrip
  refine ⟨d, hrun, ?_, hregs, hflag, ?_⟩
  · rw [hrip]
    exact loadWord_congr fun x _ _ => hstack x (by omega) (by omega)
  · intro x hlo hhi
    rw [hmem, hstack x hlo hhi]

-- ====================================================== context_switch

/-- The call at the head of `context_switch`: both arguments are back,
and only the stack below the caller's stack pointer has changed. -/
theorem contextSwitch_call (hcalls : Returns depth (calls .schedulerTraceContextSwitchEntry))
    (hroom : depth + 16 ≤ c.regs .rsp) (hrsp : c.regs .rsp < 2 ^ 64)
    (hrdi : c.regs .rdi < 2 ^ 64) (hrsi : c.regs .rsi < 2 ^ 64) :
    ∃ d, execAll calls [.push .rdi, .push .rsi, .call .schedulerTraceContextSwitchEntry,
        .pop .rsi, .pop .rdi] c = d
      ∧ (∀ r ∈ calleeSaved, d.regs r = c.regs r)
      ∧ d.regs .rdi = c.regs .rdi ∧ d.regs .rsi = c.regs .rsi
      ∧ ∀ x, x < c.regs .rsp - (depth + 16) ∨ c.regs .rsp ≤ x → d.mem x = c.mem x := by
  -- the two pushes
  have hpush : ∃ e, execAll calls [.push .rdi, .push .rsi] c = e
      ∧ e.regs .rsp = c.regs .rsp - 16 ∧ (∀ r, r ≠ .rsp → e.regs r = c.regs r)
      ∧ e.mem = storeWord (storeWord c.mem (c.regs .rsp - 8) (c.regs .rdi))
        (c.regs .rsp - 16) (c.regs .rsi) := by
    have hsp₁ : wordSub (c.regs .rsp) 8 = c.regs .rsp - 8 := wordSub_eq (by omega) hrsp
    have hsp₂ : wordSub (wordSub (c.regs .rsp) 8) 8 = c.regs .rsp - 16 :=
      wordSub_two (by omega) hrsp
    refine ⟨_, rfl, ?_, fun r hr => ?_, ?_⟩
    · simp only [execAll_cons, execAll_nil, exec, set_self]
      rw [hsp₂]
    · simp only [execAll_cons, execAll_nil, exec]
      rw [set_of_ne hr, set_of_ne hr]
    · simp only [execAll_cons, execAll_nil, exec, set_self]
      rw [hsp₂, hsp₁, set_of_ne (by decide)]
  obtain ⟨e, he, hsp, hkept, hmem⟩ := hpush
  -- the call, and the two words still there
  generalize hg : calls .schedulerTraceContextSwitchEntry e = g
  have hgregs : ∀ r ∈ calleeSaved, g.regs r = e.regs r := hg ▸ hcalls.regs e
  have hgmem : ∀ x, x < e.regs .rsp - depth ∨ e.regs .rsp ≤ x → g.mem x = e.mem x :=
    fun x hx => hg ▸ hcalls.mem e x (by omega) hx
  have hgsp : g.regs .rsp = c.regs .rsp - 16 := (hgregs .rsp (by decide)).trans hsp
  have hword : ∀ a, c.regs .rsp - 16 ≤ a → loadWord g.mem a = loadWord e.mem a :=
    fun a ha => loadWord_congr fun x _ _ => hgmem x (by omega)
  have hpop : execAll calls [.push .rdi, .push .rsi, .call .schedulerTraceContextSwitchEntry,
      .pop .rsi, .pop .rdi] c = execAll calls (pops [.rsi, .rdi]) g := by
    rw [← hg, ← he]
    rfl
  have hrsi' : loadWord g.mem (c.regs .rsp - 16) = c.regs .rsi := by
    rw [hword _ (by omega), hmem, loadWord_storeWord, Nat.mod_eq_of_lt hrsi]
  have hrdi' : loadWord g.mem (c.regs .rsp - 8) = c.regs .rdi := by
    rw [hword _ (by omega), hmem, loadWord_storeWord_of_disjoint (by omega), loadWord_storeWord,
      Nat.mod_eq_of_lt hrdi]
  refine ⟨_, hpop, ?_, ?_, ?_, ?_⟩
  · intro r hr
    by_cases hr' : r = .rsp
    · subst hr'
      rw [pops_rsp (by decide) (by rw [hgsp]; simp; omega), hgsp]
      simp
      omega
    · rw [pops_of_notMem hr' (fun hin => absurd hr (by revert hin; revert r; decide)), hgregs r hr,
        hkept r hr']
  · refine (pops_get [.rsi] [] (by decide) (by decide) (by rw [hgsp]; simp; omega)).trans ?_
    rw [hgsp, show c.regs .rsp - 16 + 8 * [Reg.rsi].length = c.regs .rsp - 8 by simp; omega, hrdi']
  · refine (pops_get [] [.rdi] (by decide) (by decide) (by rw [hgsp]; simp; omega)).trans ?_
    rw [hgsp]
    exact hrsi'
  · intro x hx
    rw [pops_mem, hgmem x (by omega), hmem, storeWord_outside (by omega),
      storeWord_outside (by omega)]

/-- `context_switch` from the call on. -/
theorem contextSwitch_run {d : Cpu}
    (hd : execAll calls [.push .rdi, .push .rsi, .call .schedulerTraceContextSwitchEntry,
      .pop .rsi, .pop .rdi] c = d) :
    contextSwitch.run calls c
      = Routine.run calls ⟨restoreContext .rsi ++ [.sti], .ret⟩
        (execAll calls (saveContext .rdi) d) := by
  rw [← hd, ← run_append, ← run_append]
  rfl

/-- `context_switch` to a suspended task resumes it. -/
theorem Suspended.switch (h : Suspended s t)
    (hcalls : Returns depth (calls .schedulerTraceContextSwitchEntry))
    (hc : AtContextSwitch s t depth c) :
    ∃ a, contextSwitch.run calls c = some a ∧ Resumed s t a := by
  have hobject := h.objectEnd
  have hnew := hc.new
  have hold := hc.oldEnd
  have hrsp := hc.rsp
  have hsize : cpuContextSize = 56 := rfl
  obtain ⟨d, hd, -, hrdi, hrsi, hdmem⟩ :=
    contextSwitch_call hcalls hc.room hrsp (by omega) (by omega)
  -- neither the call nor the save touches the task's bytes
  have hown : SameOwn s t s.stack (execAll calls (saveContext .rdi) d).mem := by
    intro x hx
    have hout : x < d.regs .rdi ∨ d.regs .rdi + cpuContextSize ≤ x := by
      rw [hrdi]
      by_contra hin
      exact hc.oldApart x (by omega) (by omega) hx
    rw [saveContext_outside (by decide) (by rw [hrdi]; exact hold) hout, hdmem, hc.mem x hx]
    by_contra hin
    exact hc.stackApart x (by omega) (by omega) hx
  rw [contextSwitch_run hd]
  refine h.restore calls (by decide) ?_ (hown.context.trans h.held) fun x hlo hhi => ?_
  · rw [saveContext_regs (by decide), hrsi, hnew]
  · have hroom := h.room
    exact hown x (.inr ⟨by omega, hhi⟩)

-- ========================================================== the frame

/-- The frame made for a kernel task. -/
def kernelFrame (m : Mem) (frame context trampoline : Nat) : Mem :=
  let m := fill m frame 0#8 interruptFrameSize
  let m := storeWord m (frame + 64) context
  let m := storeWord m (frame + 136) trampoline
  let m := storeWord m (frame + 144) kernelCodeSelector
  storeWord m (frame + 152) kernelTrampolineRflags

/-- A kernel task's frame is built below its stack pointer. -/
theorem build_kernelFrame (hkernel : KernelTask s t) (hrsp : (s.tasks t).context.rsp ≠ 0) :
    schedulerBuildContextInterruptRsp trampoline s t
      = (interruptFrameBelow (s.tasks t).context.rsp,
        { s with
          stack := kernelFrame s.stack (interruptFrameBelow (s.tasks t).context.rsp)
            (taskContextAddress t) trampoline }) := by
  unfold schedulerBuildContextInterruptRsp
  rw [if_neg hrsp]
  cases hprocess : (s.tasks t).process with
  | none => rfl
  | some pr =>
      dsimp only
      rw [if_neg (by simp [hkernel pr hprocess])]
      rfl

/-- Nothing outside the frame is written. -/
theorem kernelFrame_outside {frame context x : Nat}
    (hout : x < frame ∨ frame + interruptFrameSize ≤ x) :
    kernelFrame m frame context trampoline x = m x := by
  have hsize : interruptFrameSize = 176 := rfl
  unfold kernelFrame
  rw [storeWord_outside (by omega), storeWord_outside (by omega), storeWord_outside (by omega),
    storeWord_outside (by omega), fill_outside hout]

/-- The four words `common_isr_exit` and the trampoline depend on. -/
theorem kernelFrame_words (m : Mem) (frame context trampoline : Nat) :
    loadWord (kernelFrame m frame context trampoline) (frame + 64) = context % 2 ^ 64
      ∧ loadWord (kernelFrame m frame context trampoline) (frame + 136) = trampoline % 2 ^ 64
      ∧ loadWord (kernelFrame m frame context trampoline) (frame + 144) = kernelCodeSelector
      ∧ loadWord (kernelFrame m frame context trampoline) (frame + 152)
        = kernelTrampolineRflags := by
  unfold kernelFrame
  refine ⟨?_, ?_, ?_, ?_⟩
  · rw [loadWord_storeWord_of_disjoint (by omega), loadWord_storeWord_of_disjoint (by omega),
      loadWord_storeWord_of_disjoint (by omega), loadWord_storeWord]
  · rw [loadWord_storeWord_of_disjoint (by omega), loadWord_storeWord_of_disjoint (by omega),
      loadWord_storeWord]
  · rw [loadWord_storeWord_of_disjoint (by omega), loadWord_storeWord]
    rfl
  · rw [loadWord_storeWord]
    rfl

/-- Leaving an interrupt through the frame reaches the trampoline with
interrupts off, and the trampoline resumes the task. -/
theorem Suspended.isrExit (h : Suspended s t) (calls : Extern → Cpu → Cpu)
    (htrampoline : trampoline < 2 ^ 64)
    (hc : AtIsrExit trampoline s t c) :
    ∃ b₁ b, commonIsrExit.run calls c = some b₁
      ∧ b₁.rip = trampoline ∧ b₁.interruptFlag = false
      ∧ contextResumeFromInterrupt.run calls b₁ = some b ∧ Resumed s t b := by
  have hroom := h.room
  have hinside := h.inside
  have hfits := h.stackFits
  have hobject := h.objectEnd
  have hapart := h.apart
  have hsize : interruptFrameSize = 176 := rfl
  have hcsize : cpuContextSize = 56 := rfl
  obtain ⟨frame, hframe⟩ : ∃ frame, frame + 176 = (s.tasks t).context.rsp :=
    ⟨(s.tasks t).context.rsp - 176, by omega⟩
  have hbelow : interruptFrameBelow (s.tasks t).context.rsp = frame := by
    unfold interruptFrameBelow
    omega
  have hrsp : (s.tasks t).context.rsp ≠ 0 := by omega
  have hr12 := hc.frame
  have hmem := hc.mem
  rw [build_kernelFrame h.kernel hrsp, hbelow] at hr12 hmem
  dsimp only at hr12 hmem
  -- the frame lies on the task's stack, so its words are as made
  obtain ⟨hwrdi, hwrip, hwcs, hwflags⟩ :=
    kernelFrame_words s.stack frame (taskContextAddress t) trampoline
  have hword : ∀ i, i + 8 ≤ 176 → loadWord c.mem (c.regs .r12 + i)
      = loadWord (kernelFrame s.stack frame (taskContextAddress t) trampoline) (frame + i) := by
    intro i hi
    rw [hr12]
    exact hmem.word (a := frame + i) (by omega) (by omega)
  obtain ⟨b₁, hrun, hrip, hflag, hrdi, hmem₁⟩ :=
    commonIsrExit_run calls (c := c) (by rw [hr12]; omega)
      (by rw [hword 144 (by decide)]; exact hwcs)
  rw [hword 136 (by decide), hwrip, Nat.mod_eq_of_lt htrampoline] at hrip
  rw [hword 152 (by decide), hwflags] at hflag
  rw [hword 64 (by decide), hwrdi, Nat.mod_eq_of_lt (by omega)] at hrdi
  -- the frame misses the context, and the stack from the stack pointer on
  have hheld : loadContext b₁.mem (taskContextAddress t) = (s.tasks t).context := by
    rw [hmem₁, hmem.context, ← h.held]
    apply loadContext_congr
    intro x hlo hhi
    apply kernelFrame_outside
    omega
  have hstack : ∀ x, (s.tasks t).context.rsp ≤ x → x < stackEnd s t →
      b₁.mem x = s.stack x := by
    intro x hlo hhi
    rw [hmem₁, hmem x (.inr ⟨by omega, hhi⟩), kernelFrame_outside (by omega)]
  obtain ⟨b, hresume, hb⟩ := h.restore calls (by decide) hrdi hheld hstack
  exact ⟨b₁, b, hrun, hrip, hflag, hresume, hb⟩

-- ======================================================= context_init

/-- What `context_init` writes. -/
theorem contextInit_eq {context entry stackTop : Nat} (hroom : 16 ≤ stackTop)
    (hfits : stackTop < 2 ^ 64) :
    contextInit m context entry stackTop
      = storeWord (storeWord (storeWord (fill m context 0#8 cpuContextSize) (stackTop - 8) 0)
        (stackTop - 16) entry) context (stackTop - 16) := by
  unfold contextInit
  dsimp only
  rw [wordSub_two hroom hfits, wordSub_eq (by omega) hfits]
  rfl

/-- What `context_init` leaves in the object. -/
theorem contextInit_context {context entry stackTop : Nat} (hroom : 16 ≤ stackTop)
    (hfits : stackTop < 2 ^ 64)
    (hapart : context + cpuContextSize ≤ stackTop - 16 ∨ stackTop ≤ context) :
    loadContext (contextInit m context entry stackTop) context = { rsp := stackTop - 16 } := by
  have hsize : cpuContextSize = 56 := rfl
  have hcontext : ({ rsp := stackTop - 16 } : CpuContext)
      = contextOf fun r => if r = .rsp then stackTop - 16 else 0 := rfl
  rw [hcontext, loadContext_eq, contextInit_eq hroom hfits]
  apply contextOf_congr
  intro r hr
  have ho := contextOffset_fits r hr
  by_cases hrsp : r = .rsp
  · subst hrsp
    rw [if_pos rfl, show contextOffset .rsp = 0 from rfl, Nat.add_zero, loadWord_storeWord,
      Nat.mod_eq_of_lt (by omega)]
  · have hlo : 8 ≤ contextOffset r := by
      revert r
      decide
    rw [if_neg hrsp, loadWord_storeWord_of_disjoint (by omega),
      loadWord_storeWord_of_disjoint (by omega), loadWord_storeWord_of_disjoint (by omega),
      loadWord_fill_zero (by omega) (by omega)]

/-- What it leaves on the stack: the entry, and a zero above it. -/
theorem contextInit_stack {context stackTop : Nat} (entry : Nat) (hroom : 16 ≤ stackTop)
    (hfits : stackTop < 2 ^ 64)
    (hapart : context + cpuContextSize ≤ stackTop - 16 ∨ stackTop ≤ context) :
    loadWord (contextInit m context entry stackTop) (stackTop - 16) = entry % 2 ^ 64
      ∧ loadWord (contextInit m context entry stackTop) (stackTop - 8) = 0 := by
  have hsize : cpuContextSize = 56 := rfl
  rw [contextInit_eq hroom hfits]
  refine ⟨?_, ?_⟩
  · rw [loadWord_storeWord_of_disjoint (by omega), loadWord_storeWord]
  · rw [loadWord_storeWord_of_disjoint (by omega), loadWord_storeWord_of_disjoint (by omega),
      loadWord_storeWord]
    rfl

/-- A task that has not run since `context_init` is resumed at its entry,
with a zero for the return address. -/
theorem Resumed.fresh (hr : Resumed s t c) (h : Suspended s t) {entry : Nat}
    (hentry : entry < 2 ^ 64)
    (hfresh : SameOwn s t (contextInit m (taskContextAddress t) entry (stackEnd s t)) s.stack) :
    c.rip = entry ∧ loadWord c.mem (c.regs .rsp) = 0 := by
  have hroom := h.room
  have hinside := h.inside
  have hsize : interruptFrameSize = 176 := rfl
  have hapart : taskContextAddress t + cpuContextSize ≤ stackEnd s t - 16
      ∨ stackEnd s t ≤ taskContextAddress t := by
    rcases h.apart with hbefore | hafter
    · exact .inl (by omega)
    · exact .inr hafter
  have hctx : (s.tasks t).context = { rsp := stackEnd s t - 16 } := by
    rw [← h.held, hfresh.context]
    exact contextInit_context (by omega) h.stackFits hapart
  have hrsp : (s.tasks t).context.rsp = stackEnd s t - 16 := congrArg CpuContext.rsp hctx
  obtain ⟨hentryAt, hzeroAt⟩ :=
    contextInit_stack (m := m) entry (by omega) h.stackFits hapart
  have hsp : c.regs .rsp = stackEnd s t - 8 := by
    refine (congrArg CpuContext.rsp hr.regs).trans ?_
    dsimp only
    omega
  refine ⟨?_, ?_⟩
  · rw [hr.rip, hrsp, hfresh.word (by omega) (by omega), hentryAt, Nat.mod_eq_of_lt hentry]
  · rw [hsp, ← hzeroAt, ← hfresh.word (by omega) (by omega)]
    exact loadWord_congr fun x hlo hhi => hr.stack x (by omega) (by omega)

/-- `taskCreate` keeps the object of `context_init` apart from the
stack. -/
theorem taskCreate_contextInit (s : Sched) (id entry stack : Nat) (process : Option ProcessPtr)
    (hfits : stack + kernelStackSize < 2 ^ 64)
    (hapart : taskContextAddress s.taskCount + cpuContextSize ≤ stack
      ∨ stack + kernelStackSize ≤ taskContextAddress s.taskCount) :
    let m := contextInit s.stack (taskContextAddress s.taskCount) entry (stack + kernelStackSize)
    loadContext m (taskContextAddress s.taskCount)
        = ((taskCreate s id entry stack process).tasks s.taskCount).context
      ∧ ∀ x, x < taskContextAddress s.taskCount
          ∨ taskContextAddress s.taskCount + cpuContextSize ≤ x →
        m x = (taskCreate s id entry stack process).stack x := by
  have hstack : kernelStackSize = 16384 := rfl
  have hsize : cpuContextSize = 56 := rfl
  refine ⟨?_, fun x hx => ?_⟩
  · rw [contextInit_context (by omega) hfits (by omega)]
    simp [taskCreate]
  · rw [contextInit_eq (by omega) hfits, storeWord_outside (by omega)]
    simp only [taskCreate, setTask_stack, storeWord, fill_outside hx]

-- ============================================================= results

/-- A context `context_switch` saves is the one `saveContext` of the
scheduler model puts into the task. -/
theorem contextSwitch_saves {a : Cpu}
    (hcalls : Returns depth (calls .schedulerTraceContextSwitchEntry))
    (hroom : depth + 16 ≤ c.regs .rsp) (hregs : ∀ r ∈ calleeSaved, c.regs r < 2 ^ 64)
    (hold : c.regs .rdi + cpuContextSize ≤ 2 ^ 64) (hnew : c.regs .rsi < 2 ^ 64)
    (hrun : contextSwitch.run calls c = some a) :
    loadContext a.mem (c.regs .rdi) = contextRegs c := by
  have hsize : cpuContextSize = 56 := rfl
  obtain ⟨d, hd, hsaved, hrdi, hrsi, -⟩ :=
    contextSwitch_call hcalls hroom (hregs .rsp (by decide)) (by omega) hnew
  have hmem : a.mem = (execAll calls (saveContext .rdi) d).mem := by
    rw [contextSwitch_run hd, run_append] at hrun
    refine (leave_mem hrun).trans ?_
    simp only [execAll_cons, execAll_nil, exec, restoreContext_eq, loads_mem]
  rw [hmem, ← hrdi, saveContext_mem (by decide) (fun r hr => by rw [hsaved r hr]; exact hregs r hr)
    (by rw [hrdi]; exact hold)]
  exact contextOf_congr hsaved

/-- So is the one `context_switch_to_interrupt` saves. -/
theorem contextSwitchToInterrupt_saves {a : Cpu}
    (hregs : ∀ r ∈ calleeSaved, c.regs r < 2 ^ 64)
    (hold : c.regs .rdi + cpuContextSize ≤ 2 ^ 64)
    (hrun : contextSwitchToInterrupt.run calls c = some a) :
    loadContext a.mem (c.regs .rdi) = contextRegs c := by
  have hbody : contextSwitchToInterrupt.body
      = saveContext .rdi ++ [.mov .rsp .rsi] ++ pops poppedRegs ++ [.add .rsp 16] := rfl
  have hmem : a.mem = (execAll calls (saveContext .rdi) c).mem := by
    refine (leave_mem hrun).trans ?_
    rw [hbody, execAll_append, execAll_append, execAll_append]
    simp only [execAll_cons, execAll_nil, exec, set_mem, pops_mem]
  rw [hmem, saveContext_mem (by decide) hregs hold]

/-- Both ways of resuming a suspended kernel task agree. -/
theorem context_resumes_agree (calls : Extern → Cpu → Cpu) (s : Sched) (t : TaskPtr)
    (trampoline depth : Nat) (c c' : Cpu) (h : Suspended s t)
    (hcalls : Returns depth (calls .schedulerTraceContextSwitchEntry))
    (htrampoline : trampoline < 2 ^ 64) (hc : AtContextSwitch s t depth c)
    (hc' : AtIsrExit trampoline s t c') :
    ∃ a b₁ b, contextSwitch.run calls c = some a
      ∧ (commonIsrExit.run calls c' = some b₁ ∧ b₁.rip = trampoline
        ∧ contextResumeFromInterrupt.run calls b₁ = some b)
      ∧ (a.rip = b.rip ∧ contextRegs a = contextRegs b ∧ a.interruptFlag = b.interruptFlag)
      ∧ (Resumed s t a ∧ Resumed s t b)
      ∧ ∀ m entry, entry < 2 ^ 64 →
        SameOwn s t (contextInit m (taskContextAddress t) entry (stackEnd s t)) s.stack →
        (a.rip = entry ∧ loadWord a.mem (a.regs .rsp) = 0)
          ∧ (b.rip = entry ∧ loadWord b.mem (b.regs .rsp) = 0) := by
  obtain ⟨a, hrun, ha⟩ := h.switch hcalls hc
  obtain ⟨b₁, b, hexit, hrip, -, hresume, hb⟩ := h.isrExit calls htrampoline hc'
  refine ⟨a, b₁, b, hrun, ⟨hexit, hrip, hresume⟩, ⟨?_, ?_, ?_⟩, ⟨ha, hb⟩, ?_⟩
  · rw [ha.rip, hb.rip]
  · rw [ha.regs, hb.regs]
  · rw [ha.interruptFlag, hb.interruptFlag]
  · intro m entry hentry hfresh
    exact ⟨ha.fresh h hentry hfresh, hb.fresh h hentry hfresh⟩

/-- A new task at 0x8000 with its stack at 0x10000. -/
def freshSched : Sched :=
  { bootSched with
    tasks := fun _ =>
      { entry := 0x400000, kernelStack := 0x10000, kernelStackSize := kernelStackSize
        context := { rsp := 0x13ff0 } }
    stack := contextInit (fun _ => 0) (taskContextAddress 0x8000) 0x400000 0x14000 }

/-- The trace function compiled to a lone `ret`. -/
def loneRet (_ : Extern) (c : Cpu) : Cpu :=
  { c with mem := storeWord c.mem (c.regs .rsp - 8) 0x100100 }

/-- Another task at 0x9000, on a stack at 0x20000. -/
def otherTask : Cpu where
  regs := fun r =>
    match r with
    | .rdi => taskContextAddress 0x9000
    | .rsi => taskContextAddress 0x8000
    | .rsp => 0x23f00
    | _ => 0
  interruptFlag := false
  rip := 0x100000
  cs := kernelCodeSelector
  ss := 0
  mem := freshSched.stack

/-- The end of an interrupt that task was in. -/
def interrupted : Cpu :=
  { otherTask.set .r12 (0x13ff0 - interruptFrameSize) with
    mem := (schedulerBuildContextInterruptRsp 0x100800 freshSched 0x8000).2.stack }

/-- A task that has never run, resumed on both ways. -/
theorem context_resumes_agree_fresh :
    ∃ a b₁ b, contextSwitch.run loneRet otherTask = some a
      ∧ commonIsrExit.run loneRet interrupted = some b₁
      ∧ contextResumeFromInterrupt.run loneRet b₁ = some b
      ∧ a.rip = 0x400000 ∧ b.rip = 0x400000 ∧ contextRegs a = contextRegs b := by
  have hregs : otherTask.regs .rsp = 0x23f00 ∧ otherTask.regs .rdi = 0x9008 := ⟨rfl, rfl⟩
  have hown : ∀ x, Owns freshSched 0x8000 x → x < 0x8040 ∨ 0x10000 ≤ x ∧ x < 0x14000 := by
    rintro x (⟨-, hx⟩ | hx)
    · exact .inl hx
    · exact .inr hx
  have hsuspended : Suspended freshSched 0x8000 := by
    refine ⟨?_, rfl, by decide, by decide, by decide, by decide, by decide, by decide⟩
    intro pr hpr
    cases hpr
  have hswitch : AtContextSwitch freshSched 0x8000 8 otherTask := by
    refine ⟨rfl, fun _ _ => rfl, by decide, by decide, ?_, by decide, ?_⟩
    · intro x hlo hhi hx
      have hin := hown x hx
      rw [hregs.1] at hlo hhi
      omega
    · intro x hlo hhi hx
      have hin := hown x hx
      rw [hregs.2] at hlo
      rw [hregs.2] at hhi
      have hsize : cpuContextSize = 56 := rfl
      omega
  have hbuilt : interrupted.mem
      = (schedulerBuildContextInterruptRsp 0x100800 freshSched 0x8000).2.stack := by
    simp only [interrupted]
  have hexit : AtIsrExit 0x100800 freshSched 0x8000 interrupted :=
    ⟨by decide, fun x _ => congrFun hbuilt x⟩
  have hreturns : Returns 8 (loneRet .schedulerTraceContextSwitchEntry) := by
    refine ⟨fun _ _ _ => rfl, fun c x hdepth hx => storeWord_outside (by omega)⟩
  obtain ⟨a, b₁, b, hrun, ⟨hrun₁, -, hrun'⟩, ⟨-, hsame, -⟩, -, hfresh⟩ :=
    context_resumes_agree loneRet freshSched 0x8000 0x100800 8 otherTask interrupted hsuspended
      hreturns (by decide) hswitch hexit
  have hinit : SameOwn freshSched 0x8000 (contextInit (fun _ => 0) (taskContextAddress 0x8000)
      0x400000 (stackEnd freshSched 0x8000)) freshSched.stack := by
    have hend : stackEnd freshSched 0x8000 = 0x14000 := by decide
    rw [hend]
    exact fun _ _ => rfl
  obtain ⟨⟨ha, -⟩, ⟨hb, -⟩⟩ := hfresh (fun _ => 0) 0x400000 (by decide) hinit
  exact ⟨a, b₁, b, hrun, hrun₁, hrun', ha, hb, hsame⟩

end ZenithOS.Scheduler.Asm
