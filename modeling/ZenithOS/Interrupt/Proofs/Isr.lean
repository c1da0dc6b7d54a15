/-
One interrupt, from the program it takes the processor away from to the
program it returns to.

The stub and `PUSH_REGS` complete what the processor pushed to an
`interrupt_context_t` of the interrupted program (`framed_program`,
`entry_run`); `POP_REGS` and `iretq` go back to the program of whatever
frame `r12` holds then (`exit_run`). In between the C functions run on
the memory with the frame in it, and what they leave below the frame
matters to none of them (`SameOff`). So an interrupt is the scheduler's
`isrExit` with the frame read back (`interrupt_eq`).
-/
import ZenithOS.Interrupt.Isr
import ZenithOS.Scheduler.Proofs.Switch

namespace ZenithOS.Interrupt

open Lib Lib.X86 Mm Scheduler

variable {calls : Extern → Sched × Cpu → Sched × Cpu} {depth trampoline vector error : Nat}
  {k : Context} {s s' : Sched} {m m' : Mem} {c : Cpu} {sp lo hi : Nat}

-- =========================================================== the frame

/-- Every word of a frame, as they are pushed. -/
def frameWords (vector error : Nat) (k : Context) : List Nat :=
  [k.ss, k.regs .rsp, k.rflags, k.cs, k.rip, (errorCodeOf vector error).getD 0, vector]
    ++ registersFields.reverse.map k.regs

theorem frameWords_length : (frameWords vector error k).length = 22 := rfl

/-- The memory with the frame of `k` below `sp`. -/
def framed (vector error : Nat) (k : Context) (sp : Nat) (m : Mem) : Mem :=
  pushWords m sp (frameWords vector error k)

/-- Nothing outside the frame is written. -/
theorem framed_outside {x : Nat} (hsp : sp < 2 ^ 64) (hroom : interruptFrameSize ≤ sp)
    (hout : x < sp - interruptFrameSize ∨ sp ≤ x) : framed vector error k sp m x = m x :=
  pushWords_outside hsp hroom hout

/-- Word `i` from the top of a frame. -/
theorem framed_word {i w : Nat} (hsp : sp < 2 ^ 64) (hroom : interruptFrameSize ≤ sp)
    (hi : (frameWords vector error k)[i]? = some w) (hw : w < 2 ^ 64) :
    loadWord (framed vector error k sp m) (sp - interruptFrameSize + 8 * (21 - i)) = w := by
  obtain ⟨hlt, -⟩ := List.getElem?_eq_some_iff.mp hi
  rw [frameWords_length] at hlt
  have hword : loadWord (framed vector error k sp m) (sp - 8 * (i + 1)) = w % 2 ^ 64 :=
    pushWords_getElem hsp hroom hi
  have haddr : sp - interruptFrameSize + 8 * (21 - i) = sp - 8 * (i + 1) := by
    unfold interruptFrameSize at *
    omega
  rw [haddr]
  exact hword.trans (Nat.mod_eq_of_lt hw)

/-- Each register is in the frame, at its place. -/
theorem frameWords_reg {r : Reg} (hr : r ≠ .rsp) :
    (frameWords vector error k)[21 - registersFields.idxOf r]? = some (k.regs r) := by
  cases r with
  | rsp => exact absurd rfl hr
  | _ => rfl

theorem registersFields_mem {r : Reg} (hr : r ≠ .rsp) : r ∈ registersFields := by
  cases r with
  | rsp => exact absurd rfl hr
  | _ => decide

theorem registersFields_idxOf {r : Reg} (hr : r ≠ .rsp) : registersFields.idxOf r < 15 :=
  List.idxOf_lt_length_iff.mpr (registersFields_mem hr)

/-- The frame of a program reads as that program. -/
theorem framed_program (hk : k.Valid) (hsp : sp < 2 ^ 64) (hroom : interruptFrameSize ≤ sp) :
    (loadInterruptContext (framed vector error k sp m) (sp - interruptFrameSize)).program = k := by
  have hss : loadWord (framed vector error k sp m) (sp - interruptFrameSize + 168) = k.ss :=
    framed_word (i := 0) hsp hroom rfl (hk.ss.trans (by decide))
  have hrsp : loadWord (framed vector error k sp m) (sp - interruptFrameSize + 160)
      = k.regs .rsp := framed_word (i := 1) hsp hroom rfl (hk.regs .rsp)
  have hrflags : loadWord (framed vector error k sp m) (sp - interruptFrameSize + 152)
      = k.rflags := framed_word (i := 2) hsp hroom rfl hk.rflags
  have hcs : loadWord (framed vector error k sp m) (sp - interruptFrameSize + 144) = k.cs :=
    framed_word (i := 3) hsp hroom rfl (hk.cs.trans (by decide))
  have hrip : loadWord (framed vector error k sp m) (sp - interruptFrameSize + 136) = k.rip :=
    framed_word (i := 4) hsp hroom rfl hk.rip
  have hregs : ∀ r, r ≠ .rsp →
      loadWord (framed vector error k sp m) (sp - interruptFrameSize + registerOffset r)
        = k.regs r := by
    intro r hr
    have hidx := registersFields_idxOf hr
    have hget : (frameWords vector error k)[21 - registersFields.idxOf r]? = some (k.regs r) :=
      frameWords_reg hr
    have hword := framed_word (m := m) hsp hroom hget (hk.regs r)
    rwa [show 21 - (21 - registersFields.idxOf r) = registersFields.idxOf r by omega] at hword
  simp only [InterruptContext.program, loadInterruptContext]
  ext1
  · funext r
    dsimp only
    by_cases hr : r = .rsp
    · rw [if_pos hr, hr, hrsp]
    · rw [if_neg hr, hregs r hr]
  · exact hrip
  · exact (congrArg (· % 2 ^ 16) hcs).trans (Nat.mod_eq_of_lt hk.cs)
  · exact hrflags
  · exact (congrArg (· % 2 ^ 16) hss).trans (Nat.mod_eq_of_lt hk.ss)

/-- The frame has the vector of its stub. -/
theorem framed_interruptNumber (hv : vector < isrVectorCount) (hsp : sp < 2 ^ 64)
    (hroom : interruptFrameSize ≤ sp) :
    (loadInterruptContext (framed vector error k sp m) (sp - interruptFrameSize)).interruptNumber
      = vector :=
  framed_word (i := 6) hsp hroom rfl (hv.trans (by decide))

-- =========================================================== the entry

theorem pushRegs_eq : pushRegs = pushes registersFields.reverse := rfl

theorem popRegs_eq : popRegs = pops registersFields := rfl

/-- What the stub of a vector pushes. -/
def stubWords (vector : Nat) : List Nat :=
  if vector ∈ isrErrorVectors then [vector] else [0, vector]

/-- A stub pushes its words. -/
theorem isrStub_eq (vector : Nat) : (isrCode (.isr vector)).body = pushImms (stubWords vector) := by
  unfold stubWords
  simp only [isrCode]
  split_ifs <;> rfl

/-- The stubs that push no error code are those of the vectors for which
the processor does. -/
theorem isrErrorVectors_eq : isrErrorVectors = errorCodeVectors := rfl

/-- The processor, the stub and `PUSH_REGS` push one frame. -/
theorem frameWords_eq (vector error : Nat) (k : Context) :
    frameWords vector error k
      = deliveredWords (errorCodeOf vector error) k ++ stubWords vector
        ++ registersFields.reverse.map k.regs := by
  unfold frameWords deliveredWords stubWords errorCodeOf
  rw [isrErrorVectors_eq]
  split_ifs <;> rfl

/-- The processor and the stub push seven words together. -/
theorem stub_length (vector error : Nat) (k : Context) :
    (deliveredWords (errorCodeOf vector error) k).length + (stubWords vector).length = 7 := by
  unfold deliveredWords stubWords errorCodeOf
  rw [isrErrorVectors_eq]
  split_ifs <;> rfl

/-- The stub leaves seven words on the stack, and every register but
`rsp` as the program had it. -/
theorem stub_run (calls : Extern → Sched × Cpu → Sched × Cpu) (vector error : Nat) {rsp0 : Nat}
    (gate : Gate) (hsp : deliveryStack rsp0 k < 2 ^ 64)
    (hroom : interruptFrameSize ≤ deliveryStack rsp0 k) (s : Sched) (m : Mem) :
    ∃ c, execOps calls (isrCode (.isr vector)).body
        (s, deliver rsp0 gate (errorCodeOf vector error) k m) = (s, c)
      ∧ c.mem = pushWords m (deliveryStack rsp0 k)
          (deliveredWords (errorCodeOf vector error) k ++ stubWords vector)
      ∧ c.regs .rsp = deliveryStack rsp0 k - 56 ∧ ∀ r, r ≠ .rsp → c.regs r = k.regs r := by
  have hseven := stub_length vector error k
  unfold interruptFrameSize at hroom
  have hdelivered : (deliver rsp0 gate (errorCodeOf vector error) k m).regs .rsp
      = deliveryStack rsp0 k - 8 * (deliveredWords (errorCodeOf vector error) k).length :=
    deliver_rsp ..
  have hrun := pushImms_run calls (stubWords vector)
    (s, deliver rsp0 gate (errorCodeOf vector error) k m)
    (by simp only [hdelivered]; omega) (by simp only [hdelivered]; omega)
  rw [isrStub_eq]
  refine ⟨_, hrun, ?_, ?_, ?_⟩
  · dsimp only
    rw [pushWords_append _ _ _ _ hsp (by omega), ← hdelivered, deliver_mem]
  · dsimp only
    rw [set_self, hdelivered]
    omega
  · intro r hr
    dsimp only
    rw [set_of_ne hr, deliver_of_ne _ _ _ _ _ hr]

/-- `common_isr_entry` up to its first call. -/
def entryHead : List (Op Extern) :=
  pushRegs.map .instr ++
    [.instr (.mov .rdi .rsp), .instr (.mov .r12 .rsp), .andImm .rsp (2 ^ 64 - 16)]

/-- `isr_dispatch` is called with the frame below it and its address in
`rdi` and `r12`; the frame's address is aligned already. -/
theorem entry_run (calls : Extern → Sched × Cpu → Sched × Cpu) (vector error : Nat) {rsp0 : Nat}
    (gate : Gate) (hsp : deliveryStack rsp0 k < 2 ^ 64)
    (hroom : interruptFrameSize ≤ deliveryStack rsp0 k) (s : Sched) (m : Mem) :
    ∃ c, execOps calls entryHead (execOps calls (isrCode (.isr vector)).body
        (s, deliver rsp0 gate (errorCodeOf vector error) k m)) = (s, c)
      ∧ c.mem = framed vector error k (deliveryStack rsp0 k) m
      ∧ c.regs .rdi = deliveryStack rsp0 k - interruptFrameSize
      ∧ c.regs .r12 = deliveryStack rsp0 k - interruptFrameSize
      ∧ c.regs .rsp = deliveryStack rsp0 k - interruptFrameSize := by
  have halign : deliveryStack rsp0 k % 16 = 0 := Nat.mul_mod_left _ 16
  have hseven := stub_length vector error k
  obtain ⟨c, hstub, hmem, hrsp, hregs⟩ := stub_run calls vector error gate hsp hroom s m
  unfold interruptFrameSize at *
  have hno : Reg.rsp ∉ registersFields.reverse := by decide
  have hlen : registersFields.reverse.length = 15 := rfl
  -- PUSH_REGS
  have hpushed : (execAll (fun f : Empty => f.elim) (pushes registersFields.reverse) c).mem = _ :=
    pushes_mem hno
  have hlow : (execAll (fun f : Empty => f.elim) (pushes registersFields.reverse) c).regs .rsp
      = _ := pushes_rsp hno (by omega) (by omega)
  have hmap : registersFields.reverse.map c.regs = registersFields.reverse.map k.regs := by
    apply List.map_congr_left
    intro r hr
    exact hregs r fun heq => hno (heq ▸ hr)
  rw [hmap, hmem, hrsp] at hpushed
  rw [hrsp, hlen] at hlow
  rw [hstub, entryHead, execOps_append, execOps_instr, pushRegs_eq]
  generalize execAll (fun f : Empty => f.elim) (pushes registersFields.reverse) c = d
    at hpushed hlow
  have hd : d.regs .rsp = deliveryStack rsp0 k - 176 := by omega
  have htail : execOps calls [.instr (.mov .rdi .rsp), .instr (.mov .r12 .rsp),
      .andImm .rsp (2 ^ 64 - 16)] (s, d)
      = (s, ((d.set .rdi (d.regs .rsp)).set .r12 (d.regs .rsp)).set .rsp
          (d.regs .rsp &&& (2 ^ 64 - 16))) := by
    simp only [execOps_cons, execOps_nil, Op.exec, exec]
    rw [set_of_ne (by decide), set_of_ne (by decide), set_of_ne (by decide)]
  refine ⟨_, htail, ?_, ?_, ?_, ?_⟩
  · rw [set_mem, set_mem, set_mem, hpushed]
    have hsplit := pushWords_append m (deliveryStack rsp0 k)
      (deliveredWords (errorCodeOf vector error) k ++ stubWords vector)
      (registersFields.reverse.map k.regs) hsp (by rw [List.length_append]; omega)
    rw [List.length_append, hseven] at hsplit
    rw [framed, frameWords_eq, hsplit]
  · rw [set_of_ne (by decide), set_of_ne (by decide), set_self, hd]
  · rw [set_of_ne (by decide), set_self, hd]
  · rw [set_self, hd, and_neg_sixteen (by omega)]
    omega

-- ============================================================ the exit

/-- `common_isr_exit` goes back to the program of the frame at `r12`, if
`iretq` can. -/
theorem exit_run (calls : Extern → Sched × Cpu → Sched × Cpu) (p : Sched × Cpu)
    (hend : p.2.regs .r12 + interruptFrameSize < 2 ^ 64) :
    ∃ c, execOps calls (isrCode .commonIsrExit).body p = (p.1, c) ∧ c.mem = p.2.mem
      ∧ iret c =
        (let program := (loadInterruptContext p.2.mem (p.2.regs .r12)).program
         if Loadable program.cs program.ss then some program else none) := by
  unfold interruptFrameSize at hend
  have hno : Reg.rsp ∉ registersFields := by decide
  have hsp : (exec (fun f : Empty => f.elim) (.mov .rsp .r12) p.2).regs .rsp = p.2.regs .r12 :=
    set_self ..
  have hlow : (execAll (fun f : Empty => f.elim) (pops registersFields)
      (exec (fun f : Empty => f.elim) (.mov .rsp .r12) p.2)).regs .rsp = _ :=
    pops_rsp hno (by rw [hsp]; simp [registersFields]; omega)
  have hmem := pops_mem (fun f : Empty => f.elim) registersFields
    (exec (fun f : Empty => f.elim) (.mov .rsp .r12) p.2)
  have hregs : ∀ r, r ≠ .rsp → (execAll (fun f : Empty => f.elim) (pops registersFields)
      (exec (fun f : Empty => f.elim) (.mov .rsp .r12) p.2)).regs r
      = loadWord p.2.mem (p.2.regs .r12 + registerOffset r) := by
    intro r hr
    rw [pops_idxOf hno (by decide) (registersFields_mem hr)
      (by rw [hsp]; simp [registersFields]; omega), hsp]
    rfl
  have hbody : (isrCode .commonIsrExit).body
      = (([.mov .rsp .r12] ++ popRegs ++ [.add .rsp 16] : List (Instr Empty))).map .instr := rfl
  rw [hbody, execOps_instr, popRegs_eq, execAll_append, execAll_append, execAll_cons, execAll_nil,
    execAll_cons, execAll_nil]
  rw [hsp] at hlow
  have hlen : registersFields.length = 15 := rfl
  rw [hlen] at hlow
  replace hmem : _ = p.2.mem := hmem
  generalize execAll (fun f : Empty => f.elim) (pops registersFields)
    (exec (fun f : Empty => f.elim) (.mov .rsp .r12) p.2) = d at hlow hmem hregs
  have htop : exec (fun f : Empty => f.elim) (.add .rsp 16) d
      = d.set .rsp (p.2.regs .r12 + 136) := by
    simp only [exec]
    rw [hlow, wordAdd_eq (by omega)]
  refine ⟨_, congrArg (p.1, ·) htop, hmem, ?_⟩
  -- what `iretq` pops is above the vector and the error code
  have hword : ∀ o, o ≤ 32 → wordAdd (p.2.regs .r12 + 136) o = p.2.regs .r12 + (136 + o) := by
    intro o ho
    rw [wordAdd_eq (by omega), Nat.add_assoc]
  have hprogram : (loadInterruptContext p.2.mem (p.2.regs .r12)).program.regs
      = Function.update d.regs .rsp (loadWord p.2.mem (p.2.regs .r12 + 160)) := by
    funext r
    simp only [InterruptContext.program, loadInterruptContext]
    by_cases hr : r = .rsp
    · rw [if_pos hr, hr, Function.update_self]
    · rw [if_neg hr, Function.update_of_ne hr, hregs r hr]
  unfold iret
  simp only [set_mem, set_self, hmem]
  rw [hword 8 (by decide), hword 16 (by decide), hword 24 (by decide), hword 32 (by decide)]
  simp only [Cpu.set, Function.update_idem]
  rw [← hprogram]
  rfl

-- ==================================================== the stack of C code

/-- The memories agree outside `[lo, hi)`. -/
def Agree (lo hi : Nat) (m m' : Mem) : Prop :=
  ∀ x, x < lo ∨ hi ≤ x → m' x = m x

/-- Agreement carries over. -/
theorem Agree.trans {m'' : Mem} (h : Agree lo hi m m') (h' : Agree lo hi m' m'') :
    Agree lo hi m m'' :=
  fun x hx => (h' x hx).trans (h x hx)

theorem Agree.storeWord (h : Agree lo hi m m') (a v : Nat) :
    Agree lo hi (storeWord m a v) (storeWord m' a v) := by
  intro x hx
  simp only [Lib.storeWord]
  rw [h x hx]

/-- Filling keeps the agreement. -/
theorem Agree.fill (h : Agree lo hi m m') (a : Nat) (b : Byte) (n : Nat) :
    Agree lo hi (fill m a b n) (fill m' a b n) := by
  intro x hx
  simp only [Lib.fill]
  rw [h x hx]

/-- `s'` is `s` with a memory that agrees outside `[lo, hi)`. -/
def SameOff (lo hi : Nat) (s s' : Sched) : Prop :=
  s' = { s with stack := s'.stack } ∧ Agree lo hi s.stack s'.stack

variable {t : Sched}

/-- Agreement off a stack carries over. -/
theorem SameOff.trans {u : Sched} (h : SameOff lo hi s t) (h' : SameOff lo hi t u) :
    SameOff lo hi s u := by
  refine ⟨?_, h.2.trans h'.2⟩
  rw [h'.1, h.1]

/-- A function that neither reads nor writes the memory. -/
theorem SameOff.map (h : SameOff lo hi s t) {f : Sched → Sched}
    (hf : ∀ s m, f { s with stack := m } = { f s with stack := m })
    (hstack : ∀ s, (f s).stack = s.stack) : SameOff lo hi (f s) (f t) := by
  have heq : f t = { f s with stack := t.stack } := (congrArg f h.1).trans (hf s t.stack)
  refine ⟨?_, ?_⟩
  · rw [hstack t]
    exact heq
  · rw [hstack s, hstack t]
    exact h.2

theorem schedulerSaveInterruptContext_off (h : SameOff lo hi s t) (rsp : Nat) :
    SameOff lo hi (schedulerSaveInterruptContext s rsp) (schedulerSaveInterruptContext t rsp) := by
  apply h.map (f := fun s => schedulerSaveInterruptContext s rsp)
  · intro s m
    simp only [schedulerSaveInterruptContext]
    split
    · rfl
    · split_ifs <;> rfl
  · intro s
    simp only [schedulerSaveInterruptContext]
    split
    · rfl
    · split_ifs <;> rfl

theorem schedulerCommitPendingTask_off (h : SameOff lo hi s t) :
    SameOff lo hi (schedulerCommitPendingTask s) (schedulerCommitPendingTask t) := by
  apply h.map
  · intro s m
    simp only [schedulerCommitPendingTask]
    split
    · rfl
    · split_ifs <;> rfl
  · intro s
    simp only [schedulerCommitPendingTask]
    split
    · rfl
    · split_ifs <;> rfl

theorem schedulerReadyQueuePop_off (h : SameOff lo hi s t) :
    SameOff lo hi (schedulerReadyQueuePop s) (schedulerReadyQueuePop t) := by
  apply h.map
  · intro s m
    simp only [schedulerReadyQueuePop]
    split <;> rfl
  · intro s
    simp only [schedulerReadyQueuePop]
    split <;> rfl

/-- A push on the ready queue reads no stack. -/
theorem readyPush_off (h : SameOff lo hi s t) {u : TaskPtr} (hs : readyPush s u = some s') :
    ∃ t', readyPush t u = some t' ∧ SameOff lo hi s' t' := by
  obtain ⟨⟨next, head⟩, hpush, rfl⟩ : ∃ p, pushBack (links s) s.taskCount s.readyQueue u = some p
      ∧ { setLinks s p.1 with readyQueue := p.2 } = s' := by
    simp only [readyPush, taskQueuePush, Option.map_map] at hs
    exact Option.map_eq_some_iff.mp hs
  refine ⟨{ setLinks t next with readyQueue := head }, ?_, ?_⟩
  · rw [h.1]
    simp only [readyPush, taskQueuePush, Option.map_map]
    exact Option.map_eq_some_iff.mpr ⟨(next, head), hpush, rfl⟩
  · exact h.map (f := fun s => { setLinks s next with readyQueue := head }) (fun _ _ => rfl)
      fun _ => rfl

/-- Neither does the requeue. -/
theorem preemptRequeue_off (h : SameOff lo hi s t) (hs : preemptRequeue s = some s') :
    ∃ t', preemptRequeue t = some t' ∧ SameOff lo hi s' t' := by
  have hcur : t.currentTask = s.currentTask := by rw [h.1]
  have hidle : t.idle = s.idle := by rw [h.1]
  have htasks : t.tasks = s.tasks := by rw [h.1]
  unfold preemptRequeue at hs ⊢
  rw [hcur, hidle, htasks]
  cases hc : s.currentTask with
  | none =>
      rw [hc] at hs
      obtain rfl := Option.some.inj hs
      exact ⟨t, rfl, h⟩
  | some u =>
      rw [hc] at hs
      dsimp only at hs ⊢
      split_ifs at hs ⊢ with hrun
      · exact readyPush_off (h.map (f := fun s => setState s u .ready) (fun _ _ => rfl)
          fun _ => rfl) hs
      · obtain rfl := Option.some.inj hs
        exact ⟨t, rfl, h⟩

/-- The frame is built from the task and the process, over whatever is
there. -/
theorem schedulerBuildContextInterruptRsp_off (trampoline : Nat) (h : SameOff lo hi s t)
    (u : TaskPtr) :
    (schedulerBuildContextInterruptRsp trampoline t u).1
        = (schedulerBuildContextInterruptRsp trampoline s u).1
      ∧ SameOff lo hi (schedulerBuildContextInterruptRsp trampoline s u).2
          (schedulerBuildContextInterruptRsp trampoline t u).2 := by
  obtain ⟨heq, hagree⟩ := h
  generalize t.stack = m at heq hagree
  subst heq
  simp only [schedulerBuildContextInterruptRsp]
  split_ifs
  · exact ⟨rfl, rfl, hagree⟩
  · refine ⟨rfl, rfl, ?_⟩
    dsimp only
    have hbase := (hagree.fill (interruptFrameBelow (s.tasks u).context.rsp) 0#8
      interruptFrameSize).storeWord (interruptFrameBelow (s.tasks u).context.rsp + 64)
      (taskContextAddress u)
    split
    · split_ifs
      · exact ((((hbase.storeWord _ _).storeWord _ _).storeWord _ _).storeWord _ _).storeWord _ _
      · exact ((hbase.storeWord _ _).storeWord _ _).storeWord _ _
    · exact ((hbase.storeWord _ _).storeWord _ _).storeWord _ _

/-- The next frame does not depend on what is left out. -/
theorem nextInterruptRsp_off (trampoline : Nat) (h : SameOff lo hi s t) (u : TaskPtr) :
    (nextInterruptRsp trampoline t u).1 = (nextInterruptRsp trampoline s u).1
      ∧ SameOff lo hi (nextInterruptRsp trampoline s u).2 (nextInterruptRsp trampoline t u).2 := by
  have htasks : t.tasks = s.tasks := by rw [h.1]
  have hprocesses : t.processes = s.processes := by rw [h.1]
  have hstarted : ∀ pr, SameOff lo hi (setUserStarted s pr) (setUserStarted t pr) := fun pr =>
    h.map (f := fun s => setUserStarted s pr) (fun _ _ => rfl) fun _ => rfl
  have hbuild := schedulerBuildContextInterruptRsp_off trampoline h u
  unfold nextInterruptRsp
  rw [htasks, hprocesses]
  dsimp only
  split
  · split_ifs
    · exact schedulerBuildContextInterruptRsp_off trampoline (hstarted _) u
    · exact ⟨rfl, h⟩
    · exact ⟨rfl, h⟩
    · exact hbuild
  · split_ifs
    · exact ⟨rfl, h⟩
    · exact hbuild

/-- The choice of the next frame reads nothing off the stacks. -/
theorem schedulerGetNextInterruptRsp_off (h : SameOff lo hi s t) {rsp : Nat}
    (hs : schedulerGetNextInterruptRsp trampoline s = some (rsp, s')) :
    ∃ t', schedulerGetNextInterruptRsp trampoline t = some (rsp, t') ∧ SameOff lo hi s' t' := by
  have hdrop : ∀ {s t : Sched}, SameOff lo hi s t → SameOff lo hi
      { s with preemptionRequested := false } { t with preemptionRequested := false } := fun h =>
    h.map (f := fun s => { s with preemptionRequested := false }) (fun _ _ => rfl) fun _ => rfl
  obtain ⟨heq, hagree⟩ := h
  generalize t.stack = m at heq hagree
  subst heq
  have h : SameOff lo hi s { s with stack := m } := ⟨rfl, hagree⟩
  have hnext : schedulerGetNextTask { s with stack := m } = schedulerGetNextTask s := rfl
  unfold schedulerGetNextInterruptRsp at hs ⊢
  rw [hnext]
  dsimp only at hs ⊢
  split_ifs at hs ⊢ with hno
  · obtain ⟨rfl, rfl⟩ := Prod.mk.inj (Option.some.inj hs)
    exact ⟨_, rfl, h⟩
  · cases hn : schedulerGetNextTask s with
    | none =>
        rw [hn] at hs
        obtain ⟨rfl, rfl⟩ := Prod.mk.inj (Option.some.inj hs)
        exact ⟨_, rfl, hdrop h⟩
    | some u =>
        rw [hn] at hs
        obtain ⟨hrsp, hoff⟩ := nextInterruptRsp_off trampoline h u
        dsimp only at hs ⊢
        rw [hrsp]
        split_ifs at hs ⊢ with hi hnull
        · obtain ⟨rfl, rfl⟩ := Prod.mk.inj (Option.some.inj hs)
          exact ⟨_, rfl, hdrop h⟩
        · obtain ⟨rfl, rfl⟩ := Prod.mk.inj (Option.some.inj hs)
          exact ⟨_, rfl, hdrop hoff⟩
        · obtain ⟨s₁, hrequeue, heq⟩ := Option.map_eq_some_iff.mp hs
          obtain ⟨rfl, rfl⟩ := Prod.mk.inj heq
          obtain ⟨t₁, hrequeue', hoff'⟩ :=
            preemptRequeue_off (schedulerReadyQueuePop_off hoff) hrequeue
          refine ⟨_, by rw [hrequeue']; rfl, ?_⟩
          exact hoff'.map (f := fun s => { s with
            pendingTask := some u, preemptionRequested := false }) (fun _ _ => rfl) fun _ => rfl

-- ======================================================== the interrupt

/-- The scheduler a call sees. -/
def view (p : Sched × Cpu) : Sched := { p.1 with stack := p.2.mem }

/-- A call does what the function does, but for its own stack. -/
theorem call_view {f : Nat → Sched → Option (Option Nat × Sched)} {call : Sched × Cpu → Sched × Cpu}
    (hcall : Compiled depth (fun a => onStack (f a)) call) (p : Sched × Cpu) (result : Option Nat)
    (s' : Sched) (hf : f (p.2.regs .rdi) (view p) = some (result, s')) :
    (∀ v, result = some v → (call p).2.regs .rax = v)
      ∧ SameOff (p.2.regs .rsp - depth) (p.2.regs .rsp) s' (view (call p)) := by
  have hspec : onStack (f (p.2.regs .rdi)) p.1 p.2.mem = some (result, s', s'.stack) := by
    unfold onStack
    rw [show ({ p.1 with stack := p.2.mem } : Sched) = view p from rfl, hf]
    rfl
  obtain ⟨hrax, hsched, hmem⟩ := hcall.effect p result s' s'.stack hspec
  refine ⟨hrax, ?_, hmem⟩
  unfold view
  rw [hsched]

/-- A call that only runs its function keeps the contract. -/
theorem plainCall_compiled (depth : Nat) (f : Nat → Sched → Option (Option Nat × Sched)) :
    Compiled depth (fun a => onStack (f a)) (plainCall f) := by
  refine ⟨?_, ?_⟩
  · intro p r hr
    unfold plainCall
    split
    · rfl
    · rfl
    · exact set_of_ne fun heq => by simp [heq, calleeSaved] at hr
  · intro p result s m hspec
    obtain ⟨⟨result', s'⟩, hf, heq⟩ := Option.map_eq_some_iff.mp hspec
    simp only [Prod.mk.injEq] at heq
    obtain ⟨rfl, rfl, rfl⟩ := heq
    unfold plainCall
    rw [hf]
    cases result' with
    | none => exact ⟨nofun, rfl, fun _ _ => rfl⟩
    | some v =>
        refine ⟨?_, rfl, fun _ _ => rfl⟩
        intro w hw
        obtain rfl := Option.some.inj hw
        exact set_self p.2 .rax v

/-- So do all of the kernel's. -/
theorem plainCalls_compiled (depth trampoline : Nat) :
    CompiledKernel depth trampoline (plainCalls trampoline) :=
  ⟨plainCall_compiled .., plainCall_compiled .., plainCall_compiled .., plainCall_compiled ..⟩

/-- With a frame to resume from there is a task to commit to. -/
theorem schedulerGetNextInterruptRsp_pending {rsp : Nat}
    (h : schedulerGetNextInterruptRsp trampoline s = some (rsp, s')) (hrsp : rsp ≠ null) :
    ∃ t, s'.pendingTask = some t := by
  unfold schedulerGetNextInterruptRsp at h
  split_ifs at h
  · exact absurd (Prod.mk.inj (Option.some.inj h)).1.symm hrsp
  · cases hn : schedulerGetNextTask s with
    | none =>
        rw [hn] at h
        exact absurd (Prod.mk.inj (Option.some.inj h)).1.symm hrsp
    | some u =>
        rw [hn] at h
        dsimp only at h
        split_ifs at h
        · exact absurd (Prod.mk.inj (Option.some.inj h)).1.symm hrsp
        · exact absurd (Prod.mk.inj (Option.some.inj h)).1.symm hrsp
        · obtain ⟨s₁, -, heq⟩ := Option.map_eq_some_iff.mp h
          obtain ⟨-, rfl⟩ := Prod.mk.inj heq
          exact ⟨u, rfl⟩

/-- The end of `isrExit`: `scheduler_get_next_interrupt_rsp` has no frame,
or one that is committed to. -/
theorem isrExit_cases {resume : Resume} {frame : Nat}
    (h : isrExit trampoline s frame = some (resume, s')) :
    ∃ rsp s₁, schedulerGetNextInterruptRsp trampoline (schedulerSaveInterruptContext s frame)
        = some (rsp, s₁)
      ∧ (rsp = null ∧ resume = .caller ∧ s' = s₁
        ∨ rsp ≠ null ∧ (∃ t, s₁.pendingTask = some t ∧ resume = .interrupt t rsp)
          ∧ s' = schedulerCommitPendingTask s₁) := by
  unfold isrExit at h
  obtain ⟨⟨rsp, s₁⟩, hnext, hrest⟩ := Option.bind_eq_some_iff.mp h
  refine ⟨rsp, s₁, hnext, ?_⟩
  dsimp only at hrest
  split_ifs at hrest with hnull
  · obtain ⟨rfl, rfl⟩ := Prod.mk.inj (Option.some.inj hrest)
    exact .inl ⟨hnull, rfl, rfl⟩
  · obtain ⟨t, hpending⟩ := schedulerGetNextInterruptRsp_pending hnext hnull
    have hcur : (schedulerCommitPendingTask s₁).currentTask = some t := by
      rw [schedulerCommitPendingTask_eq hpending]
    rw [hcur] at hrest
    obtain ⟨rfl, rfl⟩ := Prod.mk.inj (Option.some.inj hrest)
    exact .inr ⟨hnull, ⟨t, hpending, rfl⟩, rfl⟩

/-- The frame an interrupt ends in. -/
def resumeFrame (frame : Nat) : Resume → Nat
  | .interrupt _ rsp => rsp
  | _ => frame

/-- An interrupt runs the scheduler's `isrExit` after `isr_dispatch` and
returns to the program of the frame that comes out of it. -/
theorem interrupt_eq (hcalls : CompiledKernel depth trampoline calls) (isrTable : Nat → Nat)
    (vector error : Nat) {frame : Nat} {resume : Resume} {s₁ : Sched}
    (hframe : frame = deliveryStack s.tssRsp0 k - interruptFrameSize)
    (hsp : deliveryStack s.tssRsp0 k < 2 ^ 64)
    (hroom : interruptFrameSize + depth ≤ deliveryStack s.tssRsp0 k)
    (hdispatch : isrDispatch
      (loadInterruptContext (framed vector error k (deliveryStack s.tssRsp0 k) s.stack) frame)
      { s with stack := framed vector error k (deliveryStack s.tssRsp0 k) s.stack } = some s₁)
    (hexit : isrExit trampoline s₁ frame = some (resume, s'))
    (hend : resumeFrame frame resume + interruptFrameSize < 2 ^ 64) :
    ∃ s'', SameOff (frame - depth) frame s' s''
      ∧ interrupt calls isrTable vector error k s =
        (let program := (loadInterruptContext s''.stack (resumeFrame frame resume)).program
         if Loadable program.cs program.ss then some (program, s'') else none) := by
  obtain ⟨c, hentry, hmem, hrdi, hr12, hrsp⟩ := entry_run calls vector error
    ⟨isrTable vector, kernelCodeSelector⟩ hsp (by omega) s s.stack
  rw [← hframe] at hrdi hr12 hrsp
  have hsaved : ∀ {spec f} (_ : Compiled depth spec f) (p : Sched × Cpu),
      (f p).2.regs .rsp = p.2.regs .rsp ∧ (f p).2.regs .r12 = p.2.regs .r12 := fun h p =>
    ⟨h.saved p .rsp (by decide), h.saved p .r12 (by decide)⟩
  -- isr_dispatch
  have hview : view (s, c)
      = { s with stack := framed vector error k (deliveryStack s.tssRsp0 k) s.stack } := by
    unfold view
    rw [hmem]
  obtain ⟨-, hoff₁⟩ := call_view hcalls.dispatch (s, c) none s₁ (by
    rw [hview]
    show Option.map _ (isrDispatch (loadInterruptContext _ (c.regs .rdi)) _) = _
    rw [hrdi, hdispatch]
    rfl)
  obtain ⟨hrsp₁, hr12₁⟩ := hsaved hcalls.dispatch (s, c)
  generalize hp₁ : calls .isrDispatch (s, c) = p₁ at hoff₁ hrsp₁ hr12₁
  replace hrsp₁ : p₁.2.regs .rsp = frame := hrsp₁.trans hrsp
  replace hr12₁ : p₁.2.regs .r12 = frame := hr12₁.trans hr12
  replace hoff₁ : SameOff (frame - depth) frame s₁ (view p₁) := by
    rw [← hrsp]
    exact hoff₁
  -- scheduler_save_interrupt_context
  obtain ⟨p₂, hp₂⟩ : ∃ p₂ : Sched × Cpu, p₂ = (p₁.1, p₁.2.set .rdi (p₁.2.regs .r12)) := ⟨_, rfl⟩
  have hview₂ : view p₂ = view p₁ := by rw [hp₂]; rfl
  have hrdi₂ : p₂.2.regs .rdi = frame := by rw [hp₂, ← hr12₁]; exact set_self ..
  have hrsp₂ : p₂.2.regs .rsp = frame := by rw [hp₂, ← hrsp₁]; exact set_of_ne (by decide)
  have hr12₂ : p₂.2.regs .r12 = frame := by rw [hp₂, ← hr12₁]; exact set_of_ne (by decide)
  obtain ⟨-, hoff₃⟩ := call_view hcalls.save p₂ none _ rfl
  obtain ⟨hrsp₃, hr12₃⟩ := hsaved hcalls.save p₂
  generalize hp₃ : calls .schedulerSaveInterruptContext p₂ = p₃ at hoff₃ hrsp₃ hr12₃
  rw [hrsp₂] at hoff₃ hrsp₃
  rw [hr12₂] at hr12₃
  rw [hrdi₂, hview₂] at hoff₃
  replace hoff₃ := (schedulerSaveInterruptContext_off hoff₁ frame).trans hoff₃
  -- scheduler_get_next_interrupt_rsp
  obtain ⟨rsp, s₂, hnext, hcases⟩ := isrExit_cases hexit
  obtain ⟨s₃, hnext', hoff⟩ := schedulerGetNextInterruptRsp_off hoff₃ hnext
  obtain ⟨hrax, hoff₄⟩ := call_view hcalls.next p₃ (some rsp) s₃ (by
    rw [hnext']
    rfl)
  obtain ⟨hrsp₄, hr12₄⟩ := hsaved hcalls.next p₃
  generalize hp₄ : calls .schedulerGetNextInterruptRsp p₃ = p₄ at hrax hoff₄ hrsp₄ hr12₄
  rw [hrsp₃] at hoff₄ hrsp₄
  rw [hr12₃] at hr12₄
  replace hoff₄ := hoff.trans hoff₄
  replace hrax : p₄.2.regs .rax = rsp := hrax rsp rfl
  have hbody : execOps calls (isrCode .commonIsrEntry).body
      (execOps calls (isrCode (.isr vector)).body
        (s, deliver s.tssRsp0 ⟨isrTable vector, kernelCodeSelector⟩ (errorCodeOf vector error) k
          s.stack)) = p₄ := by
    have hsplit : (isrCode .commonIsrEntry).body = entryHead ++ [.call .isrDispatch,
        .instr (.mov .rdi .r12), .call .schedulerSaveInterruptContext,
        .call .schedulerGetNextInterruptRsp] := rfl
    rw [hsplit, execOps_append, hentry, execOps_cons, execOps_cons, execOps_cons, execOps_cons,
      execOps_nil]
    simp only [Op.exec, exec]
    rw [hp₁, ← hp₂, hp₃, hp₄]
  -- where the code goes on
  have hrun : ∀ p : Sched × Cpu, SameOff (frame - depth) frame s' (view p) →
      p.2.regs .r12 = resumeFrame frame resume →
      runFrom calls isrCode 4 (.isr vector) (s, deliver s.tssRsp0
          ⟨isrTable vector, kernelCodeSelector⟩ (errorCodeOf vector error) k s.stack)
        = some (.iretq, execOps calls (isrCode .commonIsrExit).body p) →
      ∃ s'', SameOff (frame - depth) frame s' s''
        ∧ interrupt calls isrTable vector error k s =
          (let program := (loadInterruptContext s''.stack (resumeFrame frame resume)).program
           if Loadable program.cs program.ss then some (program, s'') else none) := by
    intro p hoff hr12 hrun
    obtain ⟨c', hexitRun, hmem', hiret⟩ := exit_run calls p (by rwa [hr12])
    refine ⟨view p, hoff, ?_⟩
    unfold interrupt
    dsimp only
    rw [hrun, hexitRun]
    dsimp only
    rw [hiret, hr12, hmem']
    dsimp only
    have hstack : (view p).stack = p.2.mem := rfl
    rw [hstack]
    split_ifs <;> rfl
  rcases hcases with ⟨rfl, rfl, rfl⟩ | ⟨hnull, ⟨t, -, rfl⟩, rfl⟩
  · have hzero : p₄.2.regs .rax = 0 := hrax
    apply hrun p₄ hoff₄ hr12₄
    show runFrom calls isrCode 2 (if (execOps calls (isrCode .commonIsrEntry).body _).2.regs .rax
      = 0 then .commonIsrExit else .commitPending) (execOps calls _ _) = _
    rw [hbody, if_pos hzero]
    rfl
  · obtain ⟨p₅, hp₅⟩ : ∃ p₅ : Sched × Cpu, p₅ = (p₄.1, p₄.2.set .r12 (p₄.2.regs .rax)) :=
      ⟨_, rfl⟩
    have hview₅ : view p₅ = view p₄ := by rw [hp₅]; rfl
    have hrsp₅ : p₅.2.regs .rsp = frame := by rw [hp₅, ← hrsp₄]; exact set_of_ne (by decide)
    have hr12₅ : p₅.2.regs .r12 = rsp := by rw [hp₅, ← hrax]; exact set_self ..
    obtain ⟨-, hoff₆⟩ := call_view hcalls.commit p₅ none _ rfl
    have hr12₆ := (hsaved hcalls.commit p₅).2
    generalize hp₆ : calls .schedulerCommitPendingTask p₅ = p₆ at hoff₆ hr12₆
    rw [hrsp₅, hview₅] at hoff₆
    apply hrun p₆ ((schedulerCommitPendingTask_off hoff₄).trans hoff₆) (hr12₆.trans hr12₅)
    show runFrom calls isrCode 2 (if (execOps calls (isrCode .commonIsrEntry).body _).2.regs .rax
      = 0 then .commonIsrExit else .commitPending) (execOps calls _ _) = _
    rw [hbody, if_neg (by rw [hrax]; exact hnull)]
    show some (Exit.iretq, execOps calls (isrCode .commonIsrExit).body
      (execOps calls (isrCode .commitPending).body p₄)) = _
    have hcommit : execOps calls (isrCode .commitPending).body p₄ = p₆ := by
      simp only [isrCode, execOps_cons, execOps_nil, Op.exec, exec]
      rw [← hp₅, hp₆]
    rw [hcommit]

end ZenithOS.Interrupt
