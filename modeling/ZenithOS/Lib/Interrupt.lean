/-
Interrupts on x86-64: what a program is interrupted out of and returned
to, the delivery through an interrupt gate, the whole of `iretq`, and
code with labels, which an interrupt routine is.

# The interrupted program

`Context` is all the processor has of a program: the registers, RIP,
CS, RFLAGS and SS. `deliver` pushes part of it and `iret` takes that
part back; the routine between the two has to keep the rest. `leave` on
`iretq` is what `iret` says of the fields a `Cpu` has (`leave_iretq`).

# Calls

A routine calls functions that are compiled from another language and
have a state of their own, `σ`, besides memory. `Compiled` is what such
a call is relied on for: the calling convention, and an effect on `σ`
and memory up to a bounded piece of stack below the caller's.
-/
import ZenithOS.Lib.X86
import Mathlib.Data.List.Basic

namespace ZenithOS.Lib.X86

-- =========================================================== contexts

/-- What an interrupt takes the processor away from. -/
@[ext]
structure Context where
  regs : Reg → Nat
  rip : Nat
  cs : Nat
  rflags : Nat
  ss : Nat

/-- The selectors `iretq` faults on. -/
def Loadable (cs ss : Nat) : Prop :=
  ¬ (nullSelector cs ∨ nullSelector ss ∧ cs % 4 = 3)

instance (cs ss : Nat) : Decidable (Loadable cs ss) :=
  inferInstanceAs (Decidable (¬ _))

/-- A context a processor can be in. -/
structure Context.Valid (k : Context) : Prop where
  regs : ∀ r, k.regs r < 2 ^ 64
  rip : k.rip < 2 ^ 64
  cs : k.cs < 2 ^ 16
  rflags : k.rflags < 2 ^ 64
  ss : k.ss < 2 ^ 16
  loadable : Loadable k.cs k.ss

/-- The processor in a context. -/
def Context.cpu (k : Context) (m : Mem) : Cpu where
  regs := k.regs
  interruptFlag := k.rflags.testBit 9
  rip := k.rip
  cs := k.cs
  ss := k.ss
  mem := m

-- ============================================================= pushes

/-- Push the words in order from stack pointer `sp` on. -/
def pushWords (m : Mem) (sp : Nat) (ws : List Nat) : Mem :=
  (ws.foldl (fun p w => (storeWord p.1 (wordSub p.2 8) w, wordSub p.2 8)) (m, sp)).1

/-- An interrupt gate that names no stack. -/
structure Gate where
  offset : Nat
  selector : Nat

/-- Where the processor pushes from: out of ring 0 it stays on the stack,
out of another it takes that of the TSS, aligned in both cases. -/
def deliveryStack (rsp0 : Nat) (k : Context) : Nat :=
  (if k.cs % 4 = 0 then k.regs .rsp else rsp0) / 16 * 16

/-- What the processor pushes. -/
def deliveredWords (error : Option Nat) (k : Context) : List Nat :=
  [k.ss, k.regs .rsp, k.rflags, k.cs, k.rip] ++ error.toList

/-- The processor at the head of the routine of a gate. -/
def deliver (rsp0 : Nat) (gate : Gate) (error : Option Nat) (k : Context) (m : Mem) : Cpu :=
  let sp := deliveryStack rsp0 k
  let words := deliveredWords error k
  { regs := Function.update k.regs .rsp (sp - 8 * words.length)
    interruptFlag := false
    rip := gate.offset
    cs := gate.selector
    ss := if k.cs % 4 = 0 then k.ss else 0
    mem := pushWords m sp words }

section Deliver

variable (rsp0 : Nat) (gate : Gate) (error : Option Nat) (k : Context) (m : Mem)

/-- The stack after the delivery. -/
theorem deliver_rsp : (deliver rsp0 gate error k m).regs .rsp
    = deliveryStack rsp0 k - 8 * (deliveredWords error k).length := by
  simp only [deliver, Function.update_self]

/-- No other register changes. -/
theorem deliver_of_ne {r : Reg} (hr : r ≠ .rsp) :
    (deliver rsp0 gate error k m).regs r = k.regs r := by
  simp only [deliver]
  rw [Function.update_of_ne hr]

/-- What the delivery writes. -/
theorem deliver_mem : (deliver rsp0 gate error k m).mem
    = pushWords m (deliveryStack rsp0 k) (deliveredWords error k) := by
  unfold deliver
  rfl

end Deliver

/-- All of what `iretq` returns to. -/
def iret (c : Cpu) : Option Context :=
  let sp := c.regs .rsp
  let cs := loadWord c.mem (wordAdd sp 8) % 2 ^ 16
  let ss := loadWord c.mem (wordAdd sp 32) % 2 ^ 16
  if Loadable cs ss then
    some
      { regs := Function.update c.regs .rsp (loadWord c.mem (wordAdd sp 24))
        rip := loadWord c.mem sp
        cs := cs
        rflags := loadWord c.mem (wordAdd sp 16)
        ss := ss }
  else none

/-- `leave` is `iret` on the fields of a `Cpu`. -/
theorem leave_iretq (c : Cpu) : leave .iretq c = (iret c).map fun k => k.cpu c.mem := by
  by_cases hload : Loadable (loadWord c.mem (wordAdd (c.regs .rsp) 8) % 2 ^ 16)
      (loadWord c.mem (wordAdd (c.regs .rsp) 32) % 2 ^ 16)
  · simp only [leave, iret]
    rw [if_neg hload, if_pos hload]
    rfl
  · simp only [leave, iret]
    rw [if_pos (not_not.mp hload), if_neg hload]
    rfl

-- =============================================================== code

/-- An instruction of code with labels: those of straight-line code, the
immediate forms an interrupt routine needs, and the call. -/
inductive Op (φ : Type)
  | instr (i : Instr Empty)
  | pushImm (imm : Nat)
  | andImm (dst : Reg) (imm : Nat)
  | call (target : φ)

/-- The end of a block; `jz` is `test src, src` and `jz zero`, with the
fall through to `next`. -/
inductive Jump (ℓ : Type)
  | jmp (target : ℓ)
  | jz (src : Reg) (zero next : ℓ)
  | exit (e : Exit)

/-- Instructions up to a jump. -/
structure Block (φ ℓ : Type) where
  body : List (Op φ)
  jump : Jump ℓ

variable {φ ℓ σ : Type}

/-- One instruction. `calls` is what calling a function does, as for
`exec`. -/
def Op.exec (calls : φ → σ × Cpu → σ × Cpu) (o : Op φ) (p : σ × Cpu) : σ × Cpu :=
  match o with
  | .instr i => (p.1, X86.exec (fun f : Empty => f.elim) i p.2)
  | .pushImm imm =>
      let sp := wordSub (p.2.regs .rsp) 8
      (p.1, { p.2.set .rsp sp with mem := storeWord p.2.mem sp imm })
  | .andImm dst imm => (p.1, p.2.set dst (p.2.regs dst &&& imm))
  | .call target => calls target p

/-- The instructions in order. -/
def execOps (calls : φ → σ × Cpu → σ × Cpu) (os : List (Op φ)) (p : σ × Cpu) : σ × Cpu :=
  os.foldl (fun p o => o.exec calls p) p

/-- Run from a label to the end of the routine, over at most `fuel`
blocks. -/
def runFrom (calls : φ → σ × Cpu → σ × Cpu) (code : ℓ → Block φ ℓ) :
    Nat → ℓ → σ × Cpu → Option (Exit × σ × Cpu)
  | 0, _, _ => none
  | fuel + 1, l, p =>
      let q := execOps calls (code l).body p
      match (code l).jump with
      | .jmp target => runFrom calls code fuel target q
      | .jz src zero next => runFrom calls code fuel (if q.2.regs src = 0 then zero else next) q
      | .exit e => some (e, q)

/-- What a call to a compiled function is relied on for. `spec` takes the
first argument; it gives the result, if the function has one, and the
new `σ` and memory. The function's own stack is the `depth` bytes below
its caller's stack pointer. -/
structure Compiled (depth : Nat) (spec : Nat → σ → Mem → Option (Option Nat × σ × Mem))
    (f : σ × Cpu → σ × Cpu) : Prop where
  saved : ∀ p, ∀ r ∈ calleeSaved, (f p).2.regs r = p.2.regs r
  effect : ∀ p result s m, spec (p.2.regs .rdi) p.1 p.2.mem = some (result, s, m) →
    (∀ v, result = some v → (f p).2.regs .rax = v) ∧ (f p).1 = s
      ∧ ∀ x, x < p.2.regs .rsp - depth ∨ p.2.regs .rsp ≤ x → (f p).2.mem x = m x

variable {calls : φ → σ × Cpu → σ × Cpu} {m : Mem} {sp : Nat}

@[simp] theorem execOps_nil (p : σ × Cpu) : execOps calls [] p = p := rfl

@[simp] theorem execOps_cons (o : Op φ) (os : List (Op φ)) (p : σ × Cpu) :
    execOps calls (o :: os) p = execOps calls os (o.exec calls p) := rfl

/-- Instructions one after the other. -/
theorem execOps_append (os os' : List (Op φ)) (p : σ × Cpu) :
    execOps calls (os ++ os') p = execOps calls os' (execOps calls os p) := by
  unfold execOps
  rw [List.foldl_append]

/-- A block without calls is straight-line code. -/
theorem execOps_instr (is : List (Instr Empty)) (p : σ × Cpu) :
    execOps calls (is.map .instr) p = (p.1, execAll (fun f : Empty => f.elim) is p.2) := by
  induction is generalizing p with
  | nil => rfl
  | cons i is ih => exact ih _

-- ============================================================== words

theorem pushWords_cons (m : Mem) (sp w : Nat) (ws : List Nat) :
    pushWords m sp (w :: ws)
      = pushWords (storeWord m (wordSub sp 8) w) (wordSub sp 8) ws := by
  unfold pushWords
  rw [List.foldl_cons]

/-- Words pushed in two goes. -/
theorem pushWords_append (m : Mem) (sp : Nat) (ws ws' : List Nat) (hsp : sp < 2 ^ 64)
    (hroom : 8 * ws.length ≤ sp) :
    pushWords m sp (ws ++ ws') = pushWords (pushWords m sp ws) (sp - 8 * ws.length) ws' := by
  induction ws generalizing m sp with
  | nil => rfl
  | cons w ws ih =>
      rw [List.length_cons] at hroom ⊢
      have hpush : wordSub sp 8 = sp - 8 := wordSub_eq (by omega) hsp
      have hend : sp - 8 - 8 * ws.length = sp - 8 * (ws.length + 1) := by omega
      rw [List.cons_append, pushWords_cons, pushWords_cons, hpush, ih _ _ (by omega) (by omega),
        hend]

/-- Pushes write below the stack pointer only. -/
theorem pushWords_outside {ws : List Nat} {x : Nat} (hsp : sp < 2 ^ 64)
    (hroom : 8 * ws.length ≤ sp) (hout : x < sp - 8 * ws.length ∨ sp ≤ x) :
    pushWords m sp ws x = m x := by
  induction ws generalizing m sp with
  | nil => rfl
  | cons w ws ih =>
      rw [List.length_cons] at hroom hout
      have hpush : wordSub sp 8 = sp - 8 := wordSub_eq (by omega) hsp
      rw [pushWords_cons, hpush, ih (by omega) (by omega) (by omega)]
      exact storeWord_outside (by omega)

/-- Each word is where its push left it. -/
theorem pushWords_get (before after : List Nat) {w : Nat} (hsp : sp < 2 ^ 64)
    (hroom : 8 * (before ++ w :: after).length ≤ sp) :
    loadWord (pushWords m sp (before ++ w :: after)) (sp - 8 * (before.length + 1))
      = w % 2 ^ 64 := by
  simp only [List.length_append, List.length_cons] at hroom
  have hpush : wordSub (sp - 8 * before.length) 8 = sp - 8 * (before.length + 1) := by
    rw [wordSub_eq (by omega) (by omega)]
    omega
  rw [pushWords_append m sp before (w :: after) hsp (by omega), pushWords_cons, hpush]
  -- the pushes after it are below it
  have hlater : ∀ m', loadWord (pushWords m' (sp - 8 * (before.length + 1)) after)
      (sp - 8 * (before.length + 1)) = loadWord m' (sp - 8 * (before.length + 1)) := by
    intro m'
    apply loadWord_congr
    intro x hlo _
    exact pushWords_outside (by omega) (by omega) (.inr hlo)
  rw [hlater, loadWord_storeWord]

/-- The words by their number. -/
theorem pushWords_getElem {ws : List Nat} {i w : Nat} (hsp : sp < 2 ^ 64)
    (hroom : 8 * ws.length ≤ sp) (hi : ws[i]? = some w) :
    loadWord (pushWords m sp ws) (sp - 8 * (i + 1)) = w % 2 ^ 64 := by
  obtain ⟨hlt, rfl⟩ := List.getElem?_eq_some_iff.mp hi
  have hsplit : ws.take i ++ ws[i] :: ws.drop (i + 1) = ws := by
    rw [List.getElem_cons_drop, List.take_append_drop]
  have hlen : (ws.take i).length = i := List.length_take_of_le hlt.le
  have hget := pushWords_get (m := m) (ws.take i) (ws.drop (i + 1)) (w := ws[i]) hsp
    (by rwa [hsplit])
  rwa [hsplit, hlen] at hget

/-- Push each immediate in turn. -/
def pushImms (ws : List Nat) : List (Op φ) := ws.map .pushImm

/-- Constants are pushed in order. -/
theorem pushImms_run (calls : φ → σ × Cpu → σ × Cpu) (ws : List Nat) (p : σ × Cpu)
    (hsp : p.2.regs .rsp < 2 ^ 64)
    (hroom : 8 * ws.length ≤ p.2.regs .rsp) :
    execOps calls (pushImms ws) p
      = (p.1, { p.2.set .rsp (p.2.regs .rsp - 8 * ws.length) with
          mem := pushWords p.2.mem (p.2.regs .rsp) ws }) := by
  induction ws generalizing p with
  | nil =>
      have hsame : p.2.set .rsp (p.2.regs .rsp) = p.2 := by
        unfold Cpu.set
        rw [Function.update_eq_self]
      simp only [pushImms, List.map_nil, execOps_nil, List.length_nil, Nat.mul_zero, Nat.sub_zero]
      rw [hsame]
      rfl
  | cons w ws ih =>
      rw [List.length_cons] at hroom ⊢
      have hpush : wordSub (p.2.regs .rsp) 8 = p.2.regs .rsp - 8 := wordSub_eq (by omega) hsp
      have hstep : (Op.pushImm w : Op φ).exec calls p
          = (p.1, { p.2.set .rsp (p.2.regs .rsp - 8) with
              mem := storeWord p.2.mem (p.2.regs .rsp - 8) w }) := by
        simp only [Op.exec]
        rw [hpush]
      have hrsp : (p.2.set .rsp (p.2.regs .rsp - 8)).regs .rsp = p.2.regs .rsp - 8 := set_self ..
      have hend : p.2.regs .rsp - 8 - 8 * ws.length = p.2.regs .rsp - 8 * (ws.length + 1) := by
        omega
      have hrest := ih (p.1, { p.2.set .rsp (p.2.regs .rsp - 8) with
        mem := storeWord p.2.mem (p.2.regs .rsp - 8) w })
        (by simp only [hrsp]; omega) (by simp only [hrsp]; omega)
      rw [pushImms, List.map_cons, execOps_cons, hstep, ← pushImms, hrest, pushWords_cons, hpush]
      simp only [Cpu.set, Function.update_self, Function.update_idem]
      rw [hend]

-- ==================================================== pushed registers

/-- Push each register in turn. -/
def pushes (rs : List Reg) : List (Instr φ) := rs.map .push

variable {calls' : φ → Cpu → Cpu} {c : Cpu} {rs : List Reg} {r : Reg}

theorem push_rsp (s : Reg) (c : Cpu) :
    (exec calls' (.push s) c).regs .rsp = wordSub (c.regs .rsp) 8 := by
  simp only [exec]
  rw [set_self]

theorem push_mem (s : Reg) (c : Cpu) :
    (exec calls' (.push s) c).mem
      = storeWord c.mem (wordSub (c.regs .rsp) 8) (c.regs s) := by
  simp only [exec]

theorem push_of_ne {s : Reg} (hr : r ≠ .rsp) : (exec calls' (.push s) c).regs r = c.regs r := by
  simp only [exec]
  rw [set_of_ne hr]

/-- Registers are pushed as they were before the first push. -/
theorem pushes_mem (hrs : Reg.rsp ∉ rs) :
    (execAll calls' (pushes rs) c).mem = pushWords c.mem (c.regs .rsp) (rs.map c.regs) := by
  induction rs generalizing c with
  | nil => rfl
  | cons s rs ih =>
      rw [List.mem_cons, not_or] at hrs
      have hsame : rs.map (exec calls' (.push s) c).regs = rs.map c.regs := by
        apply List.map_congr_left
        intro u hu
        exact push_of_ne fun heq => hrs.2 (heq ▸ hu)
      rw [pushes, List.map_cons, execAll_cons, ← pushes, ih hrs.2, hsame, push_rsp, push_mem,
        List.map_cons, pushWords_cons]

/-- The stack pointer after the pushes. -/
theorem pushes_rsp (hrs : Reg.rsp ∉ rs) (hsp : c.regs .rsp < 2 ^ 64)
    (hroom : 8 * rs.length ≤ c.regs .rsp) :
    (execAll calls' (pushes rs) c).regs .rsp = c.regs .rsp - 8 * rs.length := by
  induction rs generalizing c with
  | nil => rfl
  | cons s rs ih =>
      rw [List.mem_cons, not_or] at hrs
      rw [List.length_cons] at hroom ⊢
      have hpush : (exec calls' (.push s) c).regs .rsp = c.regs .rsp - 8 :=
        (push_rsp s c).trans (wordSub_eq (by omega) hsp)
      rw [pushes, List.map_cons, execAll_cons, ← pushes, ih hrs.2 (by omega) (by omega), hpush]
      omega

/-- A popped register has the word at its place in the list. -/
theorem pops_idxOf (hrs : Reg.rsp ∉ rs) (hnodup : rs.Nodup) (hr : r ∈ rs)
    (hend : c.regs .rsp + 8 * rs.length < 2 ^ 64) :
    (execAll calls' (pops rs) c).regs r = loadWord c.mem (c.regs .rsp + 8 * rs.idxOf r) := by
  obtain ⟨before, after, rfl, hbefore⟩ := List.eq_append_cons_of_mem hr
  have hafter : r ∉ after := by
    rw [List.nodup_append, List.nodup_cons] at hnodup
    exact hnodup.2.1.1
  have hidx : (before ++ r :: after).idxOf r = before.length := by
    rw [List.idxOf_append_of_notMem hbefore, List.idxOf_cons_self, Nat.add_zero]
  rw [List.length_append] at hend
  rw [pops_get before after hrs hafter (by omega), hidx]

-- ========================================================== alignment

/-- `and r, -16`. -/
theorem and_neg_sixteen {a : Nat} (ha : a < 2 ^ 64) : a &&& (2 ^ 64 - 16) = a / 16 * 16 := by
  have hshift : a / 16 * 16 = (a >>> 4) <<< 4 := by
    rw [Nat.shiftRight_eq_div_pow, Nat.shiftLeft_eq]
  have hmask : (2 ^ 64 - 16 : Nat) = (2 ^ 60 - 1) <<< 4 := by decide
  rw [hshift, hmask]
  apply Nat.eq_of_testBit_eq
  intro i
  rw [Nat.testBit_and, Nat.testBit_shiftLeft, Nat.testBit_shiftLeft, Nat.testBit_shiftRight,
    Nat.testBit_two_pow_sub_one]
  by_cases hi : 4 ≤ i
  · by_cases htop : i - 4 < 60
    · simp [hi, htop, show 4 + (i - 4) = i by omega]
    · have hzero : a.testBit i = false :=
        Nat.testBit_lt_two_pow (ha.trans_le (Nat.pow_le_pow_right (by decide) (by omega)))
      simp [hi, htop, hzero, show 4 + (i - 4) = i by omega]
  · simp [hi]

end ZenithOS.Lib.X86
