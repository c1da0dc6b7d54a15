/-
Straight-line x86-64 routines: the general registers, the interrupt
flag and a flat memory, the moves between them, and the two ways such
routines end (`ret`, `iretq`).

# What is left out

The status flags, which no instruction here reads, paging, and the
descriptor checks of `iretq` beyond the null selectors. An interrupt
does not arrive within a routine.

# Blocks

Context code is made of three kinds of block: a run of pops, a run of
loads off one base register, a run of stores off one base register.
Each kind has its rules below (`pops_*`, `loads_*`, `stores_*`): what it
leaves in a register it names, and that it leaves everything else alone.
A client cites them for its own lists of registers and offsets.
-/
import ZenithOS.Lib.Mem
import Mathlib.Tactic.SplitIfs

namespace ZenithOS.Lib.X86

-- ============================================================ machine

/-- The general registers. -/
inductive Reg
  | rax | rbx | rcx | rdx | rsi | rdi | rbp | rsp
  | r8 | r9 | r10 | r11 | r12 | r13 | r14 | r15
  deriving DecidableEq, Repr

/-- The registers a function returns as it found them. -/
def calleeSaved : List Reg := [.rsp, .rbx, .rbp, .r12, .r13, .r14, .r15]

/-- The registers and flags that routines use. -/
structure Cpu where
  regs : Reg → Nat
  interruptFlag : Bool
  rip : Nat
  cs : Nat
  ss : Nat
  mem : Mem

/-- A register gets a value. -/
def Cpu.set (c : Cpu) (r : Reg) (v : Nat) : Cpu :=
  { c with regs := Function.update c.regs r v }

/-- The instructions a routine is made of, `φ` being the functions it
calls. -/
inductive Instr (φ : Type)
  | push (src : Reg)
  | pop (dst : Reg)
  | mov (dst src : Reg)
  | lea (dst base : Reg) (offset : Nat)
  | load (dst base : Reg) (offset : Nat)
  | store (base : Reg) (offset : Nat) (src : Reg)
  | add (dst : Reg) (imm : Nat)
  | call (target : φ)
  | sti

/-- How a routine ends. -/
inductive Exit
  | ret
  | iretq

/-- Instructions up to a return. -/
structure Routine (φ : Type) where
  body : List (Instr φ)
  exit : Exit

/-- The selectors that name no descriptor. -/
def nullSelector (selector : Nat) : Bool := selector < 4

variable {φ : Type}

/-- One instruction. `calls` is what calling a function does, from the
push of the return address to its return. -/
def exec (calls : φ → Cpu → Cpu) (i : Instr φ) (c : Cpu) : Cpu :=
  match i with
  | .push src =>
      let sp := wordSub (c.regs .rsp) 8
      { c.set .rsp sp with mem := storeWord c.mem sp (c.regs src) }
  | .pop dst =>
      let sp := c.regs .rsp
      (c.set .rsp (wordAdd sp 8)).set dst (loadWord c.mem sp)
  | .mov dst src => c.set dst (c.regs src)
  | .lea dst base offset => c.set dst (wordAdd (c.regs base) offset)
  | .load dst base offset =>
      c.set dst (loadWord c.mem (wordAdd (c.regs base) offset))
  | .store base offset src =>
      { c with mem := storeWord c.mem (wordAdd (c.regs base) offset) (c.regs src) }
  | .add dst imm => c.set dst (wordAdd (c.regs dst) imm)
  | .call target => calls target c
  | .sti => { c with interruptFlag := true }

/-- The instructions in order. -/
def execAll (calls : φ → Cpu → Cpu) (is : List (Instr φ)) (c : Cpu) : Cpu :=
  is.foldl (fun c i => exec calls i c) c

/-- The jump at the end. `iretq` takes RIP, CS, RFLAGS, RSP and SS off
the stack; it faults on a null CS, and on a null SS if CS is of ring 3. -/
def leave (e : Exit) (c : Cpu) : Option Cpu :=
  let sp := c.regs .rsp
  match e with
  | .ret => some { c.set .rsp (wordAdd sp 8) with rip := loadWord c.mem sp }
  | .iretq =>
      let cs := loadWord c.mem (wordAdd sp 8) % 2 ^ 16
      let rflags := loadWord c.mem (wordAdd sp 16)
      let ss := loadWord c.mem (wordAdd sp 32) % 2 ^ 16
      if nullSelector cs ∨ nullSelector ss ∧ cs % 4 = 3 then none
      else
        some { c.set .rsp (loadWord c.mem (wordAdd sp 24)) with
          rip := loadWord c.mem sp, cs := cs, ss := ss
          interruptFlag := rflags.testBit 9 }

/-- A whole routine; `none` where it does not return. -/
def Routine.run (calls : φ → Cpu → Cpu) (r : Routine φ) (c : Cpu) : Option Cpu :=
  leave r.exit (execAll calls r.body c)

/-- A function that does nothing but return, `depth` bytes below its
caller's stack pointer holding its return address and its frame. -/
structure Returns (depth : Nat) (f : Cpu → Cpu) : Prop where
  regs : ∀ c, ∀ r ∈ calleeSaved, (f c).regs r = c.regs r
  mem : ∀ c x, depth ≤ c.regs .rsp → x < c.regs .rsp - depth ∨ c.regs .rsp ≤ x →
    (f c).mem x = c.mem x

variable {calls : φ → Cpu → Cpu} {c : Cpu} {base r : Reg} {v o n : Nat}

-- ========================================================== registers

@[simp] theorem set_self (c : Cpu) (r : Reg) (v : Nat) : (c.set r v).regs r = v :=
  Function.update_self ..

theorem set_of_ne {r' : Reg} (hne : r' ≠ r) : (c.set r v).regs r' = c.regs r' :=
  Function.update_of_ne hne ..

@[simp] theorem set_mem (c : Cpu) (r : Reg) (v : Nat) : (c.set r v).mem = c.mem := rfl

-- ============================================================= blocks

@[simp] theorem execAll_nil (c : Cpu) : execAll calls [] c = c := rfl

@[simp] theorem execAll_cons (i : Instr φ) (is : List (Instr φ)) (c : Cpu) :
    execAll calls (i :: is) c = execAll calls is (exec calls i c) := rfl

/-- Instructions one after the other. -/
theorem execAll_append (is js : List (Instr φ)) (c : Cpu) :
    execAll calls (is ++ js) c = execAll calls js (execAll calls is c) := by
  unfold execAll
  rw [List.foldl_append]

/-- A routine from the middle on. -/
theorem run_append (is js : List (Instr φ)) (e : Exit) (c : Cpu) :
    Routine.run calls ⟨is ++ js, e⟩ c = Routine.run calls ⟨js, e⟩ (execAll calls is c) := by
  unfold Routine.run
  rw [execAll_append]

/-- Leaving a routine only reads memory. -/
theorem leave_mem {e : Exit} {d : Cpu} (h : leave e c = some d) : d.mem = c.mem := by
  cases e with
  | ret =>
      obtain rfl := Option.some.inj h
      rfl
  | iretq =>
      simp only [leave] at h
      split_ifs at h
      obtain rfl := Option.some.inj h
      rfl

-- =============================================================== pops

/-- Pop each register in turn. -/
def pops (rs : List Reg) : List (Instr φ) := rs.map .pop

theorem pops_mem (calls : φ → Cpu → Cpu) (rs : List Reg) (c : Cpu) :
    (execAll calls (pops rs) c).mem = c.mem := by
  induction rs generalizing c with
  | nil => rfl
  | cons r rs ih =>
      rw [pops, List.map_cons, execAll_cons, ← pops, ih]
      simp [exec]

/-- The stack pointer after the pops. -/
theorem pops_rsp {rs : List Reg} (hsp : Reg.rsp ∉ rs)
    (hend : c.regs .rsp + 8 * rs.length < 2 ^ 64) :
    (execAll calls (pops rs) c).regs .rsp = c.regs .rsp + 8 * rs.length := by
  induction rs generalizing c with
  | nil => rfl
  | cons r rs ih =>
      rw [List.mem_cons, not_or] at hsp
      rw [List.length_cons] at hend ⊢
      have hpop : (exec calls (.pop r) c).regs .rsp = c.regs .rsp + 8 := by
        simp only [exec]
        rw [set_of_ne hsp.1, set_self, wordAdd_eq (by omega)]
      rw [pops, List.map_cons, execAll_cons, ← pops, ih hsp.2 (by omega), hpop]
      omega

/-- A register that is not popped keeps its value. -/
theorem pops_of_notMem {rs : List Reg} (hsp : r ≠ .rsp) (hr : r ∉ rs) :
    (execAll calls (pops rs) c).regs r = c.regs r := by
  induction rs generalizing c with
  | nil => rfl
  | cons s rs ih =>
      rw [List.mem_cons, not_or] at hr
      rw [pops, List.map_cons, execAll_cons, ← pops, ih hr.2]
      simp only [exec]
      rw [set_of_ne hr.1, set_of_ne hsp]

/-- A register holds the word its pop met, unless it is popped again. -/
theorem pops_get (before after : List Reg) (hsp : Reg.rsp ∉ before ++ r :: after)
    (hlast : r ∉ after) (hend : c.regs .rsp + 8 * before.length < 2 ^ 64) :
    (execAll calls (pops (before ++ r :: after)) c).regs r
      = loadWord c.mem (c.regs .rsp + 8 * before.length) := by
  rw [List.mem_append, List.mem_cons, not_or, not_or] at hsp
  obtain ⟨hbefore, hr, -⟩ := hsp
  have hsplit : pops (φ := φ) (before ++ r :: after) = pops before ++ .pop r :: pops after := by
    simp [pops]
  rw [hsplit, execAll_append, execAll_cons, pops_of_notMem (Ne.symm hr) hlast]
  simp only [exec]
  rw [set_self, pops_mem, pops_rsp hbefore hend]

-- ============================================================== loads

/-- Load each register from its offset at `base`. -/
def loads (base : Reg) (fields : List (Reg × Nat)) : List (Instr φ) :=
  fields.map fun f => .load f.1 base f.2

variable {fields : List (Reg × Nat)}

theorem loads_mem (calls : φ → Cpu → Cpu) (base : Reg) (fields : List (Reg × Nat)) (c : Cpu) :
    (execAll calls (loads base fields) c).mem = c.mem := by
  induction fields generalizing c with
  | nil => rfl
  | cons f fields ih =>
      rw [loads, List.map_cons, execAll_cons, ← loads, ih]
      simp [exec]

/-- A register that is not loaded keeps its value. -/
theorem loads_of_notMem (hr : r ∉ fields.map Prod.fst) :
    (execAll calls (loads base fields) c).regs r = c.regs r := by
  induction fields generalizing c with
  | nil => rfl
  | cons f fields ih =>
      rw [List.map_cons, List.mem_cons, not_or] at hr
      rw [loads, List.map_cons, execAll_cons, ← loads, ih hr.2]
      simp only [exec]
      rw [set_of_ne hr.1]

/-- Every register named holds the word at its offset. -/
theorem loads_get (hbase : base ∉ fields.map Prod.fst) (hnodup : (fields.map Prod.fst).Nodup)
    (hf : (r, o) ∈ fields) :
    (execAll calls (loads base fields) c).regs r
      = loadWord c.mem (wordAdd (c.regs base) o) := by
  induction fields generalizing c with
  | nil => cases hf
  | cons f fields ih =>
      rw [List.map_cons, List.mem_cons, not_or] at hbase
      rw [List.map_cons, List.nodup_cons] at hnodup
      rw [loads, List.map_cons, execAll_cons, ← loads]
      rcases List.mem_cons.mp hf with rfl | hrest
      · rw [loads_of_notMem hnodup.1]
        simp [exec]
      · rw [ih hbase.2 hnodup.2 hrest]
        simp only [exec, set_mem]
        rw [set_of_ne hbase.1]

-- ============================================================= stores

/-- Store each register at its offset from `base`. -/
def stores (base : Reg) (fields : List (Reg × Nat)) : List (Instr φ) :=
  fields.map fun f => .store base f.2 f.1

/-- Stores change no register. -/
theorem stores_regs (base : Reg) (fields : List (Reg × Nat)) (c : Cpu) :
    (execAll calls (stores base fields) c).regs = c.regs := by
  induction fields generalizing c with
  | nil => rfl
  | cons f fields ih =>
      rw [stores, List.map_cons, execAll_cons, ← stores, ih]
      simp [exec]

/-- A byte no store covers. -/
theorem stores_byte {x : Nat}
    (hout : ∀ f ∈ fields, x < wordAdd (c.regs base) f.2 ∨ wordAdd (c.regs base) f.2 + 8 ≤ x) :
    (execAll calls (stores base fields) c).mem x = c.mem x := by
  induction fields generalizing c with
  | nil => rfl
  | cons f fields ih =>
      have hrest : (execAll calls (stores base fields) (exec calls (.store base f.2 f.1) c)).mem x
          = (exec calls (.store base f.2 f.1) c).mem x :=
        ih fun g hg => hout g (List.mem_cons_of_mem _ hg)
      rw [stores, List.map_cons, execAll_cons, ← stores, hrest]
      exact storeWord_outside (hout f List.mem_cons_self)

/-- The stores stay inside the object at `base`. -/
theorem stores_outside {x : Nat} (hsize : ∀ f ∈ fields, f.2 + 8 ≤ n)
    (hend : c.regs base + n ≤ 2 ^ 64) (hout : x < c.regs base ∨ c.regs base + n ≤ x) :
    (execAll calls (stores base fields) c).mem x = c.mem x := by
  apply stores_byte
  intro f hf
  have hin := hsize f hf
  rw [wordAdd_eq (by omega)]
  omega

/-- Every offset named holds the word of its register. -/
theorem stores_get (hsize : ∀ f ∈ fields, f.2 + 8 ≤ n) (hend : c.regs base + n ≤ 2 ^ 64)
    (hapart : fields.Pairwise fun f g => f.2 + 8 ≤ g.2 ∨ g.2 + 8 ≤ f.2)
    (hf : (r, o) ∈ fields) :
    loadWord (execAll calls (stores base fields) c).mem (c.regs base + o)
      = c.regs r % 2 ^ 64 := by
  induction fields generalizing c with
  | nil => cases hf
  | cons f fields ih =>
      rw [List.pairwise_cons] at hapart
      have hrest := fun g hg => hsize g (List.mem_cons_of_mem f hg)
      rw [stores, List.map_cons, execAll_cons, ← stores]
      rcases List.mem_cons.mp hf with rfl | hmem
      · -- the later stores miss the word just written
        have ho := hsize _ List.mem_cons_self
        have hlater : loadWord (execAll calls (stores base fields)
            (exec calls (.store base o r) c)).mem (c.regs base + o)
            = loadWord (exec calls (.store base o r) c).mem (c.regs base + o) := by
          apply loadWord_congr
          intro x hlo hhi
          apply stores_byte
          intro g hg
          have hg8 := hrest g hg
          have hsep := hapart.1 g hg
          simp only [exec]
          rw [wordAdd_eq (by omega)]
          omega
        rw [hlater]
        simp only [exec]
        rw [wordAdd_eq (by omega), loadWord_storeWord]
      · exact ih hrest hend hapart.2 hmem

end ZenithOS.Lib.X86
