/-
The 8259A interrupt controller, and the two of them a PC has: registers,
initialisation words, requests, the acknowledge cycle, and the end of
interrupt.

# What is modelled

Edge triggered requests and fully nested priorities. A chip asks for its
first line that is requested and not masked, unless that line or an
earlier one is in service. The slave's output is wired to the master's
line 2, whose request is there while the slave asks; who answers the
acknowledge cycle is what the third initialisation word says. Rotation,
polling and the special mask mode are left out: the words that set them
change nothing here.
-/
import Mathlib.Tactic.SplitIfs

namespace ZenithOS.Lib.Pic8259

-- ========================================================== one chip

/-- The initialisation word a chip waits for. -/
inductive Icw
  | icw2
  | icw3
  | icw4
deriving DecidableEq

/-- The registers of one controller. -/
structure Chip where
  /-- Requested. -/
  irr : BitVec 8
  /-- Masked. -/
  imr : BitVec 8
  /-- In service. -/
  isr : BitVec 8
  base : BitVec 8
  cascade : BitVec 8
  single : Bool
  fourth : Bool
  autoEoi : Bool
  awaits : Option Icw
deriving DecidableEq

/-- The bit of a line. -/
def bit (line : Nat) : BitVec 8 := 1#8 <<< line

/-- The first line of a set. -/
def first (b : BitVec 8) : Option Nat := (List.range 8).find? fun i => b.getLsbD i

/-- The line a chip asks for, of those requested. -/
def Chip.asks (c : Chip) (irr : BitVec 8) : Option Nat :=
  (first (irr &&& ~~~c.imr)).filter fun line =>
    (List.range (line + 1)).all fun i => !c.isr.getLsbD i

/-- The acknowledge cycle, for a line. -/
def Chip.acknowledge (c : Chip) (line : Nat) : Chip :=
  { c with
    irr := c.irr &&& ~~~bit line
    isr := if c.autoEoi then c.isr else c.isr ||| bit line }

/-- The end of a line's interrupt. -/
def Chip.endOf (c : Chip) : Option Nat → Chip
  | none => c
  | some line => { c with isr := c.isr &&& ~~~bit line }

/-- A write to the command port. -/
def Chip.command (c : Chip) (v : BitVec 8) : Chip :=
  if v.getLsbD 4 then
    { c with
      irr := 0, imr := 0, isr := 0, autoEoi := false
      single := v.getLsbD 1, fourth := v.getLsbD 0, awaits := some .icw2 }
  else if v.getLsbD 3 then c
  else if v.getLsbD 5 then
    c.endOf (if v.getLsbD 6 then some (v.toNat % 8) else first c.isr)
  else c

/-- The word that follows the third, if any. -/
def Chip.afterCascade (c : Chip) : Option Icw := if c.fourth then some .icw4 else none

/-- A write to the data port. -/
def Chip.data (c : Chip) (v : BitVec 8) : Chip :=
  match c.awaits with
  | none => { c with imr := v }
  | some .icw2 =>
      { c with base := v &&& 0xF8, awaits := if c.single then c.afterCascade else some .icw3 }
  | some .icw3 => { c with cascade := v, awaits := c.afterCascade }
  | some .icw4 => { c with autoEoi := v.getLsbD 1, awaits := none }

-- ========================================================== the pair

/-- Two controllers, the second on line 2 of the first. -/
structure Pair where
  master : Chip
  slave : Chip
deriving DecidableEq

/-- Where the slave is wired to. -/
def cascadeLine : Nat := 2

/-- The master's requests, the slave's output among them. -/
def Pair.requests (p : Pair) : BitVec 8 :=
  if (p.slave.asks p.slave.irr).isSome then p.master.irr ||| bit cascadeLine
  else p.master.irr &&& ~~~bit cascadeLine

/-- A device asks for an interrupt. Lines from 8 on are the slave's. -/
def Pair.request (p : Pair) (line : Nat) : Pair :=
  if line < 8 then { p with master := { p.master with irr := p.master.irr ||| bit line } }
  else { p with slave := { p.slave with irr := p.slave.irr ||| bit (line - 8) } }

/-- The processor takes the interrupt the pair asks for: the vector. -/
def Pair.accept (p : Pair) : Option (BitVec 8 × Pair) :=
  match p.master.asks p.requests with
  | none => none
  | some i =>
      if p.master.cascade.getLsbD i && p.slave.cascade.toNat % 8 == i then
        match p.slave.asks p.slave.irr with
        | none => some (p.slave.base + 7, { p with master := p.master.acknowledge i })
        | some j =>
            some (p.slave.base + BitVec.ofNat 8 j,
              { master := p.master.acknowledge i, slave := p.slave.acknowledge j })
      else some (p.master.base + BitVec.ofNat 8 i, { p with master := p.master.acknowledge i })

/-- The ports of the pair in a PC. -/
def Pair.outb (p : Pair) (port : Nat) (v : BitVec 8) : Pair :=
  if port = 0x20 then { p with master := p.master.command v }
  else if port = 0x21 then { p with master := p.master.data v }
  else if port = 0xA0 then { p with slave := p.slave.command v }
  else if port = 0xA1 then { p with slave := p.slave.data v }
  else p

/-- The data ports read the mask. -/
def Pair.inb (p : Pair) (port : Nat) : BitVec 8 :=
  if port = 0x21 then p.master.imr else if port = 0xA1 then p.slave.imr else 0

/-- A line a device is wired to. -/
def Device (line : Nat) : Prop := line < 16 ∧ line ≠ cascadeLine

instance (line : Nat) : Decidable (Device line) := inferInstanceAs (Decidable (_ ∧ _))

/-- A line is requested. -/
def Pair.requested (p : Pair) (line : Nat) : Bool :=
  if line < 8 then p.master.irr.getLsbD line else p.slave.irr.getLsbD (line - 8)

/-- A line is masked. -/
def Pair.masked (p : Pair) (line : Nat) : Bool :=
  if line < 8 then p.master.imr.getLsbD line else p.slave.imr.getLsbD (line - 8)

/-- A request that gets through to the processor. -/
def Pair.Deliverable (p : Pair) (line : Nat) : Prop :=
  Device line ∧ p.requested line ∧ !p.masked line ∧ (8 ≤ line → !p.masked cascadeLine)

instance (p : Pair) (line : Nat) : Decidable (p.Deliverable line) :=
  inferInstanceAs (Decidable (_ ∧ _ ∧ _ ∧ _))

/-- The order in which lines are served: the slave's lines come in the
place of the line it is wired to. -/
def rank (line : Nat) : Nat := if line < 8 then 8 * line else 8 * cascadeLine + (line - 8)

/-- Initialised: both chips know each other, and end no interrupt of
their own accord. -/
structure Pair.Ready (p : Pair) (base₁ base₂ : BitVec 8) : Prop where
  masterAwaits : p.master.awaits = none
  slaveAwaits : p.slave.awaits = none
  masterBase : p.master.base = base₁
  slaveBase : p.slave.base = base₂
  masterCascade : p.master.cascade = bit cascadeLine
  slaveCascade : p.slave.cascade = BitVec.ofNat 8 cascadeLine
  masterEoi : p.master.autoEoi = false
  slaveEoi : p.slave.autoEoi = false

/-- Nothing is in service. -/
def Pair.Idle (p : Pair) : Prop := p.master.isr = 0 ∧ p.slave.isr = 0

/-- A line goes into service. -/
def Pair.serve (p : Pair) (line : Nat) : Pair :=
  if line < 8 then { p with master := p.master.acknowledge line }
  else { master := p.master.acknowledge cascadeLine, slave := p.slave.acknowledge (line - 8) }

/-- The end of a line's interrupt, at both chips if it is the slave's. -/
def Pair.finish (p : Pair) (line : Nat) : Pair :=
  if line < 8 then { p with master := p.master.endOf (first p.master.isr) }
  else
    { master := p.master.endOf (first p.master.isr), slave := p.slave.endOf (first p.slave.isr) }

variable {p : Pair} {c : Chip} {b : BitVec 8} {line i j : Nat} {base₁ base₂ : BitVec 8}

-- =============================================================== bits

@[simp] theorem getLsbD_bit (line i : Nat) : (bit line).getLsbD i = decide (i = line ∧ i < 8) := by
  unfold bit
  rw [BitVec.getLsbD_shiftLeft, BitVec.getLsbD_one]
  by_cases hi : i < 8
  · by_cases hlt : i < line
    · simp [hi, hlt, Nat.ne_of_lt hlt]
    · simp [hi, hlt]
      omega
  · simp [hi]

theorem getLsbD_and_not (b c : BitVec 8) (i : Nat) :
    (b &&& ~~~c).getLsbD i = (b.getLsbD i && !c.getLsbD i) := by
  rw [BitVec.getLsbD_and, BitVec.getLsbD_not]
  by_cases hi : i < 8
  · simp only [hi, decide_true, Bool.true_and]
  · rw [BitVec.getLsbD_of_ge b i (Nat.le_of_not_lt hi), Bool.false_and, Bool.false_and]

/-- The first line of a set, by its definition. -/
theorem first_eq_some : first b = some i ↔
    i < 8 ∧ b.getLsbD i = true ∧ ∀ j < i, b.getLsbD j = false := by
  unfold first
  rw [List.find?_range_eq_some]
  simp only [List.mem_range, Bool.not_eq_true']
  constructor
  · rintro ⟨hbit, hlt, hfirst⟩
    exact ⟨hlt, hbit, hfirst⟩
  · rintro ⟨hlt, hbit, hfirst⟩
    exact ⟨hbit, hlt, hfirst⟩

/-- Only the empty set has no first line. -/
theorem first_eq_none : first b = none ↔ ∀ i, b.getLsbD i = false := by
  unfold first
  rw [List.find?_range_eq_none]
  constructor
  · intro h i
    by_cases hi : i < 8
    · simpa using h i hi
    · exact BitVec.getLsbD_of_ge b i (by omega)
  · intro h i _
    simp [h i]

/-- A single line is the first. -/
theorem first_bit (hline : line < 8) : first (bit line) = some line := by
  rw [first_eq_some]
  refine ⟨hline, by simp [hline], ?_⟩
  intro j hj
  simp [Nat.ne_of_lt hj]

/-- With nothing in service the first request is asked for. -/
theorem asks_idle (h : c.isr = 0) (irr : BitVec 8) : c.asks irr = first (irr &&& ~~~c.imr) := by
  unfold Chip.asks
  rw [h]
  cases first (irr &&& ~~~c.imr) with
  | none => rfl
  | some line => simp

-- ============================================================= accept

/-- The vector of a line. -/
def vector (base₁ base₂ : BitVec 8) (line : Nat) : BitVec 8 :=
  if line < 8 then base₁ + BitVec.ofNat 8 line else base₂ + BitVec.ofNat 8 (line - 8)

/-- The master's requests on the other lines are its own. -/
theorem getLsbD_requests (hi : i ≠ cascadeLine) :
    p.requests.getLsbD i = p.master.irr.getLsbD i := by
  unfold Pair.requests
  split_ifs
  · rw [BitVec.getLsbD_or]
    simp [hi]
  · rw [getLsbD_and_not]
    simp [hi]

/-- The slave asks through the cascade. -/
theorem getLsbD_requests_cascade :
    p.requests.getLsbD cascadeLine = (p.slave.asks p.slave.irr).isSome := by
  have hlt : cascadeLine < 8 := by decide
  unfold Pair.requests
  split_ifs with hasks
  · rw [BitVec.getLsbD_or]
    simp [hlt, hasks]
  · rw [getLsbD_and_not, getLsbD_bit]
    simpa [hlt] using hasks

/-- No line behind the first is asked for. -/
theorem not_first {irr imr : BitVec 8} (hfirst : ∀ k < i, (irr &&& ~~~imr).getLsbD k = false)
    (hirr : irr.getLsbD j = true) (himr : imr.getLsbD j = false) : i ≤ j := by
  apply Nat.le_of_not_lt
  intro hlt
  have hnone := hfirst j hlt
  rw [getLsbD_and_not, hirr, himr] at hnone
  cases hnone

/-- A request at the slave that gets through is one the slave asks for. -/
theorem Pair.Deliverable.slave_asks (hidle : p.Idle) (h : p.Deliverable line) (hline : 8 ≤ line) :
    (p.slave.asks p.slave.irr).isSome = true := by
  obtain ⟨⟨hlt, -⟩, hreq, hmask, -⟩ := h
  rw [asks_idle hidle.2]
  cases hfirst : first (p.slave.irr &&& ~~~p.slave.imr) with
  | some j => rfl
  | none =>
      have hbit := first_eq_none.mp hfirst (line - 8)
      have hnot : ¬ line < 8 := by omega
      simp only [Pair.requested, Pair.masked, if_neg hnot, Bool.not_eq_true'] at hreq hmask
      rw [getLsbD_and_not, hreq, hmask] at hbit
      cases hbit

/-- What the processor takes: a deliverable request, the first by rank,
with the vector of its line; and that line goes into service. -/
theorem Pair.Ready.accept_eq_some (h : p.Ready base₁ base₂) (hidle : p.Idle) {v : BitVec 8}
    {p' : Pair} (haccept : p.accept = some (v, p')) :
    ∃ line, p.Deliverable line ∧ v = vector base₁ base₂ line ∧ p' = p.serve line
      ∧ ∀ l, p.Deliverable l → rank line ≤ rank l := by
  have hcascade : cascadeLine = 2 := rfl
  unfold Pair.accept at haccept
  cases hask : p.master.asks p.requests with
  | none =>
      rw [hask] at haccept
      cases haccept
  | some i =>
      rw [hask] at haccept
      dsimp only at haccept
      rw [asks_idle hidle.1, first_eq_some] at hask
      obtain ⟨hi, hbit, hfirst⟩ := hask
      rw [getLsbD_and_not, Bool.and_eq_true, Bool.not_eq_true'] at hbit
      obtain ⟨hreq, hmask⟩ := hbit
      have hself : (p.master.cascade.getLsbD i && p.slave.cascade.toNat % 8 == i)
          = decide (i = cascadeLine) := by
        rw [h.masterCascade, h.slaveCascade, getLsbD_bit]
        by_cases heq : i = cascadeLine
        · subst heq
          rfl
        · simp [heq]
      rw [hself] at haccept
      -- the first of the master's own lines that gets through is not before `i`
      have hown : ∀ l, l < 8 → p.Deliverable l → i ≤ l := by
        intro l hl hdel
        obtain ⟨⟨-, hne⟩, hlreq, hlmask, -⟩ := hdel
        simp only [Pair.requested, Pair.masked, if_pos hl, Bool.not_eq_true'] at hlreq hlmask
        exact not_first hfirst ((getLsbD_requests hne).trans hlreq) hlmask
      by_cases heq : i = cascadeLine
      · subst heq
        rw [getLsbD_requests_cascade, Option.isSome_iff_exists] at hreq
        obtain ⟨j, hj⟩ := hreq
        simp only [decide_true, if_true, hj] at haccept
        obtain ⟨rfl, rfl⟩ := Prod.mk.inj (Option.some.inj haccept)
        rw [asks_idle hidle.2, first_eq_some] at hj
        obtain ⟨hjlt, hjbit, hjfirst⟩ := hj
        have hnot : ¬ 8 + j < 8 := by omega
        have hsub : 8 + j - 8 = j := by omega
        rw [getLsbD_and_not, Bool.and_eq_true, Bool.not_eq_true'] at hjbit
        refine ⟨8 + j, ⟨⟨by omega, by omega⟩, ?_, ?_, ?_⟩, ?_, ?_, ?_⟩
        · simp only [Pair.requested, if_neg hnot, hsub]
          exact hjbit.1
        · simp only [Pair.masked, if_neg hnot, hsub, Bool.not_eq_true']
          exact hjbit.2
        · intro _
          simp only [Pair.masked, if_pos hi, Bool.not_eq_true']
          exact hmask
        · simp only [vector, if_neg hnot, hsub, h.slaveBase]
        · simp only [Pair.serve, if_neg hnot, hsub]
        · intro l hdel
          unfold rank
          by_cases hl : l < 8
          · have hle := hown l hl hdel
            have hne := hdel.1.2
            simp only [if_neg hnot, if_pos hl]
            omega
          · obtain ⟨⟨hlt, -⟩, hlreq, hlmask, -⟩ := hdel
            simp only [Pair.requested, Pair.masked, if_neg hl, Bool.not_eq_true'] at hlreq hlmask
            have hle := not_first hjfirst hlreq hlmask
            simp only [if_neg hnot, if_neg hl]
            omega
      · simp only [heq, decide_false, Bool.false_eq_true, if_false] at haccept
        obtain ⟨rfl, rfl⟩ := Prod.mk.inj (Option.some.inj haccept)
        rw [getLsbD_requests heq] at hreq
        refine ⟨i, ⟨⟨by omega, heq⟩, ?_, ?_, fun hge => absurd hge (by omega)⟩, ?_, ?_, ?_⟩
        · simp only [Pair.requested, if_pos hi]
          exact hreq
        · simp only [Pair.masked, if_pos hi, Bool.not_eq_true']
          exact hmask
        · simp only [vector, if_pos hi, h.masterBase]
        · simp only [Pair.serve, if_pos hi]
        · intro l hdel
          unfold rank
          by_cases hl : l < 8
          · have hle := hown l hl hdel
            simp only [if_pos hi, if_pos hl]
            omega
          · -- the slave asks, on a line after `i`
            have hasks := hdel.slave_asks hidle (by omega)
            have hlmask := hdel.2.2.2 (by omega)
            simp only [Pair.masked, hcascade, show (2 : Nat) < 8 by decide, if_true,
              Bool.not_eq_true'] at hlmask
            have hle := not_first hfirst (getLsbD_requests_cascade.trans hasks) hlmask
            simp only [if_pos hi, if_neg hl]
            omega

/-- Whatever gets through is taken. -/
theorem Pair.Deliverable.accept_isSome (hidle : p.Idle) (h : p.Deliverable line) :
    p.accept.isSome = true := by
  have hsome : (p.master.asks p.requests).isSome = true := by
    rw [asks_idle hidle.1]
    cases hfirst : first (p.requests &&& ~~~p.master.imr) with
    | some i => rfl
    | none =>
        have hbits := first_eq_none.mp hfirst
        by_cases hl : line < 8
        · obtain ⟨⟨-, hne⟩, hreq, hmask, -⟩ := h
          simp only [Pair.requested, Pair.masked, if_pos hl, Bool.not_eq_true'] at hreq hmask
          have hbit := hbits line
          rw [getLsbD_and_not, getLsbD_requests hne, hreq, hmask] at hbit
          cases hbit
        · have hasks := h.slave_asks hidle (by omega)
          have hmask := h.2.2.2 (by omega)
          have hbit := hbits cascadeLine
          have hlt : cascadeLine < 8 := by decide
          simp only [Pair.masked, if_pos hlt, Bool.not_eq_true'] at hmask
          rw [getLsbD_and_not, getLsbD_requests_cascade, hasks, hmask] at hbit
          cases hbit
  obtain ⟨i, hi⟩ := Option.isSome_iff_exists.mp hsome
  unfold Pair.accept
  rw [hi]
  dsimp only
  split_ifs
  · cases p.slave.asks p.slave.irr <;> rfl
  · rfl

-- =========================================================== requests

/-- A request leaves the set-up alone. -/
theorem Pair.Ready.request (h : p.Ready base₁ base₂) (line : Nat) :
    (p.request line).Ready base₁ base₂ := by
  unfold Pair.request
  split_ifs
  · exact ⟨h.1, h.2, h.3, h.4, h.5, h.6, h.7, h.8⟩
  · exact ⟨h.1, h.2, h.3, h.4, h.5, h.6, h.7, h.8⟩

/-- A request unmasks nothing. -/
theorem masked_request (p : Pair) (line i : Nat) : (p.request line).masked i = p.masked i := by
  unfold Pair.request
  split_ifs <;> rfl

/-- A request adds its line. -/
theorem requested_request (hi : i < 16) (hline : line < 16) :
    (p.request line).requested i = (decide (i = line) || p.requested i) := by
  unfold Pair.request Pair.requested
  by_cases hl : line < 8 <;> by_cases hlt : i < 8
  · simp only [if_pos hl, if_pos hlt]
    rw [BitVec.getLsbD_or, getLsbD_bit, Bool.or_comm]
    simp [hlt]
  · simp only [if_pos hl, if_neg hlt]
    simp [show i ≠ line by omega]
  · simp only [if_neg hl, if_pos hlt]
    simp [show i ≠ line by omega]
  · simp only [if_neg hl, if_neg hlt]
    rw [BitVec.getLsbD_or, getLsbD_bit, Bool.or_comm]
    have hiff : (i - 8 = line - 8 ∧ i - 8 < 8) ↔ i = line := by omega
    rw [decide_eq_decide.mpr hiff]

/-- A line is in service, and the slave's line with it if it is one of
the slave's. -/
def Pair.InService (p : Pair) (line : Nat) : Prop :=
  p.master.isr = bit (if line < 8 then line else cascadeLine)
    ∧ p.slave.isr = if line < 8 then 0 else bit (line - 8)

/-- A request leaves what is in service. -/
theorem Pair.InService.request (h : p.InService line) (l : Nat) :
    (p.request l).InService line := by
  unfold Pair.request
  split_ifs
  · exact h
  · exact h

theorem Pair.Idle.request (h : p.Idle) (l : Nat) : (p.request l).Idle := by
  unfold Pair.request
  split_ifs
  · exact h
  · exact h

/-- Requests one after another. -/
def Pair.requestAll (p : Pair) (lines : List Nat) : Pair := lines.foldl Pair.request p

/-- What a request keeps, requests keep. -/
theorem requestAll_keeps {P : Pair → Prop} (hstep : ∀ p l, P p → P (p.request l)) (h : P p)
    (lines : List Nat) : P (p.requestAll lines) := by
  induction lines generalizing p with
  | nil => exact h
  | cons l lines ih => exact ih (hstep p l h)

-- ============================================================ service

/-- Service leaves the set-up alone. -/
theorem Pair.Ready.serve (h : p.Ready base₁ base₂) (line : Nat) :
    (p.serve line).Ready base₁ base₂ := by
  unfold Pair.serve
  split_ifs
  · exact ⟨h.1, h.2, h.3, h.4, h.5, h.6, h.7, h.8⟩
  · exact ⟨h.1, h.2, h.3, h.4, h.5, h.6, h.7, h.8⟩

/-- Service unmasks nothing. -/
theorem masked_serve (p : Pair) (line i : Nat) : (p.serve line).masked i = p.masked i := by
  unfold Pair.serve
  split_ifs <;> rfl

/-- The request of the line in service is taken, and no other. -/
theorem requested_serve (hi : Device i) :
    (p.serve line).requested i = (p.requested i && !decide (i = line)) := by
  obtain ⟨hlt, hne⟩ := hi
  unfold Pair.serve Pair.requested
  by_cases hl : line < 8 <;> by_cases hi : i < 8
  · simp only [if_pos hl, if_pos hi, Chip.acknowledge]
    rw [getLsbD_and_not, getLsbD_bit]
    simp [hi]
  · simp only [if_pos hl, if_neg hi]
    simp [show i ≠ line by omega]
  · simp only [if_neg hl, if_pos hi, Chip.acknowledge]
    rw [getLsbD_and_not, getLsbD_bit]
    simp [hne, show i ≠ line by omega]
  · simp only [if_neg hl, if_neg hi, Chip.acknowledge]
    rw [getLsbD_and_not, getLsbD_bit]
    have hiff : (i - 8 = line - 8 ∧ i - 8 < 8) ↔ i = line := by omega
    rw [decide_eq_decide.mpr hiff]

/-- The line is in service, and no other. -/
theorem Pair.Ready.inService (h : p.Ready base₁ base₂) (hidle : p.Idle) (line : Nat) :
    (p.serve line).InService line := by
  have hbit : ∀ l, (0 : BitVec 8) ||| bit l = bit l := fun l => BitVec.zero_or
  unfold Pair.serve Pair.InService
  split_ifs
  · simp only [Chip.acknowledge, h.masterEoi, hidle.1, hidle.2, Bool.false_eq_true, if_false]
    exact ⟨hbit _, trivial⟩
  · simp only [Chip.acknowledge, h.masterEoi, h.slaveEoi, hidle.1, hidle.2, Bool.false_eq_true,
      if_false]
    exact ⟨hbit _, hbit _⟩

/-- The end of interrupt that names no line ends the one in service. -/
theorem endOf_bit (hisr : c.isr = bit line) (hline : line < 8) :
    c.endOf (first c.isr) = { c with isr := 0 } := by
  have hnone : bit line &&& ~~~bit line = (0 : BitVec 8) := BitVec.and_not_self _
  rw [hisr, first_bit hline]
  simp only [Chip.endOf, hisr]
  rw [hnone]

/-- The end of the interrupt in service: then nothing is in service. -/
theorem Pair.InService.finish (h : p.InService line) (hline : Device line) :
    p.finish line
      = { master := { p.master with isr := 0 }, slave := { p.slave with isr := 0 } } := by
  obtain ⟨hmaster, hslave⟩ := h
  have hlt := hline.1
  unfold Pair.finish
  split_ifs at hmaster hslave ⊢ with hl
  · rw [endOf_bit hmaster hl, ← hslave]
  · rw [endOf_bit hmaster (by decide), endOf_bit hslave (by omega)]

end ZenithOS.Lib.Pic8259
