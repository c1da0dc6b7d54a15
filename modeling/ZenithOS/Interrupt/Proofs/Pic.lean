/-
Every device's request is handled once, by the handler of its line.

`pic_init` leaves both controllers ready whatever state they were in
(`picInit_ready`), with every line masked; from then on the mask of a
line is what was last asked for (`pic_mask_last`). Between interrupts
nothing is in service, so no request is held back: `IrqInv` is kept by
every step, and with it the count of requests (`irq_requests_handled`).
-/
import ZenithOS.Interrupt.Pic
import ZenithOS.Lib.Run

namespace ZenithOS.Interrupt

open Lib Lib.Pic8259

variable {τ : Type} {P : τ → Prop} {p : Pair} {y y' : IrqSys τ} {line i : Nat}

-- ================================================================ pic.c

/-- The controllers after `pic_init`, whatever they were before. -/
theorem picInit_eq (p : Pair) : picInit p =
    { master :=
        { irr := 0, imr := 0xFF, isr := 0, base := 32, cascade := 4, single := false
          fourth := true, autoEoi := false, awaits := none }
      slave :=
        { irr := 0, imr := 0xFF, isr := 0, base := 40, cascade := 2, single := false
          fourth := true, autoEoi := false, awaits := none } } := by
  rfl

/-- After `pic_init` both controllers are set up and serve nothing. -/
theorem picInit_ready (p : Pair) :
    (picInit p).Ready picPrimaryVector picSecondaryVector ∧ (picInit p).Idle := by
  rw [picInit_eq]
  exact ⟨⟨rfl, rfl, rfl, rfl, rfl, rfl, rfl, rfl⟩, rfl, rfl⟩

/-- Every line is masked. -/
theorem picInit_masked (p : Pair) (hi : i < 16) : (picInit p).masked i = true := by
  have hall : ∀ j < 8, (0xFF#8).getLsbD j = true := by decide
  rw [picInit_eq]
  unfold Pair.masked
  split_ifs with hlt
  · exact hall i hlt
  · exact hall (i - 8) (by omega)

/-- A chip that is not being initialised takes a data byte as its mask. -/
theorem data_ready {c : Chip} (h : c.awaits = none) (v : BitVec 8) :
    c.data v = { c with imr := v } := by
  unfold Chip.data
  rw [h]

section SetMask

variable (h : p.Ready picPrimaryVector picSecondaryVector) (line : Nat) (masked : Bool)
include h

/-- The line's bit is set in the mask of its controller. -/
theorem picSetIrqMask_eq : picSetIrqMask p line masked =
    if line < 8 then
      { p with master := { p.master with
          imr := if masked then p.master.imr ||| bit line else p.master.imr &&& ~~~bit line } }
    else
      { p with slave := { p.slave with
          imr := if masked then p.slave.imr ||| bit (line - 8)
            else p.slave.imr &&& ~~~bit (line - 8) } } := by
  unfold picSetIrqMask
  split_ifs with hlt
  · simp only [Pair.outb, Pair.inb, pic1Data, data_ready h.masterAwaits]
    rfl
  · simp only [Pair.outb, Pair.inb, pic1Data, data_ready h.masterAwaits]
    rfl
  · simp only [Pair.outb, Pair.inb, pic2Data, data_ready h.slaveAwaits]
    rfl
  · simp only [Pair.outb, Pair.inb, pic2Data, data_ready h.slaveAwaits]
    rfl

/-- The controllers stay set up. -/
theorem picSetIrqMask_ready :
    (picSetIrqMask p line masked).Ready picPrimaryVector picSecondaryVector := by
  rw [picSetIrqMask_eq h]
  split_ifs
  all_goals exact ⟨h.1, h.2, h.3, h.4, h.5, h.6, h.7, h.8⟩

theorem picSetIrqMask_idle (hidle : p.Idle) : (picSetIrqMask p line masked).Idle := by
  rw [picSetIrqMask_eq h]
  split_ifs
  all_goals exact hidle

/-- No request is lost. -/
theorem picSetIrqMask_requested (i : Nat) :
    (picSetIrqMask p line masked).requested i = p.requested i := by
  rw [picSetIrqMask_eq h]
  split_ifs <;> rfl

/-- The mask of the line, and of no other, is set. -/
theorem picSetIrqMask_masked (hi : i < 16) :
    (picSetIrqMask p line masked).masked i = if i = line then masked else p.masked i := by
  have hset : ∀ (b : BitVec 8) (l j : Nat), j < 8 →
      (if masked then b ||| bit l else b &&& ~~~bit l).getLsbD j
        = if j = l then masked else b.getLsbD j := by
    intro b l j hj
    cases masked with
    | true =>
        rw [if_pos rfl, BitVec.getLsbD_or, getLsbD_bit]
        by_cases heq : j = l <;> simp [heq, hj]
        omega
    | false =>
        rw [if_neg Bool.false_ne_true, getLsbD_and_not, getLsbD_bit]
        by_cases heq : j = l <;> simp [heq]
        omega
  rw [picSetIrqMask_eq h]
  unfold Pair.masked
  by_cases hl : line < 8 <;> by_cases hlt : i < 8
  · simp only [if_pos hl, if_pos hlt]
    exact hset _ _ _ hlt
  · simp only [if_pos hl, if_neg hlt]
    rw [if_neg (by omega)]
  · simp only [if_neg hl, if_pos hlt]
    rw [if_neg (by omega)]
  · simp only [if_neg hl, if_neg hlt]
    rw [hset _ _ _ (by omega)]
    by_cases heq : i = line
    · rw [if_pos heq, if_pos (by rw [heq])]
    · rw [if_neg heq, if_neg (by omega)]

end SetMask

/-- Mask and unmask lines in order. -/
def setIrqMasks (p : Pair) (ops : List (Nat × Bool)) : Pair :=
  ops.foldl (fun p op => picSetIrqMask p op.1 op.2) p

/-- From controllers that are ready on, a line is masked as it was last
asked for. -/
theorem setIrqMasks_masked (h : p.Ready picPrimaryVector picSecondaryVector)
    (ops : List (Nat × Bool)) (hline : line < 16) : (setIrqMasks p ops).masked line
      = ((ops.reverse.find? fun op => op.1 == line).map Prod.snd).getD (p.masked line) := by
  induction ops generalizing p with
  | nil => rfl
  | cons op ops ih =>
      have hcons : setIrqMasks p (op :: ops) = setIrqMasks (picSetIrqMask p op.1 op.2) ops := rfl
      rw [hcons, ih (picSetIrqMask_ready h _ _), picSetIrqMask_masked h _ _ hline,
        List.reverse_cons, List.find?_append]
      cases List.find? (fun op => op.1 == line) ops.reverse with
      | some op' => rfl
      | none =>
          by_cases heq : line = op.1
          · simp [heq]
          · simp [heq, Ne.symm heq]

/-- However the lines have been masked and unmasked since `pic_init`, each
is as it was last asked for, and masked if it never was. -/
theorem pic_mask_last (p : Pair) (ops : List (Nat × Bool)) (_ : ∀ op ∈ ops, op.1 < 16)
    (line : Nat) (hline : line < 16) :
    (setIrqMasks (picInit p) ops).masked line
      = ((ops.reverse.find? fun op => op.1 == line).map Prod.snd).getD true := by
  rw [setIrqMasks_masked (picInit_ready p).1 ops hline, picInit_masked p hline]

/-- Controllers nothing is known of. -/
def powerOn : Pair where
  master :=
    { irr := 0xA5, imr := 0x3C, isr := 0xFF, base := 8, cascade := 0, single := true
      fourth := false, autoEoi := true, awaits := some .icw3 }
  slave :=
    { irr := 0x5A, imr := 0xC3, isr := 0x10, base := 0x70, cascade := 0, single := false
      fourth := true, autoEoi := false, awaits := none }

/-- The line of the mouse, masked and unmasked. -/
theorem pic_mask_last_mouse :
    (setIrqMasks (picInit powerOn) [(12, true), (2, false), (12, false)]).masked 12 = false :=
  (pic_mask_last powerOn [(12, true), (2, false), (12, false)] (by decide) 12 (by decide)).trans
    rfl

/-- The interrupt of the line is over. -/
theorem picSendEoi_eq (p : Pair) (line : Nat) : picSendEoi p line = p.finish line := by
  have hcommand : ∀ c : Chip, c.command picEoi = c.endOf (first c.isr) := fun c => rfl
  unfold picSendEoi Pair.finish
  by_cases hlt : line < 8
  · rw [if_neg (by omega), if_pos hlt]
    simp only [Pair.outb, pic1Command, if_true, hcommand]
  · rw [if_pos (by omega), if_neg hlt]
    simp only [Pair.outb, pic1Command, pic2Command, if_true, hcommand]
    rfl

-- ============================================================== requests

/-- Between two interrupts. -/
structure IrqInv (P : τ → Prop) (y : IrqSys τ) : Prop where
  ready : y.pics.Ready picPrimaryVector picSecondaryVector
  idle : y.pics.Idle
  state : P y.state
  handlers : ∀ line handler, y.handlers line = some handler →
    ∀ s, P s → ∃ s', handler s = some s' ∧ P s'
  registered : ∀ line, Device line → y.pics.masked line = false → y.handlers line ≠ none
  count : ∀ line, Device line →
    y.calls line + (y.pics.requested line).toNat = y.latched line

/-- Requests latch, and do nothing else. -/
theorem requestSteps (y : IrqSys τ) {lines : List Nat} (hlines : ∀ l ∈ lines, Device l) :
    lines.foldl requestStep y
        = { y with
            pics := y.pics.requestAll lines
            latched := (lines.foldl requestStep y).latched }
      ∧ ∀ i, Device i → (lines.foldl requestStep y).latched i + (y.pics.requested i).toNat
          = y.latched i + ((y.pics.requestAll lines).requested i).toNat := by
  induction lines generalizing y with
  | nil => exact ⟨rfl, fun _ _ => rfl⟩
  | cons l lines ih =>
      obtain ⟨hl, hrest⟩ := List.forall_mem_cons.mp hlines
      obtain ⟨heq, hcount⟩ := ih (requestStep y l) hrest
      refine ⟨heq, ?_⟩
      intro i hi
      have hcount := hcount i hi
      have hfirst : (requestStep y l).latched i + (y.pics.requested i).toNat
          = y.latched i + ((y.pics.request l).requested i).toNat := by
        rw [requested_request hi.1 hl.1]
        unfold requestStep
        by_cases hreq : y.pics.requested l = true
        · by_cases hil : i = l
          · subst hil
            simp [hreq]
          · simp [hreq, hil]
        · by_cases hil : i = l
          · subst hil
            simp [hreq, bump]
          · simp [hreq, hil, bump]
      have hpics : (requestStep y l).pics = y.pics.request l := rfl
      rw [hpics] at hcount
      show (lines.foldl requestStep (requestStep y l)).latched i + (y.pics.requested i).toNat
        = y.latched i + (((y.pics.request l).requestAll lines).requested i).toNat
      omega

-- ============================================================== the step

/-- The vector of a line is 32 more. -/
theorem vector_toNat : ∀ line < 16,
    (vector picPrimaryVector picSecondaryVector line).toNat = irqBaseVector + line := by decide

/-- The invariant holds after `pic_init`. -/
theorem irqInv_boot (p : Pair) {s : τ} (hs : P s) : IrqInv P (irqBoot p s) := by
  have hmasked : ∀ i, Device i → (irqBoot p s).pics.masked i = true := fun i hi =>
    picInit_masked p hi.1
  refine ⟨(picInit_ready p).1, (picInit_ready p).2, hs, ?_, ?_, ?_⟩
  · intro line handler hnone
    cases hnone
  · intro line hdevice hmask
    rw [hmasked line hdevice] at hmask
    cases hmask
  · intro line hdevice
    have hnone : ∀ i < 16, (picInit p).requested i = false := by
      rw [picInit_eq]
      decide
    show 0 + ((picInit p).requested line).toNat = 0
    rw [hnone line hdevice.1]
    rfl

/-- The mask of a line whose handler is registered may be cleared, and
any mask may be set. -/
theorem IrqInv.setMask (h : IrqInv P y) (line : Nat) (masked : Bool)
    (hop : masked = false → Device line → y.handlers line ≠ none) :
    IrqInv P { y with pics := picSetIrqMask y.pics line masked } := by
  refine ⟨picSetIrqMask_ready h.ready _ _, picSetIrqMask_idle h.ready _ _ h.idle, h.state,
    h.handlers, ?_, ?_⟩
  · intro i hdevice hmask
    dsimp only at hmask ⊢
    rw [picSetIrqMask_masked h.ready line masked hdevice.1] at hmask
    split_ifs at hmask with heq
    · subst heq
      exact hop hmask hdevice
    · exact h.registered i hdevice hmask
  · intro i hdevice
    dsimp only
    rw [picSetIrqMask_requested h.ready]
    exact h.count i hdevice

/-- A handler is registered. -/
theorem IrqInv.register (h : IrqInv P y) (line : Nat) {handler : τ → Option τ}
    (hop : ∀ s, P s → ∃ s', handler s = some s' ∧ P s') :
    IrqInv P { y with handlers := (irqRegisterHandler y.handlers line handler).2 } := by
  unfold irqRegisterHandler
  split_ifs
  · exact h
  · refine ⟨h.ready, h.idle, h.state, ?_, ?_, h.count⟩
    · intro i handler' heq
      dsimp only at heq
      by_cases hil : i = line
      · rw [hil, Function.update_self] at heq
        obtain rfl := Option.some.inj heq
        exact hop
      · rw [Function.update_of_ne hil] at heq
        exact h.handlers i handler' heq
    · intro i hdevice hmask
      dsimp only
      by_cases hil : i = line
      · rw [hil, Function.update_self]
        exact Option.some_ne_none handler
      · rw [Function.update_of_ne hil]
        exact h.registered i hdevice hmask

/-- A device asks. -/
theorem IrqInv.request (h : IrqInv P y) (hdevice : Device line) :
    IrqInv P (requestStep y line) := by
  have hsingle : ∀ l ∈ [line], Device l := by
    intro l hl
    rwa [List.mem_singleton.mp hl]
  obtain ⟨-, hcount⟩ := requestSteps y hsingle
  refine ⟨h.ready.request line, h.idle.request line, h.state, h.handlers, ?_, ?_⟩
  · intro i hi hmask
    exact h.registered i hi ((masked_request y.pics line i).symm.trans hmask)
  · intro i hi
    have hold := h.count i hi
    have hnew : (requestStep y line).latched i + (y.pics.requested i).toNat
        = y.latched i + ((y.pics.request line).requested i).toNat := hcount i hi
    show y.calls i + ((y.pics.request line).requested i).toNat = (requestStep y line).latched i
    omega

/-- An interrupt ends, with its request handled. -/
theorem IrqInv.take (h : IrqInv P y) {during : List Nat}
    (hop : (IrqOp.take during).Allowed P y) :
    ∃ y', irqSysStep y (.take during) = some y' ∧ IrqInv P y' := by
  obtain ⟨hsome, hduring⟩ := hop
  obtain ⟨⟨v, pics⟩, haccept⟩ := Option.isSome_iff_exists.mp hsome
  obtain ⟨line, hdel, rfl, rfl, -⟩ := h.ready.accept_eq_some h.idle haccept
  obtain ⟨hdevice, hreq, hmask, -⟩ := hdel
  rw [Bool.not_eq_true'] at hmask
  have hlt := hdevice.1
  -- the handler is there, and comes back
  obtain ⟨handler, hhandler⟩ := Option.ne_none_iff_exists'.mp (h.registered line hdevice hmask)
  obtain ⟨s', hs', hstate⟩ := h.handlers line handler hhandler y.state h.state
  obtain ⟨hsteps, hlatched⟩ := requestSteps { y with pics := y.pics.serve line } hduring
  obtain ⟨y₁, hy₁⟩ : ∃ y₁, y₁ = during.foldl requestStep { y with pics := y.pics.serve line } :=
    ⟨_, rfl⟩
  rw [← hy₁] at hsteps hlatched
  dsimp only at hsteps hlatched
  have hservice : (y₁.pics).InService line := by
    rw [hsteps]
    exact requestAll_keeps (P := fun q => q.InService line) (fun q l hq => hq.request l)
      (h.ready.inService h.idle line) during
  have hready : y₁.pics.Ready picPrimaryVector picSecondaryVector := by
    rw [hsteps]
    exact requestAll_keeps (P := fun q => q.Ready picPrimaryVector picSecondaryVector)
      (fun q l hq => hq.request l) (h.ready.serve line) during
  have hmasked : ∀ i, y₁.pics.masked i = y.pics.masked i := by
    intro i
    rw [hsteps]
    exact requestAll_keeps (P := fun q => q.masked i = y.pics.masked i)
      (fun q l hq => (masked_request q l i).trans hq) (masked_serve y.pics line i) during
  have hfinish := hservice.finish hdevice
  have hstep : irqSysStep y (.take during) = some
      { y₁ with state := s', calls := bump y₁.calls line, pics := y₁.pics.finish line } := by
    have hcall : callHandler y.handlers line = some fun y => (handler y.state).map fun s =>
        { y with state := s, calls := bump y.calls line } := by
      unfold callHandler
      rw [hhandler]
      rfl
    have hstate₁ : handler y₁.state = some s' := by
      rw [hsteps]
      exact hs'
    simp only [irqSysStep, haccept]
    rw [← hy₁]
    unfold irqDispatch irqCount
    rw [vector_toNat line hlt, if_neg (by omega)]
    dsimp only
    rw [Nat.add_sub_cancel_left, hcall]
    dsimp only
    rw [hstate₁, Option.map_some, Option.map_some, picSendEoi_eq]
  refine ⟨_, hstep, ?_, ?_, hstate, ?_, ?_, ?_⟩
  · dsimp only
    rw [hfinish]
    exact ⟨hready.1, hready.2, hready.3, hready.4, hready.5, hready.6, hready.7, hready.8⟩
  · dsimp only
    rw [hfinish]
    exact ⟨rfl, rfl⟩
  · dsimp only
    rw [hsteps]
    exact h.handlers
  · intro i hi hnot
    dsimp only at hnot ⊢
    rw [hfinish] at hnot
    have hsame : y₁.pics.masked i = false := hnot
    rw [hsteps]
    exact h.registered i hi ((hmasked i).symm.trans hsame)
  · intro i hi
    have hold := h.count i hi
    have hnew := hlatched i hi
    have hrequested : (y₁.pics.finish line).requested i
        = (Pair.requestAll (y.pics.serve line) during).requested i := by
      rw [hfinish, hsteps]
      rfl
    have hcalls : y₁.calls = y.calls := by rw [hsteps]
    dsimp only
    rw [requested_serve hi] at hnew
    rw [hrequested, hcalls]
    unfold bump
    by_cases hil : i = line
    · subst hil
      rw [Function.update_self]
      rw [hreq] at hold
      simp at hold hnew
      omega
    · rw [Function.update_of_ne hil]
      simp [hil] at hnew
      omega

/-- Every step keeps the invariant. -/
theorem IrqInv.step (h : IrqInv P y) {op : IrqOp τ} (hop : op.Allowed P y) :
    ∃ y', irqSysStep y op = some y' ∧ IrqInv P y' := by
  cases op with
  | register line handler => exact ⟨_, rfl, h.register line hop⟩
  | mask line => exact ⟨_, rfl, h.setMask line true fun hmasked => by cases hmasked⟩
  | unmask line => exact ⟨_, rfl, h.setMask line false fun _ => hop.2⟩
  | request line => exact ⟨_, rfl, h.request hop⟩
  | take during => exact h.take hop

-- ============================================================== the runs

/-- However devices ask, drivers come up and interrupts are taken: every
request of a line is one call of that line's handler, or still pending;
nothing is left in service; an interrupt is asked for as long as a
request gets through, and it is the first by rank. -/
theorem irq_requests_handled (p : Pair) {s : τ} (hs : P s) {ops : List (IrqOp τ)}
    (hops : AllowedRun irqSysStep (fun y op => op.Allowed P y) (irqBoot p s) ops) :
    ∃ y, runOps irqSysStep (irqBoot p s) ops = some y ∧ P y.state ∧ y.pics.Idle
      ∧ (∀ line, Device line →
        y.calls line + (y.pics.requested line).toNat = y.latched line)
      ∧ (y.pics.accept.isSome ↔ ∃ line, y.pics.Deliverable line)
      ∧ ∀ v p', y.pics.accept = some (v, p') →
        ∃ line, y.pics.Deliverable line ∧ v.toNat = irqBaseVector + line
          ∧ y.handlers line ≠ none ∧ ∀ l, y.pics.Deliverable l → rank line ≤ rank l := by
  obtain ⟨y, hrun, h⟩ := run_total (P := IrqInv P) (fun y op h hop => h.step hop)
    (irqInv_boot p hs) hops
  have haccept : ∀ v p', y.pics.accept = some (v, p') →
      ∃ line, y.pics.Deliverable line ∧ v.toNat = irqBaseVector + line
        ∧ y.handlers line ≠ none ∧ ∀ l, y.pics.Deliverable l → rank line ≤ rank l := by
    intro v p' haccept
    obtain ⟨line, hdel, rfl, -, hfirst⟩ := h.ready.accept_eq_some h.idle haccept
    have hmask := hdel.2.2.1
    rw [Bool.not_eq_true'] at hmask
    exact ⟨line, hdel, vector_toNat line hdel.1.1, h.registered line hdel.1 hmask, hfirst⟩
  refine ⟨y, hrun, h.state, h.idle, h.count, ⟨?_, ?_⟩, haccept⟩
  · intro hsome
    obtain ⟨⟨v, p'⟩, hvp⟩ := Option.isSome_iff_exists.mp hsome
    obtain ⟨line, hdel, -⟩ := haccept v p' hvp
    exact ⟨line, hdel⟩
  · rintro ⟨line, hdel⟩
    exact hdel.accept_isSome h.idle

/-- The timer and the mouse come up; both ask, and the timer asks again
while it is served. -/
def timerAndMouse : List (IrqOp Nat) :=
  [.register irqTimerLine fun s => some (s + 1), .unmask irqTimerLine,
    .register irqMouseLine fun s => some (s + 100), .unmask irqMouseLine, .unmask cascadeLine,
    .request irqMouseLine, .request irqTimerLine, .take [irqTimerLine], .take []]

/-- The timer and the mouse ask, and the timer again. -/
theorem irq_requests_handled_timer_and_mouse :
    ∃ y, runOps irqSysStep (irqBoot powerOn 0) timerAndMouse = some y ∧ y.pics.Idle
      ∧ y.calls irqTimerLine + (y.pics.requested irqTimerLine).toNat = y.latched irqTimerLine := by
  have hhandler : ∀ n s : Nat, True → ∃ s', some (s + n) = some s' ∧ True := fun n s _ =>
    ⟨s + n, rfl, trivial⟩
  have hops : AllowedRun irqSysStep (fun y op => op.Allowed (fun _ => True) y)
      (irqBoot powerOn 0) timerAndMouse := by
    refine ⟨hhandler 1, ⟨by decide, fun _ => Option.some_ne_none _⟩, hhandler 100,
      ⟨by decide, fun _ => Option.some_ne_none _⟩,
      ⟨by decide, fun hdevice => absurd rfl hdevice.2⟩, ?_⟩
    have hmouse : Device irqMouseLine := by decide
    have htimer : Device irqTimerLine := by decide
    exact ⟨hmouse, htimer, ⟨by decide, by decide⟩, ⟨by decide, by decide⟩, trivial⟩
  obtain ⟨y, hrun, -, hidle, hcount, -⟩ := irq_requests_handled powerOn (P := fun _ => True) trivial
    hops
  exact ⟨y, hrun, hidle, hcount irqTimerLine (by decide)⟩

end ZenithOS.Interrupt
