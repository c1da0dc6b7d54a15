/-
Which flag `irq_spin_unlock` restores.

The flag that `irq_spin_lock` saves is in the lock, which is written
before it is taken. A context that enters while another is inside writes
over the other's flag, and over its own when it reads it back late. As
long as nobody stores a flag other than those stored by the contexts
inside, each gets its own back (`irq_spin_unlock_restores`).
-/
import ZenithOS.Sync.IrqSpinlock

namespace ZenithOS.Sync

open Lib

variable {κ χ : Type} [DecidableEq κ] {processor : κ → χ} {y y' : IrqSys κ χ} {c d : κ}
  {op : IrqOp κ χ}

/-- What a context relies on at each statement. -/
def ContextOk (lock : IrqSpinlock) (context : Context) : Prop :=
  match context.statement with
  | .outside => True
  | .disable => context.entryFlag = lock.irqWasEnabled
  | .enable => context.entryFlag = true
  | _ => context.entryFlag = lock.irqWasEnabled ∧ context.interruptsEnabled = false

/-- Every context does. -/
def IrqInv (y : IrqSys κ χ) : Prop := ∀ c, ContextOk y.lock (y.contexts c)

/-- Inside, the lock has the flag that was stored. -/
theorem ContextOk.saved {lock : IrqSpinlock} {context : Context} (h : ContextOk lock context)
    (hinside : context.statement.inside = true) : context.entryFlag = lock.irqWasEnabled := by
  unfold ContextOk at h
  cases hs : context.statement with
  | outside | enable =>
      rw [hs] at hinside
      cases hinside
  | disable =>
      rw [hs] at h
      exact h
  | exchange | spin | holding | barrier | release | test =>
      rw [hs] at h
      exact h.1

/-- A context relies on no more of the lock than the saved flag. -/
theorem ContextOk.congr {lock lock' : IrqSpinlock} {context : Context}
    (h : ContextOk lock context)
    (hlock : context.statement.inside = true → lock'.irqWasEnabled = lock.irqWasEnabled) :
    ContextOk lock' context := by
  unfold ContextOk at h ⊢
  cases hs : context.statement with
  | outside => trivial
  | enable =>
      rw [hs] at h
      exact h
  | disable =>
      rw [hs] at h
      exact h.trans (hlock (by rw [hs]; rfl)).symm
  | exchange | spin | holding | barrier | release | test =>
      rw [hs] at h
      exact ⟨h.1.trans (hlock (by rw [hs]; rfl)).symm, h.2⟩

/-- One context moves on and the lock keeps its saved flag. -/
theorem IrqInv.setContext (h : IrqInv y) {context : Context} {lock : IrqSpinlock}
    (hlock : lock.irqWasEnabled = y.lock.irqWasEnabled) (hcontext : ContextOk y.lock context) :
    IrqInv { y.setContext c context with lock := lock } := by
  intro d
  show ContextOk lock (Function.update y.contexts c context d)
  by_cases hd : d = c
  · rw [hd, Function.update_self]
    exact hcontext.congr fun _ => hlock
  · rw [Function.update_of_ne hd]
    exact (h d).congr fun _ => hlock

/-- A statement of a call. -/
theorem IrqInv.next (h : IrqInv y) (hstep : nextStatement c y = some y') : IrqInv y' := by
  have hc := h c
  unfold ContextOk at hc
  unfold nextStatement at hstep
  dsimp only at hstep
  cases hs : (y.contexts c).statement with
  | outside | holding =>
      rw [hs] at hstep
      cases hstep
  | disable =>
      rw [hs] at hc hstep
      cases hstep
      exact h.setContext rfl ⟨hc, rfl⟩
  | exchange | spin =>
      rw [hs] at hc hstep
      cases hstep
      apply h.setContext rfl
      by_cases hlocked : y.lock.locked ≠ 0
      · rw [if_pos hlocked]
        exact hc
      · rw [if_neg hlocked]
        exact hc
  | barrier | release =>
      rw [hs] at hc hstep
      cases hstep
      exact h.setContext rfl hc
  | test =>
      rw [hs] at hc hstep
      cases hstep
      apply h.setContext rfl
      cases hflag : y.lock.irqWasEnabled with
      | false => trivial
      | true => exact hc.1.trans hflag
  | enable =>
      rw [hs] at hstep
      cases hstep
      exact h.setContext rfl trivial

/-- A context enters and stores its flag, which is that of all inside. -/
theorem IrqInv.lock (h : IrqInv y) (hkeeps : (IrqOp.lock c : IrqOp κ χ).Keeps y) :
    IrqInv { y.setContext c { y.contexts c with
        statement := .disable, entryFlag := (y.contexts c).interruptsEnabled } with
      lock := { y.lock with irqWasEnabled := (y.contexts c).interruptsEnabled } } := by
  intro d
  show ContextOk _ (Function.update y.contexts c _ d)
  by_cases hd : d = c
  · rw [hd, Function.update_self]
    rfl
  · rw [Function.update_of_ne hd]
    apply (h d).congr
    intro hinside
    exact (hkeeps d hinside).symm.trans ((h d).saved hinside)

/-- The last statement of `irq_spin_unlock` leaves the flag as it was on
entry. -/
theorem IrqInv.restores (h : IrqInv y) (hstep : nextStatement c y = some y')
    (hfinish : (y'.contexts c).statement = .outside) :
    (y'.contexts c).interruptsEnabled = (y.contexts c).entryFlag := by
  have hc := h c
  unfold ContextOk at hc
  unfold nextStatement at hstep
  dsimp only at hstep
  cases hs : (y.contexts c).statement with
  | outside | holding =>
      rw [hs] at hstep
      cases hstep
  | disable | barrier | release =>
      rw [hs] at hstep
      cases hstep
      simp only [IrqSys.setContext, Function.update_self] at hfinish
      cases hfinish
  | exchange | spin =>
      rw [hs] at hstep
      cases hstep
      simp only [IrqSys.setContext, Function.update_self] at hfinish
      split at hfinish
      · cases hfinish
      · cases hfinish
  | test =>
      rw [hs] at hc hstep
      cases hstep
      simp only [IrqSys.setContext, Function.update_self] at hfinish ⊢
      cases hflag : y.lock.irqWasEnabled with
      | false => rw [hc.2, hc.1, hflag]
      | true =>
          rw [hflag] at hfinish
          cases hfinish
  | enable =>
      rw [hs] at hc hstep
      cases hstep
      simp only [IrqSys.setContext, Function.update_self]
      exact hc.symm

variable [DecidableEq χ]

/-- Every statement that keeps to the rule keeps the invariant. -/
theorem IrqInv.step (h : IrqInv y) (hkeeps : op.Keeps y)
    (hstep : irqStep processor y op = some y') :
    IrqInv y' := by
  cases op with
  | lock c =>
      simp only [irqStep] at hstep
      split at hstep
      · cases hstep
        exact h.lock hkeeps
      · cases hstep
  | unlock c =>
      simp only [irqStep] at hstep
      split at hstep
      · rename_i hguard
        cases hstep
        have hc := h c
        unfold ContextOk at hc
        rw [hguard.2] at hc
        exact h.setContext rfl hc
      · cases hstep
  | next c =>
      simp only [irqStep] at hstep
      split at hstep
      · exact h.next hstep
      · cases hstep
  | setFlag c enabled =>
      simp only [irqStep] at hstep
      split at hstep
      · rename_i hguard
        cases hstep
        apply h.setContext rfl
        unfold ContextOk
        dsimp only
        rw [hguard.2]
        trivial
      · cases hstep
  | preempt p c =>
      simp only [irqStep] at hstep
      split at hstep
      · cases hstep
        exact h
      · cases hstep

/-- In every run in which no context that enters stores a flag other than
those of the contexts inside, a context that finishes `irq_spin_unlock`
has the flag it had when it entered `irq_spin_lock`. -/
theorem irq_spin_unlock_restores (processor : κ → χ) (flags : κ → Bool) (running : χ → κ)
    (ops : List (IrqOp κ χ))
    (hops : AllowedRun (irqStep processor) (fun y op => op.Keeps y) (irqInit flags running) ops)
    (y : IrqSys κ χ) (hrun : runOps (irqStep processor) (irqInit flags running) ops = some y)
    (c : κ) (y' : IrqSys κ χ) (hstep : irqStep processor y (.next c) = some y')
    (hfinish : (y'.contexts c).statement = .outside) :
    (y'.contexts c).interruptsEnabled = (y.contexts c).entryFlag := by
  have hstart : IrqInv (irqInit flags running : IrqSys κ χ) := fun _ => trivial
  have hi : IrqInv y := run_preserves (fun y op y' h hkeeps hstep => h.step hkeeps hstep) hstart
    hops hrun
  simp only [irqStep] at hstep
  split at hstep
  · exact hi.restores hstep hfinish
  · cases hstep

/-- Two processors. The second has its interrupts off and enters when the
first is outside again. -/
def oneAfterTheOther : List (IrqOp Bool Bool) :=
  [.lock false, .next false, .next false, .unlock false, .next false, .next false, .next false,
    .next false, .lock true, .next true, .next true, .unlock true, .next true, .next true]

/-- Two streams, one after the other. -/
theorem irq_spin_unlock_restores_one_after_the_other :
    ∃ y y', runOps (irqStep id) (irqInit not id) oneAfterTheOther = some y
      ∧ irqStep id y (.next true) = some y' ∧ (y'.contexts true).statement = .outside
      ∧ (y'.contexts true).interruptsEnabled = (y.contexts true).entryFlag := by
  have hvalues : (runOps (irqStep id) (irqInit not id) oneAfterTheOther).bind (fun y =>
      (irqStep id y (.next true)).map fun y' => (y'.contexts true).statement)
      = some .outside := by decide
  obtain ⟨y, hrun, hvalues⟩ := Option.bind_eq_some_iff.mp hvalues
  obtain ⟨y', hstep, hfinish⟩ := Option.map_eq_some_iff.mp hvalues
  exact ⟨y, y', hrun, hstep, hfinish, irq_spin_unlock_restores id not id oneAfterTheOther
    (by decide) y hrun true y' hstep hfinish⟩

/-- The first processor, with its interrupts on, holds the lock when the
second, with its interrupts off, enters. The first finishes with its
interrupts off. -/
theorem irq_spin_lock_overwrites_flag :
    ∃ y y', runOps (irqStep id) (irqInit not id) [.lock false, .next false, .next false,
        .lock true, .unlock false, .next false, .next false] = some y
      ∧ irqStep id y (.next false) = some y' ∧ (y'.contexts false).statement = .outside
      ∧ (y.contexts false).entryFlag = true ∧ (y'.contexts false).interruptsEnabled = false := by
  have hvalues : (runOps (irqStep id) (irqInit not id) [.lock false, .next false, .next false,
      .lock true, .unlock false, .next false, .next false]).bind (fun y =>
      (irqStep id y (.next false)).map fun y' => ((y'.contexts false).statement,
        (y.contexts false).entryFlag, (y'.contexts false).interruptsEnabled))
      = some (.outside, true, false) := by decide
  obtain ⟨y, hrun, hvalues⟩ := Option.bind_eq_some_iff.mp hvalues
  obtain ⟨y', hstep, hvalues⟩ := Option.map_eq_some_iff.mp hvalues
  injection hvalues with hfinish hvalues
  injection hvalues with hentry hflag
  exact ⟨y, y', hrun, hstep, hfinish, hentry, hflag⟩

end ZenithOS.Sync
