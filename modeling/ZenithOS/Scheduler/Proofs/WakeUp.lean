/-
The timer wakes exactly the sleepers whose time has come, in any state
whose queues can be walked.

`SchedInv` says much more than the loop needs, and holds of the states
the kernel reaches. The loop itself asks for queues that end and share
no task (`Threaded`): each sleeper that is due is unlinked from the list
that is being walked and linked to the end of another one through the
same field, after its successor has been read.
-/
import ZenithOS.Scheduler.Proofs.Partition

namespace ZenithOS.Scheduler

open Lib Mm Proc

variable {μ : Type} [DecidableEq μ] {s s' : Sched} {wait : μ → Option TaskPtr}
  {q : QueueId μ → List TaskPtr} {t : TaskPtr} {k : QueueId μ}

omit [DecidableEq μ] in
/-- The queues are disjoint, acyclic and of tasks that exist. -/
structure Threaded (s : Sched) (wait : μ → Option TaskPtr) (q : QueueId μ → List TaskPtr) :
    Prop where
  queues : Queues (links s) (queueHead s wait) q
  exist : ∀ k, ∀ t ∈ q k, t < s.taskCount

omit [DecidableEq μ] in
/-- Queues are no longer than there are tasks. -/
theorem Threaded.length_le (h : Threaded s wait q) (k : QueueId μ) :
    (q k).length ≤ s.taskCount := by
  have hsub : q k ⊆ List.range s.taskCount := fun t ht => List.mem_range.mpr (h.exist k t ht)
  simpa using (List.subperm_of_subset (h.queues.linked k).nodup hsub).length_le

omit [DecidableEq μ] in
/-- The queues depend on the shape alone. -/
theorem Threaded.congr {out : List TaskPtr} (h : Threaded s wait q) (hs : SameShape out s s') :
    Threaded s' wait q := by
  have hhead : queueHead s' wait = queueHead s wait := by
    funext k
    cases k with
    | ready => exact hs.readyQueue
    | blocked => exact hs.blockedQueue
    | sleep => exact hs.sleepQueue
    | wait m => rfl
  refine ⟨?_, ?_⟩
  · rw [hs.links, hhead]
    exact h.queues
  · rw [hs.taskCount]
    exact h.exist

/-- A sleeper is taken out of the sleep queue. -/
theorem Threaded.sleepRemove (h : Threaded s wait q) (ht : t ∈ q .sleep) :
    ∃ next head, sleepRemove s t = some (relink s next (.sleep : QueueId μ) head)
      ∧ Threaded (relink s next (.sleep : QueueId μ) head) wait
          (Function.update q .sleep ((q .sleep).erase t))
      ∧ ∀ k, t ∉ Function.update q .sleep ((q .sleep).erase t) k := by
  obtain ⟨next, head, hunlink, -, hout⟩ := h.queues.remove ht (h.length_le .sleep)
  have hunlink' : unlink (links s) s.taskCount s.sleepQueue t = some (next, head) := hunlink
  have hnodup := (h.queues.linked .sleep).nodup
  have hwait : ∀ m, wait m = if QueueId.sleep = QueueId.wait m then head else wait m := by simp
  refine ⟨next, head, ?_, ⟨?_, ?_⟩, ?_⟩
  · simp only [Scheduler.sleepRemove, taskQueueRemove, hunlink', Option.map_some]
    rfl
  · rw [links_relink, queueHead_relink hwait]
    exact hout
  · rw [relink_taskCount]
    intro k u hu
    by_cases hk : k = .sleep
    · rw [hk, Function.update_self] at hu
      exact h.exist .sleep u (List.mem_of_mem_erase hu)
    · rw [Function.update_of_ne hk] at hu
      exact h.exist k u hu
  · intro k hmem
    by_cases hk : k = .sleep
    · rw [hk, Function.update_self] at hmem
      exact (hnodup.mem_erase_iff.mp hmem).1 rfl
    · rw [Function.update_of_ne hk] at hmem
      exact hk (h.queues.disjoint hmem ht)

/-- A task in no queue becomes the last of the ready ones. -/
theorem Threaded.readyPush (h : Threaded s wait q) (ht : t < s.taskCount)
    (hfree : ∀ k, t ∉ q k) :
    ∃ next head, readyPush s t = some (relink s next (.ready : QueueId μ) head)
      ∧ Threaded (relink s next (.ready : QueueId μ) head) wait
          (Function.update q .ready (q .ready ++ [t])) := by
  obtain ⟨next, head, hpush, hin⟩ := h.queues.push hfree (h.length_le .ready)
  have hpush' : pushBack (links s) s.taskCount s.readyQueue t = some (next, head) := hpush
  have hwait : ∀ m, wait m = if QueueId.ready = QueueId.wait m then head else wait m := by simp
  refine ⟨next, head, ?_, ⟨?_, ?_⟩⟩
  · simp only [Scheduler.readyPush, taskQueuePush, hpush', Option.map_some]
    rfl
  · rw [links_relink, queueHead_relink hwait]
    exact hin
  · rw [relink_taskCount]
    intro k u hu
    by_cases hk : k = .ready
    · rw [hk, Function.update_self] at hu
      rcases List.mem_append.mp hu with hu | hu
      · exact h.exist .ready u hu
      · rw [List.mem_singleton.mp hu]
        exact ht
    · rw [Function.update_of_ne hk] at hu
      exact h.exist k u hu

/-- A sleeper becomes the last of the ready tasks. -/
theorem Threaded.wakeTask (h : Threaded s wait q) (ht : t ∈ q .sleep) :
    ∃ s', wakeTask s t = some s'
      ∧ Threaded s' wait (Function.update
          (Function.update q .sleep ((q .sleep).erase t)) .ready (q .ready ++ [t]))
      ∧ Kept s s' ∧ Readied s s' t ∧ ∀ u ≠ t, SameTask s s' u := by
  obtain ⟨next, head, hremove, hout, hfree⟩ := h.sleepRemove ht
  have hshape : SameShape [t] (relink s next (.sleep : QueueId μ) head)
      (schedulerResetResumeState (setState (relink s next (.sleep : QueueId μ) head) t .ready) t) :=
    (setState_sameShape List.mem_cons_self).trans schedulerResetResumeState_sameShape
  obtain ⟨next', head', hpush, hin⟩ := (hout.congr hshape).readyPush
    (by rw [hshape.taskCount, relink_taskCount]; exact h.exist .sleep t ht) hfree
  rw [Function.update_of_ne (by simp)] at hin
  refine ⟨_, by rw [Scheduler.wakeTask, hremove]; exact hpush, hin, ?_, ?_, ?_⟩
  · exact relink_kept.trans (setState_kept.trans (schedulerResetResumeState_kept.trans relink_kept))
  · simp [Readied, relink, setLinks, schedulerResetResumeState, setState]
  · intro u hu
    exact relink_sameTask.trans ((setTask_sameTask hu).trans
      ((setTask_sameTask hu).trans relink_sameTask))

/-- Waking keeps the queues threaded. -/
theorem Threaded.wakes (wait : μ → Option TaskPtr) :
    Wakes (fun s q => Threaded s wait q) :=
  ⟨fun h => h.queues.linked .sleep, fun h ht => h.wakeTask ht⟩

/-- Nothing about queue `k` is different: its head, its tasks and their
links. -/
structure SameQueue (s s' : Sched) (wait : μ → Option TaskPtr) (q : QueueId μ → List TaskPtr)
    (k : QueueId μ) : Prop where
  head : queueHead s' wait k = queueHead s wait k
  nexts : ∀ t ∈ q k, links s' t = links s t

/-- Whatever the tick and the queues: `scheduler_tick` comes back, and
has moved exactly the sleepers that are due to the end of the ready
queue. -/
theorem scheduler_tick_exact (h : Threaded s wait q) :
    ∃ s' q', schedulerTick s = some s' ∧ Threaded s' wait q'
      ∧ q' .ready = q .ready ++ (q .sleep).filter (due s)
      ∧ q' .sleep = (q .sleep).filter (fun t => !due s t)
      ∧ (∀ k, k ≠ .ready → k ≠ .sleep → q' k = q k ∧ SameQueue s s' wait q k)
      ∧ Woken (q .sleep) s s' := by
  obtain ⟨s', hrun, hafter, hwoken⟩ := (Threaded.wakes wait).tick h (h.length_le .sleep)
  refine ⟨s', _, hrun, hafter, ?_, ?_, ?_, hwoken⟩
  · rw [afterWake, Function.update_self]
  · rw [afterWake, Function.update_of_ne (by simp), Function.update_self, List.nil_append]
  · intro k hready hsleep
    have hk : afterWake s q [] (q .sleep) k = q k := by
      rw [afterWake, Function.update_of_ne hready, Function.update_of_ne hsleep]
    have hlinked := hafter.queues.linked k
    rw [hk] at hlinked
    obtain ⟨hhead, hnexts⟩ := (h.queues.linked k).same hlinked
    exact ⟨hk, hhead, hnexts⟩

/-- Tasks 1 and 2 sleep until the ticks 5 and 6, and it is 5. -/
def twoSleepers : Sched :=
  { bootSched with
    taskCount := 3
    systemTicks := 5
    sleepQueue := some 1
    tasks := fun t =>
      if t = 1 then { state := .sleeping, next := some 2, wakeTick := 5 }
      else if t = 2 then { state := .sleeping, wakeTick := 6 }
      else {} }

/-- Tasks 1 and 2 sleep. -/
def sleepersOnly : QueueId Empty → List TaskPtr
  | .sleep => [1, 2]
  | _ => []

theorem twoSleepers_threaded : Threaded twoSleepers noWait sleepersOnly := by
  refine ⟨⟨?_, ?_⟩, ?_⟩
  · intro k
    cases k with
    | sleep => exact ⟨rfl, rfl, rfl⟩
    | ready | blocked => exact Eq.refl none
    | wait m => exact m.elim
  · intro k k' t hk hk'
    cases k <;> cases k' <;> simp_all [sleepersOnly]
  · intro k t ht
    show t < 3
    cases k with
    | sleep =>
        simp only [sleepersOnly, List.mem_cons, List.not_mem_nil, or_false] at ht
        rcases ht with rfl | rfl <;> decide
    | ready | blocked => exact absurd ht List.not_mem_nil
    | wait m => exact m.elim

/-- Of two sleepers one is due. -/
theorem scheduler_tick_exact_two :
    ∃ s' q', schedulerTick twoSleepers = some s' ∧ Threaded s' noWait q'
      ∧ q' .ready = [1] ∧ q' .sleep = [2] := by
  obtain ⟨s', q', hrun, hthreaded, hready, hsleep, -⟩ := scheduler_tick_exact twoSleepers_threaded
  exact ⟨s', q', hrun, hthreaded, hready.trans (by decide), hsleep.trans (by decide)⟩

end ZenithOS.Scheduler
