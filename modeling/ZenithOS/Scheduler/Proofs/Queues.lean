/-
The queue invariant of the scheduler and what each queue operation does
to it.

# Places

Every queue of a task goes through its one link field, so the invariant
is about all of them at once: `Lib.Queues` over the ready, blocked and
sleep queue and any number of further wait queues `μ` (a mutex has one).
`SchedInv s wait q out dead added` says that each added task is in one
place: a queue of `q`, with the state of that queue; `out`, the tasks
taken out of the queues, about whose state nothing is said; or `dead`,
the terminated ones.

An operation moves a task out (`remove`, `pop`, `add`), writes its state
while it is out (`congr`: the states of `out` are free), and moves it
back in (`push`, `bury`).
-/
import ZenithOS.Scheduler.Run
import Mathlib.Data.List.Perm.Subperm

namespace ZenithOS.Scheduler

open Lib Mm Proc

-- ============================================================ the queues

/-- The queues threaded through `task->next`. -/
inductive QueueId (μ : Type)
  | ready
  | blocked
  | sleep
  | wait (m : μ)
  deriving DecidableEq

variable {μ : Type}

/-- The state of the tasks in a queue. -/
def queueState : QueueId μ → TaskState
  | .ready => .ready
  | .blocked => .blocked
  | .sleep => .sleeping
  | .wait _ => .blocked

/-- The head pointers, those of the wait queues from outside. -/
def queueHead (s : Sched) (wait : μ → Option TaskPtr) :
    QueueId μ → Option TaskPtr
  | .ready => s.readyQueue
  | .blocked => s.blockedQueue
  | .sleep => s.sleepQueue
  | .wait m => wait m

/-- Each added task is in one queue of `q`, or in `out`, or in `dead`. -/
structure SchedInv (s : Sched) (wait : μ → Option TaskPtr)
    (q : QueueId μ → List TaskPtr) (out dead added : List TaskPtr) : Prop where
  queues : Queues (links s) (queueHead s wait) q
  queued : ∀ k, ∀ t ∈ q k,
    t ∈ added ∧ t ∉ out ∧ (s.tasks t).state = queueState k
  out_added : ∀ t ∈ out, t ∈ added
  out_nodup : out.Nodup
  dead_added : ∀ t ∈ dead,
    t ∈ added ∧ t ∉ out ∧ (s.tasks t).state = .terminated
  placed : ∀ t ∈ added, t ∈ out ∨ (∃ k, t ∈ q k) ∨ t ∈ dead
  added_lt : ∀ t ∈ added, t < s.taskCount ∧ some t ≠ s.idle
  idle : ∃ i, s.idle = some i ∧ i < s.taskCount ∧ (s.tasks i).state = .idle
  fresh : ∀ t < s.taskCount, t ∉ added → some t ≠ s.idle →
    (s.tasks t).state = .ready

/-- The wait queues hold the same tasks. -/
def SameWait (q q' : QueueId μ → List TaskPtr) : Prop :=
  ∀ m, q' (.wait m) = q (.wait m)

theorem SameWait.refl (q : QueueId μ → List TaskPtr) : SameWait q q := fun _ => rfl

theorem SameWait.trans {q q' q'' : QueueId μ → List TaskPtr} (h : SameWait q q')
    (h' : SameWait q' q'') : SameWait q q'' :=
  fun m => (h' m).trans (h m)

-- =================================================== what it depends on

/-- `s'` has the queues of `s`, and its states outside `out`. -/
structure SameShape (out : List TaskPtr) (s s' : Sched) : Prop where
  links : links s' = links s
  states : ∀ t ∉ out, (s'.tasks t).state = (s.tasks t).state
  taskCount : s'.taskCount = s.taskCount
  idle : s'.idle = s.idle
  readyQueue : s'.readyQueue = s.readyQueue
  blockedQueue : s'.blockedQueue = s.blockedQueue
  sleepQueue : s'.sleepQueue = s.sleepQueue

variable {s s' s'' : Sched} {wait : μ → Option TaskPtr}
  {q : QueueId μ → List TaskPtr} {out dead added : List TaskPtr}
  {k : QueueId μ} {t : TaskPtr}

theorem SameShape.refl (out : List TaskPtr) (s : Sched) : SameShape out s s :=
  ⟨rfl, fun _ _ => rfl, rfl, rfl, rfl, rfl, rfl⟩

theorem SameShape.trans (h : SameShape out s s') (h' : SameShape out s' s'') :
    SameShape out s s'' :=
  ⟨h'.links.trans h.links, fun t ht => (h'.states t ht).trans (h.states t ht),
    h'.taskCount.trans h.taskCount, h'.idle.trans h.idle,
    h'.readyQueue.trans h.readyQueue, h'.blockedQueue.trans h.blockedQueue,
    h'.sleepQueue.trans h.sleepQueue⟩

/-- The invariant reads nothing else. -/
theorem SchedInv.congr (h : SchedInv s wait q out dead added)
    (hs : SameShape out s s') : SchedInv s' wait q out dead added := by
  have hhead : queueHead s' wait = queueHead s wait := by
    funext k
    cases k with
    | ready => exact hs.readyQueue
    | blocked => exact hs.blockedQueue
    | sleep => exact hs.sleepQueue
    | wait m => rfl
  refine ⟨by rw [hs.links, hhead]; exact h.queues, fun k t ht => ?_, h.out_added,
    h.out_nodup, fun t ht => ?_, h.placed, ?_, ?_, ?_⟩
  · obtain ⟨hadd, hout, hstate⟩ := h.queued k t ht
    exact ⟨hadd, hout, by rw [hs.states t hout, hstate]⟩
  · obtain ⟨hadd, hout, hstate⟩ := h.dead_added t ht
    exact ⟨hadd, hout, by rw [hs.states t hout, hstate]⟩
  · rw [hs.taskCount, hs.idle]
    exact h.added_lt
  · obtain ⟨i, hi, hlt, hstate⟩ := h.idle
    have hout : i ∉ out := fun hmem =>
      (h.added_lt i (h.out_added i hmem)).2 hi.symm
    exact ⟨i, hs.idle.trans hi, hs.taskCount ▸ hlt, by rw [hs.states i hout, hstate]⟩
  · intro t hlt hadd hidle
    rw [hs.states t fun hmem => hadd (h.out_added t hmem)]
    exact h.fresh t (hs.taskCount ▸ hlt) hadd (hs.idle ▸ hidle)

/-- Writing a task object other than its link, and other than its state
unless it is out. -/
theorem setTask_sameShape {task : Task} (hnext : task.next = (s.tasks t).next)
    (hstate : t ∈ out ∨ task.state = (s.tasks t).state) :
    SameShape out s (setTask s t task) := by
  refine ⟨?_, fun u hu => ?_, rfl, rfl, rfl, rfl, rfl⟩
  · funext u
    by_cases hut : u = t
    · subst hut
      simp [links, hnext]
    · simp [links, Function.update_of_ne hut]
  · by_cases hut : u = t
    · subst hut
      simpa using hstate.resolve_left hu
    · simp [Function.update_of_ne hut]

theorem setState_sameShape {state : TaskState} (ht : t ∈ out) :
    SameShape out s (setState s t state) :=
  setTask_sameShape rfl (.inl ht)

theorem schedulerResetResumeState_sameShape :
    SameShape out s (schedulerResetResumeState s t) :=
  setTask_sameShape rfl (.inr rfl)

-- ====================================================== facts of a place

/-- A queue has no more tasks than there are. -/
theorem SchedInv.length_le (h : SchedInv s wait q out dead added)
    (k : QueueId μ) : (q k).length ≤ s.taskCount := by
  have hsub : q k ⊆ List.range s.taskCount := fun t ht =>
    List.mem_range.mpr (h.added_lt t (h.queued k t ht).1).1
  simpa using (List.subperm_of_subset (h.queues.linked k).nodup hsub).length_le

/-- A task with the state of no queue is in none. -/
theorem SchedInv.not_queued (h : SchedInv s wait q out dead added)
    (hstate : ∀ k : QueueId μ, (s.tasks t).state ≠ queueState k) :
    ∀ k, t ∉ q k :=
  fun k hk => hstate k (h.queued k t hk).2.2

theorem queueState_ne_terminated (k : QueueId μ) : queueState k ≠ .terminated := by
  cases k <;> simp [queueState]

/-- The queue of a queued task is the one its state says, when no wait
queue shares that state. -/
theorem SchedInv.mem_of_state (h : SchedInv s wait q out dead added)
    (hadd : t ∈ added) (hout : t ∉ out) (hdead : (s.tasks t).state ≠ .terminated) :
    ∃ k, t ∈ q k ∧ (s.tasks t).state = queueState k := by
  rcases h.placed t hadd with hmem | ⟨k, hk⟩ | hmem
  · exact absurd hmem hout
  · exact ⟨k, hk, (h.queued k t hk).2.2⟩
  · exact absurd (h.dead_added t hmem).2.2 hdead

/-- The order of the tasks that are out does not matter. -/
theorem SchedInv.swap {u : TaskPtr} (h : SchedInv s wait q (t :: u :: out) dead added) :
    SchedInv s wait q (u :: t :: out) dead added := by
  have hperm : (t :: u :: out).Perm (u :: t :: out) := List.Perm.swap u t out
  refine ⟨h.queues, fun k a ha => ?_, fun a ha => h.out_added a (hperm.mem_iff.mpr ha),
    hperm.nodup_iff.mp h.out_nodup, fun a ha => ?_, fun a ha => ?_, h.added_lt, h.idle,
    h.fresh⟩
  · obtain ⟨hadd, hout, hstate⟩ := h.queued k a ha
    exact ⟨hadd, fun hmem => hout (hperm.mem_iff.mpr hmem), hstate⟩
  · obtain ⟨hadd, hout, hstate⟩ := h.dead_added a ha
    exact ⟨hadd, fun hmem => hout (hperm.mem_iff.mpr hmem), hstate⟩
  · exact (h.placed a ha).imp_left hperm.mem_iff.mp

-- ============================================================ moving out

/-- A queue operation: new links, and the new head of queue `k`. -/
def relink (s : Sched) (next : TaskPtr → Option TaskPtr) (k : QueueId μ)
    (head : Option TaskPtr) : Sched :=
  let s := setLinks s next
  match k with
  | .ready => { s with readyQueue := head }
  | .blocked => { s with blockedQueue := head }
  | .sleep => { s with sleepQueue := head }
  | .wait _ => s

/-- The links after a queue is relinked. -/
theorem links_relink {next : TaskPtr → Option TaskPtr} {head : Option TaskPtr} :
    links (relink s next k head) = next := by
  cases k <;> rfl

/-- Relinking changes no state. -/
theorem relink_state {next : TaskPtr → Option TaskPtr} {head : Option TaskPtr}
    (u : TaskPtr) : ((relink s next k head).tasks u).state = (s.tasks u).state := by
  cases k <;> rfl

theorem relink_taskCount {next : TaskPtr → Option TaskPtr} {head : Option TaskPtr} :
    (relink s next k head).taskCount = s.taskCount := by
  cases k <;> rfl

theorem relink_idle {next : TaskPtr → Option TaskPtr} {head : Option TaskPtr} :
    (relink s next k head).idle = s.idle := by
  cases k <;> rfl

variable [DecidableEq μ]

/-- The waiters are apart from the scheduler's queues. -/
theorem SameWait.update {q q' : QueueId μ → List TaskPtr} (h : SameWait q q')
    {l : List TaskPtr} (hk : ∀ m, k ≠ .wait m) : SameWait q (Function.update q' k l) := by
  intro m
  rw [Function.update_of_ne (hk m).symm]
  exact h m

/-- Relinking changes one head. -/
theorem queueHead_relink {next : TaskPtr → Option TaskPtr} {head : Option TaskPtr}
    {wait' : μ → Option TaskPtr}
    (hwait : ∀ m, wait' m = if k = .wait m then head else wait m) :
    queueHead (relink s next k head) wait'
      = Function.update (queueHead s wait) k head := by
  funext k'
  by_cases hk : k' = k
  · subst hk
    rw [Function.update_self]
    cases k' with
    | wait m => simpa [queueHead] using hwait m
    | ready | blocked | sleep => rfl
  · rw [Function.update_of_ne hk]
    cases k' with
    | wait m =>
        have hm := hwait m
        rw [if_neg fun heq => hk heq.symm] at hm
        exact hm
    | ready | blocked | sleep =>
        cases k <;> first | exact absurd rfl hk | rfl

/-- The facts about queue `k` a relink must bring along, for any new
list `l'` of it. -/
private theorem SchedInv.relinked {l' out' : List TaskPtr}
    {next : TaskPtr → Option TaskPtr} {head : Option TaskPtr}
    {wait' : μ → Option TaskPtr} (h : SchedInv s wait q out dead added)
    (hwait : ∀ m, wait' m = if k = .wait m then head else wait m)
    (hq : Queues next (Function.update (queueHead s wait) k head)
      (Function.update q k l'))
    (hnodup : out'.Nodup) (hout : ∀ u ∈ out', u ∈ added ∧ u ∉ dead)
    (hkept : ∀ k', ∀ u ∈ Function.update q k l' k',
      u ∈ added ∧ u ∉ out' ∧ (s.tasks u).state = queueState k')
    (hplaced : ∀ u, u ∈ out ∨ u ∈ q k → u ∈ out' ∨ u ∈ l') :
    SchedInv (relink s next k head) wait' (Function.update q k l') out' dead
      added := by
  refine ⟨?_, fun k' u hu => ?_, fun u hu => (hout u hu).1, hnodup, fun u hu => ?_,
    fun u hu => ?_, ?_, ?_, ?_⟩
  · rw [links_relink, queueHead_relink hwait]
    exact hq
  · rw [relink_state]
    exact hkept k' u hu
  · obtain ⟨hadd, -, hstate⟩ := h.dead_added u hu
    exact ⟨hadd, fun hmem => (hout u hmem).2 hu, by rw [relink_state]; exact hstate⟩
  · have hback : u ∈ out' ∨ u ∈ l' → u ∈ out' ∨ (∃ k', u ∈ Function.update q k l' k')
        ∨ u ∈ dead := by
      rintro (hmem | hmem)
      · exact .inl hmem
      · exact .inr (.inl ⟨k, by rw [Function.update_self]; exact hmem⟩)
    rcases h.placed u hu with hmem | ⟨k', hmem⟩ | hmem
    · exact hback (hplaced u (.inl hmem))
    · by_cases hk : k' = k
      · exact hback (hplaced u (.inr (hk ▸ hmem)))
      · exact .inr (.inl ⟨k', by rw [Function.update_of_ne hk]; exact hmem⟩)
    · exact .inr (.inr hmem)
  · rw [relink_taskCount, relink_idle]
    exact h.added_lt
  · rw [relink_taskCount, relink_idle]
    obtain ⟨i, hi, hlt, hstate⟩ := h.idle
    exact ⟨i, hi, hlt, by rw [relink_state]; exact hstate⟩
  · rw [relink_taskCount, relink_idle]
    intro u hlt hadd hidle
    rw [relink_state]
    exact h.fresh u hlt hadd hidle

/-- Unlinking a queued task takes it out. -/
theorem SchedInv.remove (h : SchedInv s wait q out dead added) (ht : t ∈ q k) :
    ∃ next head, unlink (links s) s.taskCount (queueHead s wait k) t = some (next, head)
      ∧ ∀ wait' : μ → Option TaskPtr,
          (∀ m, wait' m = if k = .wait m then head else wait m) →
          SchedInv (relink s next k head) wait'
            (Function.update q k ((q k).erase t)) (t :: out) dead added := by
  obtain ⟨next, head, hunlink, -, hq⟩ := h.queues.remove ht (h.length_le k)
  obtain ⟨hadd, hout, hstate⟩ := h.queued k t ht
  refine ⟨next, head, hunlink, fun wait' hwait => h.relinked hwait hq ?_ ?_ ?_ ?_⟩
  · exact List.nodup_cons.mpr ⟨hout, h.out_nodup⟩
  · intro u hu
    rcases List.mem_cons.mp hu with rfl | hu
    · exact ⟨hadd, fun hdead => queueState_ne_terminated k
        (hstate ▸ (h.dead_added u hdead).2.2)⟩
    · exact ⟨h.out_added u hu, fun hdead => (h.dead_added u hdead).2.1 hu⟩
  · -- a task still queued is another one: `t` was in queue `k` alone, once
    intro k' u hu
    by_cases hk : k' = k
    · subst hk
      rw [Function.update_self] at hu
      obtain ⟨hne, hmem⟩ := (h.queues.linked k').nodup.mem_erase_iff.mp hu
      obtain ⟨hadd', hout', hstate'⟩ := h.queued k' u hmem
      exact ⟨hadd', by simp [hne, hout'], hstate'⟩
    · rw [Function.update_of_ne hk] at hu
      obtain ⟨hadd', hout', hstate'⟩ := h.queued k' u hu
      have hne : u ≠ t := fun heq => hk (h.queues.disjoint (heq ▸ hu) ht)
      exact ⟨hadd', by simp [hne, hout'], hstate'⟩
  · intro u hu
    by_cases hut : u = t
    · exact .inl (by simp [hut])
    · rcases hu with hu | hu
      · exact .inl (List.mem_cons_of_mem _ hu)
      · exact .inr ((h.queues.linked k).nodup.mem_erase_iff.mpr ⟨hut, hu⟩)

-- ============================================================= moving in

/-- Pushing a task that is out puts it at the end of a queue. -/
theorem SchedInv.push (h : SchedInv s wait q (t :: out) dead added)
    (hstate : (s.tasks t).state = queueState k) :
    ∃ next head, pushBack (links s) s.taskCount (queueHead s wait k) t = some (next, head)
      ∧ ∀ wait' : μ → Option TaskPtr,
          (∀ m, wait' m = if k = .wait m then head else wait m) →
          SchedInv (relink s next k head) wait'
            (Function.update q k (q k ++ [t])) out dead added := by
  have hfree : ∀ k', t ∉ q k' := fun k' hmem =>
    (h.queued k' t hmem).2.1 (List.mem_cons_self ..)
  obtain ⟨htout, hnodup⟩ := List.nodup_cons.mp h.out_nodup
  obtain ⟨next, head, hpush, hq⟩ := h.queues.push hfree (h.length_le k)
  refine ⟨next, head, hpush, fun wait' hwait => h.relinked hwait hq hnodup ?_ ?_ ?_⟩
  · intro u hu
    exact ⟨h.out_added u (List.mem_cons_of_mem _ hu), fun hdead =>
      (h.dead_added u hdead).2.1 (List.mem_cons_of_mem _ hu)⟩
  · intro k' u hu
    have hold : u ∈ q k' → u ∈ added ∧ u ∉ out ∧ (s.tasks u).state = queueState k' := by
      intro hmem
      obtain ⟨hadd', hout', hstate'⟩ := h.queued k' u hmem
      exact ⟨hadd', fun hmem' => hout' (List.mem_cons_of_mem _ hmem'), hstate'⟩
    by_cases hk : k' = k
    · subst hk
      rw [Function.update_self] at hu
      rcases List.mem_append.mp hu with hu | hu
      · exact hold hu
      · obtain rfl : u = t := by simpa using hu
        exact ⟨h.out_added u (List.mem_cons_self ..), htout, hstate⟩
    · rw [Function.update_of_ne hk] at hu
      exact hold hu
  · intro u hu
    rcases hu with hu | hu
    · rcases List.mem_cons.mp hu with rfl | hu
      · exact .inr (by simp)
      · exact .inl hu
    · exact .inr (List.mem_append_left _ hu)

omit [DecidableEq μ] in
/-- A task that is out with state `TERMINATED` is dead. -/
theorem SchedInv.bury (h : SchedInv s wait q (t :: out) dead added)
    (hstate : (s.tasks t).state = .terminated) :
    SchedInv s wait q out (t :: dead) added := by
  obtain ⟨htout, hnodup⟩ := List.nodup_cons.mp h.out_nodup
  refine ⟨h.queues, fun k u hu => ?_, fun u hu => h.out_added u (List.mem_cons_of_mem _ hu),
    hnodup, fun u hu => ?_, fun u hu => ?_, h.added_lt, h.idle, h.fresh⟩
  · obtain ⟨hadd, hout, hstate'⟩ := h.queued k u hu
    exact ⟨hadd, fun hmem => hout (List.mem_cons_of_mem _ hmem), hstate'⟩
  · rcases List.mem_cons.mp hu with rfl | hu
    · exact ⟨h.out_added u (List.mem_cons_self ..), htout, hstate⟩
    · obtain ⟨hadd, hout, hstate'⟩ := h.dead_added u hu
      exact ⟨hadd, fun hmem => hout (List.mem_cons_of_mem _ hmem), hstate'⟩
  · rcases h.placed u hu with hmem | hmem | hmem
    · rcases List.mem_cons.mp hmem with rfl | hmem
      · exact .inr (.inr (List.mem_cons_self ..))
      · exact .inl hmem
    · exact .inr (.inl hmem)
    · exact .inr (.inr (List.mem_cons_of_mem _ hmem))

omit [DecidableEq μ] in
/-- A fresh task enters the system out of every queue. -/
theorem SchedInv.add (h : SchedInv s wait q out dead added)
    (hlt : t < s.taskCount) (hnew : t ∉ added) (hidle : some t ≠ s.idle) :
    SchedInv s wait q (t :: out) dead (t :: added) := by
  refine ⟨h.queues, fun k u hu => ?_, fun u hu => ?_,
    List.nodup_cons.mpr ⟨fun hmem => hnew (h.out_added t hmem), h.out_nodup⟩,
    fun u hu => ?_, fun u hu => ?_, fun u hu => ?_, h.idle, fun u hlt hadd => ?_⟩
  · obtain ⟨hadd, hout, hstate⟩ := h.queued k u hu
    have hne : u ≠ t := fun heq => hnew (heq ▸ hadd)
    exact ⟨List.mem_cons_of_mem _ hadd, by simp [hne, hout], hstate⟩
  · rcases List.mem_cons.mp hu with rfl | hu
    · exact List.mem_cons_self ..
    · exact List.mem_cons_of_mem _ (h.out_added u hu)
  · obtain ⟨hadd, hout, hstate⟩ := h.dead_added u hu
    have hne : u ≠ t := fun heq => hnew (heq ▸ hadd)
    exact ⟨List.mem_cons_of_mem _ hadd, by simp [hne, hout], hstate⟩
  · rcases List.mem_cons.mp hu with rfl | hu
    · exact .inl (List.mem_cons_self ..)
    · rcases h.placed u hu with hmem | hmem
      · exact .inl (List.mem_cons_of_mem _ hmem)
      · exact .inr hmem
  · rcases List.mem_cons.mp hu with rfl | hu
    · exact ⟨hlt, hidle⟩
    · exact h.added_lt u hu
  · exact h.fresh u hlt fun hmem => hadd (List.mem_cons_of_mem _ hmem)

omit [DecidableEq μ] in
/-- `task_create` makes a fresh task. -/
theorem SchedInv.taskCreate (h : SchedInv s wait q out dead added)
    (id entry stack : Nat) (process : Option ProcessPtr) :
    SchedInv (taskCreate s id entry stack process) wait q out dead added := by
  -- no task below `taskCount` is written
  have hold : ∀ u < s.taskCount,
      (Scheduler.taskCreate s id entry stack process).tasks u = s.tasks u := by
    intro u hu
    have hne : u ≠ s.taskCount := by omega
    exact Function.update_of_ne hne _ _
  have hlt : ∀ u ∈ added, u < s.taskCount := fun u hu => (h.added_lt u hu).1
  refine ⟨⟨fun k => ?_, h.queues.disjoint⟩, fun k u hu => ?_, h.out_added, h.out_nodup,
    fun u hu => ?_, h.placed, fun u hu => ?_, ?_, fun u hu hadd hidle => ?_⟩
  · refine Linked.congr (h := queueHead s wait k) (h.queues.linked k) fun u hu => ?_
    unfold links
    rw [hold u (hlt u (h.queued k u hu).1)]
  · obtain ⟨hadd, hout, hstate⟩ := h.queued k u hu
    exact ⟨hadd, hout, by rw [hold u (hlt u hadd)]; exact hstate⟩
  · obtain ⟨hadd, hout, hstate⟩ := h.dead_added u hu
    exact ⟨hadd, hout, by rw [hold u (hlt u hadd)]; exact hstate⟩
  · obtain ⟨hlt, hidle⟩ := h.added_lt u hu
    exact ⟨Nat.lt_succ_of_lt hlt, hidle⟩
  · obtain ⟨i, hi, hlt, hstate⟩ := h.idle
    exact ⟨i, hi, Nat.lt_succ_of_lt hlt, by rw [hold i hlt]; exact hstate⟩
  · rcases Nat.lt_succ_iff_lt_or_eq.mp hu with hu | rfl
    · rw [hold u hu]
      exact h.fresh u hu hadd hidle
    · simp [Scheduler.taskCreate]

end ZenithOS.Scheduler
