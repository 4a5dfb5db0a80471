import AiBackend.Background.GracefulStop

/-!
# Progress of the background worker

A task is enqueued, taken from the queue, let past the semaphore, begun,
finished and let out again.  So no schedule changes the tasks more than six
times for each call of `enqueue`.  As long as the worker runs, one of these
steps can be taken wherever work is left: its loop is there, and an execution
that holds a permit can go on to give it back.  Executions begin to wait for
the semaphore in the order in which their tasks came.
-/

namespace AiBackend
namespace BackgroundWorker

open Run

/-! ## What is left to do -/

/-- The steps an execution still has before it. -/
def Stage.remaining : Stage → ℕ
  | .waiting => 4
  | .started => 3
  | .awaiting => 2
  | .settled => 1
  | .left => 0
  | .broken => 0

namespace Ledger

/-- The steps that the tasks of the worker still have before them. -/
def work (l : Ledger) : ℕ :=
  5 * l.queue.length + (l.executions.map fun e => e.stage.remaining).sum

theorem sum_set_add {α : Type} (f : α → ℕ) {xs : List α} {i : ℕ} {a b : α}
    (h : xs[i]? = some a) :
    ((xs.set i b).map f).sum + f a = (xs.map f).sum + f b := by
  induction xs generalizing i with
  | nil => cases h
  | cons x xs ih =>
      cases i with
      | zero =>
          cases h
          simp only [List.set_cons_zero, List.map_cons, List.sum_cons]
          omega
      | succ i =>
          have hrest := ih h
          simp only [List.set_cons_succ, List.map_cons, List.sum_cons]
          omega

section Work

variable {l l' : Ledger} {i : ℕ} {e : Execution} {stage : Stage}

/-- An execution that gets on takes from the work that is left. -/
theorem work_moved (h : Moved l i e stage l') (hlater : stage.remaining < e.stage.remaining) :
    l'.work + 1 ≤ l.work := by
  have hsum : ((l.executions.set i ⟨e.taskId, stage⟩).map fun e => e.stage.remaining).sum +
      e.stage.remaining =
      (l.executions.map fun e => e.stage.remaining).sum + stage.remaining :=
    sum_set_add (fun e : Execution => e.stage.remaining) h.found
  rw [work, work, h.executions, h.queue]
  omega

theorem work_enter (hfound : l.executions[i]? = some e) (hstage : e.stage = .waiting)
    (hfree : l.free ≠ 0) : (l.enter i).work + 1 ≤ l.work := by
  have hlater : Stage.started.remaining < e.stage.remaining := by
    rw [hstage]
    decide
  rw [enter, advance, hfound]
  dsimp only
  rw [if_pos hstage, if_neg hfree]
  exact work_moved (moved_enter hfound hstage hfree) hlater

theorem work_begin (hfound : l.executions[i]? = some e) (hstage : e.stage = .started) :
    (l.begin i).work + 1 ≤ l.work := by
  have hlater : Stage.awaiting.remaining < e.stage.remaining := by
    rw [hstage]
    decide
  rw [begin, advance, hfound]
  dsimp only
  rw [if_pos hstage]
  exact work_moved (moved_begin hfound hstage) hlater

theorem work_finish (hfound : l.executions[i]? = some e) (hstage : e.stage = .awaiting)
    (outcome : Outcome) : (l.finish i outcome).work + 1 ≤ l.work := by
  have hsettled : Stage.settled.remaining < e.stage.remaining := by
    rw [hstage]
    decide
  have hbroken : Stage.broken.remaining < e.stage.remaining := by
    rw [hstage]
    decide
  rw [finish, advance, hfound]
  dsimp only
  rw [if_pos hstage]
  cases outcome with
  | returned =>
      exact work_moved (moved_settle hfound hstage (Task.taskId_setStatus .completed)
        (fun _ => rfl) .complete (.inl rfl)) hsettled
  | raised text =>
      exact work_moved (moved_settle hfound hstage (Task.taskId_fail text) (fun _ => rfl)
        .fail (.inr rfl)) hsettled
  | interrupted => exact work_moved (moved_break hfound hstage) hbroken

theorem work_leave (hfound : l.executions[i]? = some e) (hstage : e.stage = .settled) :
    (l.leave i).work + 1 ≤ l.work := by
  have hlater : Stage.left.remaining < e.stage.remaining := by
    rw [hstage]
    decide
  rw [leave, advance, hfound]
  dsimp only
  rw [if_pos hstage]
  exact work_moved (moved_leave hfound hstage) hlater

theorem work_take (hqueue : l.queue ≠ []) : l.take.work + 1 ≤ l.work := by
  cases hitems : l.queue with
  | nil => exact absurd hitems hqueue
  | cons taskId rest =>
      rw [take, hitems]
      simp only [work, hitems, List.length_cons, List.map_append, List.sum_append,
        List.map_cons, List.map_nil, List.sum_cons, List.sum_nil, Stage.remaining]
      omega

theorem work_drain : l.drain = l ∨ l.drain.work + 1 ≤ l.work := by
  cases hqueue : l.queue with
  | nil =>
      left
      simp only [drain, hqueue, List.foldl_nil, List.append_nil]
      rw [← hqueue]
  | cons taskId rest =>
      right
      simp only [work, drain, hqueue, List.length_cons, List.length_nil]
      omega

/-- A step of an execution does nothing, or what it does at its stage. -/
theorem work_advance {next : Execution → Ledger}
    (h : ∀ e, l.executions[i]? = some e → e.stage = stage →
      l.advance i stage next = l ∨ (l.advance i stage next).work + 1 ≤ l.work) :
    l.advance i stage next = l ∨ (l.advance i stage next).work + 1 ≤ l.work := by
  rcases l.advance_cases i stage next with hsame | ⟨e, hfound, hstage, -⟩
  · exact .inl hsame
  · exact h e hfound hstage

end Work
end Ledger

/-- What an input adds to the work: a new task the step that brings it and its
other five. -/
def Input.credit : Input → ℕ
  | .enqueue _ _ => 6
  | _ => 0

/-- A step leaves the ledger alone, takes from the work, or brings a task. -/
theorem work_step (w : BackgroundWorker) (input : Input) :
    (w.step input).toLedger = w.toLedger ∨
      (w.step input).work + 1 ≤ w.work + input.credit := by
  cases input with
  | enqueue taskId name =>
      change w.toLedger.enqueue taskId name = w.toLedger ∨
        (w.toLedger.enqueue taskId name).work + 1 ≤ w.work + 6
      by_cases hknown : taskId ∈ w.tasks.keys
      · rw [Ledger.enqueue, if_pos hknown]
        exact .inl rfl
      · right
        rw [Ledger.enqueue, if_neg hknown]
        simp only [Ledger.work, List.length_append, List.length_singleton]
        omega
  | start => exact .inl w.toLedger_start
  | stop => exact Ledger.work_drain
  | stopReturn k => exact .inl (w.toLedger_stopReturn k)
  | loopBegin j => exact .inl (w.toLedger_loopBegin j)
  | loopTimeout j => exact .inl (w.toLedger_loopTimeout j)
  | loopCancel j => exact .inl (w.toLedger_loopCancel j)
  | loopTake j =>
      change (w.loopTake j).toLedger = w.toLedger ∨ (w.loopTake j).toLedger.work + 1 ≤ w.work
      unfold loopTake
      split
      next htake => exact .inr (Ledger.work_take htake.2)
      · exact .inl rfl
  | enter i =>
      refine Ledger.work_advance fun e hfound hstage => ?_
      by_cases hfree : w.free = 0
      · left
        rw [Ledger.advance, hfound]
        dsimp only
        rw [if_pos hstage, if_pos hfree]
      · exact .inr (Ledger.work_enter hfound hstage hfree)
  | begin i =>
      exact Ledger.work_advance fun e hfound hstage =>
        .inr (Ledger.work_begin hfound hstage)
  | finish i outcome =>
      exact Ledger.work_advance fun e hfound hstage =>
        .inr (Ledger.work_finish hfound hstage outcome)
  | leave i =>
      exact Ledger.work_advance fun e hfound hstage =>
        .inr (Ledger.work_leave hfound hstage)

/-! ## Schedules are bounded -/

open Classical in
/-- The changes of the ledger on a schedule. -/
noncomputable def changes (w : BackgroundWorker) (inputs : List Input) : ℕ :=
  (trace step w inputs).countP fun t => decide (t.after.toLedger ≠ t.before.toLedger)

/-- How often a schedule calls `enqueue`. -/
def enqueues (inputs : List Input) : ℕ :=
  inputs.countP fun
    | .enqueue _ _ => true
    | _ => false

theorem sum_credit (inputs : List Input) : (inputs.map Input.credit).sum = 6 * enqueues inputs := by
  induction inputs with
  | nil => rfl
  | cons input inputs ih =>
      simp only [enqueues, List.countP_cons, List.map_cons, List.sum_cons] at ih ⊢
      rw [ih]
      cases input with
      | enqueue taskId name =>
          simp only [Input.credit, if_true]
          omega
      | _ => simp [Input.credit]

/-- However a schedule goes, the ledger changes six times at most for each call
of `enqueue`. -/
theorem changes_le (maxConcurrent : ℕ) (inputs : List Input) :
    changes (init maxConcurrent) inputs ≤ 6 * enqueues inputs := by
  classical
  have hbound := countP_trace_le step (fun w : BackgroundWorker => w.work) Input.credit
    (fun t => decide (t.after.toLedger ≠ t.before.toLedger)) ?_ (init maxConcurrent) inputs
  · rw [sum_credit] at hbound
    have hnone : (init maxConcurrent).work = 0 := rfl
    rw [changes]
    omega
  · intro w input
    by_cases hsame : (w.step input).toLedger = w.toLedger
    · simp [hsame]
    · have hless := (work_step w input).resolve_left hsame
      simpa [hsame] using hless

/-! ## A running worker has its loop -/

/-- A worker that runs has a loop that nobody has cancelled and that is not
over. -/
def Attended (w : BackgroundWorker) : Prop :=
  w.running = true → ∃ j, w.LoopAt j .created ∨ w.LoopAt j .waiting

section Attended

variable {w : BackgroundWorker}

theorem attended_setLoop (h : w.Attended) (j : ℕ) : (w.setLoop j w.check).Attended := by
  intro hrunning
  obtain ⟨k, hk⟩ := h hrunning
  have hcheck : w.check = .waiting := if_pos hrunning
  refine ⟨k, ?_⟩
  by_cases hj : j = k
  · subst hj
    right
    rw [LoopAt, setLoop, List.getElem?_modify_eq, hcheck]
    rcases hk with hk | hk
    · rw [hk]
      rfl
    · rw [hk]
      rfl
  · rw [LoopAt, LoopAt, setLoop, List.getElem?_modify_ne _ _ hj]
    exact hk

theorem attended_start (h : w.Attended) : w.start.Attended := by
  unfold start
  split
  · exact h
  · exact fun _ => ⟨w.loops.length, .inl List.getElem?_concat_length⟩

theorem attended_loopCancel (h : w.Attended) (j : ℕ) : (w.loopCancel j).Attended := by
  unfold loopCancel
  split
  next hcancelled =>
    intro hrunning
    obtain ⟨k, hk⟩ := h hrunning
    refine ⟨k, ?_⟩
    have hne : j ≠ k := by
      rintro rfl
      rcases hk with hk | hk
      · rw [hk] at hcancelled
        cases hcancelled
      · rw [hk] at hcancelled
        cases hcancelled
    rw [LoopAt, LoopAt, setLoop, List.getElem?_modify_ne _ _ hne]
    exact hk
  · exact h

theorem attended_step (h : w.Attended) (input : Input) : (w.step input).Attended := by
  cases input with
  | enqueue taskId name => exact h
  | start => exact attended_start h
  | stop => exact fun hrunning => absurd hrunning Bool.false_ne_true
  | stopReturn k =>
      change (w.stopReturn k).Attended
      unfold stopReturn
      split
      · exact h
      · split
        · exact h
        · exact h
      · exact h
  | loopBegin j =>
      change (w.loopBegin j).Attended
      unfold loopBegin
      split
      · exact attended_setLoop h j
      · exact h
  | loopTake j =>
      change (w.loopTake j).Attended
      unfold loopTake
      split
      · exact attended_setLoop h j
      · exact h
  | loopTimeout j =>
      change (w.loopTimeout j).Attended
      unfold loopTimeout
      split
      · exact attended_setLoop h j
      · exact h
  | loopCancel j => exact attended_loopCancel h j
  | enter i => exact h
  | begin i => exact h
  | finish i outcome => exact h
  | leave i => exact h

end Attended

/-! ## The work can be done -/

/-- The steps by which the worker gets its tasks done: a loop starts or takes an
item, and an execution goes on, its coroutine returning. -/
inductive Input.IsWork : Input → Prop where
  | loopBegin (j : ℕ) : IsWork (.loopBegin j)
  | loopTake (j : ℕ) : IsWork (.loopTake j)
  | enter (i : ℕ) : IsWork (.enter i)
  | begin (i : ℕ) : IsWork (.begin i)
  | finish (i : ℕ) : IsWork (.finish i .returned)
  | leave (i : ℕ) : IsWork (.leave i)

/-- Nothing waits in the queue, and every execution is out of the semaphore. -/
def Ledger.Idle (l : Ledger) : Prop :=
  l.queue = [] ∧ ∀ e ∈ l.executions, e.stage = .left ∨ e.stage = .broken

section Drains

variable {maxConcurrent : ℕ} {w : BackgroundWorker} {j : ℕ}

/-- An execution that holds a permit has a next step. -/
theorem exists_work_of_holds {e : Execution} (he : e ∈ w.executions)
    (hholds : e.stage.holds = true) :
    ∃ input : Input, input.IsWork ∧ (w.step input).running = w.running ∧
      (w.step input).loops = w.loops ∧ (w.step input).work + 1 ≤ w.work := by
  obtain ⟨i, hi, hget⟩ := List.mem_iff_getElem.mp he
  have hfound : w.executions[i]? = some e := List.getElem?_eq_some_iff.mpr ⟨hi, hget⟩
  cases hstage : e.stage with
  | started => exact ⟨.begin i, .begin i, rfl, rfl, Ledger.work_begin hfound hstage⟩
  | awaiting =>
      exact ⟨.finish i .returned, .finish i, rfl, rfl, Ledger.work_finish hfound hstage _⟩
  | settled => exact ⟨.leave i, .leave i, rfl, rfl, Ledger.work_leave hfound hstage⟩
  | _ =>
      rw [hstage] at hholds
      cases hholds

/-- Where work is left, a worker whose loop waits for items can do a step of it,
and its loop waits again. -/
theorem exists_work (h : w.Sound maxConcurrent) (hpermits : 1 ≤ maxConcurrent)
    (hrunning : w.running = true) (hat : w.LoopAt j .waiting) (hwork : ¬ w.Idle) :
    ∃ input : Input, input.IsWork ∧ (w.step input).running = true ∧
      (w.step input).LoopAt j .waiting ∧ (w.step input).work + 1 ≤ w.work := by
  by_cases hholds : ∃ e ∈ w.executions, e.stage.holds = true
  · obtain ⟨e, he, hstage⟩ := hholds
    obtain ⟨input, hinput, hsame, hloops, hless⟩ := exists_work_of_holds he hstage
    refine ⟨input, hinput, hsame.trans hrunning, ?_, hless⟩
    rw [LoopAt, hloops]
    exact hat
  · have hnone : w.holding = 0 := by
      refine List.countP_eq_zero.mpr fun e he hstage => hholds ⟨e, he, hstage⟩
    have hfree : w.free ≠ 0 := by
      have hsum := h.permits
      omega
    by_cases hqueue : w.queue = []
    · -- Nobody is past the semaphore, so whoever waits there gets in.
      have hwaits : ∃ e ∈ w.executions, e.stage = .waiting := by
        by_contra hnot
        refine hwork ⟨hqueue, fun e he => ?_⟩
        cases hstage : e.stage with
        | waiting => exact absurd ⟨e, he, hstage⟩ hnot
        | left => exact .inl rfl
        | broken => exact .inr rfl
        | _ => exact absurd ⟨e, he, by rw [hstage]; rfl⟩ hholds
      obtain ⟨e, he, hstage⟩ := hwaits
      obtain ⟨i, hi, hget⟩ := List.mem_iff_getElem.mp he
      have hfound : w.executions[i]? = some e := List.getElem?_eq_some_iff.mpr ⟨hi, hget⟩
      exact ⟨.enter i, .enter i, hrunning, hat, Ledger.work_enter hfound hstage hfree⟩
    · have htake : w.loopTake j =
          { w.setLoop j w.check with toLedger := w.toLedger.take } :=
        if_pos ⟨hat, hqueue⟩
      refine ⟨.loopTake j, .loopTake j, ?_, ?_, ?_⟩
      · change (w.loopTake j).running = true
        rw [htake]
        exact hrunning
      · change (w.loopTake j).LoopAt j .waiting
        rw [htake, LoopAt]
        change (w.setLoop j w.check).loops[j]? = _
        rw [setLoop, List.getElem?_modify_eq, hat, check, if_pos hrunning]
        rfl
      · change (w.loopTake j).work + 1 ≤ w.work
        rw [htake]
        exact Ledger.work_take hqueue

/-- A worker whose loop waits for items can do all the work that is left. -/
theorem exists_idle (h : w.Sound maxConcurrent) (hpermits : 1 ≤ maxConcurrent)
    (hrunning : w.running = true) (hat : w.LoopAt j .waiting) :
    ∃ later : List Input, (∀ input ∈ later, input.IsWork) ∧ later.length ≤ w.work ∧
      (final step w later).Idle := by
  induction hn : w.work using Nat.strongRecOn generalizing w with
  | _ n ih =>
      subst hn
      by_cases hidle : w.Idle
      · exact ⟨[], fun _ hnil => absurd hnil List.not_mem_nil, Nat.zero_le _, hidle⟩
      · obtain ⟨input, hinput, hstill, hloop, hless⟩ :=
          exists_work h hpermits hrunning hat hidle
        obtain ⟨later, hlater, hlength, hend⟩ := ih _ hless (sound_step h input).1 hstill
          hloop rfl
        refine ⟨input :: later, ?_, ?_, hend⟩
        · exact List.forall_mem_cons.mpr ⟨hinput, hlater⟩
        · rw [List.length_cons]
          omega

/-- Only an execution that goes to that stage becomes broken. -/
theorem Ledger.Moved.broken_mem {l l' : Ledger} {i : ℕ} {e : Execution} {stage : Stage}
    (h : Moved l i e stage l') (hstage : stage ≠ .broken) {taskId : TaskId}
    (hbroken : ⟨taskId, .broken⟩ ∈ l'.executions) : ⟨taskId, .broken⟩ ∈ l.executions := by
  rw [h.executions] at hbroken
  rcases List.mem_or_eq_of_mem_set hbroken with hold | hnew
  · exact hold
  · exact absurd (congrArg Execution.stage hnew).symm hstage

/-- Work breaks no execution. -/
theorem broken_of_step {input : Input} (hinput : input.IsWork) {taskId : TaskId}
    (hbroken : ⟨taskId, .broken⟩ ∈ (w.step input).executions) :
    ⟨taskId, .broken⟩ ∈ w.executions := by
  cases hinput with
  | loopBegin j =>
      change _ ∈ (w.loopBegin j).toLedger.executions at hbroken
      rwa [w.toLedger_loopBegin] at hbroken
  | loopTake j =>
      change _ ∈ (w.loopTake j).toLedger.executions at hbroken
      unfold loopTake at hbroken
      split at hbroken
      · change _ ∈ w.toLedger.take.executions at hbroken
        unfold Ledger.take at hbroken
        split at hbroken
        · exact hbroken
        · simpa using hbroken
      · exact hbroken
  | enter i =>
      change _ ∈ (w.toLedger.enter i).executions at hbroken
      rcases w.toLedger.advance_cases i .waiting fun e => _ with hsame | ⟨e, hfound, hstage, hnext⟩
      · rwa [Ledger.enter, hsame] at hbroken
      · rw [Ledger.enter, hnext] at hbroken
        split at hbroken
        · exact hbroken
        next hfree => exact (Ledger.moved_enter hfound hstage hfree).broken_mem (by simp) hbroken
  | begin i =>
      change _ ∈ (w.toLedger.begin i).executions at hbroken
      rcases w.toLedger.advance_cases i .started fun e => _ with hsame | ⟨e, hfound, hstage, hnext⟩
      · rwa [Ledger.begin, hsame] at hbroken
      · rw [Ledger.begin, hnext] at hbroken
        exact (Ledger.moved_begin hfound hstage).broken_mem (by simp) hbroken
  | finish i =>
      change _ ∈ (w.toLedger.finish i .returned).executions at hbroken
      rcases w.toLedger.advance_cases i .awaiting fun e => _ with hsame | ⟨e, hfound, hstage, hnext⟩
      · rwa [Ledger.finish, hsame] at hbroken
      · rw [Ledger.finish, hnext] at hbroken
        exact (Ledger.moved_settle hfound hstage (Task.taskId_setStatus .completed)
          (fun _ => rfl) .complete (.inl rfl)).broken_mem (by simp) hbroken
  | leave i =>
      change _ ∈ (w.toLedger.leave i).executions at hbroken
      rcases w.toLedger.advance_cases i .settled fun e => _ with hsame | ⟨e, hfound, hstage, hnext⟩
      · rwa [Ledger.leave, hsame] at hbroken
      · rw [Ledger.leave, hnext] at hbroken
        exact (Ledger.moved_leave hfound hstage).broken_mem (by simp) hbroken

/-- In `u` nothing that `w` knew is left to do, and every permit is back: every
task is over, but for those whose execution was broken. -/
structure CaughtUp (maxConcurrent : ℕ) (w u : BackgroundWorker) : Prop where
  queue : u.queue = []
  permits : u.free = maxConcurrent
  tasks : ∀ taskId ∈ w.tasks.keys,
    (∃ status, u.status taskId = some status ∧ IsFinal status) ∨
      ⟨taskId, .broken⟩ ∈ w.executions

theorem caughtUp_of_idle {u : BackgroundWorker} (h : u.Sound maxConcurrent) (hidle : u.Idle)
    (hkeys : ∀ taskId ∈ w.tasks.keys, taskId ∈ u.tasks.keys)
    (hbroken : ∀ taskId : TaskId, (⟨taskId, .broken⟩ : Execution) ∈ u.executions →
      ⟨taskId, .broken⟩ ∈ w.executions) : CaughtUp maxConcurrent w u where
  queue := hidle.1
  permits := by
    have hnone : u.holding = 0 := by
      refine List.countP_eq_zero.mpr fun e he => ?_
      rcases hidle.2 e he with hstage | hstage
      · rw [hstage]
        exact Bool.false_ne_true
      · rw [hstage]
        exact Bool.false_ne_true
    have hsum := h.permits
    omega
  tasks := by
    intro taskId hkey
    have hplace := (h.placed_iff taskId).mpr (hkeys taskId hkey)
    rw [Ledger.places, hidle.1, List.nil_append, List.mem_append] at hplace
    rcases hplace with hexecuted | hclosed
    · obtain ⟨e, he, rfl⟩ := List.mem_map.mp hexecuted
      rcases hidle.2 e he with hstage | hstage
      · obtain ⟨status, hstatus, hshows⟩ := h.executed e he
        rw [hstage] at hshows
        exact .inl ⟨status, hstatus, hshows.elim .inl fun hfailed => .inr (.inl hfailed)⟩
      · right
        apply hbroken
        rw [← hstage]
        exact he
    · exact .inl ⟨.cancelled, h.closed taskId hclosed, .inr (.inr rfl)⟩

end Drains

/-- Wherever a schedule has led, a worker that runs can catch up with its tasks
in as many steps as there is work left, and one to begin its loop. -/
theorem can_catch_up (maxConcurrent : ℕ) (hpermits : 1 ≤ maxConcurrent) (inputs : List Input)
    (hrunning : (final step (init maxConcurrent) inputs).running = true) :
    ∃ later : List Input, (∀ input ∈ later, input.IsWork) ∧
      later.length ≤ (final step (init maxConcurrent) inputs).work + 1 ∧
      CaughtUp maxConcurrent (final step (init maxConcurrent) inputs)
        (final step (final step (init maxConcurrent) inputs) later) := by
  have hsound := sound_final maxConcurrent inputs
  have hattended : (final step (init maxConcurrent) inputs).Attended :=
    final_of_steps (I := Attended) (fun _ _ => True) (fun _ input h _ => attended_step h input)
      (fun hrun => absurd hrun Bool.false_ne_true) fun _ _ => trivial
  generalize final step (init maxConcurrent) inputs = w at *
  have hidle : ∃ later : List Input, (∀ input ∈ later, input.IsWork) ∧
      later.length ≤ w.work + 1 ∧ (final step w later).Idle := by
    obtain ⟨j, hcreated | hat⟩ := hattended hrunning
    · have hbegin : w.step (.loopBegin j) = w.setLoop j .waiting := by
        change w.loopBegin j = _
        rw [loopBegin, if_pos hcreated, check, if_pos hrunning]
      have hwaits : (w.step (.loopBegin j)).LoopAt j .waiting := by
        rw [hbegin, LoopAt, setLoop, List.getElem?_modify_eq, hcreated]
        rfl
      obtain ⟨later, hlater, hlength, hend⟩ := exists_idle (sound_step hsound _).1 hpermits
        (hbegin ▸ hrunning) hwaits
      refine ⟨.loopBegin j :: later, List.forall_mem_cons.mpr ⟨.loopBegin j, hlater⟩, ?_, hend⟩
      rw [hbegin] at hlength
      exact Nat.succ_le_succ hlength
    · obtain ⟨later, hlater, hlength, hend⟩ := exists_idle hsound hpermits hrunning hat
      exact ⟨later, hlater, Nat.le_succ_of_le hlength, hend⟩
  obtain ⟨later, hlater, hlength, hend⟩ := hidle
  refine ⟨later, hlater, hlength, ?_⟩
  have hkept : (final step w later).Sound maxConcurrent ∧
      (∀ taskId ∈ w.tasks.keys, taskId ∈ (final step w later).tasks.keys) ∧
      ∀ taskId : TaskId, (⟨taskId, .broken⟩ : Execution) ∈ (final step w later).executions →
        ⟨taskId, .broken⟩ ∈ w.executions := by
    refine final_of_steps (I := fun u : BackgroundWorker => u.Sound maxConcurrent ∧
      (∀ taskId ∈ w.tasks.keys, taskId ∈ u.tasks.keys) ∧
      ∀ taskId : TaskId, (⟨taskId, .broken⟩ : Execution) ∈ u.executions →
        ⟨taskId, .broken⟩ ∈ w.executions) (fun _ input => input.IsWork) ?_
      ⟨hsound, fun _ h => h, fun _ h => h⟩ fun t ht => hlater t.input (input_mem_of_mem_trace ht)
    rintro u input ⟨hu, hkeys, hbroken⟩ hinput
    obtain ⟨hnext, hmoves⟩ := sound_step hu input
    refine ⟨hnext, fun taskId hkey => ?_, fun taskId hmem =>
      hbroken taskId (broken_of_step hinput hmem)⟩
    by_contra hgone
    have hnone := ((u.step input).status_eq_none_iff).mpr hgone
    cases hstatus : u.status taskId with
    | none => exact (u.status_eq_none_iff.mp hstatus) (hkeys taskId hkey)
    | some status =>
        obtain ⟨status', hstatus', -⟩ := (hmoves taskId).1 status hstatus
        rw [hnone] at hstatus'
        cases hstatus'
  exact caughtUp_of_idle hkept.1 hend hkept.2.1 hkept.2.2

theorem can_catch_up_sample :
    ∃ later : List Input, (∀ input ∈ later, input.IsWork) ∧
      later.length ≤ (final step (init 1) competingSchedule).work + 1 ∧
      CaughtUp 1 (final step (init 1) competingSchedule)
        (final step (final step (init 1) competingSchedule) later) :=
  can_catch_up 1 (Nat.le_refl 1) competingSchedule rfl

/-! ## First come, first served -/

namespace Ledger

/-- The executions and the queue hold the tasks in the order in which they came,
but for those that were closed. -/
def InOrder (l : Ledger) : Prop :=
  l.executions.map Execution.taskId ++ l.queue = l.tasks.keys.filter (· ∉ l.closed)

section InOrder

variable {maxConcurrent : ℕ} {l l' : Ledger}

theorem inOrder_drain (h : Sound maxConcurrent l) (horder : l.InOrder) : l.drain.InOrder := by
  have hdisjoint : ∀ taskId ∈ l.executions.map Execution.taskId, taskId ∉ l.queue := by
    intro taskId hexecuted hqueued
    exact (List.nodup_append.mp h.placedOnce).2.2 taskId hqueued taskId
      (List.mem_append_left _ hexecuted) rfl
  have hexecuted : l.executions.map Execution.taskId =
      (l.executions.map Execution.taskId ++ l.queue).filter (· ∉ l.queue) := by
    rw [List.filter_append, List.filter_eq_self.mpr (by simpa using hdisjoint),
      List.filter_eq_nil_iff.mpr (by simp), List.append_nil]
  rw [InOrder, keys_drain]
  change l.executions.map Execution.taskId ++ [] =
    l.tasks.keys.filter (· ∉ l.closed ++ l.queue)
  rw [List.append_nil, hexecuted, horder, List.filter_filter]
  refine List.filter_congr fun taskId _ => ?_
  simp [and_comm]

/-- A change keeps the order, and new tasks come last. -/
theorem inOrder_change (h : Sound maxConcurrent l) (horder : l.InOrder)
    (hchange : l.Change l') : l'.InOrder ∧ l.tasks.keys <+: l'.tasks.keys := by
  cases hchange with
  | enqueue taskId name hnew =>
      have hkeys : (l.tasks.upsert (⟨taskId, .pending, name, none⟩ : Task)).keys =
          l.tasks.keys ++ [taskId] := by
        rw [KeyedList.keys_upsert, if_neg hnew]
      have hopen : taskId ∉ l.closed := by
        intro hclosed
        apply hnew
        rw [← h.placed_iff, places, List.mem_append, List.mem_append]
        exact .inr (.inr hclosed)
      refine ⟨?_, hkeys.symm ▸ l.tasks.keys.prefix_append [taskId]⟩
      change l.executions.map Execution.taskId ++ (l.queue ++ [taskId]) =
        (l.tasks.upsert (⟨taskId, .pending, name, none⟩ : Task)).keys.filter (· ∉ l.closed)
      rw [hkeys, List.filter_append, ← List.append_assoc, horder]
      simp [hopen]
  | take taskId rest hqueue =>
      refine ⟨?_, List.prefix_refl _⟩
      change (l.executions ++ [(⟨taskId, .waiting⟩ : Execution)]).map Execution.taskId ++ rest =
        l.tasks.keys.filter (· ∉ l.closed)
      rw [← horder, hqueue, List.map_append, List.append_assoc]
      rfl
  | drain =>
      exact ⟨inOrder_drain h horder, keys_drain l ▸ List.prefix_refl _⟩
  | move i e stage _ hmoved =>
      rw [InOrder, hmoved.map_taskId, hmoved.queue, hmoved.keys, hmoved.closed]
      exact ⟨horder, List.prefix_refl _⟩

end InOrder
end Ledger

/-- On every schedule the tasks that were not closed are detached in the order
in which they were enqueued: the executions and the queue together are always
the entries of `_tasks`, which only grow at the end, without the closed ones. -/
theorem first_come_first_served (maxConcurrent : ℕ) (inputs : List Input) :
    ∀ t ∈ trace step (init maxConcurrent) inputs,
      t.after.executions.map Execution.taskId ++ t.after.queue =
        t.after.tasks.keys.filter (· ∉ t.after.closed) ∧
      t.before.tasks.keys <+: t.after.tasks.keys := by
  have hstep : ∀ (w : BackgroundWorker) (input : Input),
      w.Sound maxConcurrent ∧ w.InOrder → True →
      (w.step input).InOrder ∧ w.tasks.keys <+: (w.step input).tasks.keys := by
    rintro w input ⟨hsound, horder⟩ -
    rcases step_cases w input with hsame | hchange
    · rw [hsame]
      exact ⟨horder, List.prefix_refl _⟩
    · exact Ledger.inOrder_change hsound horder hchange
  refine trace_of_steps (I := fun w : BackgroundWorker => w.Sound maxConcurrent ∧ w.InOrder)
    (L := fun t => t.after.executions.map Execution.taskId ++ t.after.queue =
        t.after.tasks.keys.filter (· ∉ t.after.closed) ∧
      t.before.tasks.keys <+: t.after.tasks.keys)
    (fun _ _ => True) (fun w input h hgood => ⟨(sound_step h.1 input).1, (hstep w input h hgood).1⟩)
    hstep ⟨Ledger.sound_init maxConcurrent, rfl⟩ fun _ _ => trivial

theorem first_come_first_served_sample :
    (final step (init 1) competingSchedule).executions.map Execution.taskId ++
        (final step (init 1) competingSchedule).queue =
      (final step (init 1) competingSchedule).tasks.keys.filter
        (· ∉ (final step (init 1) competingSchedule).closed) ∧
    (final step (init 1) competingSchedule.dropLast).tasks.keys <+:
      (final step (init 1) competingSchedule).tasks.keys :=
  first_come_first_served 1 competingSchedule
    ⟨final step (init 1) competingSchedule.dropLast, .enter 1,
      final step (init 1) competingSchedule⟩
    (List.mem_of_getElem? (i := 8) rfl)

end BackgroundWorker
end AiBackend
