import AiBackend.Infrastructure.BackgroundWorker
import AiBackend.Support.Run

/-!
# The life of a background task

A task is in the queue, has an execution, or is cancelled, and never two of
these; what its execution has reached fixes its status, what the semaphore has
left, and whether its coroutine has been awaited.  Every step keeps that, so
no schedule lets too many coroutines run, awaits or closes one twice, or moves
a status out of order.
-/

namespace AiBackend

/-- The moves a status may make. -/
inductive TaskStatus.Moves : TaskStatus → TaskStatus → Prop where
  | run : Moves .pending .running
  | complete : Moves .running .completed
  | fail : Moves .running .failed
  | cancel : Moves .pending .cancelled

namespace BackgroundWorker

open Run

/-! ## Stages -/

namespace Stage

/-- Past the semaphore and not out of it. -/
def holds : Stage → Bool
  | .started => true
  | .awaiting => true
  | .settled => true
  | _ => false

/-- The coroutine has been awaited. -/
def hasBegun : Stage → Bool
  | .waiting => false
  | .started => false
  | _ => true

/-- The statuses of a task whose execution is at the stage. -/
def Shows : Stage → TaskStatus → Prop
  | .waiting, status => status = .pending
  | .settled, status => status = .completed ∨ status = .failed
  | .left, status => status = .completed ∨ status = .failed
  | _, status => status = .running

end Stage

namespace Ledger

/-- How many coroutines are executing. -/
def executing (l : Ledger) : ℕ := l.executions.countP fun e => decide (e.stage = .awaiting)

/-- How many executions are past the semaphore. -/
def holding (l : Ledger) : ℕ := l.executions.countP fun e => e.stage.holds

/-- Where the tasks are: in the queue, executed, or closed. -/
def places (l : Ledger) : List TaskId :=
  l.queue ++ (l.executions.map Execution.taskId ++ l.closed)

/-- The parts of a worker fit together. -/
structure Sound (maxConcurrent : ℕ) (l : Ledger) : Prop where
  placedOnce : l.places.Nodup
  placed_iff : ∀ taskId, taskId ∈ l.places ↔ taskId ∈ l.tasks.keys
  queued : ∀ taskId ∈ l.queue, l.status taskId = some .pending
  executed : ∀ e ∈ l.executions, ∃ status, l.status e.taskId = some status ∧
    e.stage.Shows status
  closed : ∀ taskId ∈ l.closed, l.status taskId = some .cancelled
  permits : l.free + l.holding = maxConcurrent
  awaitedOnce : l.awaited.Nodup
  begun : ∀ taskId ∈ l.awaited, ∃ e ∈ l.executions, e.taskId = taskId ∧
    e.stage.hasBegun = true

/-- Every status stays or moves, and a new task is pending. -/
def StatusesMove (l l' : Ledger) : Prop :=
  ∀ taskId,
    (∀ status, l.status taskId = some status → ∃ status', l'.status taskId = some status' ∧
      (status = status' ∨ status.Moves status')) ∧
    (l.status taskId = none → ∀ status, l'.status taskId = some status → status = .pending)

/-! ## Statuses -/

section Statuses

variable (l : Ledger) {taskId other : TaskId}

theorem status_eq_none_iff : l.status taskId = none ↔ taskId ∉ l.tasks.keys := by
  rw [status, Option.map_eq_none_iff, ← l.tasks.isSome_find?_iff,
    Option.not_isSome_iff_eq_none]

theorem status_onTask_self {f : Task → Task} (hf : ∀ task, (f task).taskId = task.taskId)
    {status' : TaskStatus} (hstatus : ∀ task, (f task).status = status') {a : TaskStatus}
    (h : l.status taskId = some a) :
    (l.onTask taskId f hf).status taskId = some status' := by
  obtain ⟨task, htask, -⟩ := Option.map_eq_some_iff.mp h
  rw [status, onTask, KeyedList.find?_modify, if_pos rfl, htask]
  exact congrArg some (hstatus task)

theorem status_onTask_of_ne {f : Task → Task} (hf : ∀ task, (f task).taskId = task.taskId)
    (h : other ≠ taskId) : (l.onTask taskId f hf).status other = l.status other := by
  rw [status, onTask, KeyedList.find?_modify, if_neg h, status]

theorem keys_drain : l.drain.tasks.keys = l.tasks.keys := by
  unfold drain
  dsimp only
  generalize l.tasks = tasks
  induction l.queue generalizing tasks with
  | nil => rfl
  | cons taskId rest ih => rw [List.foldl_cons, ih, KeyedList.keys_modify]

/-- Draining cancels what is in the queue. -/
theorem status_drain (taskId : TaskId) :
    l.drain.status taskId =
      if taskId ∈ l.queue then (l.status taskId).map fun _ => .cancelled
      else l.status taskId := by
  unfold drain status
  dsimp only
  generalize l.tasks = tasks
  induction l.queue generalizing tasks with
  | nil => rfl
  | cons head rest ih =>
      rw [List.foldl_cons, ih, KeyedList.find?_modify]
      by_cases hhead : taskId = head
      · subst hhead
        simp [Task.setStatus, Function.comp_def]
      · simp [hhead]

end Statuses

/-! ## What a step does to the ledger -/

/-- The execution `e`, the `i`-th one, goes to another stage; nothing happens
to other tasks. -/
structure Moved (l : Ledger) (i : ℕ) (e : Execution) (stage : Stage) (l' : Ledger) : Prop where
  found : l.executions[i]? = some e
  executions : l'.executions = l.executions.set i { e with stage := stage }
  queue : l'.queue = l.queue
  closed : l'.closed = l.closed
  keys : l'.tasks.keys = l.tasks.keys
  others : ∀ taskId, taskId ≠ e.taskId → l'.status taskId = l.status taskId
  own : ∀ status, l.status e.taskId = some status → e.stage.Shows status →
    ∃ status', l'.status e.taskId = some status' ∧ stage.Shows status' ∧
      (status = status' ∨ status.Moves status')
  permits : l'.free + stage.holds.toNat = l.free + e.stage.holds.toNat
  awaited : l'.awaited = l.awaited ∧ (e.stage.hasBegun = true → stage.hasBegun = true) ∨
    l'.awaited = l.awaited ++ [e.taskId] ∧ e.stage.hasBegun = false ∧ stage.hasBegun = true

section Moves

variable {l : Ledger} {i : ℕ} {e : Execution}

theorem moved_enter (hfound : l.executions[i]? = some e) (hstage : e.stage = .waiting)
    (hfree : l.free ≠ 0) :
    Moved l i e .started { (l.move i e .started).onTask e.taskId (Task.setStatus .running)
      (Task.taskId_setStatus .running) with free := l.free - 1 } where
  found := hfound
  executions := rfl
  queue := rfl
  closed := rfl
  keys := KeyedList.keys_modify _ _ _ (Task.taskId_setStatus .running)
  others := fun _ hne =>
    (l.move i e .started).status_onTask_of_ne (Task.taskId_setStatus .running) hne
  own := by
    intro status hstatus hshows
    rw [hstage] at hshows
    obtain rfl : status = .pending := hshows
    exact ⟨.running, (l.move i e .started).status_onTask_self
      (Task.taskId_setStatus .running) (fun _ => rfl) hstatus, rfl, .inr .run⟩
  permits := by
    rw [hstage]
    change l.free - 1 + 1 = l.free + 0
    omega
  awaited := .inl ⟨rfl, by simp [hstage, Stage.hasBegun]⟩

theorem moved_begin (hfound : l.executions[i]? = some e) (hstage : e.stage = .started) :
    Moved l i e .awaiting { l.move i e .awaiting with awaited := l.awaited ++ [e.taskId] } where
  found := hfound
  executions := rfl
  queue := rfl
  closed := rfl
  keys := rfl
  others := fun _ _ => rfl
  own := by
    intro status hstatus hshows
    rw [hstage] at hshows
    exact ⟨status, hstatus, hshows, .inl rfl⟩
  permits := by rw [hstage]; rfl
  awaited := .inr ⟨rfl, by rw [hstage]; rfl, rfl⟩

theorem moved_settle (hfound : l.executions[i]? = some e) (hstage : e.stage = .awaiting)
    {f : Task → Task} (hf : ∀ task, (f task).taskId = task.taskId) {status' : TaskStatus}
    (hstatus' : ∀ task, (f task).status = status') (hmoves : TaskStatus.running.Moves status')
    (hshown : Stage.settled.Shows status') :
    Moved l i e .settled ((l.move i e .settled).onTask e.taskId f hf) where
  found := hfound
  executions := rfl
  queue := rfl
  closed := rfl
  keys := KeyedList.keys_modify _ _ f hf
  others := fun _ hne => (l.move i e .settled).status_onTask_of_ne hf hne
  own := by
    intro status hstatus hshows
    rw [hstage] at hshows
    obtain rfl : status = .running := hshows
    exact ⟨status', (l.move i e .settled).status_onTask_self hf hstatus' hstatus, hshown,
      .inr hmoves⟩
  permits := by rw [hstage]; rfl
  awaited := .inl ⟨rfl, fun _ => rfl⟩

theorem moved_break (hfound : l.executions[i]? = some e) (hstage : e.stage = .awaiting) :
    Moved l i e .broken { l.move i e .broken with free := l.free + 1 } where
  found := hfound
  executions := rfl
  queue := rfl
  closed := rfl
  keys := rfl
  others := fun _ _ => rfl
  own := by
    intro status hstatus hshows
    rw [hstage] at hshows
    exact ⟨status, hstatus, hshows, .inl rfl⟩
  permits := by rw [hstage]; rfl
  awaited := .inl ⟨rfl, fun _ => rfl⟩

theorem moved_leave (hfound : l.executions[i]? = some e) (hstage : e.stage = .settled) :
    Moved l i e .left { l.move i e .left with free := l.free + 1 } where
  found := hfound
  executions := rfl
  queue := rfl
  closed := rfl
  keys := rfl
  others := fun _ _ => rfl
  own := by
    intro status hstatus hshows
    rw [hstage] at hshows
    exact ⟨status, hstatus, hshows, .inl rfl⟩
  permits := by rw [hstage]; rfl
  awaited := .inl ⟨rfl, fun _ => rfl⟩

end Moves

/-- What a step can do to the ledger. -/
inductive Change (l : Ledger) : Ledger → Prop where
  | enqueue (taskId : TaskId) (name : String) (hnew : taskId ∉ l.tasks.keys) :
      Change l { l with
        tasks := l.tasks.upsert ⟨taskId, .pending, name, none⟩
        queue := l.queue ++ [taskId] }
  | take (taskId : TaskId) (rest : List TaskId) (hqueue : l.queue = taskId :: rest) :
      Change l { l with
        queue := rest
        executions := l.executions ++ [⟨taskId, .waiting⟩] }
  | drain : Change l l.drain
  | move (i : ℕ) (e : Execution) (stage : Stage) (l' : Ledger) (h : Moved l i e stage l') :
      Change l l'

/-- A step of an execution moves it, or there is none at that stage. -/
theorem advance_cases (l : Ledger) (i : ℕ) (stage : Stage) (next : Execution → Ledger) :
    l.advance i stage next = l ∨
      ∃ e, l.executions[i]? = some e ∧ e.stage = stage ∧ l.advance i stage next = next e := by
  unfold advance
  cases hfound : l.executions[i]? with
  | none => exact .inl rfl
  | some e =>
      dsimp only
      by_cases hstage : e.stage = stage
      · exact .inr ⟨e, rfl, hstage, if_pos hstage⟩
      · exact .inl (if_neg hstage)

end Ledger

section Unchanged

variable (w : BackgroundWorker)

theorem toLedger_start : w.start.toLedger = w.toLedger := by
  unfold start
  split
  · rfl
  · rfl

theorem toLedger_stopReturn (k : ℕ) : (w.stopReturn k).toLedger = w.toLedger := by
  unfold stopReturn
  split
  · rfl
  · split
    · rfl
    · rfl
  · rfl

theorem toLedger_loopBegin (j : ℕ) : (w.loopBegin j).toLedger = w.toLedger :=
  (apply_ite toLedger ..).trans (ite_self _)

theorem toLedger_loopTimeout (j : ℕ) : (w.loopTimeout j).toLedger = w.toLedger :=
  (apply_ite toLedger ..).trans (ite_self _)

theorem toLedger_loopCancel (j : ℕ) : (w.loopCancel j).toLedger = w.toLedger :=
  (apply_ite toLedger ..).trans (ite_self _)

end Unchanged

/-- Every step leaves the ledger alone or changes it in one of these ways. -/
theorem step_cases (w : BackgroundWorker) (input : Input) :
    (w.step input).toLedger = w.toLedger ∨ w.toLedger.Change (w.step input).toLedger := by
  cases input with
  | enqueue taskId name =>
      by_cases hknown : taskId ∈ w.tasks.keys
      · exact .inl (if_pos hknown)
      · refine .inr ?_
        change w.toLedger.Change (w.toLedger.enqueue taskId name)
        rw [Ledger.enqueue, if_neg hknown]
        exact .enqueue taskId name hknown
  | start => exact .inl w.toLedger_start
  | stop => exact .inr .drain
  | stopReturn k => exact .inl (w.toLedger_stopReturn k)
  | loopBegin j => exact .inl (w.toLedger_loopBegin j)
  | loopTimeout j => exact .inl (w.toLedger_loopTimeout j)
  | loopCancel j => exact .inl (w.toLedger_loopCancel j)
  | loopTake j =>
      change (w.loopTake j).toLedger = _ ∨ w.toLedger.Change (w.loopTake j).toLedger
      unfold loopTake
      split
      · cases hqueue : w.queue with
        | nil =>
            refine .inl ?_
            change w.toLedger.take = _
            rw [Ledger.take, hqueue]
        | cons taskId rest =>
            refine .inr ?_
            change w.toLedger.Change w.toLedger.take
            rw [Ledger.take, hqueue]
            exact .take taskId rest hqueue
      · exact .inl rfl
  | enter i =>
      obtain hsame | ⟨e, hfound, hstage, hnext⟩ :=
        w.toLedger.advance_cases i .waiting fun e => _
      · exact .inl hsame
      · change (w.toLedger.enter i) = _ ∨ w.toLedger.Change (w.toLedger.enter i)
        rw [Ledger.enter, hnext]
        by_cases hfree : w.free = 0
        · exact .inl (if_pos hfree)
        · rw [if_neg hfree]
          exact .inr (.move i e _ _ (Ledger.moved_enter hfound hstage hfree))
  | begin i =>
      obtain hsame | ⟨e, hfound, hstage, hnext⟩ :=
        w.toLedger.advance_cases i .started fun e => _
      · exact .inl hsame
      · refine .inr ?_
        change w.toLedger.Change (w.toLedger.begin i)
        rw [Ledger.begin, hnext]
        exact .move i e _ _ (Ledger.moved_begin hfound hstage)
  | finish i outcome =>
      obtain hsame | ⟨e, hfound, hstage, hnext⟩ :=
        w.toLedger.advance_cases i .awaiting fun e => _
      · exact .inl hsame
      · refine .inr ?_
        change w.toLedger.Change (w.toLedger.finish i outcome)
        rw [Ledger.finish, hnext]
        cases outcome with
        | returned =>
            exact .move i e _ _ (Ledger.moved_settle hfound hstage
              (Task.taskId_setStatus .completed) (fun _ => rfl) .complete (.inl rfl))
        | raised text =>
            exact .move i e _ _ (Ledger.moved_settle hfound hstage
              (Task.taskId_fail text) (fun _ => rfl) .fail (.inr rfl))
        | interrupted => exact .move i e _ _ (Ledger.moved_break hfound hstage)
  | leave i =>
      obtain hsame | ⟨e, hfound, hstage, hnext⟩ :=
        w.toLedger.advance_cases i .settled fun e => _
      · exact .inl hsame
      · refine .inr ?_
        change w.toLedger.Change (w.toLedger.leave i)
        rw [Ledger.leave, hnext]
        exact .move i e _ _ (Ledger.moved_leave hfound hstage)

namespace Ledger

/-! ## Soundness is kept -/

theorem sound_init (maxConcurrent : ℕ) : Sound maxConcurrent (init maxConcurrent).toLedger where
  placedOnce := List.nodup_nil
  placed_iff := fun _ => Iff.rfl
  queued := fun _ h => absurd h List.not_mem_nil
  executed := fun _ h => absurd h List.not_mem_nil
  closed := fun _ h => absurd h List.not_mem_nil
  permits := rfl
  awaitedOnce := List.nodup_nil
  begun := fun _ h => absurd h List.not_mem_nil

theorem statusesMove_refl (l : Ledger) : StatusesMove l l :=
  fun _ => ⟨fun status h => ⟨status, h, .inl rfl⟩,
    fun h status hstatus => absurd (h.symm.trans hstatus) (by simp)⟩

section Sound

variable {maxConcurrent : ℕ} {l l' : Ledger}

/-! ### A new task -/

section Enqueue

variable {taskId : TaskId} {name : String}

theorem status_enqueued (taskId' : TaskId) (queue : List TaskId) :
    status { l with
        tasks := l.tasks.upsert ⟨taskId, .pending, name, none⟩
        queue := queue } taskId' =
      if taskId' = taskId then some .pending else l.status taskId' := by
  rw [status, KeyedList.find?_upsert, status]
  by_cases hsame : taskId' = taskId
  · rw [if_pos hsame, if_pos hsame]
    rfl
  · rw [if_neg hsame, if_neg hsame]

theorem sound_enqueue (h : Sound maxConcurrent l) (hnew : taskId ∉ l.tasks.keys) :
    Sound maxConcurrent { l with
      tasks := l.tasks.upsert ⟨taskId, .pending, name, none⟩
      queue := l.queue ++ [taskId] } := by
  have hunplaced : taskId ∉ l.places := fun hplace => hnew ((h.placed_iff taskId).mp hplace)
  have hplaces : (places { l with
      tasks := l.tasks.upsert ⟨taskId, .pending, name, none⟩
      queue := l.queue ++ [taskId] }).Perm (taskId :: l.places) := by
    simp only [places, List.append_assoc, List.singleton_append]
    exact List.perm_middle
  have hkept : ∀ other ∈ l.places, other ≠ taskId := by
    rintro other hother rfl
    exact hunplaced hother
  refine {
    placedOnce := hplaces.nodup_iff.mpr (List.nodup_cons.mpr ⟨hunplaced, h.placedOnce⟩)
    placed_iff := ?_
    queued := ?_
    executed := ?_
    closed := ?_
    permits := h.permits
    awaitedOnce := h.awaitedOnce
    begun := h.begun }
  · intro other
    have hkeys : (l.tasks.upsert ⟨taskId, .pending, name, none⟩).keys =
        l.tasks.keys ++ [taskId] := by
      have hitems : (l.tasks.upsert ⟨taskId, .pending, name, none⟩).items =
          l.tasks.items ++ [⟨taskId, .pending, name, none⟩] := if_neg hnew
      rw [KeyedList.keys, hitems, List.map_append]
      rfl
    rw [hplaces.mem_iff, List.mem_cons, h.placed_iff, hkeys, List.mem_append,
      List.mem_singleton, or_comm]
  · intro other hother
    rw [status_enqueued]
    split
    · rfl
    next hne =>
      have hqueued : other ∈ l.queue := by simpa [hne] using hother
      exact h.queued other hqueued
  · intro e he
    have hplace : e.taskId ∈ l.places := by
      simp only [places, List.mem_append, List.mem_map]
      exact .inr (.inl ⟨e, he, rfl⟩)
    rw [status_enqueued, if_neg (hkept _ hplace)]
    exact h.executed e he
  · intro other hother
    have hplace : other ∈ l.places := by
      simp only [places, List.mem_append]
      exact .inr (.inr hother)
    rw [status_enqueued, if_neg (hkept _ hplace)]
    exact h.closed other hother

theorem statusesMove_enqueue (hnew : taskId ∉ l.tasks.keys) :
    StatusesMove l { l with
      tasks := l.tasks.upsert ⟨taskId, .pending, name, none⟩
      queue := l.queue ++ [taskId] } := by
  intro other
  rw [status_enqueued]
  by_cases hsame : other = taskId
  · rw [if_pos hsame]
    have hnone : l.status other = none := by
      rw [hsame]
      exact l.status_eq_none_iff.mpr hnew
    simp [hnone]
  · rw [if_neg hsame]
    exact statusesMove_refl l other

end Enqueue

/-! ### The loop takes an item -/

theorem sound_take (h : Sound maxConcurrent l) {taskId : TaskId} {rest : List TaskId}
    (hqueue : l.queue = taskId :: rest) :
    Sound maxConcurrent { l with
      queue := rest
      executions := l.executions ++ [⟨taskId, .waiting⟩] } := by
  have hplaces : (places { l with
      queue := rest
      executions := l.executions ++ [⟨taskId, .waiting⟩] }).Perm l.places := by
    simp only [places, hqueue, List.map_append, List.map_singleton, List.append_assoc,
      List.cons_append]
    rw [← List.append_assoc, ← List.append_assoc]
    exact List.perm_middle
  refine {
    placedOnce := hplaces.nodup_iff.mpr h.placedOnce
    placed_iff := fun other => hplaces.mem_iff.trans (h.placed_iff other)
    queued := fun other hother => h.queued other (hqueue ▸ List.mem_cons_of_mem _ hother)
    executed := ?_
    closed := h.closed
    permits := ?_
    awaitedOnce := h.awaitedOnce
    begun := ?_ }
  · intro e he
    rcases List.mem_append.mp he with he | he
    · exact h.executed e he
    · obtain rfl := List.mem_singleton.mp he
      exact ⟨.pending, h.queued taskId (hqueue ▸ List.mem_cons_self), rfl⟩
  · rw [holding, List.countP_append]
    exact h.permits
  · intro other hother
    obtain ⟨e, he, hid, hbegun⟩ := h.begun other hother
    exact ⟨e, List.mem_append_left _ he, hid, hbegun⟩

/-! ### The queue is drained -/

theorem sound_drain (h : Sound maxConcurrent l) : Sound maxConcurrent l.drain := by
  have hplaces : l.drain.places.Perm l.places := by
    simp only [places, drain, List.nil_append]
    rw [← List.append_assoc]
    exact List.perm_append_comm
  have hunqueued : ∀ taskId ∈ l.executions.map Execution.taskId ++ l.closed,
      taskId ∉ l.queue := by
    intro taskId hrest hqueued
    exact (List.nodup_append.mp h.placedOnce).2.2 taskId hqueued taskId hrest rfl
  refine {
    placedOnce := hplaces.nodup_iff.mpr h.placedOnce
    placed_iff := ?_
    queued := fun _ hmem => absurd hmem List.not_mem_nil
    executed := ?_
    closed := ?_
    permits := h.permits
    awaitedOnce := h.awaitedOnce
    begun := h.begun }
  · intro taskId
    rw [hplaces.mem_iff, h.placed_iff, keys_drain]
  · intro e he
    have hrest : e.taskId ∈ l.executions.map Execution.taskId ++ l.closed :=
      List.mem_append_left _ (List.mem_map_of_mem he)
    rw [status_drain, if_neg (hunqueued _ hrest)]
    exact h.executed e he
  · intro taskId hclosed
    rw [status_drain]
    rcases List.mem_append.mp hclosed with hclosed | hqueued
    · rw [if_neg (hunqueued _ (List.mem_append_right _ hclosed))]
      exact h.closed taskId hclosed
    · rw [if_pos hqueued, h.queued taskId hqueued]
      rfl

theorem statusesMove_drain (h : Sound maxConcurrent l) : StatusesMove l l.drain := by
  intro taskId
  rw [status_drain]
  by_cases hqueued : taskId ∈ l.queue
  · rw [if_pos hqueued, h.queued taskId hqueued]
    simp [TaskStatus.Moves.cancel]
  · rw [if_neg hqueued]
    exact statusesMove_refl l taskId

/-! ### An execution moves -/

/-- Replacing an item changes a count by what the two items count for. -/
theorem countP_set_add {α : Type} (p : α → Bool) {xs : List α} {i : ℕ} {a b : α}
    (h : xs[i]? = some a) :
    (xs.set i b).countP p + (p a).toNat = xs.countP p + (p b).toNat := by
  induction xs generalizing i with
  | nil => simp at h
  | cons x xs ih =>
      cases i with
      | zero =>
          obtain rfl : x = a := by simpa using h
          have hcount : ∀ q : Bool, q.toNat = if q = true then 1 else 0 := by
            intro q
            cases q with
            | false => rfl
            | true => rfl
          simp only [List.set_cons_zero, List.countP_cons, hcount]
          omega
      | succ i =>
          have htail := ih (by simpa using h)
          simp only [List.set_cons_succ, List.countP_cons]
          omega

section Move

variable {i : ℕ} {e : Execution} {stage : Stage}

theorem Moved.map_taskId (hmoved : Moved l i e stage l') :
    l'.executions.map Execution.taskId = l.executions.map Execution.taskId := by
  rw [hmoved.executions, List.map_set]
  apply List.ext_getElem?
  intro j
  by_cases hj : i = j
  · subst hj
    rw [List.getElem?_set_self', List.getElem?_map, hmoved.found]
    rfl
  · rw [List.getElem?_set_ne hj]

theorem Moved.places (hmoved : Moved l i e stage l') : l'.places = l.places := by
  rw [Ledger.places, Ledger.places, hmoved.map_taskId, hmoved.queue, hmoved.closed]

theorem Moved.mem_new (hmoved : Moved l i e stage l') :
    { e with stage := stage } ∈ l'.executions := by
  rw [hmoved.executions]
  exact List.mem_set (List.getElem?_eq_some_iff.mp hmoved.found).1 _

/-- Two executions of one task are the same. -/
theorem Sound.eq_of_taskId (h : Sound maxConcurrent l) {a b : Execution}
    (ha : a ∈ l.executions) (hb : b ∈ l.executions) (hid : a.taskId = b.taskId) : a = b := by
  have hnodup : (l.executions.map Execution.taskId).Nodup :=
    (List.nodup_append.mp (List.nodup_append.mp h.placedOnce).2.1).1
  exact List.inj_on_of_nodup_map hnodup ha hb hid

theorem Moved.mem_of_ne (hmoved : Moved l i e stage l') {other : Execution}
    (hother : other.taskId ≠ e.taskId) :
    other ∈ l'.executions ↔ other ∈ l.executions := by
  rw [hmoved.executions, List.mem_iff_getElem?, List.mem_iff_getElem?]
  have hnot : ∀ stage', (some ({ e with stage := stage' } : Execution)) ≠ some other := by
    intro stage' hsame
    exact hother (congrArg Execution.taskId (Option.some.inj hsame)).symm
  refine exists_congr fun j => ?_
  by_cases hj : i = j
  · subst hj
    rw [List.getElem?_set_self', hmoved.found]
    exact iff_of_false (hnot stage) (hnot e.stage)
  · rw [List.getElem?_set_ne hj]

theorem Sound.mem_executions (h : Sound maxConcurrent l) (hmoved : Moved l i e stage l')
    {other : Execution} (hmem : other ∈ l'.executions) :
    other = { e with stage := stage } ∨ other.taskId ≠ e.taskId ∧ other ∈ l.executions := by
  by_cases hother : other.taskId = e.taskId
  · rw [hmoved.executions] at hmem
    rcases List.mem_or_eq_of_mem_set hmem with hold | hnew
    · have hnodup : (l'.executions.map Execution.taskId).Nodup := by
        rw [hmoved.map_taskId]
        exact (List.nodup_append.mp (List.nodup_append.mp h.placedOnce).2.1).1
      rw [← hmoved.executions] at hmem
      exact .inl (List.inj_on_of_nodup_map hnodup hmem hmoved.mem_new hother)
    · exact .inl hnew
  · exact .inr ⟨hother, (hmoved.mem_of_ne hother).mp hmem⟩

theorem sound_move (h : Sound maxConcurrent l) (hmoved : Moved l i e stage l') :
    Sound maxConcurrent l' := by
  have hmem : e ∈ l.executions := List.mem_of_getElem? hmoved.found
  have hbegunOf : ∀ taskId ∈ l.awaited, taskId = e.taskId → e.stage.hasBegun = true := by
    intro taskId htask hid
    obtain ⟨other, hother, hotherId, hbegun⟩ := h.begun taskId htask
    rwa [← h.eq_of_taskId hother hmem (hotherId.trans hid)]
  have hkept : ∀ taskId ∈ l.awaited, taskId ≠ e.taskId → ∃ other ∈ l'.executions,
      other.taskId = taskId ∧ other.stage.hasBegun = true := by
    intro taskId htask hne
    obtain ⟨other, hother, rfl, hbegun⟩ := h.begun taskId htask
    exact ⟨other, (hmoved.mem_of_ne hne).mpr hother, rfl, hbegun⟩
  refine {
    placedOnce := hmoved.places ▸ h.placedOnce
    placed_iff := fun taskId => by rw [hmoved.places, hmoved.keys, h.placed_iff]
    queued := ?_
    executed := ?_
    closed := ?_
    permits := ?_
    awaitedOnce := ?_
    begun := ?_ }
  · intro taskId hqueued
    rw [hmoved.queue] at hqueued
    have hne : taskId ≠ e.taskId := by
      rintro rfl
      exact (List.nodup_append.mp h.placedOnce).2.2 _ hqueued _
        (List.mem_append_left _ (List.mem_map_of_mem hmem)) rfl
    rw [hmoved.others taskId hne]
    exact h.queued taskId hqueued
  · intro other hother
    rcases h.mem_executions hmoved hother with rfl | ⟨hne, hold⟩
    · obtain ⟨status, hstatus, hshows⟩ := h.executed e hmem
      obtain ⟨status', hstatus', hshows', -⟩ := hmoved.own status hstatus hshows
      exact ⟨status', hstatus', hshows'⟩
    · rw [hmoved.others _ hne]
      exact h.executed other hold
  · intro taskId hclosed
    rw [hmoved.closed] at hclosed
    have hne : taskId ≠ e.taskId := by
      rintro rfl
      exact (List.nodup_append.mp (List.nodup_append.mp h.placedOnce).2.1).2.2 _
        (List.mem_map_of_mem hmem) _ hclosed rfl
    rw [hmoved.others taskId hne]
    exact h.closed taskId hclosed
  · have hcount := countP_set_add (fun e : Execution => e.stage.holds) hmoved.found
      (b := { e with stage := stage })
    have hpermits := h.permits
    have hfree := hmoved.permits
    rw [holding] at hpermits
    rw [holding, hmoved.executions]
    dsimp only at hcount
    omega
  · rcases hmoved.awaited with ⟨hsame, -⟩ | ⟨happended, hnot, -⟩
    · rw [hsame]
      exact h.awaitedOnce
    · rw [happended]
      refine List.nodup_append.mpr ⟨h.awaitedOnce, List.nodup_singleton _, ?_⟩
      intro taskId htask other hother hsame
      rw [List.mem_singleton] at hother
      have hbegun := hbegunOf taskId htask (hsame.trans hother)
      rw [hnot] at hbegun
      cases hbegun
  · intro taskId htask
    by_cases hid : taskId = e.taskId
    · refine ⟨_, hmoved.mem_new, hid.symm, ?_⟩
      rcases hmoved.awaited with ⟨hsame, hstill⟩ | ⟨-, -, hbegun⟩
      · rw [hsame] at htask
        exact hstill (hbegunOf taskId htask hid)
      · exact hbegun
    · refine hkept taskId ?_ hid
      rcases hmoved.awaited with ⟨hsame, -⟩ | ⟨happended, -, -⟩
      · rwa [hsame] at htask
      · rw [happended, List.mem_append, List.mem_singleton] at htask
        exact htask.resolve_right hid

theorem statusesMove_move (h : Sound maxConcurrent l) (hmoved : Moved l i e stage l') :
    StatusesMove l l' := by
  intro taskId
  by_cases hid : taskId = e.taskId
  · subst hid
    obtain ⟨status, hstatus, hshows⟩ := h.executed e (List.mem_of_getElem? hmoved.found)
    obtain ⟨status', hstatus', -, hmoves⟩ := hmoved.own status hstatus hshows
    rw [hstatus, hstatus']
    simpa using hmoves
  · rw [hmoved.others taskId hid]
    exact statusesMove_refl l taskId

end Move

theorem sound_change (h : Sound maxConcurrent l) (hchange : l.Change l') :
    Sound maxConcurrent l' ∧ StatusesMove l l' := by
  cases hchange with
  | enqueue taskId name hnew => exact ⟨sound_enqueue h hnew, statusesMove_enqueue hnew⟩
  | take taskId rest hqueue => exact ⟨sound_take h hqueue, statusesMove_refl l⟩
  | drain => exact ⟨sound_drain h, statusesMove_drain h⟩
  | move i e stage _ hmoved => exact ⟨sound_move h hmoved, statusesMove_move h hmoved⟩

/-! ### What soundness gives -/

theorem Sound.executing_le (h : Sound maxConcurrent l) : l.executing ≤ maxConcurrent := by
  have hle : l.executing ≤ l.holding := by
    refine List.countP_mono_left fun e _ hstage => ?_
    rw [decide_eq_true_eq.mp hstage]
    rfl
  have hpermits := h.permits
  omega

/-- No coroutine is awaited twice, closed twice, or awaited and closed. -/
theorem Sound.handledOnce (h : Sound maxConcurrent l) : (l.awaited ++ l.closed).Nodup := by
  have hrest := List.nodup_append.mp (List.nodup_append.mp h.placedOnce).2.1
  refine List.nodup_append.mpr ⟨h.awaitedOnce, hrest.2.1, ?_⟩
  intro taskId hawaited other hclosed hsame
  obtain ⟨e, he, rfl, -⟩ := h.begun taskId hawaited
  exact hrest.2.2 _ (List.mem_map_of_mem he) other hclosed hsame

end Sound

end Ledger

/-! ## Runs -/

theorem sound_step {maxConcurrent : ℕ} {w : BackgroundWorker} (h : w.Sound maxConcurrent)
    (input : Input) :
    (w.step input).Sound maxConcurrent ∧ w.StatusesMove (w.step input).toLedger := by
  rcases step_cases w input with hsame | hchange
  · rw [hsame]
    exact ⟨h, Ledger.statusesMove_refl _⟩
  · exact Ledger.sound_change h hchange

theorem sound_final (maxConcurrent : ℕ) (inputs : List Input) :
    (final step (init maxConcurrent) inputs).Sound maxConcurrent :=
  final_of_steps (I := fun w : BackgroundWorker => w.Sound maxConcurrent) (fun _ _ => True)
    (fun _ input h _ => (sound_step h input).1) (Ledger.sound_init maxConcurrent)
    fun _ _ => trivial

/-- On every schedule at most the allowed number of coroutines execute, every
coroutine is awaited or closed once at most, and statuses only move along
their order. -/
theorem schedule_is_safe (maxConcurrent : ℕ) (inputs : List Input) :
    ∀ t ∈ trace step (init maxConcurrent) inputs,
      t.after.executing ≤ maxConcurrent ∧
        (t.after.awaited ++ t.after.closed).Nodup ∧
        t.before.StatusesMove t.after.toLedger := by
  refine trace_of_steps (I := fun w : BackgroundWorker => w.Sound maxConcurrent)
    (L := fun t => t.after.executing ≤ maxConcurrent ∧
      (t.after.awaited ++ t.after.closed).Nodup ∧ t.before.StatusesMove t.after.toLedger)
    (fun _ _ => True) (fun _ input h _ => (sound_step h input).1) ?_
    (Ledger.sound_init maxConcurrent) fun _ _ => trivial
  intro w input h _
  obtain ⟨hsound, hmoves⟩ := sound_step h input
  exact ⟨hsound.executing_le, hsound.handledOnce, hmoves⟩

/-- Two tasks come to the only permit; the second has to wait for it. -/
def competingSchedule : List Input :=
  [.start, .loopBegin 0, .enqueue "first" "", .enqueue "second" "", .loopTake 0, .loopTake 0,
    .enter 0, .begin 0, .enter 1]

theorem schedule_is_safe_sample :
    (final step (init 1) competingSchedule).executions =
        [⟨"first", .awaiting⟩, ⟨"second", .waiting⟩] ∧
      (final step (init 1) competingSchedule).executing ≤ 1 ∧
        ((final step (init 1) competingSchedule).awaited ++
          (final step (init 1) competingSchedule).closed).Nodup ∧
        (final step (init 1) competingSchedule.dropLast).StatusesMove
          (final step (init 1) competingSchedule).toLedger :=
  ⟨by decide, schedule_is_safe 1 competingSchedule
    ⟨final step (init 1) competingSchedule.dropLast, .enter 1,
      final step (init 1) competingSchedule⟩
    (List.mem_of_getElem? (i := 8) rfl)⟩

end BackgroundWorker
end AiBackend
