import AiBackend.Support.KeyedList

/-!
# The in-process background worker

`BackgroundWorker`: a queue, a worker loop that detaches one execution for
each item it takes, and a semaphore that limits how many executions are past
it.  One step is what happens between two suspensions.  A coroutine is named
by the task it is enqueued under, as every call of `enqueue` brings one of its
own.  Log calls suspend and do not raise.
-/

namespace AiBackend

/-- Status of a background task. -/
inductive TaskStatus where
  | pending
  | running
  | completed
  | failed
  | cancelled
  deriving DecidableEq, Repr

namespace BackgroundWorker

abbrev TaskId := String

/-- An entry of `_tasks`. -/
structure Task where
  taskId : TaskId
  status : TaskStatus
  name : String
  error : Option String

/-- How far an execution has got. -/
inductive Stage where
  /-- Detached, before the semaphore. -/
  | waiting
  /-- Past the semaphore, logging its start. -/
  | started
  /-- Inside `await coro`. -/
  | awaiting
  /-- The outcome is recorded; logging it. -/
  | settled
  /-- Out of the semaphore. -/
  | left
  /-- Out of the semaphore without a recorded outcome: the coroutine raised
  what is no `Exception`. -/
  | broken
  deriving DecidableEq, Repr

/-- A task that runs `_execute`. -/
structure Execution where
  taskId : TaskId
  stage : Stage
  deriving DecidableEq, Repr

/-- What the tasks are at, and which coroutines have been awaited and closed
so far. -/
structure Ledger where
  tasks : KeyedList Task.taskId
  queue : List TaskId
  executions : List Execution
  /-- The counter of the semaphore. -/
  free : ℕ
  awaited : List TaskId
  closed : List TaskId

/-- A worker loop is not begun, inside `wait_for`, or over. -/
inductive LoopStage where
  | created
  | waiting
  | done
  deriving DecidableEq, Repr

/-- A task that runs `_worker_loop`, and whether it is to be cancelled. -/
structure Loop where
  stage : LoopStage
  cancelled : Bool
  deriving DecidableEq, Repr

/-- A call of `stop` past its first part: it awaits a loop or nothing, or has
returned. -/
inductive StopCall where
  | awaiting (loop : Option ℕ)
  | returned
  deriving DecidableEq, Repr

end BackgroundWorker

open BackgroundWorker in
structure BackgroundWorker extends Ledger where
  running : Bool
  loops : List Loop
  /-- `_worker_task`. -/
  workerTask : Option ℕ
  stops : List StopCall

namespace BackgroundWorker

/-- `__init__`. -/
def init (maxConcurrent : ℕ) : BackgroundWorker where
  tasks := KeyedList.empty
  queue := []
  executions := []
  free := maxConcurrent
  awaited := []
  closed := []
  running := false
  loops := []
  workerTask := none
  stops := []

/-- The status of a task in `_tasks`. -/
def Ledger.status (l : Ledger) (taskId : TaskId) : Option TaskStatus :=
  (l.tasks.find? taskId).map Task.status

def Task.setStatus (status : TaskStatus) (task : Task) : Task := { task with status := status }

def Task.fail (error : String) (task : Task) : Task :=
  { task with
    status := .failed
    error := some error }

theorem Task.taskId_setStatus (status : TaskStatus) (task : Task) :
    (task.setStatus status).taskId = task.taskId := rfl

theorem Task.taskId_fail (error : String) (task : Task) :
    (task.fail error).taskId = task.taskId := rfl

/-- `get_status`: the status, name and error; no status stands for "unknown". -/
def getStatus (w : BackgroundWorker) (taskId : TaskId) :
    Option TaskStatus × String × Option String :=
  match w.tasks.find? taskId with
  | none => (none, "", none)
  | some task => (some task.status, task.name, task.error)

/-! ## The tasks -/

namespace Ledger

/-- `_tasks[task_id][...] = ...`. -/
def onTask (l : Ledger) (taskId : TaskId) (f : Task → Task)
    (hf : ∀ task, (f task).taskId = task.taskId) : Ledger :=
  { l with tasks := l.tasks.modify taskId f hf }

/-- `enqueue`, under an identifier that is not in use. -/
def enqueue (l : Ledger) (taskId : TaskId) (name : String) : Ledger :=
  if taskId ∈ l.tasks.keys then l
  else { l with
    tasks := l.tasks.upsert ⟨taskId, .pending, name, none⟩
    queue := l.queue ++ [taskId] }

/-- The loop takes the first item and detaches its execution. -/
def take (l : Ledger) : Ledger :=
  match l.queue with
  | [] => l
  | taskId :: rest => { l with
      queue := rest
      executions := l.executions ++ [⟨taskId, .waiting⟩] }

/-- The first part of `stop`: cancel pending tasks in queue. -/
def drain (l : Ledger) : Ledger :=
  { l with
    tasks := l.queue.foldl (fun tasks taskId =>
      tasks.modify taskId (Task.setStatus .cancelled) (Task.taskId_setStatus .cancelled)) l.tasks
    queue := []
    closed := l.closed ++ l.queue }

/-- An execution is at a new stage. -/
def move (l : Ledger) (i : ℕ) (e : Execution) (stage : Stage) : Ledger :=
  { l with executions := l.executions.set i { e with stage := stage } }

/-- The next step of the `i`-th execution, if it is at this stage. -/
def advance (l : Ledger) (i : ℕ) (stage : Stage) (next : Execution → Ledger) : Ledger :=
  match l.executions[i]? with
  | none => l
  | some e => if e.stage = stage then next e else l

/-- `async with self._semaphore` lets the execution in. -/
def enter (l : Ledger) (i : ℕ) : Ledger :=
  l.advance i .waiting fun e =>
    if l.free = 0 then l
    else { (l.move i e .started).onTask e.taskId (Task.setStatus .running)
        (Task.taskId_setStatus .running) with
      free := l.free - 1 }

/-- `await coro` begins. -/
def begin (l : Ledger) (i : ℕ) : Ledger :=
  l.advance i .started fun e =>
    { l.move i e .awaiting with awaited := l.awaited ++ [e.taskId] }

/-- How a coroutine ends: it returns, or raises an `Exception` with this text,
or something else. -/
inductive Outcome where
  | returned
  | raised (text : String)
  | interrupted

/-- `await coro` ends. -/
def finish (l : Ledger) (i : ℕ) (outcome : Outcome) : Ledger :=
  l.advance i .awaiting fun e =>
    match outcome with
    | .returned =>
        (l.move i e .settled).onTask e.taskId (Task.setStatus .completed)
          (Task.taskId_setStatus .completed)
    | .raised text =>
        (l.move i e .settled).onTask e.taskId (Task.fail text) (Task.taskId_fail text)
    | .interrupted => { l.move i e .broken with free := l.free + 1 }

/-- The outcome is logged and the semaphore released. -/
def leave (l : Ledger) (i : ℕ) : Ledger :=
  l.advance i .settled fun e => { l.move i e .left with free := l.free + 1 }

end Ledger

/-! ## The worker -/

/-- `start`. -/
def start (w : BackgroundWorker) : BackgroundWorker :=
  if w.running then w
  else { w with
    running := true
    loops := w.loops ++ [⟨.created, false⟩]
    workerTask := some w.loops.length }

/-- The worker loop, if it is there and not over. -/
def liveLoop (w : BackgroundWorker) : Option ℕ :=
  w.workerTask.filter fun j =>
    (w.loops[j]?).any fun loop => decide (loop.stage ≠ .done)

/-- `self._worker_task.cancel()`, if that loop is not over. -/
def cancelLive (w : BackgroundWorker) : List Loop :=
  match w.liveLoop with
  | none => w.loops
  | some j => w.loops.modify j fun loop => { loop with cancelled := true }

/-- `stop` up to its first suspension. -/
def stop (w : BackgroundWorker) : BackgroundWorker where
  toLedger := w.toLedger.drain
  running := false
  loops := w.cancelLive
  workerTask := w.workerTask
  stops := w.stops ++ [.awaiting w.liveLoop]

/-- The `k`-th call of `stop` returns; the loop it awaits has to be over. -/
def stopReturn (w : BackgroundWorker) (k : ℕ) : BackgroundWorker :=
  match w.stops[k]? with
  | some (.awaiting none) => { w with stops := w.stops.set k .returned }
  | some (.awaiting (some j)) =>
      if (w.loops[j]?).any fun loop => decide (loop.stage = .done) then
        { w with stops := w.stops.set k .returned }
      else w
  | _ => w

/-- The `j`-th loop is at a new stage. -/
def setLoop (w : BackgroundWorker) (j : ℕ) (stage : LoopStage) : BackgroundWorker :=
  { w with loops := w.loops.modify j fun loop => { loop with stage := stage } }

/-- `while self._running`. -/
def check (w : BackgroundWorker) : LoopStage := if w.running then .waiting else .done

/-- The `j`-th loop is at this stage and nobody has cancelled it. -/
def LoopAt (w : BackgroundWorker) (j : ℕ) (stage : LoopStage) : Prop :=
  w.loops[j]? = some ⟨stage, false⟩

instance LoopAt.decidable (w : BackgroundWorker) (j : ℕ) (stage : LoopStage) :
    Decidable (w.LoopAt j stage) :=
  inferInstanceAs (Decidable (_ = _))

def loopBegin (w : BackgroundWorker) (j : ℕ) : BackgroundWorker :=
  if w.LoopAt j .created then w.setLoop j w.check else w

/-- `queue.get()` gives an item. -/
def loopTake (w : BackgroundWorker) (j : ℕ) : BackgroundWorker :=
  if w.LoopAt j .waiting ∧ w.queue ≠ [] then
    { w.setLoop j w.check with toLedger := w.toLedger.take }
  else w

/-- `wait_for` times out. -/
def loopTimeout (w : BackgroundWorker) (j : ℕ) : BackgroundWorker :=
  if w.LoopAt j .waiting then w.setLoop j w.check else w

/-- The cancellation reaches the loop. -/
def loopCancel (w : BackgroundWorker) (j : ℕ) : BackgroundWorker :=
  if (w.loops[j]?).any Loop.cancelled then w.setLoop j .done else w

/-- What can happen next. -/
inductive Input where
  | enqueue (taskId : TaskId) (name : String)
  | start
  | stop
  | stopReturn (k : ℕ)
  | loopBegin (j : ℕ)
  | loopTake (j : ℕ)
  | loopTimeout (j : ℕ)
  | loopCancel (j : ℕ)
  | enter (i : ℕ)
  | begin (i : ℕ)
  | finish (i : ℕ) (outcome : Ledger.Outcome)
  | leave (i : ℕ)

/-- One step; what cannot happen in a state leaves it as it is. -/
def step (w : BackgroundWorker) : Input → BackgroundWorker
  | .enqueue taskId name => { w with toLedger := w.toLedger.enqueue taskId name }
  | .start => w.start
  | .stop => w.stop
  | .stopReturn k => w.stopReturn k
  | .loopBegin j => w.loopBegin j
  | .loopTake j => w.loopTake j
  | .loopTimeout j => w.loopTimeout j
  | .loopCancel j => w.loopCancel j
  | .enter i => { w with toLedger := w.toLedger.enter i }
  | .begin i => { w with toLedger := w.toLedger.begin i }
  | .finish i outcome => { w with toLedger := w.toLedger.finish i outcome }
  | .leave i => { w with toLedger := w.toLedger.leave i }

end BackgroundWorker
end AiBackend
