import AiBackend.Background.TaskLife

/-!
# Stopping the background worker

`stop` cancels what is in the queue and ends the loop.  An execution that the
loop has detached is in neither: nobody awaits it.  So a stop is graceful on
every schedule exactly if all detached executions have recorded an outcome by
the time it is called.
-/

namespace AiBackend
namespace BackgroundWorker

open Run

/-! ## Loops -/

/-- The loop is over, or will be at its next step. -/
def Loop.IsOver (loop : Loop) : Prop := loop.cancelled = true ∨ loop.stage = .done

/-- Only the loop that `start` has kept can still take items. -/
def LoopsKept (w : BackgroundWorker) : Prop :=
  ∀ j loop, w.loops[j]? = some loop →
    (w.running = true ∧ w.workerTask = some j) ∨ loop.IsOver

/-- After a stop no loop takes items. -/
def Stopped (w : BackgroundWorker) : Prop :=
  w.running = false ∧ ∀ (j : ℕ) (loop : Loop), w.loops[j]? = some loop → loop.IsOver

section Loops

variable {w : BackgroundWorker} {j : ℕ} {stage : LoopStage}

theorem getElem?_setLoop {k : ℕ} {loop : Loop}
    (h : (w.setLoop j stage).loops[k]? = some loop) :
    ∃ old, w.loops[k]? = some old ∧ loop.cancelled = old.cancelled ∧
      (loop.stage = old.stage ∨ k = j ∧ loop.stage = stage) := by
  by_cases hk : j = k
  · subst hk
    rw [setLoop, List.getElem?_modify_eq] at h
    obtain ⟨old, hold, rfl⟩ := Option.map_eq_some_iff.mp h
    exact ⟨old, hold, rfl, .inr ⟨rfl, rfl⟩⟩
  · rw [setLoop, List.getElem?_modify_ne _ _ hk] at h
    exact ⟨loop, h, rfl, .inl rfl⟩

/-- A step of a loop that nobody has cancelled brings no other loop back. -/
theorem loopsKept_setLoop (h : w.LoopsKept) {old : LoopStage} (hat : w.LoopAt j old)
    (hold : old ≠ .done) : (w.setLoop j stage).LoopsKept := by
  intro k loop hloop
  obtain ⟨before, hbefore, hcancelled, hstage⟩ := getElem?_setLoop hloop
  rcases hstage with hsame | ⟨rfl, -⟩
  · exact (h k before hbefore).imp id fun hover => by
      rwa [Loop.IsOver, hcancelled, hsame]
  · rw [LoopAt, hbefore, Option.some.injEq] at hat
    subst hat
    exact .inl ((h k _ hbefore).resolve_right (by simp [Loop.IsOver, hold]))

theorem loopsKept_loopCancel (h : w.LoopsKept) : (w.loopCancel j).LoopsKept := by
  unfold loopCancel
  split
  · intro k loop hloop
    obtain ⟨old, hold, hcancelled, hstage | ⟨-, hdone⟩⟩ := getElem?_setLoop hloop
    · exact (h k old hold).imp id fun hover => by
        rwa [Loop.IsOver, hcancelled, hstage]
    · exact .inr (.inr hdone)
  · exact h

theorem liveLoop_eq_some_iff : w.liveLoop = some j ↔
    w.workerTask = some j ∧ ∃ loop, w.loops[j]? = some loop ∧ loop.stage ≠ .done := by
  rw [liveLoop, Option.filter_eq_some_iff]
  cases w.loops[j]? with
  | none => simp
  | some loop => simp

theorem stopped_stop (h : w.LoopsKept) : w.stop.Stopped := by
  refine ⟨rfl, ?_⟩
  intro k loop hloop
  change w.cancelLive[k]? = some loop at hloop
  cases hlive : w.liveLoop with
  | none =>
      rw [cancelLive, hlive] at hloop
      refine (h k loop hloop).elim ?_ id
      rintro ⟨-, hworker⟩
      by_contra hover
      have hdone : loop.stage ≠ .done := fun hdone => hover (.inr hdone)
      have hsome := liveLoop_eq_some_iff.mpr ⟨hworker, loop, hloop, hdone⟩
      rw [hlive] at hsome
      cases hsome
  | some j =>
      rw [cancelLive, hlive] at hloop
      by_cases hk : j = k
      · subst hk
        rw [List.getElem?_modify_eq] at hloop
        obtain ⟨old, -, rfl⟩ := Option.map_eq_some_iff.mp hloop
        exact .inl rfl
      · dsimp only at hloop
        rw [List.getElem?_modify_ne _ _ hk] at hloop
        refine (h k loop hloop).elim ?_ id
        rintro ⟨-, hworker⟩
        have hj := (liveLoop_eq_some_iff.mp hlive).1
        exact absurd (Option.some.inj (hj.symm.trans hworker)) hk

theorem loopsKept_start (h : w.LoopsKept) : w.start.LoopsKept := by
  unfold start
  split
  · exact h
  next hrunning =>
    intro k loop hloop
    dsimp only at hloop
    rw [List.getElem?_append] at hloop
    split at hloop
    · refine .inr ((h k loop hloop).resolve_left ?_)
      rintro ⟨hrun, -⟩
      exact hrunning hrun
    next hlength =>
      have hk : k = w.loops.length := by
        have hsingle := (List.getElem?_eq_some_iff.mp hloop).1
        rw [List.length_singleton] at hsingle
        omega
      exact .inl ⟨rfl, congrArg some hk.symm⟩

/-- A step keeps at most one loop that can take items. -/
theorem loopsKept_step (h : w.LoopsKept) (input : Input) : (w.step input).LoopsKept := by
  cases input with
  | enqueue taskId name => exact h
  | start => exact loopsKept_start h
  | stop => exact fun k loop hloop => .inr ((stopped_stop h).2 k loop hloop)
  | stopReturn k =>
      change (w.stopReturn k).LoopsKept
      unfold stopReturn
      split
      · exact h
      · split
        · exact h
        · exact h
      · exact h
  | loopBegin j =>
      change (w.loopBegin j).LoopsKept
      unfold loopBegin
      split
      next hat => exact loopsKept_setLoop h hat (by simp)
      · exact h
  | loopTake j =>
      change (w.loopTake j).LoopsKept
      unfold loopTake
      split
      next hat => exact loopsKept_setLoop h hat.1 (by simp)
      · exact h
  | loopTimeout j =>
      change (w.loopTimeout j).LoopsKept
      unfold loopTimeout
      split
      next hat => exact loopsKept_setLoop h hat (by simp)
      · exact h
  | loopCancel j => exact loopsKept_loopCancel h
  | enter i => exact h
  | begin i => exact h
  | finish i outcome => exact h
  | leave i => exact h

/-- Without another `start` a stopped worker stays stopped. -/
theorem stopped_step (h : w.Stopped) {input : Input} (hstart : input ≠ .start) :
    (w.step input).Stopped := by
  have hkept : w.LoopsKept := fun k loop hloop => .inr (h.2 k loop hloop)
  have hover : ∀ {j stage}, w.LoopAt j stage → stage ≠ .done → False := by
    intro j stage hat hstage
    have hover := h.2 j _ hat
    simp [Loop.IsOver, hstage] at hover
  have hnone : (w.step input).running = false → (w.step input).Stopped := by
    intro hrunning
    refine ⟨hrunning, fun k loop hloop => ?_⟩
    exact (loopsKept_step hkept input k loop hloop).resolve_left fun hrun => by
      rw [hrunning] at hrun
      exact absurd hrun.1 Bool.false_ne_true
  apply hnone
  cases input with
  | start => exact absurd rfl hstart
  | stop => rfl
  | stopReturn k =>
      change (w.stopReturn k).running = false
      unfold stopReturn
      split
      · exact h.1
      · split
        · exact h.1
        · exact h.1
      · exact h.1
  | loopBegin j => exact (apply_ite running ..).trans ((ite_self _).trans h.1)
  | loopTake j => exact (apply_ite running ..).trans ((ite_self _).trans h.1)
  | loopTimeout j => exact (apply_ite running ..).trans ((ite_self _).trans h.1)
  | loopCancel j => exact (apply_ite running ..).trans ((ite_self _).trans h.1)
  | enqueue taskId name => exact h.1
  | enter i => exact h.1
  | begin i => exact h.1
  | finish i outcome => exact h.1
  | leave i => exact h.1

end Loops

/-! ## Outcomes -/

/-- Every detached execution has recorded an outcome. -/
def Ledger.Settled (l : Ledger) : Prop :=
  ∀ e ∈ l.executions, e.stage = .settled ∨ e.stage = .left

namespace Ledger

/-- The tasks that are not in the queue. -/
def unqueued (l : Ledger) : List TaskId := l.executions.map Execution.taskId ++ l.closed

section Settled

variable {l : Ledger}

theorem advance_of_settled (h : l.Settled) (i : ℕ) {stage : Stage}
    (hstage : stage ≠ .settled ∧ stage ≠ .left) (next : Execution → Ledger) :
    l.advance i stage next = l := by
  rcases l.advance_cases i stage next with hsame | ⟨e, hfound, rfl, -⟩
  · exact hsame
  · have he := h e (List.mem_of_getElem? hfound)
    tauto

theorem settled_leave (h : l.Settled) (i : ℕ) :
    (l.leave i).Settled ∧ (l.leave i).unqueued = l.unqueued := by
  rcases l.advance_cases i .settled fun e => { l.move i e .left with free := l.free + 1 } with
    hsame | ⟨e, hfound, hstage, hnext⟩
  · rw [leave, hsame]
    exact ⟨h, rfl⟩
  · rw [leave, hnext]
    have hmoved := moved_leave hfound hstage
    refine ⟨?_, ?_⟩
    · intro other hother
      rcases List.mem_or_eq_of_mem_set hother with hold | rfl
      · exact h other hold
      · exact .inr rfl
    · rw [unqueued, unqueued, hmoved.map_taskId, hmoved.closed]

end Settled
end Ledger

section Quiet

variable {w : BackgroundWorker}

/-- A stopped worker without unsettled executions runs nothing any more, and
puts no task back into the queue. -/
theorem settled_step (hstopped : w.Stopped) (hsettled : w.Settled) (input : Input) :
    (w.step input).Settled ∧ w.unqueued ⊆ (w.step input).unqueued := by
  have hsame : (w.step input).toLedger = w.toLedger →
      (w.step input).Settled ∧ w.unqueued ⊆ (w.step input).unqueued := by
    intro hsame
    rw [hsame]
    exact ⟨hsettled, List.Subset.refl _⟩
  cases input with
  | enqueue taskId name =>
      change (w.toLedger.enqueue taskId name).Settled ∧
        w.unqueued ⊆ (w.toLedger.enqueue taskId name).unqueued
      unfold Ledger.enqueue
      split
      · exact ⟨hsettled, List.Subset.refl _⟩
      · exact ⟨hsettled, List.Subset.refl _⟩
  | start => exact hsame w.toLedger_start
  | stop =>
      refine ⟨hsettled, ?_⟩
      exact List.append_subset.mpr ⟨List.subset_append_left _ _,
        fun _ hmem => List.mem_append_right _ (List.mem_append_left _ hmem)⟩
  | stopReturn k => exact hsame (w.toLedger_stopReturn k)
  | loopTake j =>
      refine hsame ?_
      change (w.loopTake j).toLedger = _
      have hnot : ¬ (w.LoopAt j .waiting ∧ w.queue ≠ []) := by
        rintro ⟨hat, -⟩
        have hover := hstopped.2 j _ hat
        simp [Loop.IsOver] at hover
      rw [loopTake, if_neg hnot]
  | loopBegin j => exact hsame (w.toLedger_loopBegin j)
  | loopTimeout j => exact hsame (w.toLedger_loopTimeout j)
  | loopCancel j => exact hsame (w.toLedger_loopCancel j)
  | enter i => exact hsame (Ledger.advance_of_settled hsettled i (by simp) _)
  | begin i => exact hsame (Ledger.advance_of_settled hsettled i (by simp) _)
  | finish i outcome => exact hsame (Ledger.advance_of_settled hsettled i (by simp) _)
  | leave i =>
      obtain ⟨hleft, hunqueued⟩ := Ledger.settled_leave hsettled i
      refine ⟨hleft, ?_⟩
      change w.unqueued ⊆ (w.toLedger.leave i).unqueued
      rw [hunqueued]
      exact List.Subset.refl _

end Quiet

/-! ## Graceful stops -/

/-- A task with the status is over. -/
def IsFinal (status : TaskStatus) : Prop :=
  status = .completed ∨ status = .failed ∨ status = .cancelled

/-- In `u`, once the stop that was called in `w` has returned, every task
enqueued before it is over and no coroutine runs. -/
def Graceful (w u : BackgroundWorker) : Prop :=
  u.stops[w.stops.length]? = some .returned →
    (∀ taskId ∈ w.tasks.keys, ∃ status, u.status taskId = some status ∧ IsFinal status) ∧
      u.executing = 0

/-- A stop called now is graceful on every schedule, as long as nobody calls
`start` again. -/
def StopsGracefully (w : BackgroundWorker) : Prop :=
  ∀ later : List Input, (∀ input ∈ later, input ≠ .start) →
    ∀ t ∈ trace step w (.stop :: later), Graceful w t.after

section Graceful

variable {maxConcurrent : ℕ} {w u : BackgroundWorker}

/-- A task out of the queue is over if its execution is settled. -/
theorem isFinal_of_unqueued (h : u.Sound maxConcurrent) (hsettled : u.Settled)
    {taskId : TaskId} (hmem : taskId ∈ u.unqueued) :
    ∃ status, u.status taskId = some status ∧ IsFinal status := by
  rcases List.mem_append.mp hmem with hexecuted | hclosed
  · obtain ⟨e, he, rfl⟩ := List.mem_map.mp hexecuted
    obtain ⟨status, hstatus, hshows⟩ := h.executed e he
    refine ⟨status, hstatus, ?_⟩
    rcases hsettled e he with hstage | hstage
    · rw [hstage] at hshows
      exact hshows.elim .inl fun hfailed => .inr (.inl hfailed)
    · rw [hstage] at hshows
      exact hshows.elim .inl fun hfailed => .inr (.inl hfailed)
  · exact ⟨.cancelled, h.closed taskId hclosed, .inr (.inr rfl)⟩

theorem executing_of_settled (hsettled : u.Settled) : u.executing = 0 := by
  refine List.countP_eq_zero.mpr fun e he => ?_
  rcases hsettled e he with hstage | hstage
  · simp [hstage]
  · simp [hstage]

theorem stopsGracefully_of_settled (h : w.Sound maxConcurrent) (hloops : w.LoopsKept)
    (hsettled : w.Settled) : w.StopsGracefully := by
  let I : BackgroundWorker → Prop := fun u => u.Sound maxConcurrent ∧ u.Stopped ∧ u.Settled ∧
    w.tasks.keys ⊆ u.unqueued
  have hgraceful : ∀ u, I u → Graceful w u := by
    rintro u ⟨hsound, -, hsettled, hkeys⟩ -
    exact ⟨fun taskId hmem => isFinal_of_unqueued hsound hsettled (hkeys hmem),
      executing_of_settled hsettled⟩
  have hstep : ∀ u input, I u → input ≠ .start → I (u.step input) := by
    rintro u input ⟨hsound, hstopped, hsettled, hkeys⟩ hinput
    obtain ⟨hstill, hunqueued⟩ := settled_step hstopped hsettled input
    exact ⟨(sound_step hsound input).1, stopped_step hstopped hinput, hstill,
      List.Subset.trans hkeys hunqueued⟩
  have hstop : I (w.step .stop) := by
    refine ⟨(sound_step h .stop).1, stopped_stop hloops, hsettled, ?_⟩
    intro taskId hkey
    have hplace := (h.placed_iff taskId).mpr hkey
    change taskId ∈ w.executions.map Execution.taskId ++ (w.closed ++ w.queue)
    rw [Ledger.places, List.mem_append, List.mem_append] at hplace
    simp only [List.mem_append]
    tauto
  intro later hlater t ht
  rw [trace, List.mem_cons] at ht
  rcases ht with rfl | ht
  · exact hgraceful _ hstop
  · refine trace_of_steps (I := I) (L := fun t => Graceful w t.after)
      (fun _ input => input ≠ .start) hstep
      (fun u input hu hinput => hgraceful _ (hstep u input hu hinput)) hstop ?_ t ht
    exact fun t ht => hlater t.input (input_mem_of_mem_trace ht)

/-- The rest of a schedule on which a stop returns as soon as it can. -/
def rush (w : BackgroundWorker) : List Input :=
  (w.liveLoop.map Input.loopCancel).toList ++ [.stopReturn w.stops.length]

theorem stops_stop : w.stop.stops[w.stops.length]? = some (.awaiting w.liveLoop) :=
  List.getElem?_concat_length

/-- On that schedule the stop has returned, and no execution has moved. -/
theorem final_rush :
    (final step w.stop w.rush).stops[w.stops.length]? = some .returned ∧
      (final step w.stop w.rush).toLedger = w.toLedger.drain := by
  have hreturned : ∀ (u : BackgroundWorker) (call : StopCall),
      u.stops[w.stops.length]? = some call →
      (u.stops.set w.stops.length .returned)[w.stops.length]? = some .returned := by
    intro u call hcall
    rw [List.getElem?_set_self', hcall]
    rfl
  cases hlive : w.liveLoop with
  | none =>
      have hstop : w.stop.stops[w.stops.length]? = some (.awaiting none) := by
        rw [stops_stop, hlive]
      have hreturn : w.stop.stopReturn w.stops.length =
          { w.stop with stops := w.stop.stops.set w.stops.length .returned } := by
        rw [stopReturn, hstop]
      have hfinal : final step w.stop w.rush = w.stop.stopReturn w.stops.length := by
        rw [rush, hlive]
        rfl
      rw [hfinal, hreturn]
      exact ⟨hreturned w.stop _ hstop, rfl⟩
  | some j =>
      obtain ⟨-, loop, hloop, -⟩ := liveLoop_eq_some_iff.mp hlive
      have hcancelled : w.stop.loops[j]? = some { loop with cancelled := true } := by
        change w.cancelLive[j]? = _
        rw [cancelLive, hlive]
        dsimp only
        rw [List.getElem?_modify_eq, hloop]
        rfl
      have hcancel : w.stop.loopCancel j = w.stop.setLoop j .done := by
        rw [loopCancel, hcancelled]
        rfl
      have hstop : (w.stop.setLoop j .done).stops[w.stops.length]? =
          some (.awaiting (some j)) := by
        change w.stop.stops[w.stops.length]? = _
        rw [stops_stop, hlive]
      have hdone : ((w.stop.setLoop j .done).loops[j]?).any
          (fun loop => decide (loop.stage = .done)) = true := by
        rw [setLoop, List.getElem?_modify_eq, hcancelled]
        rfl
      have hreturn : (w.stop.setLoop j .done).stopReturn w.stops.length =
          { w.stop.setLoop j .done with
            stops := (w.stop.setLoop j .done).stops.set w.stops.length .returned } := by
        rw [stopReturn, hstop]
        exact if_pos hdone
      have hfinal : final step w.stop w.rush =
          (w.stop.loopCancel j).stopReturn w.stops.length := by
        rw [rush, hlive]
        rfl
      rw [hfinal, hcancel, hreturn]
      exact ⟨hreturned _ _ hstop, rfl⟩

/-- A detached execution that has no outcome yet is left behind. -/
theorem settled_of_stopsGracefully (h : w.Sound maxConcurrent) (hstops : w.StopsGracefully) :
    w.Settled := by
  intro e he
  have hrush : ∀ input ∈ w.rush, input ≠ .start := by
    intro input hinput
    rcases List.mem_append.mp hinput with hcancel | hreturn
    · obtain ⟨j, -, rfl⟩ := Option.map_eq_some_iff.mp (Option.mem_toList.mp hcancel)
      simp
    · rw [List.mem_singleton.mp hreturn]
      simp
  obtain ⟨hreturned, hledger⟩ := final_rush (w := w)
  obtain ⟨t, ht, hafter⟩ := exists_after_eq_final step w .stop w.rush
  have hgraceful : Graceful w (final step w.stop w.rush) := by
    have hlast := hstops w.rush hrush t ht
    rwa [hafter] at hlast
  have hkey : e.taskId ∈ w.tasks.keys := by
    rw [← h.placed_iff, Ledger.places, List.mem_append, List.mem_append]
    exact .inr (.inl (List.mem_map_of_mem he))
  obtain ⟨status, hstatus, hfinal⟩ := (hgraceful hreturned).1 e.taskId hkey
  rw [hledger] at hstatus
  obtain ⟨status', hstatus', hshows⟩ := (Ledger.sound_drain h).executed e he
  obtain rfl : status' = status := Option.some.inj (hstatus'.symm.trans hstatus)
  cases hstage : e.stage with
  | settled => exact .inl rfl
  | left => exact .inr rfl
  | waiting =>
      rw [hstage] at hshows
      obtain rfl : status' = .pending := hshows
      simp [IsFinal] at hfinal
  | _ =>
      rw [hstage] at hshows
      obtain rfl : status' = .running := hshows
      simp [IsFinal] at hfinal

end Graceful

theorem loopsKept_final (maxConcurrent : ℕ) (inputs : List Input) :
    (final step (init maxConcurrent) inputs).LoopsKept :=
  final_of_steps (I := LoopsKept) (fun _ _ => True) (fun _ input h _ => loopsKept_step h input)
    (fun _ _ h => absurd h (by simp [init])) fun _ _ => trivial

/-- Wherever a schedule has led, a stop called there is graceful on every
schedule from there exactly if all detached executions have an outcome. -/
theorem stopsGracefully_iff_settled (maxConcurrent : ℕ) (inputs : List Input) :
    (final step (init maxConcurrent) inputs).StopsGracefully ↔
      (final step (init maxConcurrent) inputs).Settled := by
  have hsound := sound_final maxConcurrent inputs
  constructor
  · exact settled_of_stopsGracefully hsound
  · exact stopsGracefully_of_settled hsound (loopsKept_final maxConcurrent inputs)

/-- A task is enqueued and its coroutine begun. -/
def sampleSchedule : List Input :=
  [.start, .loopBegin 0, .enqueue "task" "", .loopTake 0, .enter 0, .begin 0]

/-- The stop returns while the coroutine runs. -/
theorem not_stopsGracefully_sample :
    ¬ (final step (init 1) sampleSchedule).StopsGracefully := by
  intro h
  have hsettled := settled_of_stopsGracefully (sound_final 1 sampleSchedule) h
  have hbegun : (⟨"task", .awaiting⟩ : Execution) ∈
      (final step (init 1) sampleSchedule).executions := by
    decide
  have hstage := hsettled _ hbegun
  simp at hstage

end BackgroundWorker
end AiBackend
