import AiBackend.Api.ChatRouter
import AiBackend.Chat.StreamEquivalence

/-!
# Whole turns in the history

A turn is saved by two writes, behind everything that can go wrong with the
prompt and the answer.  Neither write is undone when the other fails, and a
stream saves only after its last chunk has been taken.
-/

namespace AiBackend
namespace RagChat

open Program Python ChatRouter TokenSafety

/-- The chat with the history log. -/
def onLog (base : Env HistoryLog) : Env HistoryLog :=
  { base with history := HistoryLog.repository }

/-- The two messages of a turn. -/
def turn (request : ChatRequest) (answer : ChatMessage) : List ChatMessage :=
  [{ role := .user, content := request.message }, answer]

/-- The history of the user was extended by the turn of the one prompt that
was sent. -/
def ExtendedBy (userId : UserId) (request : ChatRequest)
    (answer : List ChatMessage → ChatMessage) (before after : State HistoryLog) :
    Prop :=
  ∃ messages, after.asked = before.asked ++ [messages] ∧
    after.history userId = before.history userId ++ turn request (answer messages)

/-- The history is as before or has the whole turn, which it has if the client
has the complete answer. -/
structure Atomic (userId : UserId) (request : ChatRequest)
    (answer : List ChatMessage → ChatMessage) (before after : State HistoryLog)
    (complete : Prop) : Prop where
  whole : after.history userId = before.history userId ∨
    ExtendedBy userId request answer before after
  saved : complete → ExtendedBy userId request answer before after

/-- A last chunk is among what the client has received. -/
def ReceivedLast (before after : State HistoryLog) : Prop :=
  ∃ received, after.sent = before.sent ++ received ∧
    ∃ chunk ∈ received, chunk.done = true

/-- What is received so far is not complete. -/
def Incomplete (before after : State HistoryLog) : Prop :=
  ∃ received, after.sent = before.sent ++ received ∧
    ∀ chunk ∈ received, chunk.done = false

theorem Incomplete.not_receivedLast {before after : State HistoryLog}
    (h : Incomplete before after) : ¬ ReceivedLast before after := by
  obtain ⟨received, hsent, hall⟩ := h
  intro hlast
  obtain ⟨received', hsent', chunk, hchunk, hdone⟩ := hlast
  obtain rfl := List.append_cancel_left (hsent.symm.trans hsent')
  rw [hall chunk hchunk] at hdone
  cases hdone

theorem Incomplete.append {before mid after : State HistoryLog}
    (h : Incomplete before mid) {chunk : StreamChunk} (hchunk : chunk.done = false)
    (hsent : after.sent = mid.sent ++ [chunk]) : Incomplete before after := by
  obtain ⟨received, hmid, hall⟩ := h
  refine ⟨received ++ [chunk], by rw [hsent, hmid, List.append_assoc], ?_⟩
  intro c hc
  rw [List.mem_append, List.mem_singleton] at hc
  rcases hc with hc | rfl
  · exact hall c hc
  · exact hchunk

/-! ## Two writes -/

/-- Neither message is written without the other. -/
structure WritesTogether (faults : Faults Site PyExc) : Prop where
  user : ∀ fault, faults .saveUser = some fault → fault.landed = false
  assistant : faults .saveUser = none → faults.Lands .saveAssistant

/-- Both messages are written. -/
structure WritesBoth (faults : Faults Site PyExc) : Prop where
  user : faults .saveUser = none
  assistant : faults.Lands .saveAssistant

/-- How many of the two messages are written. -/
def writtenMessages (faults : Faults Site PyExc) : ℕ :=
  match faults .saveUser with
  | some fault => if fault.landed then 1 else 0
  | none =>
      match faults .saveAssistant with
      | some fault => if fault.landed then 2 else 1
      | none => 2

theorem WritesBoth.together {faults : Faults Site PyExc} (h : WritesBoth faults) :
    WritesTogether faults := by
  refine ⟨fun fault hfault => ?_, fun _ => h.assistant⟩
  rw [h.user] at hfault
  cases hfault

section Writes

variable {base : Env HistoryLog} {faults : Faults Site PyExc}
  {request : ChatRequest} {userId : UserId} {answer : ChatMessage}
  {s : State HistoryLog}

theorem writtenMessages_of_user {fault : Fault PyExc}
    (h : faults .saveUser = some fault) :
    writtenMessages faults = if fault.landed then 1 else 0 := by
  simp only [writtenMessages, h]

theorem writtenMessages_of_none (h : faults .saveUser = none) :
    (faults.Lands .saveAssistant → writtenMessages faults = 2) ∧
      (¬ faults.Lands .saveAssistant → writtenMessages faults = 1) := by
  cases ha : faults .saveAssistant with
  | none => simp [writtenMessages, h, ha, Faults.Lands]
  | some fault => cases hlanded : fault.landed with
    | true => simp [writtenMessages, h, ha, hlanded, Faults.Lands]
    | false => simp [writtenMessages, h, ha, hlanded, Faults.Lands]

theorem writtenMessages_ne_one_iff : writtenMessages faults ≠ 1 ↔ WritesTogether faults := by
  cases hu : faults .saveUser with
  | none =>
      obtain ⟨hlands, hlost⟩ := writtenMessages_of_none hu
      constructor
      · intro h
        refine ⟨fun fault hfault => ?_, fun _ => by_contra fun hnot => h (hlost hnot)⟩
        rw [hu] at hfault
        cases hfault
      · intro h
        rw [hlands (h.assistant hu)]
        decide
  | some fault =>
      rw [writtenMessages_of_user hu]
      constructor
      · intro h
        constructor
        · intro other hother
          obtain rfl := Option.some.inj (hu.symm.trans hother)
          simpa using h
        · intro hnone
          rw [hu] at hnone
          cases hnone
      · intro h
        simp [h.user fault hu]

theorem writtenMessages_eq_two_iff : writtenMessages faults = 2 ↔ WritesBoth faults := by
  cases hu : faults .saveUser with
  | none =>
      obtain ⟨hlands, hlost⟩ := writtenMessages_of_none hu
      constructor
      · intro h
        refine ⟨hu, by_contra fun hnot => ?_⟩
        rw [hlost hnot] at h
        cases h
      · intro h
        exact hlands h.assistant
  | some fault =>
      rw [writtenMessages_of_user hu]
      constructor
      · intro h
        split at h
        · cases h
        · cases h
      · intro h
        have huser := h.user
        rw [hu] at huser
        cases huser

/-- The steps behind an answer. -/
def closing (env : Env HistoryLog) (faults : Faults Site PyExc)
    (request : ChatRequest) (answer : ChatMessage) : Prog HistoryLog Unit := do
  saveTurn env faults request answer
  perform faults .logCompleted (pure ())

/-- The log with the first `n` messages of a turn. -/
def saveFirst (userId : UserId) (request : ChatRequest) (answer : ChatMessage)
    (n : ℕ) (log : HistoryLog) : HistoryLog :=
  ((turn request answer).take n).foldl (fun log message => log.save userId message) log

theorem foldl_save_self (messages : List ChatMessage) (log : HistoryLog) :
    messages.foldl (fun log message => log.save userId message) log userId =
      log userId ++ messages := by
  induction messages generalizing log with
  | nil => simp
  | cons message rest ih =>
      rw [List.foldl_cons, ih, HistoryLog.save_self, List.append_assoc]
      rfl

/-- For a user, a turn is saved by two writes. -/
theorem saveTurn_of_user (huser : requestUser request = .ok (some userId)) :
    saveTurn (onLog base) faults request answer = (do
      perform faults .saveUser (modify fun s => { s with
        history := s.history.save userId
          { role := .user, content := request.message } })
      perform faults .saveAssistant (modify fun s => { s with
        history := s.history.save userId answer })) := by
  simp only [saveTurn, huser]
  rfl

theorem finalState_saveTurn (huser : requestUser request = .ok (some userId)) :
    finalState ((saveTurn (onLog base) faults request answer).run s) = { s with
      history := saveFirst userId request answer (writtenMessages faults) s.history } := by
  rw [saveTurn_of_user huser]
  cases hu : faults .saveUser with
  | some fault =>
      rw [writtenMessages_of_user hu]
      simp only [perform, hu]
      cases fault.landed with
      | true => rfl
      | false => rfl
  | none =>
      cases ha : faults .saveAssistant with
      | none =>
          simp only [writtenMessages, perform, hu, ha]
          rfl
      | some fault =>
          simp only [writtenMessages, perform, hu, ha]
          cases fault.landed with
          | true => rfl
          | false => rfl

/-- What is saved is decided by the calls of the two writes alone. -/
theorem finalState_closing (huser : requestUser request = .ok (some userId)) :
    finalState ((closing (onLog base) faults request answer).run s) = { s with
      history := saveFirst userId request answer (writtenMessages faults) s.history } := by
  rw [closing, finalState_bind_perform_pure, finalState_saveTurn huser]

/-- If the steps behind the answer return, both messages were written. -/
theorem writesBoth_of_closing (huser : requestUser request = .ok (some userId))
    {after : State HistoryLog}
    (hrun : (closing (onLog base) faults request answer).run s = .ok () after) :
    WritesBoth faults := by
  obtain ⟨_, _, hsave, -⟩ := exists_of_run_bind_ok hrun
  rw [saveTurn_of_user huser] at hsave
  obtain ⟨_, _, hsaveUser, hsaveAssistant⟩ := exists_of_run_bind_ok hsave
  have hassistant := none_of_run_perform_ok hsaveAssistant
  exact ⟨none_of_run_perform_ok hsaveUser, Faults.lands_of_none hassistant⟩

theorem writtenMessages_le (faults : Faults Site PyExc) : writtenMessages faults ≤ 2 := by
  unfold writtenMessages
  split
  · split
    · decide
    · decide
  · split
    · split
      · decide
      · decide
    · decide

end Writes

/-! ## Behind a prompt -/

section Behind

variable {base : Env HistoryLog} {faults : Faults Site PyExc}
  {request : ChatRequest} {userId : UserId}
  {answer : List ChatMessage → ChatMessage} {messages : List ChatMessage}
  {before mid after : State HistoryLog} {n : ℕ} {complete : Prop}

theorem history_saveFirst
    (hhistory : after.history =
      saveFirst userId request (answer messages) n before.history) :
    after.history userId =
      before.history userId ++ (turn request (answer messages)).take n := by
  rw [hhistory, saveFirst, foldl_save_self]

theorem unchanged_iff
    (hhistory : after.history =
      saveFirst userId request (answer messages) n before.history) :
    after.history userId = before.history userId ↔ n = 0 := by
  rw [history_saveFirst hhistory, List.append_right_eq_self]
  simp [turn]

theorem extendedBy_iff (hasked : after.asked = before.asked ++ [messages])
    (hhistory : after.history =
      saveFirst userId request (answer messages) n before.history) (hn : n ≤ 2) :
    ExtendedBy userId request answer before after ↔ n = 2 := by
  have hafter := history_saveFirst hhistory
  constructor
  · intro h
    obtain ⟨messages', hasked', hextended⟩ := h
    rw [hasked] at hasked'
    obtain rfl := List.singleton_inj.mp (List.append_cancel_left hasked')
    rw [hafter] at hextended
    have hlength := congrArg List.length (List.append_cancel_left hextended)
    simp only [turn, List.length_take, List.length_cons, List.length_nil] at hlength
    omega
  · intro h
    subst h
    exact ⟨messages, hasked, hafter⟩

/-- Behind a prompt it is up to the two writes: they must go together, and
both be made if the client has the answer. -/
theorem atomic_closing_iff (huser : requestUser request = .ok (some userId))
    (hasked : mid.asked = before.asked ++ [messages])
    (hhistory : mid.history = before.history) :
    Atomic userId request answer before
        (finalState ((closing (onLog base) faults request (answer messages)).run mid))
        complete ↔
      WritesTogether faults ∧ (complete → WritesBoth faults) := by
  have hn := writtenMessages_le faults
  rw [finalState_closing huser, ← writtenMessages_ne_one_iff,
    ← writtenMessages_eq_two_iff]
  generalize hafter : ({ mid with
    history := saveFirst userId request (answer messages) (writtenMessages faults)
      mid.history } : State HistoryLog) = after
  have hasked' : after.asked = before.asked ++ [messages] := by rw [← hafter, ← hasked]
  have hhistory' : after.history = saveFirst userId request (answer messages)
      (writtenMessages faults) before.history := by rw [← hafter, ← hhistory]
  have hunchanged := unchanged_iff hhistory'
  have hextended := extendedBy_iff hasked' hhistory' hn
  constructor
  · intro h
    refine ⟨fun hone => ?_, fun hcomplete => hextended.mp (h.saved hcomplete)⟩
    rcases h.whole with hwhole | hwhole
    · have hzero := hunchanged.mp hwhole
      omega
    · have htwo := hextended.mp hwhole
      omega
  · intro h
    refine ⟨?_, fun hcomplete => hextended.mpr (h.2 hcomplete)⟩
    rw [hunchanged, hextended]
    have hone := h.1
    omega

theorem not_extendedBy_of_unchanged (hhistory : after.history = before.history) :
    ¬ ExtendedBy userId request answer before after := by
  intro h
  obtain ⟨messages, -, hextended⟩ := h
  rw [hhistory] at hextended
  simp [turn] at hextended

/-- As long as nothing is written the turn is atomic, if the client does not
have the answer. -/
theorem atomic_of_unchanged (hhistory : after.history = before.history)
    (hcomplete : ¬ complete) : Atomic userId request answer before after complete :=
  ⟨Or.inl (congrFun hhistory userId), fun h => absurd h hcomplete⟩

end Behind

/-! ## Answering at once -/

section Execute

variable {base : Env HistoryLog} {faults : Faults Site PyExc}
  {request : ChatRequest} {userId : UserId} {s s' : State HistoryLog}
  {messages : List ChatMessage} {used : List SearchResult}

/-- The context of a request. -/
def contextOf (env : Env HistoryLog) (faults : Faults Site PyExc)
    (request : ChatRequest) : Prog HistoryLog (String × List SearchResult) := do
  let searchResponse ← search env faults (searchRequest request)
  let results ← domainResults env searchResponse.results
  ofExcept (env.context.buildContext results)

theorem prepare_eq (env : Env HistoryLog) (faults : Faults Site PyExc)
    (request : ChatRequest) :
    prepare env faults request = (do
      let (context, used) ← contextOf env faults request
      let messages ← history env faults request
      pure (PromptService.buildRagPrompt request.message context messages, used)) := by
  simp only [prepare, contextOf, bind_assoc]

theorem contextOf_keeps (env : Env HistoryLog) (faults : Faults Site PyExc)
    (request : ChatRequest) (s : State HistoryLog) :
    Preserves (Unspoken s) (contextOf env faults request) := by
  have hsearch : Preserves (Unspoken s) (search env faults (searchRequest request)) := by
    apply Ensures.imp (ensures_focus (F := Unspoken s) ensures_trivial ?_)
      (fun _ _ h => h.1) fun _ _ h => h.1
    exact fun _ _ hs => hs
  refine Preserves.bind hsearch fun response => ?_
  refine Preserves.bind (Preserves.bind (fun _ hs => hs) fun _ => Preserves.ofExcept _)
    fun results => ?_
  exact Preserves.ofExcept _

/-- Up to the prompt only identifiers are drawn. -/
theorem prepare_keeps (env : Env HistoryLog) (faults : Faults Site PyExc)
    (request : ChatRequest) (s : State HistoryLog) :
    Preserves (Unspoken s) (prepare env faults request) := by
  rw [prepare_eq]
  refine Preserves.bind (contextOf_keeps env faults request s) fun built => ?_
  refine Preserves.bind (Preserves.bind (Preserves.ofExcept _) fun user => ?_)
    fun messages => Preserves.pure _
  cases user with
  | none => exact Preserves.pure _
  | some userId => exact Preserves.perform fun _ hs => hs

/-- For a user, the last five messages are remembered. -/
theorem run_history (huser : requestUser request = .ok (some userId))
    (hread : faults .getHistory = none) :
    (history (onLog base) faults request).run s =
      .ok (RedisLists.lastN 5 (s.history userId)) s := by
  simp only [history, huser, perform_of_none hread]
  rfl

/-- The request has a prompt and the provider answers it. -/
def ComesToSaving (env : Env HistoryLog) (faults : Faults Site PyExc)
    (request : ChatRequest) (s : State HistoryLog) : Prop :=
  (∃ prepared s', (prepare env faults request).run s = .ok prepared s') ∧
    faults .complete = none

/-- `execute` is atomic in the history. -/
def ExecuteAtomic (base : Env HistoryLog) (faults : Faults Site PyExc)
    (request : ChatRequest) (userId : UserId) (s : State HistoryLog) : Prop :=
  Atomic userId request (fun messages => (base.complete messages).message) s
    (finalState ((execute (onLog base) faults request).run s))
    (∃ response after, (execute (onLog base) faults request).run s = .ok response after)

theorem execute_eq (env : Env HistoryLog) :
    execute env faults request = (do
      let (messages, usedResults) ← prepare env faults request
      let chatResponse ← perform faults .complete do
        modify fun s => { s with asked := s.asked ++ [messages] }
        pure (env.complete messages)
      closing env faults request chatResponse.message
      pure (responseOf usedResults chatResponse)) := by
  simp only [execute, closing, bind_assoc]
  rfl

/-- Behind a prompt that is answered, it is up to the two writes. -/
theorem executeAtomic_of_prepare (huser : requestUser request = .ok (some userId))
    (hprepare : (prepare (onLog base) faults request).run s = .ok (messages, used) s')
    (hcomplete : faults .complete = none) :
    ExecuteAtomic base faults request userId s ↔ WritesTogether faults := by
  have hunspoken := prepare_keeps (onLog base) faults request s s ⟨rfl, rfl, rfl⟩
  rw [hprepare] at hunspoken
  have hexecute : (execute (onLog base) faults request).run s =
      (closing (onLog base) faults request (base.complete messages).message >>=
        fun _ => pure (responseOf used (base.complete messages))).run
          { s' with asked := s'.asked ++ [messages] } := by
    rw [execute_eq, EStateM.run_bind, hprepare]
    simp only [perform_of_none hcomplete]
    rfl
  have hasked : ({ s' with asked := s'.asked ++ [messages] } : State HistoryLog).asked =
      s.asked ++ [messages] := by rw [hunspoken.2.1]
  rw [ExecuteAtomic, hexecute, finalState_bind_pure]
  refine (atomic_closing_iff huser hasked hunspoken.1).trans
    (and_iff_left fun hreturned => ?_)
  obtain ⟨response, after, hrun⟩ := hreturned
  obtain ⟨_, _, hclosing, -⟩ := exists_of_run_bind_ok hrun
  exact writesBoth_of_closing huser hclosing

/-- An `execute` that raises before the writes is atomic. -/
theorem executeAtomic_of_error {r : Raised PyExc}
    (hexecute : (execute (onLog base) faults request).run s = .error r s')
    (hhistory : s'.history = s.history) : ExecuteAtomic base faults request userId s := by
  rw [ExecuteAtomic, hexecute]
  apply atomic_of_unchanged hhistory
  intro h
  obtain ⟨_, _, hrun⟩ := h
  cases hrun

/-- `execute` is atomic exactly if it does not come to the writes or they go
together. -/
theorem executeAtomic_iff (huser : requestUser request = .ok (some userId)) :
    ExecuteAtomic base faults request userId s ↔
      (ComesToSaving (onLog base) faults request s → WritesTogether faults) := by
  have hunspoken := prepare_keeps (onLog base) faults request s s ⟨rfl, rfl, rfl⟩
  cases hprepare : (prepare (onLog base) faults request).run s with
  | error r s' =>
      rw [hprepare] at hunspoken
      have hexecute : (execute (onLog base) faults request).run s = .error r s' := by
        rw [execute, EStateM.run_bind, hprepare]
      refine iff_of_true (executeAtomic_of_error hexecute hunspoken.1) fun h => ?_
      obtain ⟨⟨_, _, hrun⟩, -⟩ := h
      rw [hprepare] at hrun
      cases hrun
  | ok prepared s' =>
      rw [hprepare] at hunspoken
      cases hcomplete : faults .complete with
      | none =>
          rw [executeAtomic_of_prepare huser hprepare hcomplete]
          exact ⟨fun h _ => h, fun h => h ⟨⟨_, _, hprepare⟩, hcomplete⟩⟩
      | some fault =>
          have hexecute : (execute (onLog base) faults request).run s =
              .error fault.raised (if fault.landed then
                { s' with asked := s'.asked ++ [prepared.1] } else s') := by
            rw [execute, EStateM.run_bind, hprepare]
            simp only [perform, hcomplete]
            rfl
          refine iff_of_true (executeAtomic_of_error hexecute ?_) fun h => ?_
          · split
            · exact hunspoken.1
            · exact hunspoken.1
          · rw [ComesToSaving, hcomplete] at h
            cases h.2

end Execute

/-! ## Answering piece by piece -/

section Stream

variable {base : Env HistoryLog} {isDisconnected : Site → Bool}
  {faults : Faults ChatRouter.Site PyExc} {request : ChatRequest} {userId : UserId}
  {s s' before : State HistoryLog} {asked : List (List ChatMessage)}

/-- Nothing is saved, and the client does not have the last chunk. -/
structure Underway (before after : State HistoryLog) : Prop where
  history : after.history = before.history
  incomplete : Incomplete before after

theorem Unspoken.underway (h : Unspoken before s) : Underway before s :=
  ⟨h.1, [], by rw [h.2.2, List.append_nil], by simp⟩

/-- The prompt has been sent. -/
def Speaking (before : State HistoryLog) (messages : List ChatMessage)
    (s : State HistoryLog) : Prop :=
  Underway before s ∧ s.asked = before.asked ++ [messages]

/-- A piece of the answer that is forwarded changes nothing that is saved. -/
theorem forward_keeps {messages : List ChatMessage} (site : Site) {chunk : StreamChunk}
    (hchunk : chunk.done = false) :
    Preserves (Speaking before messages) (forward isDisconnected faults site chunk) := by
  refine Preserves.bind (Preserves.perform (Preserves.pure _)) fun gone => ?_
  cases gone with
  | true => exact Preserves.bind (Preserves.perform (Preserves.pure _)) fun _ =>
      Preserves.pure _
  | false =>
      refine Preserves.bind (Preserves.perform (ensures_modify fun s hs => ?_)) fun _ =>
        Preserves.pure _
      obtain ⟨hunderway, hasked⟩ := hs
      exact ⟨⟨hunderway.history, hunderway.incomplete.append hchunk rfl⟩, hasked⟩

theorem ensures_forEachDelta {messages : List ChatMessage} (deltas : List String)
    (i : ℕ) (fullContent : String) :
    Ensures (Speaking before messages)
      (forEachDelta (inChat faults) (forward isDisconnected faults) i fullContent deltas)
      (fun out s => Speaking before messages s ∧
        ∀ content, out = some content → content = deltas.foldl (· ++ ·) fullContent)
      fun _ => Speaking before messages := by
  induction deltas generalizing i fullContent with
  | nil =>
      refine Ensures.bind (Preserves.perform (Preserves.pure _)) fun _ =>
        ensures_pure fun s hs => ⟨hs, ?_⟩
      intro content hcontent
      exact (Option.some.inj hcontent).symm
  | cons delta rest ih =>
      refine Ensures.bind (Preserves.perform (Preserves.pure _)) fun _ => ?_
      refine Ensures.bind (forward_keeps (.yield i) rfl) fun goesOn => ?_
      cases goesOn with
      | true => exact ih (i + 1) (fullContent ++ delta)
      | false =>
          refine ensures_pure fun s hs => ⟨hs, ?_⟩
          intro content hcontent
          cases hcontent

/-- Up to the last chunk nothing is saved; then the full content is the joined
answer to the prompt. -/
theorem ensures_forEachPiece (env : Env HistoryLog) (s : State HistoryLog) :
    Ensures (Unspoken s)
      (forEachPiece env (inChat faults) request (forward isDisconnected faults))
      (fun out s' => Underway s s' ∧ ∀ content last, out = some (content, last) →
        last.done = true ∧ ∃ messages, Speaking s messages s' ∧
          content = String.join (env.stream messages))
      fun _ => Underway s := by
  refine Ensures.bind ((prepare_keeps env (inChat faults) request s).impRaise
    fun _ _ hs => hs.underway) fun prepared => ?_
  have hopen : Ensures (Unspoken s)
      (perform (inChat faults) .openStream
        (modify fun s => { s with asked := s.asked ++ [prepared.1] }))
      (fun _ => Speaking s prepared.1) fun _ => Underway s := by
    refine (ensures_perform_effect (Q := fun _ => Speaking s prepared.1)
      (ensures_modify fun s' hs' => ?_)).imp (fun _ _ h => h.2) ?_
    · refine ⟨⟨hs'.1, (Unspoken.underway hs').incomplete⟩, ?_⟩
      rw [hs'.2.1]
    · intro r s' hs'
      obtain ⟨fault, -, -, hs'⟩ := hs'
      split at hs'
      · obtain ⟨_, hs'⟩ := hs'
        exact hs'.1
      · exact hs'.underway
  refine hopen.bind fun _ => ?_
  refine ((ensures_forEachDelta (env.stream prepared.1) 0 "").impRaise
    fun _ _ hs => hs.1).bind fun out => ?_
  cases out with
  | none =>
      refine ensures_pure fun s' hs' => ⟨hs'.1.1, ?_⟩
      intro content last hout
      cases hout
  | some fullContent =>
      refine ensures_of_fact fun hcontent => ?_
      refine ((ensures_ofExcept _).imp (fun _ _ h => h.1) fun _ _ h => h.1.1).bind
        fun promptTokens => ?_
      refine ((ensures_ofExcept _).imp (fun _ _ h => h.1) fun _ _ h => h.1.1).bind
        fun completionTokens => ensures_pure fun s' hs' => ⟨hs'.1, ?_⟩
      intro content last hout
      cases hout
      exact ⟨rfl, prepared.1, hs', hcontent _ rfl⟩

/-- Whether the cancellation of the endpoint is logged does not show. -/
theorem finalState_streamGenerator (env : Env HistoryLog) :
    finalState ((streamGenerator env isDisconnected faults request).run s) =
      finalState ((forEachChunk env (inChat faults) request
        (forward isDisconnected faults)).run s) := by
  simp only [streamGenerator, onCancelled, EStateM.run]
  cases hrun : forEachChunk env (inChat faults) request
      (forward isDisconnected faults) s with
  | ok a s' => rfl
  | error r s' =>
      cases r with
      | exception e => rfl
      | cancelled =>
          cases hlog : faults .logCancelled with
          | none =>
              simp only [perform, hlog]
              rfl
          | some fault =>
              simp only [perform, hlog]
              exact ite_self _

/-- The run comes to the last chunk, and the client receives it. -/
def ComesToLast (env : Env HistoryLog) (isDisconnected : Site → Bool)
    (faults : Faults ChatRouter.Site PyExc) (request : ChatRequest)
    (s : State HistoryLog) : Prop :=
  (∃ content last s', (forEachPiece env (inChat faults) request
      (forward isDisconnected faults)).run s = .ok (some (content, last)) s') ∧
    faults (.isDisconnected .yieldDone) = none ∧
    isDisconnected .yieldDone = false ∧ faults.Lands (.yield .yieldDone)

/-- The stream goes on behind its last chunk and both messages are written. -/
structure SavesBehindLast (faults : Faults ChatRouter.Site PyExc) : Prop where
  goesOn : faults (.yield .yieldDone) = none
  writes : WritesBoth (inChat faults)

/-- The streaming endpoint is atomic in the history. -/
def StreamAtomic (base : Env HistoryLog) (isDisconnected : Site → Bool)
    (faults : Faults ChatRouter.Site PyExc) (request : ChatRequest)
    (userId : UserId) (s : State HistoryLog) : Prop :=
  Atomic userId request
    (fun messages => { role := .assistant, content := String.join (base.stream messages) })
    s (finalState ((streamGenerator (onLog base) isDisconnected faults request).run s))
    (ReceivedLast s
      (finalState ((streamGenerator (onLog base) isDisconnected faults request).run s)))

/-- A run that ends before the client has the last chunk is atomic. -/
theorem streamAtomic_of_underway
    (h : Underway s (finalState ((forEachChunk (onLog base) (inChat faults) request
      (forward isDisconnected faults)).run s))) :
    StreamAtomic base isDisconnected faults request userId s := by
  rw [StreamAtomic, finalState_streamGenerator]
  exact atomic_of_unchanged h.history h.incomplete.not_receivedLast

/-- A client that is still there is handed the chunk. -/
theorem forward_of_present {site : Site} {chunk : StreamChunk}
    (hcheck : faults (.isDisconnected site) = none)
    (hpresent : isDisconnected site = false) :
    (forward isDisconnected faults site chunk : Prog HistoryLog Bool) = (do
      perform faults (.yield site) (modify fun s => { s with sent := s.sent ++ [chunk] })
      pure true) := by
  simp only [forward, perform_of_none hcheck, hpresent, pure_bind]
  rfl

/-- A chunk that the client does not receive ends the run without effect. -/
theorem finalState_forward_lost {site : Site} {chunk : StreamChunk}
    (hlost : ¬ (faults (.isDisconnected site) = none ∧ isDisconnected site = false ∧
      faults.Lands (.yield site))) (next : Prog HistoryLog Unit) :
    finalState ((forward isDisconnected faults site chunk >>= fun goesOn =>
      if goesOn then next else pure ()).run s) = s := by
  cases hcheck : faults (.isDisconnected site) with
  | some fault =>
      simp only [forward, perform, hcheck]
      exact ite_self _
  | none =>
      cases hpresent : isDisconnected site with
      | true =>
          simp only [forward, perform_of_none hcheck, hpresent, pure_bind, if_true]
          cases hlog : faults .logDisconnected with
          | none =>
              simp only [perform, hlog]
              rfl
          | some fault =>
              simp only [perform, hlog]
              exact ite_self _
      | false =>
          have hnot : ¬ faults.Lands (.yield site) := fun h => hlost ⟨hcheck, hpresent, h⟩
          rw [forward_of_present hcheck hpresent]
          cases hyield : faults (.yield site) with
          | none => exact absurd (Faults.lands_of_none hyield) hnot
          | some fault =>
              have hlanded : fault.landed = false := by
                simpa [Faults.lands_iff_of_some hyield] using hnot
              simp only [perform, hyield, hlanded]
              rfl

/-- Behind the pieces of an answer, it is up to the last chunk. -/
theorem streamAtomic_of_pieces (huser : requestUser request = .ok (some userId))
    {content : String} {last : StreamChunk}
    (hpieces : (forEachPiece (onLog base) (inChat faults) request
      (forward isDisconnected faults)).run s = .ok (some (content, last)) s') :
    StreamAtomic base isDisconnected faults request userId s ↔
      (ComesToLast (onLog base) isDisconnected faults request s →
        SavesBehindLast faults) := by
  have hspec := @ensures_forEachPiece isDisconnected faults request (onLog base) s s
    ⟨rfl, rfl, rfl⟩
  rw [hpieces] at hspec
  obtain ⟨hunderway, hlast⟩ := hspec
  obtain ⟨hdone, messages, hspeaking, rfl⟩ := hlast content last rfl
  have hchunk : (forEachChunk (onLog base) (inChat faults) request
        (forward isDisconnected faults)).run s =
      (forward isDisconnected faults .yieldDone last >>= fun goesOn =>
        if goesOn then closing (onLog base) (inChat faults) request
          { role := .assistant, content := String.join (base.stream messages) }
        else pure ()).run s' := by
    rw [forEachChunk, EStateM.run_bind, hpieces]
    rfl
  by_cases hcomes : faults (.isDisconnected .yieldDone) = none ∧
      isDisconnected .yieldDone = false ∧ faults.Lands (.yield .yieldDone)
  · have hcomesToLast : ComesToLast (onLog base) isDisconnected faults request s :=
      ⟨⟨_, _, _, hpieces⟩, hcomes⟩
    obtain ⟨hcheck, hpresent, hlands⟩ := hcomes
    rw [forall_prop_of_true hcomesToLast]
    rw [forward_of_present hcheck hpresent] at hchunk
    have hreceived : ∀ after : State HistoryLog, after.sent = s'.sent ++ [last] →
        ReceivedLast s after := by
      intro after hsent
      obtain ⟨received, hbefore, -⟩ := hunderway.incomplete
      exact ⟨received ++ [last], by rw [hsent, hbefore, List.append_assoc], last,
        by simp, hdone⟩
    rw [StreamAtomic, finalState_streamGenerator]
    cases hyield : faults (.yield .yieldDone) with
    | none =>
        have hclosing : (forEachChunk (onLog base) (inChat faults) request
              (forward isDisconnected faults)).run s =
            (closing (onLog base) (inChat faults) request
              { role := .assistant, content := String.join (base.stream messages) }).run
              { s' with sent := s'.sent ++ [last] } := by
          rw [hchunk]
          simp only [perform_of_none hyield]
          rfl
        have hcomplete := hreceived (finalState ((closing (onLog base) (inChat faults)
          request { role := .assistant, content := String.join (base.stream messages) }).run
            { s' with sent := s'.sent ++ [last] })) (by rw [finalState_closing huser])
        have hasked : ({ s' with sent := s'.sent ++ [last] } : State HistoryLog).asked =
            s.asked ++ [messages] := hspeaking.2
        rw [hclosing, atomic_closing_iff huser hasked hunderway.history]
        constructor
        · intro h
          exact ⟨hyield, h.2 hcomplete⟩
        · intro h
          exact ⟨h.writes.together, fun _ => h.writes⟩
    | some fault =>
        have hstopped : finalState ((forEachChunk (onLog base) (inChat faults) request
              (forward isDisconnected faults)).run s) =
            { s' with sent := s'.sent ++ [last] } := by
          rw [hchunk]
          simp only [perform, hyield, hlands fault hyield]
          rfl
        rw [hstopped]
        refine iff_of_false (fun h => ?_) fun h => ?_
        · exact not_extendedBy_of_unchanged hunderway.history (h.saved (hreceived _ rfl))
        · rw [h.goesOn] at hyield
          cases hyield
  · refine iff_of_true (streamAtomic_of_underway ?_) fun h => absurd h.2 hcomes
    rw [hchunk, finalState_forward_lost hcomes]
    exact hunderway

/-- The streaming endpoint is atomic exactly if the client does not receive a
last chunk, or the stream goes on and writes both messages. -/
theorem streamAtomic_iff (huser : requestUser request = .ok (some userId)) :
    StreamAtomic base isDisconnected faults request userId s ↔
      (ComesToLast (onLog base) isDisconnected faults request s →
        SavesBehindLast faults) := by
  have hspec := @ensures_forEachPiece isDisconnected faults request (onLog base) s s
    ⟨rfl, rfl, rfl⟩
  cases hpieces : (forEachPiece (onLog base) (inChat faults) request
      (forward isDisconnected faults)).run s with
  | error r s' =>
      rw [hpieces] at hspec
      refine iff_of_true (streamAtomic_of_underway ?_) fun h => ?_
      · rw [forEachChunk, EStateM.run_bind, hpieces]
        exact hspec
      · obtain ⟨⟨_, _, _, hrun⟩, -⟩ := h
        rw [hpieces] at hrun
        cases hrun
  | ok out s' =>
      rw [hpieces] at hspec
      cases out with
      | none =>
          refine iff_of_true (streamAtomic_of_underway ?_) fun h => ?_
          · rw [forEachChunk, EStateM.run_bind, hpieces]
            exact hspec.1
          · obtain ⟨⟨_, _, _, hrun⟩, -⟩ := h
            rw [hpieces] at hrun
            cases hrun
      | some piece => exact streamAtomic_of_pieces huser hpieces

end Stream

/-! ## Both ways -/

/-- Both endpoints are atomic in the history. -/
structure TurnsAtomic (base : Env HistoryLog) (isDisconnected : Site → Bool)
    (faults : Faults ChatRouter.Site PyExc) (request : ChatRequest)
    (userId : UserId) (s : State HistoryLog) : Prop where
  execute : ExecuteAtomic base (inChat faults) request userId s
  stream : StreamAtomic base isDisconnected faults request userId s

/-- When `execute` comes to the writes they go together; when the client of a
stream receives the last chunk, the stream goes on and writes both messages. -/
structure Undisturbed (base : Env HistoryLog) (isDisconnected : Site → Bool)
    (faults : Faults ChatRouter.Site PyExc) (request : ChatRequest)
    (s : State HistoryLog) : Prop where
  execute : ComesToSaving (onLog base) (inChat faults) request s →
    WritesTogether (inChat faults)
  stream : ComesToLast (onLog base) isDisconnected faults request s →
    SavesBehindLast faults

theorem turnsAtomic_iff {base : Env HistoryLog} {isDisconnected : Site → Bool}
    {faults : Faults ChatRouter.Site PyExc} {request : ChatRequest} {userId : UserId}
    (huser : requestUser request = .ok (some userId)) (s : State HistoryLog) :
    TurnsAtomic base isDisconnected faults request userId s ↔
      Undisturbed base isDisconnected faults request s := by
  constructor
  · intro h
    exact ⟨(executeAtomic_iff huser).mp h.execute, (streamAtomic_iff huser).mp h.stream⟩
  · intro h
    exact ⟨(executeAtomic_iff huser).mpr h.execute, (streamAtomic_iff huser).mpr h.stream⟩

/-! ## A client that leaves -/

def userChat : ChatRequest where
  message := "A"
  userId := some (Uuid.str ⟨7⟩)
  message_ne := TokenSafety.letter_ne
  topK_pos := ChatRequest.one_le_topK
  topK_le := ChatRequest.topK_le_twenty

theorem requestUser_userChat : requestUser userChat = .ok (some ⟨7⟩) := by
  have hne : Uuid.str ⟨7⟩ ≠ "" := by decide +kernel
  simp only [requestUser, userChat, if_neg hne, Uuid.fromStr_str]
  rfl

/-- The client closes the connection when it has the last chunk. -/
def leaving : Faults ChatRouter.Site PyExc
  | .yield .yieldDone => some ⟨.cancelled, true⟩
  | _ => none

theorem run_prepare_userChat (log : HistoryLog) : ∃ context used s',
    (prepare (onLog (answering "B")) Faults.none userChat).run { history := log } =
      .ok (PromptService.buildRagPrompt userChat.message context
        (RedisLists.lastN 5 (log ⟨7⟩)), used) s' := by
  have hcontext : ∃ context used drawn, (contextOf (onLog (answering "B")) Faults.none
      userChat).run { history := log } =
        .ok (context, used) { history := log, drawn := drawn } := ⟨_, _, _, rfl⟩
  obtain ⟨context, used, drawn, hcontext⟩ := hcontext
  refine ⟨context, used, { history := log, drawn := drawn }, ?_⟩
  rw [prepare_eq, EStateM.run_bind, hcontext]
  dsimp only
  rw [EStateM.run_bind, run_history requestUser_userChat rfl]
  rfl

theorem run_forEachPiece_userChat : ∃ content last s',
    (forEachPiece (onLog (answering "B")) (inChat leaving) userChat
      (forward (fun _ => false) leaving)).run { history := fun _ => [] } =
        .ok (some (content, last)) s' := by
  obtain ⟨context, used, s', hprepare⟩ := run_prepare_userChat fun _ => []
  have hprepared := @ensures_prepare smallTiktoken (answering "B") userChat
    { history := fun _ => [] } { history := fun _ => [] } ⟨rfl, rfl, rfl⟩
  have hlog : onLog (answering "B") = logEnv smallTiktoken (answering "B") := rfl
  rw [← hlog, hprepare] at hprepared
  obtain ⟨promptTokens, hprompt⟩ := (countTokens_prompt_iff hprepared.2).mpr (by
    simp [past, requestUser_userChat, RedisLists.lastN])
  generalize PromptService.buildRagPrompt userChat.message context
    (RedisLists.lastN 5 []) = messages at hprepare hprompt
  have hnone : inChat leaving = Faults.none := rfl
  refine ⟨"" ++ "B", lastChunk used promptTokens 1, { s' with
    asked := s'.asked ++ [messages], sent := s'.sent ++ [{ content := "B" }] }, ?_⟩
  rw [forEachPiece, EStateM.run_bind, hnone, hprepare]
  dsimp only
  have hcount : ofExcept ((onLog (answering "B")).countTokens
      (String.intercalate " " (messages.map ChatMessage.content)) "gpt-4o") =
        (pure promptTokens : Prog HistoryLog ℤ) := by
    have hprompt' : (onLog (answering "B")).countTokens
      (String.intercalate " " (messages.map ChatMessage.content)) "gpt-4o" =
        .ok promptTokens := hprompt
    rw [hprompt']
    rfl
  rw [hcount]
  rfl

theorem turnsAtomic_iff_leaving :
    TurnsAtomic (answering "B") (fun _ => false) leaving userChat ⟨7⟩
        { history := fun _ => [] } ↔
      Undisturbed (answering "B") (fun _ => false) leaving userChat
        { history := fun _ => [] } :=
  turnsAtomic_iff requestUser_userChat _

theorem not_turnsAtomic_leaving :
    ¬ ∀ (base : Env HistoryLog) (isDisconnected : Site → Bool)
        (faults : Faults ChatRouter.Site PyExc) (request : ChatRequest)
        (userId : UserId) (s : State HistoryLog),
      requestUser request = .ok (some userId) →
        TurnsAtomic base isDisconnected faults request userId s := by
  intro h
  have hatomic := (h (answering "B") (fun _ => false) leaving userChat ⟨7⟩
    { history := fun _ => [] } requestUser_userChat).stream
  have hcomes : ComesToLast (onLog (answering "B")) (fun _ => false) leaving userChat
      { history := fun _ => [] } :=
    ⟨run_forEachPiece_userChat, rfl, rfl, fun fault hfault => by cases hfault; rfl⟩
  have hsaves := (streamAtomic_iff requestUser_userChat).mp hatomic hcomes
  have hgoesOn := hsaves.goesOn
  cases hgoesOn

end RagChat
end AiBackend
