import AiBackend.Chat.TurnAtomicity
import AiBackend.Support.Run
import Mathlib.Logic.Function.Basic

/-!
# Turns of one user that are saved at the same time

Any number of requests of one user, interleaved at the statements that touch
the history: the read of the last five messages, the write of the question and
the write of the answer.  If no request writes its question or reads while
another one is between its two writes, the log consists of whole turns; a read
then shows whole turns as long as the log is not longer than four messages,
for five messages are never whole turns.
-/

namespace AiBackend
namespace RagChat

open Program Python Run RedisLists

/-! ## One request in segments -/

/-- How far a request has come. -/
inductive Stage where
  | start
  | prompted (messages : List ChatMessage) (used : List SearchResult)
  | answered (answer : ChatMessage)
  | halfSaved (userId : UserId) (answer : ChatMessage)
  | saved (answer : ChatMessage)
  | raised (r : Raised PyExc)

section Segments

variable {H : Type} (env : Env H) (request : ChatRequest)

/-- The answer at once. -/
def completeSegment (messages : List ChatMessage) : Prog H ChatMessage := do
  let chatResponse ← perform Faults.none Site.complete do
    modify fun s => { s with asked := s.asked ++ [messages] }
    pure (env.complete messages)
  pure chatResponse.message

/-- The answer piece by piece, up to the last chunk. -/
def streamSegment (messages : List ChatMessage) (usedResults : List SearchResult) :
    Prog H ChatMessage := do
  perform Faults.none Site.openStream
    (modify fun s => { s with asked := s.asked ++ [messages] })
  let fullContent ← forwardDeltas Faults.none 0 "" (env.stream messages)
  let promptTokens ← ofExcept (env.countTokens
    (String.intercalate " " (messages.map ChatMessage.content)) "gpt-4o")
  let completionTokens ← ofExcept (env.countTokens fullContent "gpt-4o")
  yieldChunk Faults.none .yieldDone (lastChunk usedResults promptTokens completionTokens)
  pure { role := .assistant, content := fullContent }

def answerSegment (streamed : Bool) (messages : List ChatMessage)
    (usedResults : List SearchResult) : Prog H ChatMessage :=
  if streamed then streamSegment env messages usedResults
  else completeSegment env messages

/-- The next segment of a request, without failures. -/
def advance (streamed : Bool) : Stage → Prog H Stage
  | .start => do
      let (messages, usedResults) ← prepare env Faults.none request
      pure (.prompted messages usedResults)
  | .prompted messages usedResults => do
      let answer ← answerSegment env streamed messages usedResults
      pure (.answered answer)
  | .answered answer => do
      match ← ofExcept (requestUser request) with
      | some userId => do
          perform Faults.none Site.saveUser (modify fun s => { s with
            history := env.history.saveMessage s.history userId
              { role := .user, content := request.message } })
          pure (.halfSaved userId answer)
      | none => pure (.saved answer)
  | .halfSaved userId answer => do
      perform Faults.none Site.saveAssistant (modify fun s => { s with
        history := env.history.saveMessage s.history userId answer })
      pure (.saved answer)
  | stage => pure stage

/-- The four segments of a request that runs alone. -/
def advanceAll (streamed : Bool) : Prog H Unit := do
  let stage ← advance env request streamed .start
  let stage ← advance env request streamed stage
  let stage ← advance env request streamed stage
  let _ ← advance env request streamed stage
  pure ()

/-- A request that runs alone goes through its segments one after the other. -/
theorem execute_eq_advanceAll :
    advanceAll env request false = (do
      let _ ← execute env Faults.none request
      pure ()) := by
  simp only [advanceAll, advance, execute, saveTurn, answerSegment, completeSegment,
    bind_assoc, pure_bind, perform_none, Bool.false_eq_true, if_false]
  apply bind_congr
  intro prepared
  apply bind_congr
  intro response
  apply bind_congr
  intro user
  cases user with
  | none => rfl
  | some userId => simp only [bind_assoc, pure_bind]

theorem stream_eq_advanceAll :
    advanceAll env request true = stream env Faults.none request := by
  simp only [advanceAll, advance, stream, saveTurn, answerSegment, streamSegment,
    bind_assoc, pure_bind, perform_none, if_true]
  apply bind_congr
  intro prepared
  apply bind_congr
  intro _
  apply bind_congr
  intro fullContent
  apply bind_congr
  intro promptTokens
  apply bind_congr
  intro completionTokens
  apply bind_congr
  intro _
  apply bind_congr
  intro user
  cases user with
  | none => rfl
  | some userId => simp only [bind_assoc, pure_bind]

end Segments

/-! ## What one segment does -/

/-- The history in a prompt: what is between the system message and the
question. -/
def remembered (messages : List ChatMessage) : List ChatMessage :=
  messages.tail.dropLast

@[simp] theorem remembered_buildRagPrompt (query context : String)
    (history : List ChatMessage) :
    remembered (PromptService.buildRagPrompt query context history) = history := by
  simp [remembered, PromptService.buildRagPrompt]

/-- The effect of a segment on the messages of the user. -/
inductive Effect (request : ChatRequest) (userId : UserId) (log log' : List ChatMessage) :
    Stage → Stage → Prop
  | prompted (messages : List ChatMessage) (used : List SearchResult)
      (remembers : remembered messages = lastN 5 log) (same : log' = log) :
      Effect request userId log log' .start (.prompted messages used)
  | answered (messages : List ChatMessage) (used : List SearchResult)
      (answer : ChatMessage) (role : answer.role = .assistant) (same : log' = log) :
      Effect request userId log log' (.prompted messages used) (.answered answer)
  | savedUser (answer : ChatMessage)
      (grown : log' = log ++ [{ role := .user, content := request.message }]) :
      Effect request userId log log' (.answered answer) (.halfSaved userId answer)
  | savedAnswer (answer : ChatMessage) (grown : log' = log ++ [answer]) :
      Effect request userId log log' (.halfSaved userId answer) (.saved answer)
  | refused (r : Raised PyExc) (same : log' = log) :
      Effect request userId log log' .start (.raised r)
  | failed (messages : List ChatMessage) (used : List SearchResult)
      (r : Raised PyExc) (same : log' = log) :
      Effect request userId log log' (.prompted messages used) (.raised r)
  | ended (stage : Stage) (same : log' = log)
      (done : (∃ answer, stage = .saved answer) ∨ ∃ r, stage = .raised r) :
      Effect request userId log log' stage stage

section Effects

variable {base : Env HistoryLog} {request : ChatRequest} {userId : UserId}

/-- The prompt shows the last five messages, which stay as they are. -/
theorem ensures_prepare_onLog (huser : requestUser request = .ok (some userId))
    (s : State HistoryLog) :
    Ensures (Unspoken s) (prepare (onLog base) Faults.none request)
      (fun prepared s' => Unspoken s s' ∧
        remembered prepared.1 = lastN 5 (s.history userId))
      fun _ => Unspoken s := by
  rw [prepare_eq]
  refine Ensures.bind (contextOf_keeps (onLog base) Faults.none request s) fun built => ?_
  have hhistory : Ensures (Unspoken s) (history (onLog base) Faults.none request)
      (fun messages s' => Unspoken s s' ∧ messages = lastN 5 (s.history userId))
      fun _ => Unspoken s := by
    intro s' hs'
    rw [run_history huser rfl]
    exact ⟨hs', by rw [hs'.1]⟩
  refine hhistory.bind fun messages => ensures_of_fact fun hmessages =>
    ensures_pure fun s' hs' => ⟨hs', ?_⟩
  rw [remembered_buildRagPrompt, hmessages]

theorem ensures_answer (hrole : ∀ messages, (base.complete messages).message.role = .assistant)
    (streamed : Bool) (messages : List ChatMessage) (used : List SearchResult)
    (log : HistoryLog) :
    Ensures (fun s => s.history = log)
      (answerSegment (onLog base) streamed messages used)
      (fun answer s => s.history = log ∧ answer.role = .assistant)
      fun _ s => s.history = log := by
  cases streamed with
  | false => exact fun s hs => ⟨hs, hrole messages⟩
  | true =>
      have hopen : Preserves (fun s : State HistoryLog => s.history = log)
          (perform Faults.none Site.openStream
            (modify fun s => { s with asked := s.asked ++ [messages] }) :
              Prog HistoryLog Unit) := fun _ hs => hs
      have hdeltas : Preserves (fun s : State HistoryLog => s.history = log)
          (forwardDeltas Faults.none 0 "" (base.stream messages)) := by
        intro s hs
        rw [run_forwardDeltas]
        exact hs
      have hlast : ∀ chunk, Preserves (fun s : State HistoryLog => s.history = log)
          (yieldChunk Faults.none .yieldDone chunk) := fun _ _ hs => hs
      refine Ensures.bind hopen fun _ => ?_
      refine Ensures.bind hdeltas fun fullContent => ?_
      refine Ensures.bind (Preserves.ofExcept _) fun promptTokens => ?_
      refine Ensures.bind (Preserves.ofExcept _) fun completionTokens => ?_
      exact Ensures.bind (hlast _) fun _ => ensures_pure fun _ hs => ⟨hs, rfl⟩

/-- Every segment has one of the effects above. -/
theorem advance_effect (huser : requestUser request = .ok (some userId))
    (hrole : ∀ messages, (base.complete messages).message.role = .assistant)
    (streamed : Bool) (stage : Stage) (s₀ : State HistoryLog)
    (howner : ∀ other answer, stage = .halfSaved other answer → other = userId) :
    Ensures (· = s₀) (advance (onLog base) request streamed stage)
      (fun next s =>
        Effect request userId (s₀.history userId) (s.history userId) stage next)
      (fun r s =>
        Effect request userId (s₀.history userId) (s.history userId) stage (.raised r)) := by
  cases stage with
  | start =>
      have hprepare := @ensures_prepare_onLog base request userId huser s₀
      refine Ensures.bind (hprepare.consequence ?_ (fun _ _ h => h) ?_) fun prepared =>
        ensures_pure fun s hs => ?_
      · rintro s rfl
        exact ⟨rfl, rfl, rfl⟩
      · intro r s hs
        exact .refused r (by rw [hs.1])
      · exact .prompted _ _ hs.2 (by rw [hs.1.1])
  | prompted messages used =>
      have hanswer := ensures_answer hrole streamed messages used s₀.history
      refine Ensures.bind (hanswer.consequence ?_ (fun _ _ h => h) ?_) fun answer =>
        ensures_pure fun s hs => ?_
      · rintro s rfl
        rfl
      · intro r s hs
        exact .failed messages used r (by rw [hs])
      · exact .answered messages used answer hs.2 (by rw [hs.1])
  | answered answer =>
      rintro s rfl
      have hrun : (advance (onLog base) request streamed (.answered answer)).run s =
          .ok (.halfSaved userId answer) { s with
            history := s.history.save userId
              { role := .user, content := request.message } } := by
        simp only [advance, huser]
        rfl
      rw [hrun]
      exact .savedUser answer (HistoryLog.save_self ..)
  | halfSaved other answer =>
      obtain rfl := howner other answer rfl
      rintro s rfl
      exact .savedAnswer answer (HistoryLog.save_self ..)
  | saved answer =>
      rintro s rfl
      exact .ended _ rfl (Or.inl ⟨_, rfl⟩)
  | raised r =>
      rintro s rfl
      exact .ended _ rfl (Or.inr ⟨_, rfl⟩)

end Effects

/-! ## Any number of requests -/

/-- The requests, each at its stage, and what they share. -/
structure Chats (ι : Type) where
  stages : ι → Stage
  shared : State HistoryLog

/-- One request takes its next step. -/
def stepChat {ι : Type} [DecidableEq ι] (base : Env HistoryLog)
    (requests : ι → ChatRequest) (streamed : ι → Bool) (m : Chats ι) (i : ι) : Chats ι :=
  match (advance (onLog base) (requests i) (streamed i) (m.stages i)).run m.shared with
  | .ok stage s => ⟨Function.update m.stages i stage, s⟩
  | .error r s => ⟨Function.update m.stages i (.raised r), s⟩

/-- The answer a request has got. -/
def Stage.answer : Stage → Option ChatMessage
  | .answered answer => some answer
  | .halfSaved _ answer => some answer
  | .saved answer => some answer
  | _ => none

/-- The request is between its two writes. -/
def Stage.isHalfSaved : Stage → Bool
  | .halfSaved _ _ => true
  | _ => false

/-- The next statements touch the history at a turn: the read, and the write
of the question. -/
def Stage.opensTurn : Stage → Bool
  | .start => true
  | .answered _ => true
  | _ => false

/-- A question and its answer. -/
structure Turn where
  question : String
  answer : ChatMessage

/-- The messages of a turn. -/
def Turn.messages (t : Turn) : List ChatMessage :=
  [{ role := .user, content := t.question }, t.answer]

section Machine

variable {ι : Type} {base : Env HistoryLog} {requests : ι → ChatRequest}
  {streamed : ι → Bool} {userId : UserId} {past : List Turn}

/-- A turn of the past, or of a request that has been answered. -/
def Happened (requests : ι → ChatRequest) (past : List Turn) (m : Chats ι)
    (t : Turn) : Prop :=
  t.answer.role = .assistant ∧
    (t ∈ past ∨ ∃ i, (requests i).message = t.question ∧
      (m.stages i).answer = some t.answer)

/-- The messages are whole turns: a question, the answer to it, and so on. -/
def WholeTurns (requests : ι → ChatRequest) (past : List Turn) (m : Chats ι)
    (messages : List ChatMessage) : Prop :=
  ∃ turns : List Turn, (∀ t ∈ turns, Happened requests past m t) ∧
    messages = turns.flatMap Turn.messages

/-- Whenever a prompt is made, the history in it consists of whole turns. -/
def ShowsWholeTurns (requests : ι → ChatRequest) (past : List Turn)
    (t : Transition (Chats ι) ι) : Prop :=
  ∀ messages used, t.before.stages t.input = .start →
    t.after.stages t.input = .prompted messages used →
    WholeTurns requests past t.before (remembered messages)

/-- A request that reads or writes its question finds no other one between its
two writes, and one that reads finds at most four messages. -/
def Spaced (userId : UserId) (m : Chats ι) (i : ι) : Prop :=
  ((m.stages i).opensTurn → ∀ j, (m.stages j).isHalfSaved = false) ∧
    (m.stages i = .start → (m.shared.history userId).length ≤ 4)

/-- The log is whole turns, with one question behind them while a request is
between its two writes. -/
structure Orderly (requests : ι → ChatRequest) (userId : UserId) (past : List Turn)
    (m : Chats ι) : Prop where
  owner : ∀ i other answer, m.stages i = .halfSaved other answer → other = userId
  role : ∀ i answer, (m.stages i).answer = some answer → answer.role = .assistant
  log : (∀ i, (m.stages i).isHalfSaved = false) ∧
      WholeTurns requests past m (m.shared.history userId) ∨
    ∃ i answer whole, m.stages i = .halfSaved userId answer ∧
      (∀ j, (m.stages j).isHalfSaved → j = i) ∧ WholeTurns requests past m whole ∧
      m.shared.history userId =
        whole ++ [{ role := .user, content := (requests i).message }]

/-! ### Steps -/

variable [DecidableEq ι]

theorem stepChat_effect (huser : ∀ i, requestUser (requests i) = .ok (some userId))
    (hrole : ∀ messages, (base.complete messages).message.role = .assistant)
    (streamed : ι → Bool) (m : Chats ι) (i : ι)
    (howner : ∀ other answer, m.stages i = .halfSaved other answer → other = userId) :
    ∃ stage s, stepChat base requests streamed m i =
        ⟨Function.update m.stages i stage, s⟩ ∧
      Effect (requests i) userId (m.shared.history userId) (s.history userId)
        (m.stages i) stage := by
  have hrun := advance_effect (huser i) hrole (streamed i) (m.stages i) m.shared howner
    m.shared rfl
  unfold stepChat
  cases hresult : (advance (onLog base) (requests i) (streamed i) (m.stages i)).run
      m.shared with
  | ok stage s =>
      rw [hresult] at hrun
      exact ⟨stage, s, rfl, hrun⟩
  | error r s =>
      rw [hresult] at hrun
      exact ⟨.raised r, s, rfl, hrun⟩

/-- What a request has been answered stays. -/
theorem Effect.answer {request : ChatRequest} {userId : UserId} {log log' : List ChatMessage}
    {stage next : Stage} (h : Effect request userId log log' stage next) {answer : ChatMessage}
    (hanswer : stage.answer = some answer) : next.answer = some answer := by
  cases h with
  | prompted messages used remembers same => cases hanswer
  | answered messages used answer role same => cases hanswer
  | savedUser answer grown => exact hanswer
  | savedAnswer answer grown => exact hanswer
  | refused r same => cases hanswer
  | failed messages used r same => cases hanswer
  | ended stage same done => exact hanswer

theorem Effect.role {request : ChatRequest} {userId : UserId} {log log' : List ChatMessage}
    {stage next : Stage} (h : Effect request userId log log' stage next)
    (hrole : ∀ answer, stage.answer = some answer → answer.role = .assistant)
    {answer : ChatMessage} (hanswer : next.answer = some answer) :
    answer.role = .assistant := by
  cases h with
  | prompted messages used remembers same => cases hanswer
  | answered messages used answer role same =>
      cases hanswer
      exact role
  | savedUser answer grown => exact hrole _ hanswer
  | savedAnswer answer grown => exact hrole _ hanswer
  | refused r same => cases hanswer
  | failed messages used r same => cases hanswer
  | ended stage same done => exact hrole _ hanswer

section Update

variable {m : Chats ι} {i : ι} {stage : Stage} {s : State HistoryLog}

/-- Turns that have happened stay when a request moves on. -/
theorem WholeTurns.update {messages : List ChatMessage}
    (h : WholeTurns requests past m messages)
    (hanswer : ∀ answer, (m.stages i).answer = some answer →
      stage.answer = some answer) :
    WholeTurns requests past ⟨Function.update m.stages i stage, s⟩ messages := by
  obtain ⟨turns, hturns, rfl⟩ := h
  refine ⟨turns, fun t ht => ?_, rfl⟩
  obtain ⟨hrole, hpast | ⟨j, hquestion, hj⟩⟩ := hturns t ht
  · exact ⟨hrole, Or.inl hpast⟩
  · refine ⟨hrole, Or.inr ⟨j, hquestion, ?_⟩⟩
    by_cases hji : j = i
    · subst hji
      simpa using hanswer _ hj
    · simpa [Function.update_of_ne hji] using hj

theorem isHalfSaved_update {j : ι} (hji : j ≠ i) :
    (Function.update m.stages i stage j).isHalfSaved = (m.stages j).isHalfSaved := by
  rw [Function.update_of_ne hji]

/-- Nobody is between the writes when nobody else is. -/
theorem isHalfSaved_update_self (hothers : ∀ j, (m.stages j).isHalfSaved = false)
    (hstage : stage.isHalfSaved = false) (j : ι) :
    (Function.update m.stages i stage j).isHalfSaved = false := by
  by_cases hji : j = i
  · subst hji
    rwa [Function.update_self]
  · rw [isHalfSaved_update hji]
    exact hothers j

/-- A request outside its two writes moves on without touching the log. -/
theorem Orderly.quiet (hm : Orderly requests userId past m)
    (howner : ∀ j other answer, Function.update m.stages i stage j =
      .halfSaved other answer → other = userId)
    (hrole : ∀ j answer, (Function.update m.stages i stage j).answer = some answer →
      answer.role = .assistant)
    (hanswer : ∀ answer, (m.stages i).answer = some answer →
      stage.answer = some answer)
    (hold : (m.stages i).isHalfSaved = false) (hnew : stage.isHalfSaved = false)
    (hlog : s.history userId = m.shared.history userId) :
    Orderly requests userId past ⟨Function.update m.stages i stage, s⟩ := by
  refine ⟨howner, hrole, ?_⟩
  rcases hm.log with ⟨hnobody, hwhole⟩ | ⟨j, answer, whole, hj, honly, hwhole, hhistory⟩
  · refine Or.inl ⟨isHalfSaved_update_self hnobody hnew, ?_⟩
    rw [hlog]
    exact hwhole.update hanswer
  · have hji : j ≠ i := by
      intro heq
      rw [← heq, hj] at hold
      cases hold
    refine Or.inr ⟨j, answer, whole, ?_, ?_, hwhole.update hanswer, hlog.trans hhistory⟩
    · exact (Function.update_of_ne hji ..).trans hj
    · intro k hk
      dsimp only at hk
      by_cases hki : k = i
      · subst hki
        rw [Function.update_self, hnew] at hk
        cases hk
      · rw [isHalfSaved_update hki] at hk
        exact honly k hk

/-- The question is written behind whole turns. -/
theorem Orderly.question (hm : Orderly requests userId past m)
    (hnobody : ∀ j, (m.stages j).isHalfSaved = false) {answer : ChatMessage}
    (howner : ∀ j other answer', Function.update m.stages i (.halfSaved userId answer) j =
      .halfSaved other answer' → other = userId)
    (hrole : ∀ j answer', (Function.update m.stages i (.halfSaved userId answer) j).answer =
      some answer' → answer'.role = .assistant)
    (hanswer : (m.stages i).answer = some answer)
    (hlog : s.history userId = m.shared.history userId ++
      [{ role := .user, content := (requests i).message }]) :
    Orderly requests userId past
      ⟨Function.update m.stages i (.halfSaved userId answer), s⟩ := by
  refine ⟨howner, hrole, Or.inr ⟨i, answer, m.shared.history userId,
    Function.update_self .., ?_, ?_, hlog⟩⟩
  · intro j hj
    by_contra hji
    rw [isHalfSaved_update hji, hnobody] at hj
    cases hj
  · rcases hm.log with ⟨-, hwhole⟩ | ⟨j, _, _, hj, -⟩
    · exact hwhole.update fun a ha => by rw [← ha, hanswer]; rfl
    · have hfalse := hnobody j
      rw [hj] at hfalse
      cases hfalse

/-- The answer completes the turn. -/
theorem Orderly.answer (hm : Orderly requests userId past m) {answer : ChatMessage}
    (howner : ∀ j other answer', Function.update m.stages i (.saved answer) j =
      .halfSaved other answer' → other = userId)
    (hrole : ∀ j answer', (Function.update m.stages i (.saved answer) j).answer =
      some answer' → answer'.role = .assistant)
    (hstage : m.stages i = .halfSaved userId answer)
    (hlog : s.history userId = m.shared.history userId ++ [answer]) :
    Orderly requests userId past ⟨Function.update m.stages i (.saved answer), s⟩ := by
  rcases hm.log with ⟨hnobody, -⟩ | ⟨j, answer', whole, hj, honly, hwhole, hhistory⟩
  · have hfalse := hnobody i
    rw [hstage] at hfalse
    cases hfalse
  · obtain rfl := honly i (by rw [hstage]; rfl)
    refine ⟨howner, hrole, Or.inl ⟨?_, ?_⟩⟩
    · intro k
      dsimp only
      by_cases hki : k = i
      · subst hki
        rw [Function.update_self]
        rfl
      · rw [isHalfSaved_update hki]
        exact Bool.eq_false_iff.mpr fun hk => hki (honly k hk)
    · have hupdated : WholeTurns requests past
          ⟨Function.update m.stages i (.saved answer), s⟩ whole :=
        hwhole.update fun a ha => by rw [← ha, hstage]; rfl
      obtain ⟨turns, hturns, rfl⟩ := hupdated
      refine ⟨turns ++ [⟨(requests i).message, answer⟩], ?_, ?_⟩
      · intro t ht
        rw [List.mem_append, List.mem_singleton] at ht
        rcases ht with ht | rfl
        · exact hturns t ht
        · exact ⟨hm.role i answer (by rw [hstage]; rfl),
            Or.inr ⟨i, rfl, by simp [Stage.answer]⟩⟩
      · rw [hlog, hhistory, List.flatMap_append, List.append_assoc]
        rfl

end Update

/-- A spaced step keeps the requests orderly. -/
theorem Orderly.step (huser : ∀ i, requestUser (requests i) = .ok (some userId))
    (hrole : ∀ messages, (base.complete messages).message.role = .assistant)
    {m : Chats ι} {i : ι} (hm : Orderly requests userId past m)
    (hspaced : Spaced userId m i) :
    Orderly requests userId past (stepChat base requests streamed m i) := by
  obtain ⟨stage, s, hstep, heffect⟩ :=
    stepChat_effect huser hrole streamed m i (hm.owner i)
  rw [hstep]
  have hroles : ∀ j answer, (Function.update m.stages i stage j).answer = some answer →
      answer.role = .assistant := by
    intro j answer hanswer
    by_cases hji : j = i
    · subst hji
      rw [Function.update_self] at hanswer
      exact heffect.role (hm.role j) hanswer
    · rw [Function.update_of_ne hji] at hanswer
      exact hm.role j answer hanswer
  have howners : (∀ other answer, stage = .halfSaved other answer → other = userId) →
      ∀ j other answer, Function.update m.stages i stage j = .halfSaved other answer →
        other = userId := by
    intro hself j other answer hj
    by_cases hji : j = i
    · subst hji
      exact hself other answer (by simpa using hj)
    · rw [Function.update_of_ne hji] at hj
      exact hm.owner j other answer hj
  have hanswers : ∀ answer, (m.stages i).answer = some answer →
      stage.answer = some answer := fun _ => heffect.answer
  generalize hi : m.stages i = stage₀ at heffect
  -- what every step but the two writes gives
  have hquiet : (∀ other answer, stage ≠ .halfSaved other answer) →
      stage₀.isHalfSaved = false → stage.isHalfSaved = false →
      s.history userId = m.shared.history userId →
      Orderly requests userId past ⟨Function.update m.stages i stage, s⟩ := by
    intro hnot hold hnew hlog
    exact hm.quiet (howners fun other answer h => absurd h (hnot other answer)) hroles
      hanswers (by rw [hi]; exact hold) hnew hlog
  cases heffect with
  | prompted messages used remembers same =>
      exact hquiet (by simp) rfl rfl same
  | answered messages used answer role same =>
      exact hquiet (by simp) rfl rfl same
  | savedUser answer grown =>
      refine hm.question (hspaced.1 (by rw [hi]; rfl)) (howners ?_) hroles
        (by rw [hi]; rfl) grown
      intro other answer' h
      cases h
      rfl
  | savedAnswer answer grown =>
      exact hm.answer (howners (by simp)) hroles hi grown
  | refused r same =>
      exact hquiet (by simp) rfl rfl same
  | failed messages used r same =>
      exact hquiet (by simp) rfl rfl same
  | ended stage same done =>
      rcases done with ⟨answer, rfl⟩ | ⟨r, rfl⟩
      · exact hquiet (by simp) rfl rfl same
      · exact hquiet (by simp) rfl rfl same

/-- A spaced step that makes a prompt puts whole turns into it. -/
theorem Orderly.showsWholeTurns
    (huser : ∀ i, requestUser (requests i) = .ok (some userId))
    (hrole : ∀ messages, (base.complete messages).message.role = .assistant)
    {m : Chats ι} {i : ι} (hm : Orderly requests userId past m)
    (hspaced : Spaced userId m i) :
    ShowsWholeTurns requests past ⟨m, i, stepChat base requests streamed m i⟩ := by
  intro messages used hstart hprompted
  dsimp only at hstart hprompted ⊢
  obtain ⟨stage, s, hstep, heffect⟩ :=
    stepChat_effect huser hrole streamed m i (hm.owner i)
  rw [hstep] at hprompted
  dsimp only at hprompted
  rw [Function.update_self] at hprompted
  rw [hstart, hprompted] at heffect
  obtain ⟨hopens, hshort⟩ := hspaced
  have hnobody := hopens (by rw [hstart]; rfl)
  have hlast : lastN 5 (m.shared.history userId) = m.shared.history userId :=
    lastN_of_length_le ((hshort hstart).trans (by decide))
  rcases hm.log with ⟨-, hwhole⟩ | ⟨j, _, _, hj, -⟩
  · cases heffect with
    | prompted messages used remembers same =>
        rw [remembers, hlast]
        exact hwhole
  · have hfalse := hnobody j
    rw [hj] at hfalse
    cases hfalse

omit [DecidableEq ι] in
theorem orderly_start {s : State HistoryLog}
    (hpast : ∀ t ∈ past, t.answer.role = .assistant)
    (hhistory : s.history userId = past.flatMap Turn.messages) :
    Orderly requests userId past (⟨fun _ => .start, s⟩ : Chats ι) where
  owner := fun _ _ _ h => by cases h
  role := fun _ _ h => by cases h
  log := Or.inl ⟨fun _ => rfl, past, fun t ht => ⟨hpast t ht, Or.inl ht⟩, hhistory⟩

/-- In every run whose steps are spaced, behind any whole turns of the past,
every prompt shows whole turns. -/
theorem prompts_show_wholeTurns
    (huser : ∀ i, requestUser (requests i) = .ok (some userId))
    (hrole : ∀ messages, (base.complete messages).message.role = .assistant)
    (streamed : ι → Bool) {s : State HistoryLog}
    (hpast : ∀ t ∈ past, t.answer.role = .assistant)
    (hhistory : s.history userId = past.flatMap Turn.messages) (inputs : List ι)
    (hspaced : ∀ t ∈ trace (stepChat base requests streamed) ⟨fun _ => .start, s⟩ inputs,
      Spaced userId t.before t.input) :
    ∀ t ∈ trace (stepChat base requests streamed) ⟨fun _ => .start, s⟩ inputs,
      ShowsWholeTurns requests past t :=
  trace_of_steps (Spaced userId) (fun _ _ hm hs => hm.step huser hrole hs)
    (fun _ _ hm hs => hm.showsWholeTurns huser hrole hs)
    (orderly_start hpast hhistory) hspaced

end Machine

/-! ## A longer past -/

def smallTalk : Turn := ⟨"A", { role := .assistant, content := "B" }⟩

/-- Two turns in the past are four messages. -/
theorem prompts_show_wholeTurns_two :
    (trace (stepChat (answering "B") (fun _ : Unit => userChat) fun _ => false)
      ⟨fun _ => .start, { history := fun _ =>
        [smallTalk, smallTalk].flatMap Turn.messages }⟩ [()]).Forall
          (ShowsWholeTurns (fun _ : Unit => userChat) [smallTalk, smallTalk]) := by
  rw [List.forall_iff_forall_mem]
  apply prompts_show_wholeTurns (fun _ => requestUser_userChat) (fun _ => rfl) _
    (by simp [smallTalk]) rfl
  intro t ht
  rw [trace, trace, List.mem_singleton] at ht
  subst ht
  exact ⟨fun _ _ => rfl, fun _ => by decide⟩

/-- Whole turns are an even number of messages. -/
theorem WholeTurns.even_length {ι : Type} {requests : ι → ChatRequest} {past : List Turn}
    {m : Chats ι} {messages : List ChatMessage}
    (h : WholeTurns requests past m messages) : Even messages.length := by
  obtain ⟨turns, -, rfl⟩ := h
  rw [List.length_flatMap]
  refine ⟨turns.length, ?_⟩
  simp [Turn.messages, List.map_const']
  omega

/-- With three turns in the past, the prompt starts with an answer. -/
theorem not_prompts_show_wholeTurns :
    ¬ ∀ (ι : Type) (_ : DecidableEq ι) (base : Env HistoryLog)
        (requests : ι → ChatRequest) (streamed : ι → Bool) (userId : UserId)
        (past : List Turn) (s : State HistoryLog) (inputs : List ι),
      (∀ i, requestUser (requests i) = .ok (some userId)) →
      (∀ messages, (base.complete messages).message.role = .assistant) →
      (∀ t ∈ past, t.answer.role = .assistant) →
      s.history userId = past.flatMap Turn.messages →
      ∀ t ∈ trace (stepChat base requests streamed) ⟨fun _ => .start, s⟩ inputs,
        ShowsWholeTurns requests past t := by
  intro h
  let log : HistoryLog := fun _ =>
    [smallTalk, smallTalk, smallTalk].flatMap Turn.messages
  have hshows := h Unit inferInstance (answering "B") (fun _ => userChat) (fun _ => false)
    ⟨7⟩ [smallTalk, smallTalk, smallTalk] { history := log } [()]
    (fun _ => requestUser_userChat) (fun _ => rfl) (by simp [smallTalk]) rfl
    ⟨_, (), _⟩ (by rw [trace]; exact List.mem_cons_self)
  obtain ⟨context, used, s', hprepare⟩ := run_prepare_userChat log
  have hrun : (advance (onLog (answering "B")) userChat false .start).run
      { history := log } = .ok (.prompted (PromptService.buildRagPrompt userChat.message
        context (lastN 5 (log ⟨7⟩))) used) s' := by
    rw [advance, EStateM.run_bind, hprepare]
    rfl
  have hstep : (stepChat (answering "B") (fun _ : Unit => userChat) (fun _ => false)
      ⟨fun _ => .start, { history := log }⟩ ()).stages () =
      .prompted (PromptService.buildRagPrompt userChat.message context
        (lastN 5 (log ⟨7⟩))) used := by
    simp only [stepChat, hrun, Function.update_self]
  have hwhole := hshows _ used rfl hstep
  rw [remembered_buildRagPrompt] at hwhole
  have heven := hwhole.even_length
  rw [length_lastN] at heven
  exact absurd heven (by decide)

end RagChat
end AiBackend
