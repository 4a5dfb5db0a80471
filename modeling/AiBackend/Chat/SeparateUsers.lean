import AiBackend.Chat.TurnAtomicity
import AiBackend.Support.Separation

/-!
# Users who chat at the same time

Any number of requests of any users, interleaved at their statements, each with
its own failures, its own answers of the vector store and the provider, and its
own random identifiers.  What a user's requests send, show and save is what they
would without the requests of the others.
-/

namespace AiBackend
namespace RagChat

open Program Python Run

/-! ## One request in steps -/

/-- How far a request has come; a user between two writes is the one it
names. -/
inductive TurnPoint (request : ChatRequest) where
  | start
  | prompted (messages : List ChatMessage) (used : List SearchResult)
  | answered (answer : ChatMessage) (response : Option ChatResponseDTO)
  | halfSaved (userId : UserId) (named : requestUser request = .ok (some userId))
      (answer : ChatMessage) (response : Option ChatResponseDTO)
  | saved (response : Option ChatResponseDTO)
  | returned (response : Option ChatResponseDTO)
  | raised (r : Raised PyExc)

section Steps

variable {H : Type} (env : Env H) (faults : Faults Site PyExc) (request : ChatRequest)

/-- The answer at once, and the response that will be made of it. -/
def completePart (messages : List ChatMessage) (usedResults : List SearchResult) :
    Prog H (ChatMessage × Option ChatResponseDTO) := do
  let chatResponse ← perform faults .complete do
    modify fun s => { s with asked := s.asked ++ [messages] }
    pure (env.complete messages)
  let sources := buildSources usedResults
  let usage := chatResponse.tokenUsage
  pure (chatResponse.message, some {
    message := chatResponse.message.content
    sources := sources
    promptTokens := usage.elim 0 TokenUsage.promptTokens
    completionTokens := usage.elim 0 TokenUsage.completionTokens
    totalTokens := usage.elim 0 TokenUsage.totalTokens })

/-- The answer piece by piece, up to the last chunk. -/
def streamPart (messages : List ChatMessage) (usedResults : List SearchResult) :
    Prog H (ChatMessage × Option ChatResponseDTO) := do
  perform faults .openStream
    (modify fun s => { s with asked := s.asked ++ [messages] })
  let fullContent ← forwardDeltas faults 0 "" (env.stream messages)
  let promptTokens ← ofExcept (env.countTokens
    (String.intercalate " " (messages.map ChatMessage.content)) "gpt-4o")
  let completionTokens ← ofExcept (env.countTokens fullContent "gpt-4o")
  yieldChunk faults .yieldDone (lastChunk usedResults promptTokens completionTokens)
  pure ({ role := .assistant, content := fullContent }, none)

def answerPart (streamed : Bool) (messages : List ChatMessage)
    (usedResults : List SearchResult) : Prog H (ChatMessage × Option ChatResponseDTO) :=
  if streamed then streamPart env faults messages usedResults
  else completePart env faults messages usedResults

/-- The next step of a request. -/
def advanceTurn (streamed : Bool) : TurnPoint request → Prog H (TurnPoint request)
  | .start => do
      let (messages, usedResults) ← prepare env faults request
      pure (.prompted messages usedResults)
  | .prompted messages usedResults => do
      let (answer, response) ← answerPart env faults streamed messages usedResults
      pure (.answered answer response)
  | .answered answer response =>
      match named : requestUser request with
      | .ok (some userId) => do
          perform faults .saveUser (modify fun s => { s with
            history := env.history.saveMessage s.history userId
              { role := .user, content := request.message } })
          pure (.halfSaved userId named answer response)
      | .ok none => pure (.saved response)
      | .error e => throw (.exception e)
  | .halfSaved userId _ answer response => do
      perform faults .saveAssistant (modify fun s => { s with
        history := env.history.saveMessage s.history userId answer })
      pure (.saved response)
  | .saved response => do
      perform faults .logCompleted (pure ())
      pure (.returned response)
  | point => pure point

/-- A request that runs alone. -/
def advanceAlone (streamed : Bool) : Prog H (TurnPoint request) := do
  let point ← advanceTurn env faults request streamed .start
  let point ← advanceTurn env faults request streamed point
  let point ← advanceTurn env faults request streamed point
  let point ← advanceTurn env faults request streamed point
  advanceTurn env faults request streamed point

/-- From the answer on the steps save the turn and log it. -/
theorem advanceTurn_answered (streamed : Bool) (answer : ChatMessage)
    (response : Option ChatResponseDTO) :
    (do
      let point ← advanceTurn env faults request streamed (.answered answer response)
      let point ← advanceTurn env faults request streamed point
      advanceTurn env faults request streamed point) = (do
        saveTurn env faults request answer
        perform faults .logCompleted (pure ())
        pure (TurnPoint.returned response)) := by
  rw [advanceTurn]
  split
  next userId named =>
    have hsave : saveTurn env faults request answer = (do
        perform faults .saveUser (modify fun s => { s with
          history := env.history.saveMessage s.history userId
            { role := .user, content := request.message } })
        perform faults .saveAssistant (modify fun s => { s with
          history := env.history.saveMessage s.history userId answer })) := by
      rw [saveTurn, named]
      rfl
    simp only [hsave, bind_assoc, pure_bind, advanceTurn]
  next named =>
    have hsave : saveTurn env faults request answer = pure () := by
      rw [saveTurn, named]
      rfl
    simp only [hsave, bind_assoc, pure_bind, advanceTurn]
  next e named =>
    have hsave : saveTurn env faults request answer = throw (.exception e) := by
      rw [saveTurn, named]
      rfl
    rw [hsave]
    rfl

/-- A request that runs alone prepares, answers, saves and logs. -/
theorem advanceAlone_eq (streamed : Bool) :
    advanceAlone env faults request streamed = (do
      let (messages, usedResults) ← prepare env faults request
      let (answer, response) ← answerPart env faults streamed messages usedResults
      saveTurn env faults request answer
      perform faults .logCompleted (pure ())
      pure (.returned response)) := by
  rw [advanceAlone, advanceTurn, bind_assoc]
  apply bind_congr
  intro prepared
  rw [pure_bind, advanceTurn, bind_assoc]
  apply bind_congr
  intro answered
  rw [pure_bind]
  exact advanceTurn_answered env faults request streamed answered.1 answered.2

/-- A request that runs alone does what the use case does. -/
theorem advanceAlone_execute :
    advanceAlone env faults request false = (do
      let response ← execute env faults request
      pure (.returned (some response))) := by
  simp only [advanceAlone_eq, answerPart, completePart, execute, bind_assoc, pure_bind,
    Bool.false_eq_true, if_false]

theorem advanceAlone_stream :
    advanceAlone env faults request true = (do
      stream env faults request
      pure (.returned none)) := by
  simp only [advanceAlone_eq, answerPart, streamPart, stream, lastChunk, bind_assoc, pure_bind,
    if_true]

end Steps

/-! ## What one step depends on -/

/-- The states agree on what a request of the user reads. -/
structure Alike (userId : UserId) (s t : State HistoryLog) : Prop where
  history : s.history userId = t.history userId
  asked : s.asked = t.asked
  sent : s.sent = t.sent
  drawn : s.drawn = t.drawn

section Respects

variable {base : Env HistoryLog} {faults : Faults Site PyExc} {request : ChatRequest}
  {userId : UserId}

theorem respects_asked (messages : List ChatMessage) :
    Respects (ε := Raised PyExc) (Alike userId)
      (modify fun s => { s with asked := s.asked ++ [messages] }) :=
  Respects.modify fun _ _ h => ⟨h.history, congrArg (· ++ [messages]) h.asked, h.sent, h.drawn⟩

theorem respects_save (message : ChatMessage) :
    Respects (ε := Raised PyExc) (Alike userId)
      (modify fun s => { s with
        history := (onLog base).history.saveMessage s.history userId message }) := by
  refine Respects.modify fun s t h => ⟨?_, h.asked, h.sent, h.drawn⟩
  change s.history.save userId message userId = t.history.save userId message userId
  rw [HistoryLog.save_self, HistoryLog.save_self, h.history]

theorem respects_yieldChunk (site : Site) (chunk : StreamChunk) :
    Respects (Alike userId) (yieldChunk faults site chunk) :=
  (Respects.modify fun _ _ h =>
    ⟨h.history, h.asked, congrArg (· ++ [chunk]) h.sent, h.drawn⟩).bind
    fun _ => (Respects.pure _).perform

theorem respects_forwardDeltas (i : ℕ) (fullContent : String) (deltas : List String) :
    Respects (Alike userId) (forwardDeltas faults i fullContent deltas) := by
  induction deltas generalizing i fullContent with
  | nil => exact (Respects.pure _).perform.bind fun _ => Respects.pure _
  | cons delta rest ih =>
      exact (Respects.pure _).perform.bind fun _ =>
        (respects_yieldChunk _ _).bind fun _ => ih _ _

theorem respects_history (huser : requestUser request = .ok (some userId)) :
    Respects (Alike userId) (history (onLog base) faults request) := by
  have heq : history (onLog base) faults request = perform faults .getHistory (do
      let s ← get
      pure (RedisLists.lastN 5 (s.history userId))) := by
    rw [history, huser]
    rfl
  rw [heq]
  exact (Respects.read fun s t h => by rw [h.history]).perform

theorem respects_prepare (huser : requestUser request = .ok (some userId)) :
    Respects (Alike userId) (prepare (onLog base) faults request) := by
  refine Respects.bind (Respects.focus _ (fun _ _ h => h.drawn)
    fun _ _ _ h => ⟨h.history, h.asked, h.sent, rfl⟩) fun response => ?_
  refine Respects.bind (Respects.bind ?_ fun _ => Respects.ofExcept _) fun results => ?_
  · intro s t h
    refine ⟨?_, h.history, h.asked, h.sent, ?_⟩
    · rw [h.drawn]
    · exact congrArg (· + response.results.length) h.drawn
  · refine (Respects.ofExcept _).bind fun built => ?_
    exact (respects_history huser).bind fun _ => Respects.pure _

theorem respects_answerPart (streamed : Bool) (messages : List ChatMessage)
    (used : List SearchResult) :
    Respects (Alike userId) (answerPart (onLog base) faults streamed messages used) := by
  rw [answerPart]
  split
  · refine (respects_asked messages).perform.bind fun _ => ?_
    refine (respects_forwardDeltas _ _ _).bind fun fullContent => ?_
    refine (Respects.ofExcept _).bind fun promptTokens => ?_
    refine (Respects.ofExcept _).bind fun completionTokens => ?_
    exact (respects_yieldChunk _ _).bind fun _ => Respects.pure _
  · refine Respects.bind ?_ fun _ => Respects.pure _
    exact ((respects_asked messages).bind fun _ => Respects.pure _).perform

/-- A step of a request of the user depends on nothing else. -/
theorem respects_advanceTurn (base : Env HistoryLog) (faults : Faults Site PyExc)
    (huser : requestUser request = .ok (some userId)) (streamed : Bool)
    (point : TurnPoint request) :
    Respects (Alike userId) (advanceTurn (onLog base) faults request streamed point) := by
  cases point with
  | start => exact (respects_prepare huser).bind fun _ => Respects.pure _
  | prompted messages used =>
      exact (respects_answerPart streamed messages used).bind fun _ => Respects.pure _
  | answered answer response =>
      rw [advanceTurn]
      split
      next other named =>
        obtain rfl : userId = other := by
          rw [huser] at named
          exact Option.some.inj (Except.ok.inj named)
        exact (respects_save _).perform.bind fun _ => Respects.pure _
      next => exact Respects.pure _
      next => exact Respects.throw _
  | halfSaved other named answer response =>
      obtain rfl : userId = other := by
        rw [huser] at named
        exact Option.some.inj (Except.ok.inj named)
      exact (respects_save _).perform.bind fun _ => Respects.pure _
  | saved response => exact (Respects.pure _).perform.bind fun _ => Respects.pure _
  | returned response => exact Respects.pure _
  | raised r => exact Respects.pure _

end Respects

/-! ## What one step leaves alone -/

section Preserves

variable {base : Env HistoryLog} {faults : Faults Site PyExc} {request : ChatRequest}
  {userId : UserId} {log : List ChatMessage}

theorem preserves_save_of_ne {other : UserId} (h : userId ≠ other) (message : ChatMessage) :
    Preserves (ε := Raised PyExc) (fun s : State HistoryLog => s.history userId = log)
      (modify fun s => { s with
        history := (onLog base).history.saveMessage s.history other message }) := by
  refine ensures_modify fun s hs => ?_
  exact (HistoryLog.save_of_ne h message).trans hs

theorem preserves_prepare_history :
    Preserves (fun s => s.history userId = log) (prepare (onLog base) faults request) := by
  refine ensures_pointwise fun s hs => ?_
  refine (prepare_keeps (onLog base) faults request s).consequence ?_ ?_ ?_
  · rintro _ rfl
    exact ⟨rfl, rfl, rfl⟩
  · intro prepared s' h
    exact (congrFun h.1 userId).trans hs
  · intro prepared s' h
    exact (congrFun h.1 userId).trans hs

theorem preserves_yieldChunk_history (site : Site) (chunk : StreamChunk) :
    Preserves (fun s : State HistoryLog => s.history userId = log)
      (yieldChunk faults site chunk) :=
  Preserves.bind (ensures_modify fun _ hs => hs) fun _ => (Preserves.pure _).perform

theorem preserves_forwardDeltas_history (i : ℕ) (fullContent : String)
    (deltas : List String) :
    Preserves (fun s : State HistoryLog => s.history userId = log)
      (forwardDeltas faults i fullContent deltas) := by
  induction deltas generalizing i fullContent with
  | nil => exact (Preserves.pure _).perform.bind fun _ => Preserves.pure _
  | cons delta rest ih =>
      refine (Preserves.pure _).perform.bind fun _ => ?_
      exact (preserves_yieldChunk_history _ _).bind fun _ => ih _ _

theorem preserves_answerPart_history (streamed : Bool) (messages : List ChatMessage)
    (used : List SearchResult) :
    Preserves (fun s => s.history userId = log)
      (answerPart (onLog base) faults streamed messages used) := by
  have hasked : Preserves (ε := Raised PyExc)
      (fun s : State HistoryLog => s.history userId = log)
      (modify fun s => { s with asked := s.asked ++ [messages] }) :=
    ensures_modify fun _ hs => hs
  rw [answerPart]
  split
  · refine hasked.perform.bind fun _ => ?_
    refine (preserves_forwardDeltas_history _ _ _).bind fun fullContent => ?_
    refine (Preserves.ofExcept _).bind fun promptTokens => ?_
    refine (Preserves.ofExcept _).bind fun completionTokens => ?_
    exact (preserves_yieldChunk_history _ _).bind fun _ => Preserves.pure _
  · exact (hasked.bind fun _ => Preserves.pure _).perform.bind fun _ => Preserves.pure _

/-- A step of a request of someone else keeps the user's history. -/
theorem preserves_advanceTurn_history (base : Env HistoryLog) (faults : Faults Site PyExc)
    (hother : requestUser request ≠ .ok (some userId)) (streamed : Bool)
    (point : TurnPoint request) :
    Preserves (fun s => s.history userId = log)
      (advanceTurn (onLog base) faults request streamed point) := by
  have hne : ∀ other, requestUser request = .ok (some other) → userId ≠ other := by
    rintro other named rfl
    exact hother named
  cases point with
  | start => exact preserves_prepare_history.bind fun _ => Preserves.pure _
  | prompted messages used =>
      exact (preserves_answerPart_history streamed messages used).bind fun _ => Preserves.pure _
  | answered answer response =>
      rw [advanceTurn]
      split
      next other named =>
        exact (preserves_save_of_ne (hne other named) _).perform.bind fun _ => Preserves.pure _
      next => exact Preserves.pure _
      next => exact ensures_throw fun _ hs => hs
  | halfSaved other named answer response =>
      exact (preserves_save_of_ne (hne other named) _).perform.bind fun _ => Preserves.pure _
  | saved response => exact (Preserves.pure _).perform.bind fun _ => Preserves.pure _
  | returned response => exact Preserves.pure _
  | raised r => exact Preserves.pure _

end Preserves

/-! ## Any number of requests -/

/-- What there is of a request: how far it has come, the prompts it has sent,
the chunks its client has been shown, and how many identifiers it has drawn. -/
structure Call (request : ChatRequest) where
  point : TurnPoint request := .start
  asked : List (List ChatMessage) := []
  sent : List StreamChunk := []
  drawn : ℕ := 0

/-- The requests, and the histories they share. -/
structure Calls {ι : Type} (requests : ι → ChatRequest) where
  calls : ∀ i, Call (requests i)
  history : HistoryLog

section Machine

variable {ι : Type} [DecidableEq ι] {requests : ι → ChatRequest}

/-- The state in which the next step of a request runs. -/
def Calls.stateOf (m : Calls requests) (i : ι) : State HistoryLog where
  history := m.history
  asked := (m.calls i).asked
  sent := (m.calls i).sent
  drawn := (m.calls i).drawn

/-- What is left of a step. -/
def Calls.put (m : Calls requests) (i : ι) (point : TurnPoint (requests i))
    (s : State HistoryLog) : Calls requests where
  calls := Function.update m.calls i ⟨point, s.asked, s.sent, s.drawn⟩
  history := s.history

/-- One request takes its next step. -/
def stepCall (env : ι → Env HistoryLog) (faults : ι → Faults Site PyExc)
    (streamed : ι → Bool) (m : Calls requests) (i : ι) : Calls requests :=
  match (advanceTurn (onLog (env i)) (faults i) (requests i) (streamed i)
    (m.calls i).point).run (m.stateOf i) with
  | .ok point s => m.put i point s
  | .error r s => m.put i (.raised r) s

/-- A request names the user. -/
def Names (requests : ι → ChatRequest) (userId : UserId) (i : ι) : Prop :=
  requestUser (requests i) = .ok (some userId)

instance (requests : ι → ChatRequest) (userId : UserId) :
    DecidablePred (Names requests userId) :=
  fun _ => inferInstanceAs (Decidable (_ = _))

/-- What a user sees: all there is of the user's own requests, and the user's
history. -/
def userView (requests : ι → ChatRequest) (userId : UserId) (m : Calls requests) :
    (∀ i : { i // Names requests userId i }, Call (requests i.1)) × List ChatMessage :=
  (fun i => m.calls i.1, m.history userId)

variable {userId : UserId}

theorem userView_put {m n : Calls requests} (hview : userView requests userId m =
      userView requests userId n) (i : ι) (point : TurnPoint (requests i))
    {s t : State HistoryLog} (h : Alike userId s t) :
    userView requests userId (m.put i point s) = userView requests userId (n.put i point t) := by
  refine Prod.ext (funext fun j => ?_) h.history
  have hj : m.calls j.1 = n.calls j.1 := congrFun (congrArg Prod.fst hview) j
  obtain ⟨j, hown⟩ := j
  have hcall : Call.mk point s.asked s.sent s.drawn = ⟨point, t.asked, t.sent, t.drawn⟩ := by
    rw [h.asked, h.sent, h.drawn]
  change Function.update m.calls i _ j = Function.update n.calls i _ j
  rw [hcall]
  by_cases hji : j = i
  · subst hji
    rw [Function.update_self, Function.update_self]
  · rw [Function.update_of_ne hji, Function.update_of_ne hji, hj]

theorem userView_put_of_not_names {m : Calls requests} {i : ι} (hi : ¬ Names requests userId i)
    (point : TurnPoint (requests i)) {s : State HistoryLog}
    (h : s.history userId = m.history userId) :
    userView requests userId (m.put i point s) = userView requests userId m := by
  refine Prod.ext (funext fun j => ?_) h
  have hji : j.1 ≠ i := fun hji => hi (hji ▸ j.2)
  exact Function.update_of_ne hji ..

/-- A user's requests are separate from those of all others. -/
theorem separates_stepCall (env : ι → Env HistoryLog) (faults : ι → Faults Site PyExc)
    (streamed : ι → Bool) (userId : UserId) :
    Separates (stepCall env faults streamed) (Names requests userId)
      (userView requests userId) where
  own := by
    intro m n i hi hview
    have hcall : m.calls i = n.calls i := congrFun (congrArg Prod.fst hview) ⟨i, hi⟩
    have hlog : m.history userId = n.history userId := congrArg Prod.snd hview
    have halike : Alike userId (m.stateOf i) (n.stateOf i) := by
      refine ⟨hlog, ?_, ?_, ?_⟩
      · exact congrArg Call.asked hcall
      · exact congrArg Call.sent hcall
      · exact congrArg Call.drawn hcall
    have hruns := respects_advanceTurn (env i) (faults i) hi (streamed i) (m.calls i).point
      (m.stateOf i) (n.stateOf i) halike
    rw [stepCall, stepCall, ← hcall]
    generalize (advanceTurn (onLog (env i)) (faults i) (requests i) (streamed i)
      (m.calls i).point).run (m.stateOf i) = mrun at hruns ⊢
    generalize (advanceTurn (onLog (env i)) (faults i) (requests i) (streamed i)
      (m.calls i).point).run (n.stateOf i) = nrun at hruns ⊢
    cases mrun with
    | ok point s =>
        cases nrun with
        | ok point' t =>
            obtain ⟨rfl, hst⟩ := hruns
            exact userView_put hview i point hst
        | error r' t => exact hruns.elim
    | error r s =>
        cases nrun with
        | ok point' t => exact hruns.elim
        | error r' t =>
            obtain ⟨rfl, hst⟩ := hruns
            exact userView_put hview i (.raised r) hst
  other := by
    intro m i hi
    have hlog : (m.stateOf i).history userId = m.history userId := rfl
    have hkeeps := preserves_advanceTurn_history (env i) (faults i) hi (streamed i)
      (m.calls i).point (m.stateOf i) hlog
    rw [stepCall]
    generalize (advanceTurn (onLog (env i)) (faults i) (requests i) (streamed i)
      (m.calls i).point).run (m.stateOf i) = mrun at hkeeps ⊢
    cases mrun with
    | ok point s => exact userView_put_of_not_names hi point hkeeps
    | error r s => exact userView_put_of_not_names hi (.raised r) hkeeps

end Machine

/-- However requests interleave and fail, what there is of a user's requests and
of the user's history is what the requests of that user alone would have come
to, whatever the histories of others were. -/
theorem users_are_separate {ι : Type} [DecidableEq ι] (requests : ι → ChatRequest)
    (env : ι → Env HistoryLog) (faults : ι → Faults Site PyExc) (streamed : ι → Bool)
    (userId : UserId) (m n : Calls requests)
    (hcalls : ∀ i, Names requests userId i → m.calls i = n.calls i)
    (hhistory : m.history userId = n.history userId) (schedule : List ι) :
    (∀ i, Names requests userId i →
      (final (stepCall env faults streamed) m schedule).calls i =
        (final (stepCall env faults streamed) n
          (schedule.filter fun i => Names requests userId i)).calls i) ∧
      (final (stepCall env faults streamed) m schedule).history userId =
        (final (stepCall env faults streamed) n
          (schedule.filter fun i => Names requests userId i)).history userId := by
  have hview : userView requests userId m = userView requests userId n :=
    Prod.ext (funext fun i => hcalls i.1 i.2) hhistory
  have hfinal := (separates_stepCall env faults streamed userId).final_filter hview schedule
  exact ⟨fun i hi => congrFun (congrArg Prod.fst hfinal) ⟨i, hi⟩, congrArg Prod.snd hfinal⟩

/-- Two requests, of a user and of somebody without a name. -/
def twoChats : Bool → ChatRequest
  | true => userChat
  | false => { userChat with userId := none }

/-- Both requests at their start. -/
def twoCalls (history : HistoryLog) : Calls twoChats := ⟨fun _ => {}, history⟩

theorem users_are_separate_two :
    (final (stepCall (fun _ => answering "B") (fun _ => Faults.none) id)
        (twoCalls fun _ => []) [true, false, true, false, true, true]).history ⟨7⟩ =
      (final (stepCall (fun _ => answering "B") (fun _ => Faults.none) id)
        (twoCalls (HistoryLog.save (fun _ => []) ⟨8⟩ { role := .user, content := "C" }))
        [true, true, true, true]).history ⟨7⟩ := by
  have hne : (⟨7⟩ : UserId) ≠ ⟨8⟩ := by decide
  have hfirst : Names twoChats ⟨7⟩ true := requestUser_userChat
  have hsecond : ¬ Names twoChats ⟨7⟩ false := by decide
  have hfilter : [true, false, true, false, true, true].filter
      (fun i => Names twoChats ⟨7⟩ i) = [true, true, true, true] := by
    simp [hfirst, hsecond]
  have hempty : HistoryLog.save (fun _ => []) ⟨8⟩ { role := .user, content := "C" } ⟨7⟩ = [] :=
    HistoryLog.save_of_ne hne _
  have hseparate := users_are_separate twoChats (fun _ => answering "B")
    (fun _ => Faults.none) id ⟨7⟩ (twoCalls fun _ => [])
    (twoCalls (HistoryLog.save (fun _ => []) ⟨8⟩ { role := .user, content := "C" }))
    (fun _ _ => rfl) hempty.symm [true, false, true, false, true, true]
  rw [hfilter] at hseparate
  exact hseparate.2

end RagChat
end AiBackend
