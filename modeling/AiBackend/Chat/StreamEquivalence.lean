import AiBackend.Chat.HistoryLog
import AiBackend.Chat.PromptContainment
import AiBackend.Chat.TokenSafety

/-!
# Answering at once and piece by piece

`execute` and `stream` prepare the prompt in the same way.  They part behind
it: `stream` counts the tokens of the prompt and of the answer before its last
chunk, which `execute` does not, and it builds the assistant message itself
instead of saving the one the provider returned.
-/

namespace AiBackend
namespace RagChat

open Program Python Occurrences ContextService TokenSafety

/-- The chat with `TiktokenService` as its token service and the history log. -/
def logEnv (tiktoken : Tiktoken) (base : Env HistoryLog) : Env HistoryLog where
  search := searchEnv tiktoken base.search
  context := contextService tiktoken base.context
  history := HistoryLog.repository
  countTokens := TiktokenService.countTokens tiktoken
  complete := base.complete
  stream := base.stream

/-- The messages of a user that go into the prompt. -/
def past (request : ChatRequest) (log : HistoryLog) : List ChatMessage :=
  match requestUser request with
  | .ok (some userId) => RedisLists.lastN 5 (log userId)
  | _ => []

/-- Only the generator has moved. -/
def Unspoken (s s' : State HistoryLog) : Prop :=
  s'.history = s.history ∧ s'.asked = s.asked ∧ s'.sent = s.sent

/-- What a prompt is made of: the query could be counted, the context was
built, and the user could be read. -/
def Prepared (tiktoken : Tiktoken) (base : Env HistoryLog) (request : ChatRequest)
    (log : HistoryLog) (prepared : List ChatMessage × List SearchResult) : Prop :=
  ∃ context results,
    prepared.1 = PromptService.buildRagPrompt request.message context
      (past request log) ∧
    (contextService tiktoken base.context).buildContext results =
      .ok (context, prepared.2) ∧
    (∃ tokens, TiktokenService.countTokens tiktoken request.message "gpt-4o" =
      .ok tokens) ∧
    ∃ user, requestUser request = .ok user

theorem Prepared.user {tiktoken : Tiktoken} {base : Env HistoryLog}
    {request : ChatRequest} {log : HistoryLog}
    {prepared : List ChatMessage × List SearchResult}
    (h : Prepared tiktoken base request log prepared) :
    ∃ user, requestUser request = .ok user := by
  obtain ⟨_, _, _, _, _, huser⟩ := h
  exact huser

section Prepare

variable {tiktoken : Tiktoken} {base : Env HistoryLog} {request : ChatRequest}

theorem ensures_search_counted (request : SearchDocuments.SearchRequest) :
    Ensures (fun _ => True)
      (SearchDocuments.execute (searchEnv tiktoken base.search)
        (fun site => (Faults.none : Faults Site PyExc) (.search site)) request)
      (fun _ _ => ∃ tokens,
        TiktokenService.countTokens tiktoken request.query "gpt-4o" = .ok tokens)
      fun _ _ => True := by
  refine ((ensures_ofExcept _).imp (fun _ _ h => h) fun _ _ _ => trivial).bind
    fun tokens => ensures_of_fact fun htokens => ?_
  exact ensures_trivial.imp (fun _ _ _ => ⟨tokens, htokens⟩) fun _ _ h => h

theorem ensures_history (s : State HistoryLog) :
    Ensures (Unspoken s) (history (logEnv tiktoken base) Faults.none request)
      (fun messages s' => Unspoken s s' ∧ messages = past request s.history ∧
        ∃ user, requestUser request = .ok user)
      fun _ _ => True := by
  intro s' hs'
  cases huser : requestUser request with
  | error e =>
      have hrun : (history (logEnv tiktoken base) Faults.none request).run s' =
          .error (.exception e) s' := by
        simp only [history, huser]
        rfl
      rw [hrun]
      trivial
  | ok user =>
      have hrun : (history (logEnv tiktoken base) Faults.none request).run s' =
          .ok (past request s'.history) s' := by
        simp only [history, past, huser]
        cases user with
        | none => rfl
        | some userId => rfl
      rw [hrun]
      exact ⟨hs', by rw [hs'.1], user, rfl⟩

theorem ensures_prepare (s : State HistoryLog) :
    Ensures (Unspoken s) (prepare (logEnv tiktoken base) Faults.none request)
      (fun prepared s' => Unspoken s s' ∧
        Prepared tiktoken base request s.history prepared)
      fun _ _ => True := by
  have hsearch : Ensures (Unspoken s)
      (search (logEnv tiktoken base) Faults.none (searchRequest request))
      (fun _ s' => Unspoken s s' ∧ ∃ tokens,
        TiktokenService.countTokens tiktoken request.message "gpt-4o" = .ok tokens)
      fun _ _ => True := by
    apply Ensures.imp (ensures_focus (F := Unspoken s)
      (@ensures_search_counted tiktoken base (searchRequest request)) ?_)
      (fun _ _ h => h) fun _ _ _ => trivial
    exact fun _ _ hs => hs
  refine hsearch.bind fun response => ensures_of_fact fun htokens => ?_
  have hdomain : Ensures (Unspoken s)
      (domainResults (logEnv tiktoken base) response.results)
      (fun _ => Unspoken s) fun _ _ => True := by
    apply Ensures.bind (P := Unspoken s) (M := fun _ => Unspoken s)
    · exact fun _ hs => hs
    intro uuid4
    exact (ensures_ofExcept _).imp (fun _ _ h => h.1) fun _ _ _ => trivial
  refine hdomain.bind fun results => ?_
  refine ((ensures_ofExcept _).imp (fun _ _ h => h) fun _ _ _ => trivial).bind
    fun built => ensures_of_fact fun hbuilt => ?_
  refine (ensures_history s).bind fun messages => ensures_pure ?_
  intro s' hs'
  obtain ⟨hs', rfl, huser⟩ := hs'
  exact ⟨hs', built.1, results, rfl, hbuilt, htokens, huser⟩

end Prepare

/-! ## Texts that can be counted -/

section Counting

variable {tiktoken : Tiktoken} {base : Env HistoryLog} {request : ChatRequest}
  {log : HistoryLog} {prepared : List ChatMessage × List SearchResult}

/-- A context that could be built has no special token. -/
theorem not_hasSpecial_context {service : ContextService} {context : String}
    {results used : List SearchResult}
    (h : (contextService tiktoken service).buildContext results =
      .ok (context, used)) :
    ¬ (TiktokenService.getEncoding tiktoken "gpt-4o").HasSpecial context := by
  have hplain := (buildContext_returns_iff_plain tiktoken service "gpt-4o"
    results).mp ⟨context, used, h⟩
  intro hspecial
  obtain ⟨token, htoken, hcontains⟩ := hspecial
  have hforeign := foreign_of_isSpecialToken
    ((TiktokenService.getEncoding tiktoken "gpt-4o").special_form token htoken)
  obtain ⟨result, hresult, hin⟩ := (contains_context hforeign h).mp hcontains
  obtain ⟨j, hj, hfits⟩ := (mem_used_iff h).mp hresult
  have hcounted : Counted (contextService tiktoken service) "gpt-4o" 0 0
      (service.relevant results) j :=
    fun n hn m hm => hfits m (hm.trans hn.le)
  have hresult := hplain j result hj hcounted
  rcases hin with hin | hin
  · exact hresult.title ⟨token, htoken, hin⟩
  · exact hresult.content ⟨token, htoken, hin⟩

theorem hasSpecial_systemMessage (encoding : Encoding) (context : String) :
    encoding.HasSpecial (PromptService.systemMessage context).content ↔
      encoding.HasSpecial context := by
  apply exists_congr
  intro token
  apply and_congr_right
  intro htoken
  have hspecial := encoding.special_form token htoken
  have hforeign := foreign_of_isSpecialToken hspecial
  have hopen : '<' ∈ token.toList := by
    obtain ⟨name, htext, -⟩ := hspecial
    rw [htext]
    exact List.mem_cons_self
  have hend : '<' ∉ PromptService.endMarker := by decide +kernel
  rw [PromptService.systemMessage_content,
    contains_append_cons hforeign.nonempty hforeign.no_break,
    contains_append_cons hforeign.nonempty hforeign.no_break,
    or_iff_right (not_contains_of_notMem hopen PromptService.templateHead_clean.1.2),
    or_iff_left (not_contains_of_notMem hopen hend)]

/-- The joined prompt has a special token if one of its messages has. -/
theorem hasSpecial_join (encoding : Encoding) (messages : List ChatMessage) :
    encoding.HasSpecial (String.intercalate " " (messages.map ChatMessage.content)) ↔
      ∃ message ∈ messages, encoding.HasSpecial message.content := by
  have hjoin : ∀ token ∈ encoding.specialTokens,
      (Contains token.toList
          (String.intercalate " " (messages.map ChatMessage.content)).toList ↔
        ∃ message ∈ messages, Contains token.toList message.content.toList) := by
    intro token htoken
    have hspecial := encoding.special_form token htoken
    have hblank : ∀ c ∈ [' '], c ∉ token.toList := by
      intro c hc hmem
      obtain rfl : c = ' ' := List.mem_singleton.mp hc
      obtain ⟨name, htext, hname⟩ := hspecial
      rw [htext] at hmem
      have hother : ' ' ∈ name := by simpa using hmem
      exact absurd (hname ' ' hother) (by decide)
    have hseparator : " ".toList = [' '] := by decide +kernel
    rw [String.toList_intercalate, hseparator,
      contains_intercalate (foreign_of_isSpecialToken hspecial).nonempty
        (List.cons_ne_nil _ _) hblank]
    simp
  constructor
  · intro h
    obtain ⟨token, htoken, hcontains⟩ := h
    obtain ⟨message, hmessage, hin⟩ := (hjoin token htoken).mp hcontains
    exact ⟨message, hmessage, token, htoken, hin⟩
  · intro h
    obtain ⟨message, hmessage, token, htoken, hin⟩ := h
    exact ⟨token, htoken, (hjoin token htoken).mpr ⟨message, hmessage, hin⟩⟩

/-- The prompt can be counted exactly if the remembered messages can: the
query and the context have been counted before. -/
theorem countTokens_prompt_iff
    (h : Prepared tiktoken base request log prepared) :
    (∃ tokens, TiktokenService.countTokens tiktoken
        (String.intercalate " " (prepared.1.map ChatMessage.content)) "gpt-4o" =
          .ok tokens) ↔
      ∀ message ∈ past request log,
        ¬ (TiktokenService.getEncoding tiktoken "gpt-4o").HasSpecial
          message.content := by
  obtain ⟨context, results, hprompt, hcontext, hquery, -⟩ := h
  rw [TiktokenService.countTokens_ok_iff] at hquery
  have hcontext := not_hasSpecial_context hcontext
  have hsystem := (hasSpecial_systemMessage
    (TiktokenService.getEncoding tiktoken "gpt-4o") context).not.mpr hcontext
  rw [TiktokenService.countTokens_ok_iff, hasSpecial_join, hprompt]
  simp only [PromptService.buildRagPrompt, List.cons_append, List.mem_cons,
    List.mem_append, List.not_mem_nil, or_false, not_exists, not_and]
  constructor
  · intro hall message hmessage
    exact hall message (Or.inr (Or.inl hmessage))
  · intro hall message hmessage
    rcases hmessage with rfl | hmessage | rfl
    · exact hsystem
    · exact hall message hmessage
    · exact hquery

end Counting
/-! ## Both ways of answering -/

/-- The log after a turn is saved, if the request names a user. -/
def savedTurn (request : ChatRequest) (log : HistoryLog) (answer : ChatMessage) :
    HistoryLog :=
  match requestUser request with
  | .ok (some userId) =>
      (log.save userId { role := .user, content := request.message }).save userId
        answer
  | _ => log

/-- The consumer of a stream has received an answer and its sources: the
pieces of the answer, then one last chunk. -/
def Delivered (before after : State HistoryLog) (message : String)
    (sources : List SourceDTO) : Prop :=
  ∃ pieces last, after.sent = before.sent ++ (pieces ++ [last]) ∧
    (∀ chunk ∈ pieces, chunk.done = false) ∧ last.done = true ∧
    last.sources = some sources ∧
    String.join ((pieces ++ [last]).map StreamChunk.content) = message

/-- Streaming does what answering at once does. -/
structure Agrees (env : Env HistoryLog) (request : ChatRequest)
    (s : State HistoryLog) : Prop where
  returns : ∀ response after,
    (execute env Faults.none request).run s = .ok response after →
      ∃ after', (stream env Faults.none request).run s = .ok () after' ∧
        after'.asked = after.asked ∧ after'.history = after.history ∧
        Delivered s after' response.message response.sources
  raises : ∀ r after, (execute env Faults.none request).run s = .error r after →
    (stream env Faults.none request).run s = .error r after

section Answering

variable {tiktoken : Tiktoken} {base : Env HistoryLog} {request : ChatRequest}
  {s s' : State HistoryLog} {messages : List ChatMessage} {used : List SearchResult}

theorem run_saveTurn {user : Option UserId} (huser : requestUser request = .ok user)
    (answer : ChatMessage) (s : State HistoryLog) :
    (saveTurn (logEnv tiktoken base) Faults.none request answer).run s =
      .ok () { s with history := savedTurn request s.history answer } := by
  simp only [saveTurn, savedTurn, huser]
  cases user with
  | none => rfl
  | some userId => rfl

theorem run_forwardDeltas (deltas : List String) (i : ℕ) (fullContent : String)
    (s : State HistoryLog) :
    (forwardDeltas Faults.none i fullContent deltas).run s =
      .ok (deltas.foldl (· ++ ·) fullContent)
        { s with sent := s.sent ++ deltas.map fun delta => { content := delta } } := by
  induction deltas generalizing i fullContent s with
  | nil =>
      simp only [List.foldl_nil, List.map_nil, List.append_nil]
      rfl
  | cons delta rest ih =>
      have hstep : (forwardDeltas Faults.none i fullContent (delta :: rest)).run s =
          (forwardDeltas Faults.none (i + 1) (fullContent ++ delta) rest).run
            { s with sent := s.sent ++ [{ content := delta }] } := rfl
      rw [hstep, ih, List.map_cons, List.foldl_cons, List.append_assoc]
      rfl

/-- The response that `execute` makes of an answer. -/
def responseOf (used : List SearchResult) (answer : ChatResponse) :
    ChatResponseDTO where
  message := answer.message.content
  sources := buildSources used
  promptTokens := answer.tokenUsage.elim 0 TokenUsage.promptTokens
  completionTokens := answer.tokenUsage.elim 0 TokenUsage.completionTokens
  totalTokens := answer.tokenUsage.elim 0 TokenUsage.totalTokens

/-- What `execute` does behind the prompt. -/
theorem run_execute
    (hprepare : (prepare (logEnv tiktoken base) Faults.none request).run s =
      .ok (messages, used) s')
    {user : Option UserId} (huser : requestUser request = .ok user) :
    (execute (logEnv tiktoken base) Faults.none request).run s =
      .ok (responseOf used (base.complete messages)) { s' with
        asked := s'.asked ++ [messages]
        history := savedTurn request s'.history (base.complete messages).message } := by
  have hrest : ∀ s'' : State HistoryLog,
      (do saveTurn (logEnv tiktoken base) Faults.none request
            (base.complete messages).message
          pure (responseOf used (base.complete messages)) :
        Prog HistoryLog ChatResponseDTO).run s'' =
      .ok (responseOf used (base.complete messages)) { s'' with
        history := savedTurn request s''.history
          (base.complete messages).message } := by
    intro s''
    rw [EStateM.run_bind, run_saveTurn huser]
    rfl
  rw [execute, EStateM.run_bind, hprepare]
  exact hrest { s' with asked := s'.asked ++ [messages] }

/-- The chunks of a stream: the deltas and the last chunk. -/
def lastChunk (used : List SearchResult) (promptTokens completionTokens : ℤ) :
    StreamChunk where
  content := ""
  done := true
  sources := some (buildSources used)
  promptTokens := some promptTokens
  completionTokens := some completionTokens
  totalTokens := some (promptTokens + completionTokens)

/-- What `stream` does behind the prompt, up to the counting. -/
theorem run_stream
    (hprepare : (prepare (logEnv tiktoken base) Faults.none request).run s =
      .ok (messages, used) s') :
    (stream (logEnv tiktoken base) Faults.none request).run s =
      (do let promptTokens ← ofExcept (TiktokenService.countTokens tiktoken
            (String.intercalate " " (messages.map ChatMessage.content)) "gpt-4o")
          let completionTokens ← ofExcept (TiktokenService.countTokens tiktoken
            (String.join (base.stream messages)) "gpt-4o")
          yieldChunk Faults.none .yieldDone
            (lastChunk used promptTokens completionTokens)
          saveTurn (logEnv tiktoken base) Faults.none request
            { role := .assistant, content := String.join (base.stream messages) }
          perform Faults.none Site.logCompleted (pure ()) :
        Prog HistoryLog Unit).run { s' with
          asked := s'.asked ++ [messages]
          sent := s'.sent ++ (base.stream messages).map
            fun delta => { content := delta } } := by
  have hdeltas := run_forwardDeltas (base.stream messages) 0 ""
    { s' with asked := s'.asked ++ [messages] }
  have hopen : (perform Faults.none Site.openStream
      (modify fun s => { s with asked := s.asked ++ [messages] }) :
        Prog HistoryLog Unit).run s' =
      .ok () { s' with asked := s'.asked ++ [messages] } := rfl
  rw [stream, EStateM.run_bind, hprepare]
  dsimp only
  rw [EStateM.run_bind, hopen]
  dsimp only
  rw [EStateM.run_bind]
  erw [hdeltas]
  rfl

/-- If everything can be counted, the stream ends with its last chunk and
saves the turn. -/
theorem run_stream_counted
    (hprepare : (prepare (logEnv tiktoken base) Faults.none request).run s =
      .ok (messages, used) s')
    {user : Option UserId} (huser : requestUser request = .ok user)
    {promptTokens completionTokens : ℤ}
    (hprompt : TiktokenService.countTokens tiktoken
      (String.intercalate " " (messages.map ChatMessage.content)) "gpt-4o" =
        .ok promptTokens)
    (hanswer : TiktokenService.countTokens tiktoken
      (String.join (base.stream messages)) "gpt-4o" = .ok completionTokens) :
    (stream (logEnv tiktoken base) Faults.none request).run s = .ok () { s' with
      asked := s'.asked ++ [messages]
      sent := s'.sent ++ (base.stream messages).map (fun delta => { content := delta }) ++
        [lastChunk used promptTokens completionTokens]
      history := savedTurn request s'.history
        { role := .assistant, content := String.join (base.stream messages) } } := by
  rw [run_stream hprepare, hprompt, hanswer]
  have hrest : ∀ s'' : State HistoryLog,
      (do saveTurn (logEnv tiktoken base) Faults.none request
            { role := .assistant, content := String.join (base.stream messages) }
          perform Faults.none Site.logCompleted (pure ()) :
        Prog HistoryLog Unit).run s'' = .ok () { s'' with
          history := savedTurn request s''.history
            { role := .assistant, content := String.join (base.stream messages) } } := by
    intro s''
    rw [EStateM.run_bind, run_saveTurn huser]
    rfl
  exact hrest _

/-- The deltas and a last chunk without content deliver the joined answer. -/
theorem delivered_deltas {before after : State HistoryLog} (deltas : List String)
    (last : StreamChunk) {sources : List SourceDTO} (hcontent : last.content = "")
    (hdone : last.done = true) (hsources : last.sources = some sources)
    (hsent : after.sent = before.sent ++
      (deltas.map (fun delta => { content := delta }) ++ [last])) :
    Delivered before after (String.join deltas) sources := by
  refine ⟨_, last, hsent, ?_, hdone, hsources, ?_⟩
  · intro chunk hchunk
    obtain ⟨delta, -, rfl⟩ := List.mem_map.mp hchunk
    rfl
  · have hcontents : (deltas.map fun delta => ({ content := delta } : StreamChunk)).map
        StreamChunk.content = deltas := by
      rw [List.map_map]
      exact List.map_id deltas
    rw [List.map_append, hcontents, List.map_singleton, hcontent, String.join_append]
    simp

/-- A stream that ends has counted the prompt and the answer. -/
theorem counted_of_run_stream
    (hprepare : (prepare (logEnv tiktoken base) Faults.none request).run s =
      .ok (messages, used) s')
    {after : State HistoryLog}
    (hrun : (stream (logEnv tiktoken base) Faults.none request).run s = .ok () after) :
    (∃ tokens, TiktokenService.countTokens tiktoken
        (String.intercalate " " (messages.map ChatMessage.content)) "gpt-4o" =
          .ok tokens) ∧
      ∃ tokens, TiktokenService.countTokens tiktoken
        (String.join (base.stream messages)) "gpt-4o" = .ok tokens := by
  rw [run_stream hprepare] at hrun
  cases hprompt : TiktokenService.countTokens tiktoken
      (String.intercalate " " (messages.map ChatMessage.content)) "gpt-4o" with
  | error e =>
      rw [hprompt] at hrun
      cases hrun
  | ok promptTokens =>
      cases hanswer : TiktokenService.countTokens tiktoken
          (String.join (base.stream messages)) "gpt-4o" with
      | error e =>
          rw [hprompt, hanswer] at hrun
          cases hrun
      | ok completionTokens => exact ⟨⟨_, rfl⟩, _, rfl⟩

/-- Both ways save the same turn if nobody is named or the provider's message
is a plain assistant message. -/
theorem savedTurn_eq_iff {user : Option UserId}
    (huser : requestUser request = .ok user) (log : HistoryLog)
    (answer other : ChatMessage) :
    savedTurn request log answer = savedTurn request log other ↔
      requestUser request = .ok none ∨ answer = other := by
  cases user with
  | none => simp [savedTurn, huser]
  | some userId =>
      simp only [savedTurn, huser, Except.ok.injEq, reduceCtorEq, false_or]
      constructor
      · intro h
        have hself := congrFun h userId
        simp only [HistoryLog.save_self] at hself
        exact List.singleton_inj.mp (List.append_cancel_left hself)
      · intro h
        rw [h]

end Answering

/-! ## When they agree -/

/-- The turn can be streamed: neither the remembered messages nor the answer
has a special token, and the provider's message is a plain one, or is not
saved. -/
structure StreamableTurn (tiktoken : Tiktoken) (request : ChatRequest)
    (log : HistoryLog) (answer : ChatMessage) : Prop where
  remembered : ∀ message ∈ past request log,
    ¬ (TiktokenService.getEncoding tiktoken "gpt-4o").HasSpecial message.content
  unspecial : ¬ (TiktokenService.getEncoding tiktoken "gpt-4o").HasSpecial
    answer.content
  plain : requestUser request = .ok none ∨
    answer = { role := .assistant, content := answer.content }

/-- If the prompt can be prepared, the turn can be streamed. -/
def Streamable (tiktoken : Tiktoken) (base : Env HistoryLog) (request : ChatRequest)
    (s : State HistoryLog) : Prop :=
  ∀ messages used s', (prepare (logEnv tiktoken base) Faults.none request).run s =
      .ok (messages, used) s' →
    StreamableTurn tiktoken request s.history (base.complete messages).message

section Agreement

variable {tiktoken : Tiktoken} {base : Env HistoryLog} {request : ChatRequest}
  {s s' : State HistoryLog} {messages : List ChatMessage} {used : List SearchResult}

/-- Behind a prompt, the two agree exactly if the turn can be streamed. -/
theorem agrees_iff_of_prepare
    (hdeltas : String.join (base.stream messages) =
      (base.complete messages).message.content)
    (hprepare : (prepare (logEnv tiktoken base) Faults.none request).run s =
      .ok (messages, used) s') :
    Agrees (logEnv tiktoken base) request s ↔
      StreamableTurn tiktoken request s.history (base.complete messages).message := by
  have hprepared := @ensures_prepare tiktoken base request s s ⟨rfl, rfl, rfl⟩
  rw [hprepare] at hprepared
  obtain ⟨hunspoken, hprepared⟩ := hprepared
  obtain ⟨user, huser⟩ := hprepared.user
  have hexecute := run_execute hprepare huser
  have hprompt := countTokens_prompt_iff hprepared
  have hanswer := TiktokenService.countTokens_ok_iff tiktoken
    (String.join (base.stream messages)) "gpt-4o"
  constructor
  · intro h
    obtain ⟨after, hstream, -, hhistory, -⟩ := h.returns _ _ hexecute
    obtain ⟨hcounted, hcounted'⟩ := counted_of_run_stream hprepare hstream
    refine ⟨hprompt.mp hcounted, hdeltas ▸ hanswer.mp hcounted', ?_⟩
    obtain ⟨promptTokens, hprompt⟩ := hcounted
    obtain ⟨completionTokens, hcompletion⟩ := hcounted'
    rw [run_stream_counted hprepare huser hprompt hcompletion] at hstream
    cases hstream
    rw [hdeltas] at hhistory
    exact (savedTurn_eq_iff huser _ _ _).mp hhistory.symm
  · intro h
    obtain ⟨promptTokens, hprompt⟩ := hprompt.mpr h.remembered
    obtain ⟨completionTokens, hcompletion⟩ := hanswer.mpr (hdeltas ▸ h.unspecial)
    have hstream := run_stream_counted hprepare huser hprompt hcompletion
    constructor
    · intro response after hrun
      rw [hexecute] at hrun
      cases hrun
      refine ⟨_, hstream, rfl, ?_, ?_⟩
      · rw [hdeltas]
        exact ((savedTurn_eq_iff huser _ _ _).mpr h.plain).symm
      · have hmessage : (responseOf used (base.complete messages)).message =
            String.join (base.stream messages) := hdeltas.symm
        rw [hmessage]
        apply delivered_deltas (base.stream messages)
          (lastChunk used promptTokens completionTokens) rfl rfl rfl
        rw [hunspoken.2.2, List.append_assoc]
    · intro r after hrun
      rw [hexecute] at hrun
      cases hrun

theorem agrees_iff
    (hdeltas : ∀ messages, String.join (base.stream messages) =
      (base.complete messages).message.content) :
    Agrees (logEnv tiktoken base) request s ↔ Streamable tiktoken base request s := by
  cases hprepare : (prepare (logEnv tiktoken base) Faults.none request).run s with
  | ok prepared s' =>
      have hagrees := agrees_iff_of_prepare (hdeltas prepared.1) hprepare
      constructor
      · intro h messages used s'' hrun
        rw [hprepare] at hrun
        cases hrun
        exact hagrees.mp h
      · intro h
        exact hagrees.mpr (h _ _ _ hprepare)
  | error r s' =>
      have hexecute : (execute (logEnv tiktoken base) Faults.none request).run s =
          .error r s' := by
        rw [execute, EStateM.run_bind, hprepare]
      have hstream : (stream (logEnv tiktoken base) Faults.none request).run s =
          .error r s' := by
        rw [stream, EStateM.run_bind, hprepare]
      constructor
      · intro _ messages used s'' hrun
        rw [hprepare] at hrun
        cases hrun
      · intro _
        constructor
        · intro response after hrun
          rw [hexecute] at hrun
          cases hrun
        · intro r' after hrun
          rw [hexecute] at hrun
          cases hrun
          exact hstream

end Agreement

/-! ## A small chat -/

/-- A provider with one answer, which it streams in one piece. -/
def answering (answer : String) : Env HistoryLog where
  search := emptySearch
  context := { countTokens := TiktokenService.countTokens smallTiktoken }
  history := HistoryLog.repository
  countTokens := TiktokenService.countTokens smallTiktoken
  complete := fun _ => { message := { role := .assistant, content := answer } }
  stream := fun _ => [answer]

theorem join_answering (answer : String) (messages : List ChatMessage) :
    String.join ((answering answer).stream messages) =
      ((answering answer).complete messages).message.content := by
  simp [answering]

def letterChat : ChatRequest where
  message := "A"
  message_ne := TokenSafety.letter_ne
  topK_pos := ChatRequest.one_le_topK
  topK_le := ChatRequest.topK_le_twenty

theorem prepare_letterChat (answer : String) : ∃ messages used s',
    (prepare (logEnv smallTiktoken (answering answer)) Faults.none letterChat).run
      { history := fun _ => [] } = .ok (messages, used) s' :=
  ⟨_, _, _, rfl⟩

theorem agrees_iff_answering :
    Agrees (logEnv smallTiktoken (answering "B")) letterChat
        { history := fun _ => [] } ↔
      Streamable smallTiktoken (answering "B") letterChat
        { history := fun _ => [] } :=
  agrees_iff (join_answering "B")

/-- An answer that contains the text of a special token is returned at once,
but raises when it is streamed. -/
theorem not_agrees_endoftext :
    ¬ ∀ (tiktoken : Tiktoken) (base : Env HistoryLog) (request : ChatRequest)
        (s : State HistoryLog),
      (∀ messages, String.join (base.stream messages) =
        (base.complete messages).message.content) →
      Agrees (logEnv tiktoken base) request s := by
  intro h
  have hagrees := h smallTiktoken (answering "<|endoftext|>") letterChat
    { history := fun _ => [] } (join_answering "<|endoftext|>")
  obtain ⟨messages, used, s', hprepare⟩ := prepare_letterChat "<|endoftext|>"
  have hturn := (agrees_iff_of_prepare (join_answering "<|endoftext|>" messages)
    hprepare).mp hagrees
  have hspecial : Contains "<|endoftext|>".toList "<|endoftext|>".toList := by
    decide +kernel
  exact hturn.unspecial ⟨"<|endoftext|>", List.mem_cons_self, hspecial⟩

end RagChat
end AiBackend
