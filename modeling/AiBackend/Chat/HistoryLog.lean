import AiBackend.Application.RagChat
import AiBackend.Infrastructure.RedisChatHistory
import AiBackend.Support.JsonRoundTrip

/-!
# The history as a log

What the repository is for: every user has a log of messages, saving appends
to it, clearing empties it, and reading shows its end.  The Redis lists hold
the last hundred messages of each log, whatever calls were made.
-/

namespace AiBackend

open RedisLists

/-- The messages saved for each user since the last clearing. -/
abbrev HistoryLog := UserId → List ChatMessage

namespace HistoryLog

def save (log : HistoryLog) (userId : UserId) (message : ChatMessage) : HistoryLog :=
  Function.update log userId (log userId ++ [message])

def clear (log : HistoryLog) (userId : UserId) : HistoryLog :=
  Function.update log userId []

@[simp] theorem save_self (log : HistoryLog) (userId : UserId) (message : ChatMessage) :
    log.save userId message userId = log userId ++ [message] :=
  Function.update_self ..

theorem save_of_ne {log : HistoryLog} {userId other : UserId} (h : other ≠ userId)
    (message : ChatMessage) : log.save userId message other = log other :=
  Function.update_of_ne h ..

/-- The log as the repository of the chat. -/
def repository : ChatHistoryRepository HistoryLog where
  getHistory := fun log userId limit => lastN limit.toNat (log userId)
  saveMessage := save

end HistoryLog

namespace RedisChatHistoryRepository

/-! ## One message -/

/-- The metadata of a message is a Python value. -/
def JsonValued (message : ChatMessage) : Prop :=
  JsonText.all JsonText.isPythonValue (.dict message.metadata.items) = true

instance (message : ChatMessage) : Decidable (JsonValued message) :=
  inferInstanceAs (Decidable (_ = _))

/-- A message that is saved is read back as it was. -/
theorem readMessage_of_dumps {message : ChatMessage} (h : JsonValued message)
    {raw : String} (hraw : JsonText.dumps (messageData message) = .ok raw) :
    readMessage raw = .ok (some message) := by
  have hvalue : JsonText.all JsonText.isPythonValue (messageData message) = true := by
    have hkeys : JsonText.isPythonValue (messageData message) = true := by
      simp [messageData, JsonText.isPythonValue]
    have hmetadata : JsonText.all JsonText.isPythonValue
        (.dict message.metadata.items) = true := h
    rw [messageData] at hkeys ⊢
    rw [JsonText.all, hkeys, JsonText.allEntries, JsonText.allEntries,
      JsonText.allEntries, JsonText.allEntries, hmetadata]
    rfl
  have hread := JsonText.loads_of_dumps hvalue hraw
  have hdict : Dict.ofPairs message.metadata.items = message.metadata :=
    KeyedList.ext (Dict.items_ofPairs message.metadata.nodup)
  rw [readMessage, hread]
  simp [messageData, messageOfDict, List.lookup_cons, MessageRole.ofValue_value, hdict]

/-- Saving a message raises only for an integer that is too long. -/
def Storable (message : ChatMessage) : Prop :=
  JsonText.all JsonText.fitsDigits (messageData message) = true

instance (message : ChatMessage) : Decidable (Storable message) :=
  inferInstanceAs (Decidable (_ = _))

/-- An integer is below the power of ten that has more than 4300 digits. -/
def shortInteger : Json → Bool
  | .int n => decide (n.natAbs < 10 ^ JsonText.maxStrDigits)
  | _ => true

/-- No integer in the metadata, at whatever depth, has more digits. -/
def ShortIntegers (message : ChatMessage) : Prop :=
  JsonText.all shortInteger (.dict message.metadata.items) = true

instance (message : ChatMessage) : Decidable (ShortIntegers message) :=
  inferInstanceAs (Decidable (_ = _))

theorem fitsDigits_eq_shortInteger : JsonText.fitsDigits = shortInteger := by
  funext value
  cases value with
  | int n =>
      have hpos : 0 < JsonText.maxStrDigits := by decide
      simp only [JsonText.fitsDigits, shortInteger,
        Nat.length_toDigits_le_iff (by decide : 1 < 10) hpos]
  | _ => rfl

/-- The role and the content hold no integers. -/
theorem storable_iff (message : ChatMessage) : Storable message ↔ ShortIntegers message := by
  have hdata : JsonText.all shortInteger (messageData message) =
      JsonText.all shortInteger (.dict message.metadata.items) := by
    rw [messageData, JsonText.all, JsonText.allEntries, JsonText.allEntries,
      JsonText.allEntries, JsonText.allEntries]
    exact Bool.and_true _
  rw [Storable, ShortIntegers, fitsDigits_eq_shortInteger, hdata]

/-- The stored text of a message. -/
def entryText (message : ChatMessage) : String :=
  String.ofList (JsonText.text (messageData message))

theorem readMessage_entryText {message : ChatMessage} (h : JsonValued message)
    (hstorable : Storable message) :
    readMessage (entryText message) = .ok (some message) :=
  readMessage_of_dumps h (if_pos hstorable)

/-! ## Refinement -/

/-- The lists hold the last hundred messages of every log. -/
structure Refines (lists : RedisLists) (log : HistoryLog) : Prop where
  entries : ∀ userId, lists (historyKey userId) =
    (lastN 100 (log userId)).map entryText
  readable : ∀ userId, ∀ message ∈ log userId,
    readMessage (entryText message) = .ok (some message)

section Refinement

variable {lists : RedisLists} {log : HistoryLog} {userId : UserId}
  {message : ChatMessage}

theorem historyKey_injective : Function.Injective historyKey := by
  intro u v h
  have htext : "chat:".toList ++ u.str.toList = "chat:".toList ++ v.str.toList := by
    rw [← String.toList_append, ← String.toList_append]
    exact congrArg String.toList h
  exact Uuid.str_injective (String.toList_inj.mp (List.append_cancel_left htext))

/-- A push and a trim keep the last hundred entries. -/
theorem saveMessage_ok (lists : RedisLists) (userId : UserId)
    (hstorable : Storable message) :
    saveMessage lists userId message = .ok (Function.update lists (historyKey userId)
      (lastN 100 (lists (historyKey userId) ++ [entryText message]))) := by
  have hdumps : JsonText.dumps (messageData message) = .ok (entryText message) :=
    if_pos hstorable
  have hrange := range_neg (n := 100) (by decide)
    (lists (historyKey userId) ++ [entryText message])
  simp only [saveMessage, hdumps, ltrim, rpush, Function.update_self,
    Function.update_idem]
  exact congrArg (fun entries => Except.ok
    (Function.update lists (historyKey userId) entries)) hrange

theorem saveMessage_error (lists : RedisLists) (userId : UserId)
    (hstorable : ¬ Storable message) :
    ∃ e, saveMessage lists userId message = .error e := by
  have hdumps : ∃ e, JsonText.dumps (messageData message) = .error e :=
    ⟨_, if_neg hstorable⟩
  obtain ⟨e, he⟩ := hdumps
  exact ⟨e, by rw [saveMessage, he]; rfl⟩

/-- Exactly the messages with a longer integer cannot be saved. -/
theorem saveMessage_returns_iff (lists : RedisLists) (userId : UserId) (message : ChatMessage) :
    (∃ lists', saveMessage lists userId message = .ok lists') ↔ ShortIntegers message := by
  rw [← storable_iff]
  constructor
  · rintro ⟨lists', hsave⟩
    by_contra hstorable
    obtain ⟨e, he⟩ := saveMessage_error lists userId hstorable
    rw [he] at hsave
    cases hsave
  · exact fun hstorable => ⟨_, saveMessage_ok lists userId hstorable⟩

theorem Refines.save (h : Refines lists log) (hvalued : JsonValued message)
    (hstorable : Storable message) {lists' : RedisLists}
    (hsave : saveMessage lists userId message = .ok lists') :
    Refines lists' (log.save userId message) := by
  rw [saveMessage_ok lists userId hstorable] at hsave
  obtain rfl := Except.ok.inj hsave
  constructor
  · intro other
    by_cases hother : other = userId
    · subst hother
      have hmap : (lastN 100 (log other)).map entryText ++ [entryText message] =
          (lastN 100 (log other) ++ [message]).map entryText := by
        rw [List.map_append, List.map_singleton]
      rw [Function.update_self, HistoryLog.save_self, h.entries, hmap, lastN_map,
        lastN_lastN_append]
    · rw [Function.update_of_ne (historyKey_injective.ne hother),
        HistoryLog.save_of_ne hother, h.entries]
  · intro other m hm
    by_cases hother : other = userId
    · subst hother
      rw [HistoryLog.save_self, List.mem_append, List.mem_singleton] at hm
      rcases hm with hm | rfl
      · exact h.readable other m hm
      · exact readMessage_entryText hvalued hstorable
    · rw [HistoryLog.save_of_ne hother] at hm
      exact h.readable other m hm

theorem Refines.clear (h : Refines lists log) (userId : UserId) :
    Refines (clearHistory lists userId) (log.clear userId) := by
  unfold clearHistory RedisLists.del HistoryLog.clear
  constructor
  · intro other
    by_cases hother : other = userId
    · subst hother
      rw [Function.update_self, Function.update_self]
      rfl
    · rw [Function.update_of_ne (historyKey_injective.ne hother),
        Function.update_of_ne hother, h.entries]
  · intro other m hm
    by_cases hother : other = userId
    · subst hother
      rw [Function.update_self] at hm
      cases hm
    · rw [Function.update_of_ne hother] at hm
      exact h.readable other m hm

/-- Reading shows the end of the log. -/
theorem Refines.getHistory (h : Refines lists log) (userId : UserId) {limit : ℤ}
    (hlimit : 1 ≤ limit) :
    getHistory lists userId limit = .ok (lastN (min limit.toNat 100) (log userId)) := by
  have hread : ∀ messages : List ChatMessage,
      (∀ m ∈ messages, readMessage (entryText m) = .ok (some m)) →
        (messages.map entryText).mapM readMessage = .ok (messages.map some) := by
    intro messages
    induction messages with
    | nil => exact fun _ => rfl
    | cons m rest ih =>
        intro hall
        rw [List.forall_mem_cons] at hall
        rw [List.map_cons, List.mapM_cons, hall.1, ih hall.2]
        rfl
  have hrange : lists.lrange (historyKey userId) (-limit) (-1) =
      (lastN (min limit.toNat 100) (log userId)).map entryText := by
    have hneg : -limit = -((limit.toNat : ℕ) : ℤ) := by omega
    rw [lrange, hneg, range_neg (by omega), h.entries, lastN_map, lastN_lastN]
  have hmessages := hread (lastN (min limit.toNat 100) (log userId))
    fun m hm => h.readable userId m (mem_of_mem_lastN hm)
  rw [RedisChatHistoryRepository.getHistory, hrange]
  simp only [hmessages]
  refine congrArg Except.ok ?_
  change List.filterMap id (List.map some _) = _
  rw [List.filterMap_map]
  exact List.filterMap_some

end Refinement

/-! ## Sequences of calls -/

/-- A call that changes the history. -/
inductive Call where
  | save (userId : UserId) (message : ChatMessage) (valued : JsonValued message)
  | clear (userId : UserId)

namespace Call

def userId : Call → UserId
  | .save userId _ _ => userId
  | .clear userId => userId

/-- The lists after a call; one that raises leaves them alone. -/
def run (lists : RedisLists) : Call → RedisLists
  | .save userId message _ =>
      match saveMessage lists userId message with
      | .ok lists' => lists'
      | .error _ => lists
  | .clear userId => clearHistory lists userId

/-- The log after a call. -/
def record (log : HistoryLog) : Call → HistoryLog
  | .save userId message _ =>
      if Storable message then log.save userId message else log
  | .clear userId => log.clear userId

end Call

/-- What a user's own call makes of the messages saved before. -/
def Call.own (messages : List ChatMessage) : Call → List ChatMessage
  | .save _ message _ => if Storable message then messages ++ [message] else messages
  | .clear _ => []

/-- The messages of a user that were saved since the last clearing. -/
def savedSince (userId : UserId) (calls : List Call) : List ChatMessage :=
  (calls.filter fun call => call.userId = userId).foldl Call.own []

/-- The call is not a save that raises. -/
def Call.Short : Call → Prop
  | .save _ message _ => ShortIntegers message
  | .clear _ => True

instance (call : Call) : Decidable call.Short :=
  match call with
  | .save _ message _ => inferInstanceAs (Decidable (ShortIntegers message))
  | .clear _ => isTrue trivial

/-- What a user's own call asks to have in the history. -/
def Call.asked (messages : List ChatMessage) : Call → List ChatMessage
  | .save _ message _ => messages ++ [message]
  | .clear _ => []

/-- The messages of all of a user's saves since the last clearing, those that
raised included. -/
def askedSince (userId : UserId) (calls : List Call) : List ChatMessage :=
  (calls.filter fun call => call.userId = userId).foldl Call.asked []

theorem own_eq_asked {call : Call} (h : call.Short) (messages : List ChatMessage) :
    call.own messages = call.asked messages := by
  cases call with
  | save userId message hvalued => exact if_pos ((storable_iff message).mpr h)
  | clear userId => rfl

theorem own_of_not_short {call : Call} (h : ¬ call.Short) (messages : List ChatMessage) :
    call.own messages = messages := by
  cases call with
  | save userId message hvalued => exact if_neg (mt (storable_iff message).mp h)
  | clear userId => exact absurd trivial h

/-- What has been saved is what the calls that do not raise have asked for. -/
theorem savedSince_eq_askedSince (userId : UserId) (calls : List Call) :
    savedSince userId calls = askedSince userId (calls.filter fun call => call.Short) := by
  have hfold : ∀ (calls : List Call) (messages : List ChatMessage),
      calls.foldl Call.own messages =
        (calls.filter fun call => call.Short).foldl Call.asked messages := by
    intro calls
    induction calls with
    | nil => exact fun _ => rfl
    | cons call rest ih =>
        intro messages
        by_cases hshort : call.Short
        · rw [List.filter_cons_of_pos (by simpa using hshort), List.foldl_cons, List.foldl_cons,
            own_eq_asked hshort, ih]
        · rw [List.filter_cons_of_neg (by simpa using hshort), List.foldl_cons,
            own_of_not_short hshort, ih]
  rw [savedSince, askedSince, hfold, List.filter_filter, List.filter_filter]
  simp only [Bool.and_comm]

theorem record_userId (log : HistoryLog) (call : Call) (userId : UserId) :
    call.record log userId =
      if call.userId = userId then call.own (log userId) else log userId := by
  by_cases hown : call.userId = userId
  · subst hown
    rw [if_pos rfl]
    cases call with
    | save userId message hvalued =>
        simp only [Call.record, Call.own, Call.userId]
        split
        · exact HistoryLog.save_self log userId message
        · rfl
    | clear userId => exact Function.update_self ..
  · rw [if_neg hown]
    cases call with
    | save other message hvalued =>
        simp only [Call.record]
        split
        · exact HistoryLog.save_of_ne (Ne.symm hown) message
        · rfl
    | clear other => exact Function.update_of_ne (Ne.symm hown) ..

/-- Calls of other users do not show in a log. -/
theorem foldl_record (calls : List Call) (log : HistoryLog) (userId : UserId) :
    calls.foldl Call.record log userId =
      (calls.filter fun call => call.userId = userId).foldl Call.own (log userId) := by
  induction calls generalizing log with
  | nil => rfl
  | cons call rest ih =>
      rw [List.foldl_cons, ih, record_userId]
      by_cases hown : call.userId = userId
      · rw [if_pos hown, List.filter_cons_of_pos (by simpa using hown), List.foldl_cons]
      · rw [if_neg hown, List.filter_cons_of_neg (by simpa using hown)]

theorem refines_run (calls : List Call) {lists : RedisLists} {log : HistoryLog}
    (h : Refines lists log) :
    Refines (calls.foldl Call.run lists) (calls.foldl Call.record log) := by
  induction calls generalizing lists log with
  | nil => exact h
  | cons call rest ih =>
      apply ih
      cases call with
      | save userId message hvalued =>
          by_cases hstorable : Storable message
          · have hsave := saveMessage_ok lists userId hstorable
            simp only [Call.run, Call.record, hsave, if_pos hstorable]
            exact h.save hvalued hstorable hsave
          · obtain ⟨e, he⟩ := saveMessage_error lists userId hstorable
            simp only [Call.run, Call.record, he, if_neg hstorable]
            exact h
      | clear userId => exact h.clear userId

theorem refines_empty : Refines (fun _ => []) (fun _ => []) where
  entries := fun _ => rfl
  readable := fun _ _ h => absurd h List.not_mem_nil

/-- After any calls, for any users, reading a history gives the last messages
that the user's own saves since the last clearing have asked for, save those
that raise: they are exactly the ones with an integer of more than 4300 digits
in their metadata. -/
theorem getHistory_run (calls : List Call) (userId : UserId) {limit : ℤ}
    (hlimit : 1 ≤ limit) :
    getHistory (calls.foldl Call.run fun _ => []) userId limit =
        .ok (lastN (min limit.toNat 100)
          (askedSince userId (calls.filter fun call => call.Short))) ∧
      ∀ (lists : RedisLists) (user : UserId) (message : ChatMessage),
        (∃ lists', saveMessage lists user message = .ok lists') ↔ ShortIntegers message := by
  refine ⟨?_, saveMessage_returns_iff⟩
  rw [(refines_run calls refines_empty).getHistory userId hlimit, foldl_record,
    ← savedSince_eq_askedSince, savedSince]

/-- Two messages of one user, a clearing of another. -/
def sampleCalls : List Call :=
  [.save ⟨7⟩ { role := .user, content := "When?" } (by decide), .clear ⟨8⟩,
    .save ⟨7⟩ { role := .assistant, content := "On Monday." } (by decide)]

theorem getHistory_run_two :
    getHistory (sampleCalls.foldl Call.run fun _ => []) ⟨7⟩ 1 =
        .ok (lastN (min (1 : ℤ).toNat 100)
          (askedSince ⟨7⟩ (sampleCalls.filter fun call => call.Short))) ∧
      ∀ (lists : RedisLists) (user : UserId) (message : ChatMessage),
        (∃ lists', saveMessage lists user message = .ok lists') ↔ ShortIntegers message :=
  getHistory_run sampleCalls ⟨7⟩ (by decide)

/-- A message with an integer of 4301 digits in its metadata. -/
def longMessage : ChatMessage where
  role := .user
  content := "How many?"
  metadata := ⟨[("count", .int (10 ^ JsonText.maxStrDigits))], List.nodup_singleton _⟩

theorem jsonValued_longMessage : JsonValued longMessage := rfl

theorem not_shortIntegers_longMessage : ¬ ShortIntegers longMessage := by
  have hpow : ∀ k : ℕ, decide (((10 : ℤ) ^ k).natAbs < 10 ^ k) = false := by
    intro k
    rw [Int.natAbs_pow]
    exact decide_eq_false (lt_irrefl _)
  have hlong : shortInteger (.int (10 ^ JsonText.maxStrDigits)) = false :=
    hpow JsonText.maxStrDigits
  simp [ShortIntegers, longMessage, JsonText.all, JsonText.allEntries, hlong]

/-- It is saved alone, and the history stays empty. -/
theorem getHistory_not_always_asked :
    ¬ ∀ (calls : List Call) (userId : UserId) (limit : ℤ), 1 ≤ limit →
      getHistory (calls.foldl Call.run fun _ => []) userId limit =
        .ok (lastN (min limit.toNat 100) (askedSince userId calls)) := by
  intro hall
  have hread := hall [.save ⟨7⟩ longMessage jsonValued_longMessage] ⟨7⟩ 1 le_rfl
  obtain ⟨e, he⟩ := saveMessage_error (fun _ => []) ⟨7⟩
    (mt (storable_iff longMessage).mp not_shortIntegers_longMessage)
  have hrun : [Call.save ⟨7⟩ longMessage jsonValued_longMessage].foldl Call.run (fun _ => []) =
      fun _ => [] := by
    rw [List.foldl_cons, List.foldl_nil, Call.run, he]
  have hempty : getHistory (fun _ => []) ⟨7⟩ 1 = .ok [] := rfl
  have hasked : lastN (min (1 : ℤ).toNat 100)
      (askedSince ⟨7⟩ [.save ⟨7⟩ longMessage jsonValued_longMessage]) = [longMessage] := rfl
  rw [hrun, hempty, hasked] at hread
  cases hread

end RedisChatHistoryRepository
end AiBackend
