import AiBackend.Domain.Chat
import AiBackend.Domain.Values
import AiBackend.Support.JsonText
import AiBackend.Support.RedisList

/-!
# The chat history in Redis

`RedisChatHistoryRepository`: each message is a JSON text in the list of its
user, and the list is trimmed to the last hundred.  The texts are ASCII, so
their bytes are their characters.
-/

namespace AiBackend

open Python

namespace RedisChatHistoryRepository

/-- `_MAX_HISTORY_SIZE`. -/
def maxHistorySize : ℤ := 100

/-- `_history_key`. -/
def historyKey (userId : UserId) : String := "chat:" ++ userId.str

/-- What is stored of a message. -/
def messageData (message : ChatMessage) : Json :=
  .dict [("role", .str message.role.value), ("content", .str message.content),
    ("metadata", .dict message.metadata.items)]

/-- `save_message`: a transaction of a push and a trim. -/
def saveMessage (lists : RedisLists) (userId : UserId) (message : ChatMessage) :
    Except PyExc RedisLists := do
  let key := historyKey userId
  let data ← JsonText.dumps (messageData message)
  pure ((lists.rpush key data).ltrim key (-maxHistorySize) (-1))

/-- The message of a stored dictionary; a missing key, an unknown role and
fields of a wrong type are errors that are skipped. -/
def messageOfDict (entries : List (String × Json)) : Option ChatMessage := do
  match ← entries.lookup "role" with
  | .str text =>
      let role ← MessageRole.ofValue text
      match ← entries.lookup "content", (entries.lookup "metadata").getD (.dict []) with
      | .str content, .dict metadata =>
          some { role := role, content := content, metadata := Dict.ofPairs metadata }
      | _, _ => none
  | _ => none

/-- One stored text, skipped if it is no message; data that has no keys is an
error that is not. -/
def readMessage (raw : String) : Except PyExc (Option ChatMessage) :=
  match JsonText.loads raw with
  | none => .ok none
  | some (.dict entries) => .ok (messageOfDict entries)
  | some (.list _) => .error (.typeError
      "list indices must be integers or slices, not str")
  | some (.str _) => .error (.typeError
      "string indices must be integers, not 'str'")
  | some .null => .error (.typeError "'NoneType' object is not subscriptable")
  | some (.bool _) => .error (.typeError "'bool' object is not subscriptable")
  | some (.int _) => .error (.typeError "'int' object is not subscriptable")
  | some (.float _) => .error (.typeError "'float' object is not subscriptable")

/-- `get_history`. -/
def getHistory (lists : RedisLists) (userId : UserId) (limit : ℤ := 10) :
    Except PyExc (List ChatMessage) := do
  let rawMessages := lists.lrange (historyKey userId) (-limit) (-1)
  let messages ← rawMessages.mapM readMessage
  pure messages.reduceOption

/-- `clear_history`. -/
def clearHistory (lists : RedisLists) (userId : UserId) : RedisLists :=
  lists.del (historyKey userId)

end RedisChatHistoryRepository
end AiBackend
