import AiBackend.Support.Json

/-!
# Chat messages

Messages and completions as the chat providers exchange them.
-/

namespace AiBackend

inductive MessageRole where
  | system
  | user
  | assistant
  deriving DecidableEq, Repr

namespace MessageRole

/-- `role.value`. -/
def value : MessageRole → String
  | .system => "system"
  | .user => "user"
  | .assistant => "assistant"

/-- `MessageRole(text)`. -/
def ofValue (text : String) : Option MessageRole :=
  [system, user, assistant].find? fun role => role.value = text

theorem ofValue_value (role : MessageRole) : ofValue role.value = some role := by
  cases role with
  | system => decide
  | user => decide
  | assistant => decide

end MessageRole

structure ChatMessage where
  role : MessageRole
  content : String
  metadata : Dict Json := KeyedList.empty

structure TokenUsage where
  promptTokens : ℤ
  completionTokens : ℤ
  totalTokens : ℤ
  deriving DecidableEq, Repr

/-- What a chat provider answers. -/
structure ChatResponse where
  message : ChatMessage
  tokenUsage : Option TokenUsage := none

end AiBackend
