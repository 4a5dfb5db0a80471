import AiBackend.Domain.Chat
import AiBackend.Support.Text

/-!
# Prompts

`PromptService`: the system message with the context in it, the history, the
question.
-/

namespace AiBackend.PromptService

/-- `_CONTEXT_PLACEHOLDER`. -/
def contextPlaceholder : String := "%%CONTEXT%%"

/-- `_RAG_SYSTEM_PROMPT`. -/
def ragSystemPrompt : String :=
  "You are a helpful AI assistant. Answer questions based ONLY on the " ++
  "provided context.\n\nRules:\n" ++
  "1. Use ONLY the information from the [CONTEXT] section below\n" ++
  "2. If the context does not contain enough information, say \"I don't " ++
  "have enough information to answer that\"\n" ++
  "3. Cite sources using [1], [2], etc. corresponding to the context blocks\n" ++
  "4. Be concise and accurate\n" ++
  "5. Do not make up information not present in the context\n\n" ++
  "[CONTEXT]\n" ++ contextPlaceholder ++ "\n[END CONTEXT]"

/-- The system message for a context. -/
def systemMessage (context : String) : ChatMessage where
  role := .system
  content := String.ofList (Text.replaceAll contextPlaceholder.toList
    context.toList ragSystemPrompt.length ragSystemPrompt.toList)

/-- `build_rag_prompt`. -/
def buildRagPrompt (query context : String) (history : List ChatMessage) :
    List ChatMessage :=
  systemMessage context :: history ++ [{ role := .user, content := query }]

end AiBackend.PromptService
