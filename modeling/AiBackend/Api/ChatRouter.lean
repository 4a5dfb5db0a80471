import AiBackend.Application.RagChat

/-!
# The streaming endpoint

`_stream_generator` loops over the stream of the use case, leaves the loop if
the client has gone away, and yields every other chunk as an event.  An event
is written down as the chunk it is the JSON text of; `sent` are the events the
client has received.
-/

namespace AiBackend
namespace ChatRouter

open Program Python RagChat

/-- The calls of the use case, and those of the loop for every chunk. -/
inductive Site where
  | chat (site : RagChat.Site)
  | isDisconnected (chunk : RagChat.Site)
  | logDisconnected
  | yield (chunk : RagChat.Site)
  | logCancelled
  deriving DecidableEq, Repr

/-- The failures inside the use case. -/
def inChat (faults : Faults Site PyExc) : Faults RagChat.Site PyExc :=
  fun site => faults (.chat site)

variable {H : Type} (env : Env H) (isDisconnected : RagChat.Site → Bool)
  (faults : Faults Site PyExc)

/-- The body of the loop; false for `break`. -/
def forward (site : RagChat.Site) (chunk : StreamChunk) : Prog H Bool := do
  if ← perform faults (.isDisconnected site) (pure (isDisconnected site)) then
    perform faults .logDisconnected (pure ())
    pure false
  else
    perform faults (.yield site) (modify fun s => { s with sent := s.sent ++ [chunk] })
    pure true

/-- `_stream_generator`. -/
def streamGenerator (request : ChatRequest) : Prog H Unit :=
  onCancelled
    (forEachChunk env (inChat faults) request (forward isDisconnected faults))
    (perform faults .logCancelled (pure ()))

end ChatRouter
end AiBackend
