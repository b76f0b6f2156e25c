import NfsProvisioner.Message

/-!
# Dispatching messages

A handler answers requests in some monad. Dispatching hands the request in a message to a handler
and wraps its answer in the response that belongs to it. A response that arrives in place of a
request never reaches the handler: it is logged and answered with an error.
-/
namespace NfsProvisioner

/-- A way to answer every request. -/
abbrev Handler (m : Type → Type) :=
  (request : Request) → m (Except Error request.Answer)

/-- What is logged about a response that arrives in place of a request. -/
def unexpectedMessage (response : Response) : Event :=
  ⟨.warning, "unexpected message variant received as request", [("msg", response.display)]⟩

/-- The response to a message. -/
def dispatch {m : Type → Type} [Monad m] (handler : Handler m) (log : Event → m Unit) :
    Message → m Response
  | .request request => do
    return request.respond (← handler request)
  | .response response => do
    log (unexpectedMessage response)
    return .error (.invalidArgument ("unexpected message: " ++ response.display))

end NfsProvisioner
