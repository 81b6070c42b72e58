import GraphRpc.Connection

/-!
# Routes

Routes send a message to the handlers that were registered for exactly its method, in the order of
their registration. The first answer is sent back, a request without an answer gets an empty one,
and one that cannot be served gets an error; nothing else is ever answered.
-/

namespace GraphRpc

/-- What an application does with a message. An answer to what is no request is ignored. -/
abbrev Handler (α : Type) := Message α → LinkM α (Option (Payload α))

structure Routes (α : Type) where
  handlers : List (String × Handler α) := []
deriving Inhabited

namespace Routes

variable {α : Type}

def register (routes : Routes α) (method : String) (handler : Handler α) : Routes α :=
  ⟨routes.handlers ++ [(method, handler)]⟩

def hasHandler (routes : Routes α) (method : String) : Bool :=
  routes.handlers.any (·.1 == method)

def handlersFor (routes : Routes α) (method : String) : List (Handler α) :=
  (routes.handlers.filter (·.1 == method)).map (·.2)

/-- Run handlers up to the first that fails. The result is the first answer, if there is one. -/
def runAll (message : Message α) : List (Handler α) → Option (Payload α) →
    LinkM α (Option (Payload α))
  | [], answer => return answer
  | handler :: rest, answer => do
    let out ← handler message
    runAll message rest (answer <|> out)

def invokeHandlers (routes : Routes α) (message : Message α) : LinkM α (Option (Payload α)) := do
  match routes.handlersFor message.method with
  | [] => throw (.noHandler message.method)
  | handlers => runAll message handlers none

/-- Serve a request and answer it. That the answer cannot be sent is nobody's failure. -/
def serveRequest (routes : Routes α) (message : Message α) : StateM (Endpoint α) Unit := do
  match ← (routes.invokeHandlers message).run with
  | .ok answer =>
    let _ ← (Endpoint.respond message (answer.getD .empty)).run
  | .error failure =>
    Endpoint.count Counters.dispatchFailed
    let _ ← (Endpoint.respondError message failure.message).run

def dispatch (routes : Routes α) (message : Message α) : StateM (Endpoint α) Unit := do
  Endpoint.count Counters.dispatched
  match message.kind with
  | .response | .error => Endpoint.completeCall message
  | .request => routes.serveRequest message
  | .oneWay =>
    match ← (routes.invokeHandlers message).run with
    | .ok _ => pure ()
    | .error _ => Endpoint.count Counters.dispatchFailed

end Routes
end GraphRpc
