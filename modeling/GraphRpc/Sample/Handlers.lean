import GraphRpc.Routes

/-!
# Sample handlers

Handlers for trying out connections: each notes that it was entered and then does one thing.
-/

namespace GraphRpc.Sample

inductive Behaviour (α : Type) where
  | echo
  | silent
  | reply (answer : Payload α)
  | double
  | fail (why : Failure)
  | call (method : String) (timeout : Option Millis)
  | notify (method : String)
  | close (answer : Payload α)

variable {α : Type}

def doubled (p : Payload α) : Payload α :=
  let n := (p.first?.bind Value.int?).getD 0
  .ofValues [.i64 (n + n)]

def Behaviour.handler (name : String) (behaviour : Behaviour α) : Handler α := fun message => do
  Endpoint.always (Endpoint.emit (.handled name message))
  match behaviour with
  | .echo => return some message.payload
  | .silent => return none
  | .reply answer => return some answer
  | .double => return some (doubled message.payload)
  | .fail why => throw why
  | .call method timeout =>
    let callback ← Endpoint.always (Endpoint.newCallback false)
    let _ ← Endpoint.invoke method message.payload timeout callback
    return none
  | .notify method =>
    let _ ← Endpoint.notify method message.payload
    return none
  | .close answer =>
    Endpoint.always Endpoint.close
    return some answer

end GraphRpc.Sample
