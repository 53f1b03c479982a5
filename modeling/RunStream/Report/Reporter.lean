import RunStream.Live.Session
import RunStream.Report.Sink
import RunStream.Text.Bytes

set_option autoImplicit false

namespace RunStream

open Wire Text

inductive Call where
  | describe
  | event (event : Event)
deriving DecidableEq, Repr

structure Delivery where
  reached : List UInt8 := []
  flushes : Nat := 0
  failure? : Option String := none
deriving DecidableEq, Repr

def deliveryFailed : String := "error writing to output"

namespace Plan

def produce (plan : Plan) (call : Call) (session : Session) :
    Session × List Notice × List Message :=
  match call with
  | .describe => ({ session with described := true }, [], plan.tree.description plan.naming)
  | .event event =>
      let (session, notices) := plan.handle event session
      (session, notices, plan.messages notices)

def linesOf (plan : Plan) (messages : List Message) : String :=
  String.join (messages.map (Message.renderLine plan.settings.protocol))

/-- A call without messages does not touch the sink. -/
def report {σ : Type} (plan : Plan) (offer : σ → List UInt8 → σ × Response) (call : Call)
    (session : Session) (sink : σ) : Session × σ × Delivery :=
  let (next, _, messages) := plan.produce call session
  if messages.isEmpty then (next, sink, {})
  else
    let bytes := toBytes (plan.linesOf messages)
    let (sink, response) := offer sink bytes
    match response with
    | .taken => (next, sink, { reached := bytes, flushes := 1 })
    | .refused accepted reason =>
        (session, sink, { reached := bytes.take accepted, failure? := some reason })
    | .stuck reason => (session, sink, { reached := bytes, failure? := some reason })

end Plan

end RunStream
