set_option autoImplicit false

namespace RunStream

inductive Response where
  | taken
  -- The sink failed after it had taken so many bytes.
  | refused (accepted : Nat) (reason : String)
  -- All bytes were taken, but the sink could not pass them on.
  | stuck (reason : String)
deriving DecidableEq, Repr

inductive Sink where
  | willing
  | refusing (reason : String)
  | sticking (reason : String)
  | limited (room : Nat) (reason : String)
deriving DecidableEq, Repr

def Sink.offer (sink : Sink) (bytes : List UInt8) : Sink × Response :=
  match sink with
  | .willing => (sink, .taken)
  | .refusing reason => (sink, .refused 0 reason)
  | .sticking reason => (sink, .stuck reason)
  | .limited room reason =>
      if bytes.length ≤ room then (.limited (room - bytes.length) reason, .taken)
      else (.limited 0 reason, .refused room reason)

end RunStream
