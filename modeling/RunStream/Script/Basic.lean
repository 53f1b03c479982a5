import RunStream.Event

set_option autoImplicit false

namespace RunStream

inductive ScriptNode where
  | container (name : String) (label : Option String) (children : List ScriptNode)
  | leaf (className methodName : String) (label : Option String)
deriving Repr

structure ScriptEvent where
  node : String
  progress : Progress
deriving DecidableEq, Repr

structure Script where
  tree : ScriptNode
  describe : Bool := true
  events : List ScriptEvent := []
deriving Repr

end RunStream
