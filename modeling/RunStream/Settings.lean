import RunStream.Tree.Naming

set_option autoImplicit false

namespace RunStream

structure Settings where
  -- Written after `##` on every line.
  protocol : String := "teamcity"
  locationScheme : Option String := none
  -- A run whose tree was not described still announces that tests follow.
  announceUndescribed : Bool := true
  -- A test right below the root is put into a suite for its class.
  wrapOrphans : Bool := false
deriving DecidableEq, Repr

def Settings.naming (settings : Settings) : Naming where
  scheme := settings.locationScheme

structure Plan where
  tree : Tree
  settings : Settings := {}

def Plan.naming (plan : Plan) : Naming :=
  plan.settings.naming

end RunStream
