import RunStream.Live.Session
import RunStream.Script.Basic
import RunStream.Tree.Walk

set_option autoImplicit false

namespace RunStream

namespace ScriptNode

def kind : ScriptNode → Kind
  | .container name _ _ => .container name
  | .leaf className methodName _ => .leaf className methodName

def label : ScriptNode → Option String
  | .container _ label _ => label
  | .leaf _ _ label => label

def children : ScriptNode → List ScriptNode
  | .container _ _ children => children
  | .leaf _ _ _ => []

mutual

def nodes : ScriptNode → List ScriptNode
  | .container name label children => .container name label children :: listNodes children
  | .leaf className methodName label => [.leaf className methodName label]

def listNodes : List ScriptNode → List ScriptNode
  | [] => []
  | node :: rest => node.nodes ++ listNodes rest

end

theorem nodes_eq (node : ScriptNode) : node.nodes = node :: listNodes node.children := by
  cases node <;> simp [nodes, listNodes, children]

theorem listNodes_append (left right : List ScriptNode) :
    listNodes (left ++ right) = listNodes left ++ listNodes right := by
  induction left with
  | nil => rfl
  | cons node rest ih => simp [listNodes, ih]

end ScriptNode

inductive ScriptError where
  | duplicateLabel (label : String)
  -- Events are counted from zero.
  | unknownLabel (index : Nat) (label : String)
  | badTree (cause : TreeError)
deriving DecidableEq, Repr

def ScriptError.message : ScriptError → String
  | .duplicateLabel label => "node id `" ++ label ++ "` is used more than once"
  | .unknownLabel index label =>
      "event " ++ toString index ++ " refers to unknown node id `" ++ label ++ "`"
  | .badTree _ => "error building suite tree"

abbrev Labels := List (String × NodeId)

structure ResolvedScript where
  tree : Tree
  describe : Bool
  events : List (NodeId × Progress)

namespace Script

def noteLabel (labels : Labels) (id : NodeId) : Option String → Except ScriptError Labels
  | none => .ok labels
  | some label =>
      if (labels.lookup label).isSome then .error (.duplicateLabel label)
      else .ok ((label, id) :: labels)

/-- What a container holds is added before what was left. -/
@[semireducible]  -- so that closed scripts evaluate in proofs
def addNodes (tree : Tree) (labels : Labels) :
    List (NodeId × ScriptNode) → Except ScriptError (Tree × Labels)
  | [] => .ok (tree, labels)
  | (parent, node) :: rest =>
      match tree.add parent node.kind with
      | .error cause => .error (.badTree cause)
      | .ok larger => do
          let labels ← noteLabel labels tree.size node.label
          addNodes larger labels (node.children.map (tree.size, ·) ++ rest)
termination_by work => (ScriptNode.listNodes (work.map Prod.snd)).length
decreasing_by
  simp only [List.map_append, List.map_map, List.map_cons, Function.comp_def, List.map_id',
    ScriptNode.listNodes, ScriptNode.listNodes_append, ScriptNode.nodes_eq, List.length_append,
    List.length_cons]
  omega

def resolveEvents (labels : Labels) (index : Nat) :
    List ScriptEvent → Except ScriptError (List (NodeId × Progress))
  | [] => .ok []
  | event :: rest =>
      match labels.lookup event.node with
      | none => .error (.unknownLabel index event.node)
      | some id => ((id, event.progress) :: ·) <$> resolveEvents labels (index + 1) rest

def resolve (script : Script) : Except ScriptError ResolvedScript := do
  let labels ← noteLabel [] Tree.root script.tree.label
  let (tree, labels) ←
    addNodes (Tree.single script.tree.kind) labels (script.tree.children.map (Tree.root, ·))
  let events ← resolveEvents labels 0 script.events
  return { tree, describe := script.describe, events }

end Script

namespace ResolvedScript

def run (script : ResolvedScript) : List Event :=
  .runStarted :: script.events.map (fun (id, progress) => .node id progress) ++ [.runFinished]

def notices (script : ResolvedScript) (settings : Settings) : List Notice :=
  ({ tree := script.tree, settings : Plan }.handleAll script.run { described := script.describe }).2

def messages (script : ResolvedScript) (settings : Settings) : List Wire.Message :=
  let plan : Plan := { tree := script.tree, settings }
  (if script.describe then script.tree.description plan.naming else []) ++
    plan.messages (script.notices settings)

def output (script : ResolvedScript) (settings : Settings) : String :=
  String.join ((script.messages settings).map (Wire.Message.renderLine settings.protocol))

end ResolvedScript

end RunStream
