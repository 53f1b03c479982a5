import Mathlib
import RunStream.Command.Outcome
import RunStream.Proofs.Live.TestBlocks
import RunStream.Proofs.Report.Failing
import RunStream.Proofs.Tree.Described
import RunStream.Proofs.Wire.Stream

set_option autoImplicit false

namespace RunStream

open Wire Text

def Settings.Accepted (settings : Settings) : Prop :=
  settings = {} ∨ ∃ path text, (Settings.ofText path text).result = .ok settings

namespace Settings

variable {settings : Settings}

theorem Accepted.complaint? (accepted : settings.Accepted) : settings.complaint? = none := by
  rcases accepted with rfl | ⟨path, text, loaded⟩
  · decide +kernel
  · unfold ofText ofDocument at loaded
    split at loaded
    · cases loaded
    · split at loaded
      · cases loaded
      · simp only at loaded
        split at loaded
        · cases loaded
        · next free =>
            cases loaded
            exact free

theorem Accepted.protocol_plain (accepted : settings.Accepted) :
    '\n' ∉ settings.protocol.toList := by
  intro member
  have free := accepted.complaint?
  unfold Settings.complaint? at free
  split at free
  · cases free
  · split at free
    · cases free
    · next none =>
        have passes := List.find?_eq_none.mp none '\n' member
        exact passes (by decide)

end Settings

theorem names_plain : ∀ name ∈ Plan.names ++ Tree.describedNames,
    isWord name.toList = true ∧ '\n' ∉ name.toList := by
  decide +kernel

theorem keys_unbroken : ∀ key ∈ Plan.keys, '\n' ∉ key.toList := by
  decide +kernel

namespace Plan

variable {plan : Plan} {session : Session}

theorem linesOf_append (left right : List Message) :
    plan.linesOf (left ++ right) = plan.linesOf left ++ plan.linesOf right := by
  simp [linesOf]

theorem reached_due (plan : Plan) (call : Call) (session : Session) :
    (plan.due call session).reached =
      toBytes (plan.linesOf (plan.produce call session).2.2) := by
  by_cases none : (plan.produce call session).2.2 = []
  · rw [due_quiet none, none]
    exact toBytes_empty.symm
  · rw [due_loud none]

theorem reachedBytes_ideal_cons (call : Call) (rest : List Call) :
    reachedBytes (plan.ideal (call :: rest) session).2 =
      toBytes (plan.linesOf (plan.produce call session).2.2) ++
        reachedBytes (plan.ideal rest (plan.produce call session).1).2 := by
  rw [ideal_cons, ← reached_due]
  rfl

theorem reachedBytes_ideal_events (events : List Event) (session : Session) :
    reachedBytes (plan.ideal (events.map .event) session).2 =
      toBytes (plan.linesOf (plan.messages (plan.handleAll events session).2)) := by
  induction events generalizing session with
  | nil => exact toBytes_empty.symm
  | cons event rest ih =>
      have written : plan.messages (plan.handleAll (event :: rest) session).2 =
          plan.messages (plan.handle event session).2 ++
            plan.messages (plan.handleAll rest (plan.handle event session).1).2 :=
        plan.messages_append _ _
      rw [List.map_cons, reachedBytes_ideal_cons, written, linesOf_append, toBytes_append]
      exact congrArg _ (ih _)

theorem run_checked (events : List Event) (described : Bool)
    (alternate : ∀ leaf, plan.tree.isLeaf leaf = true → Alternates leaf events)
    (index : Nat) (summary : NestingSummary) :
    ∃ counted, checkFrom index [] summary
        (plan.messages (plan.handleAll (events ++ [.runFinished]) { described }).2) =
      .ok counted := by
  have sound := @soundSession_fresh plan described
  have course := handleAll_course (events ++ [.runFinished]) _ sound
  have followed := course.follow sound
  have attended := course.attend sound (.fresh alternate described)
  rw [handleAll_finished events sound] at followed attended
  exact exists_checkFrom_eq_ok attended followed index summary

end Plan

namespace ResolvedScript

variable {script : ResolvedScript} {settings : Settings}

def calls (script : ResolvedScript) : List Call :=
  (if script.describe then [.describe] else []) ++ script.run.map .event

theorem mem_messages {message : Message} (member : message ∈ script.messages settings) :
    message.name ∈ Plan.names ++ Tree.describedNames ∧
      ∀ entry ∈ message.attributes, entry.1 ∈ Plan.keys := by
  simp only [messages, List.mem_append, Plan.messages, List.mem_filterMap] at member
  rcases member with described | ⟨notice, _, written⟩
  · split at described
    · obtain ⟨name, keys⟩ := Tree.mem_description described
      have listed : ["name", "locationHint"] ⊆ Plan.keys := by decide
      exact ⟨List.mem_append_right _ name, fun entry given => listed (keys entry given)⟩
    · simp at described
  · exact ⟨List.mem_append_left _ (Plan.message?_name written), Plan.message?_keys written⟩

theorem wellFormed_messages :
    ∀ message ∈ script.messages settings, message.WellFormed := by
  intro message member
  obtain ⟨name, keys⟩ := mem_messages member
  exact ⟨(names_plain _ name).1, fun entry given => Plan.keys_plain _ (keys entry given)⟩

theorem unbroken_messages :
    ∀ message ∈ script.messages settings, message.Unbroken := by
  intro message member
  obtain ⟨name, keys⟩ := mem_messages member
  exact ⟨(names_plain _ name).2, fun entry given => keys_unbroken _ (keys entry given)⟩

theorem neutral_preface (script : ResolvedScript) (naming : Naming) :
    Neutral (if script.describe then script.tree.description naming else []) := by
  split
  · exact Tree.neutral_description naming script.tree
  · exact neutral_nil

theorem messages_checked (script : ResolvedScript) (settings : Settings)
    (alternate : ∀ leaf, script.tree.isLeaf leaf = true →
      Alternates leaf (script.events.map fun (id, progress) => .node id progress)) :
    checkNesting (script.messages settings) =
      .ok (({} : NestingSummary).add (script.messages settings)) := by
  let plan : Plan := { tree := script.tree, settings }
  have turns (leaf : NodeId) (known : plan.tree.isLeaf leaf = true) : Alternates leaf
      (.runStarted :: script.events.map fun (id, progress) => .node id progress) := by
    rw [Alternates, busyAfter?_ends rfl]
    exact alternate leaf known
  obtain ⟨position, described, between⟩ :=
    script.neutral_preface plan.naming 0 [] {} (plan.messages (script.notices settings))
  obtain ⟨counted, checked⟩ := plan.run_checked _ script.describe turns position described
  have whole : checkNesting (script.messages settings) = .ok counted := between.trans checked
  rw [whole, eq_add_of_checkFrom whole]

theorem reachedBytes_calls (script : ResolvedScript) (settings : Settings) :
    reachedBytes (({ tree := script.tree, settings } : Plan).ideal script.calls {}).2 =
      toBytes (script.output settings) := by
  let plan : Plan := { tree := script.tree, settings }
  have text : script.output settings = plan.linesOf (script.messages settings) := rfl
  have run := @Plan.reachedBytes_ideal_events plan script.run { described := script.describe }
  rw [text, messages, Plan.linesOf_append, toBytes_append, notices, ← run, calls]
  cases script.describe with
  | false =>
      have nothing : toBytes (plan.linesOf []) = [] := toBytes_empty
      simp only [Bool.false_eq_true, if_false, nothing]
      rfl
  | true => exact Plan.reachedBytes_ideal_cons .describe _

end ResolvedScript

namespace Command

variable {settings : Settings} {text : String} {script : Script} {resolved : ResolvedScript}

theorem replay_passes_check (accepted : settings.Accepted)
    (parsed : Script.parse? text = some script) (resolves : script.resolve = .ok resolved)
    (alternate : ∀ leaf, resolved.tree.isLeaf leaf = true →
      Alternates leaf (resolved.events.map fun (id, progress) => .node id progress))
    (source : Input) :
    let output := resolved.output settings
    let messages := resolved.messages settings
    Task.run settings text (.replay source) = .ok (replayEntries settings resolved, output) ∧
      reachedBytes (({ tree := resolved.tree, settings } : Plan).ideal resolved.calls {}).2 =
        toBytes output ∧
      decodeLines settings.protocol 0 (lines output.toList) = .ok messages ∧
      checkText settings.protocol output =
        .ok { suites := messages.countP opensSuite, tests := messages.countP opensTest } := by
  intro output messages
  have written : lines output.toList = writtenLines settings.protocol messages :=
    lines_written accepted.protocol_plain ResolvedScript.unbroken_messages
  have wellFormed := @ResolvedScript.wellFormed_messages resolved settings
  refine ⟨?_, resolved.reachedBytes_calls settings, ?_, ?_⟩
  · simp only [Task.run, parsed, resolves]
    rfl
  · rw [written, decodeLines_written wellFormed]
  · rw [checkText_written written wellFormed, resolved.messages_checked settings alternate]
    simp [NestingSummary.add, messages]

def oddNames : String := r#"{
  "tree": {"container": {"name": "all", "children": [
    {"container": {"name": "|Ü]", "children": [
      {"leaf": {"class": "a.S", "method": "it's 💥", "id": "t"}}]}}]}},
  "events": [{"event": "test-started", "node": "t"}]
}"#

def oddScript : Script where
  tree := .container "all" none [.container "|Ü]" none [.leaf "a.S" "it's 💥" (some "t")]]
  events := [{ node := "t", progress := .started }]

def oddResolved : ResolvedScript where
  tree := ((Tree.single (.container "all")).addAll
    [(0, .container "|Ü]"), (1, .leaf "a.S" "it's 💥")]).1
  describe := true
  events := [(2, .started)]

theorem odd_names_pass_check :
    ∃ entries output, Task.run {} oddNames (.replay .standard) = .ok (entries, output) ∧
      checkText "teamcity" output = .ok { suites := 2, tests := 1 } := by
  have alternate (leaf : NodeId) (_ : oddResolved.tree.isLeaf leaf = true) :
      Alternates leaf (oddResolved.events.map fun (id, progress) => .node id progress) := by
    by_cases same : leaf = 2
    · subst same
      rfl
    · simp [Alternates, busyAfter?, turn?, oddResolved, Ne.symm same]
  have parsed : Script.parse? oddNames = some oddScript := by cbv
  have resolves : oddScript.resolve = .ok oddResolved := rfl
  obtain ⟨replayed, _, _, checked⟩ :=
    replay_passes_check (.inl rfl) parsed resolves alternate .standard
  have suites : (oddResolved.messages {}).countP opensSuite = 2 := by decide +kernel
  have tests : (oddResolved.messages {}).countP opensTest = 1 := by decide +kernel
  rw [suites, tests] at checked
  exact ⟨_, _, replayed, checked⟩

end Command

end RunStream
