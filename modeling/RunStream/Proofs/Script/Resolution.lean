import Mathlib.Data.List.Forall2
import RunStream.Proofs.Script.Planting

set_option autoImplicit false

namespace RunStream

open ScriptNode

namespace Script

def Labelled (script : Script) (id : NodeId) (label : String) : Prop :=
  (script.tree.nodes.map ScriptNode.label)[id]? = some (some label)

def SharesLabel (script : Script) : Prop :=
  ∃ first second label, first < second ∧ script.Labelled first label ∧
    script.Labelled second label

def Repeats (script : Script) (id : NodeId) (label : String) : Prop :=
  script.Labelled id label ∧ ∃ earlier < id, script.Labelled earlier label

def Misses (script : Script) (event : ScriptEvent) : Prop :=
  ∀ id, ¬ script.Labelled id event.node

def Names (script : Script) (event : ScriptEvent) (resolved : NodeId × Progress) : Prop :=
  resolved.2 = event.progress ∧ ∀ id, script.Labelled id event.node ↔ id = resolved.1

inductive Resolves (script : Script) : Except ScriptError ResolvedScript → Prop
  | repeated (id : NodeId) (label : String) (here : script.Repeats id label)
      (first : ∀ earlier < id, ∀ other, ¬ script.Repeats earlier other) :
      Resolves script (.error (.duplicateLabel label))
  | unknown (index : Nat) (event : ScriptEvent) (distinct : ¬ script.SharesLabel)
      (here : script.events[index]? = some event) (missing : script.Misses event)
      (first : ∀ earlier < index, ∀ other, script.events[earlier]? = some other →
        ¬ script.Misses other) :
      Resolves script (.error (.unknownLabel index event.node))
  | resolved (tree : Tree) (events : List (NodeId × Progress)) (distinct : ¬ script.SharesLabel)
      (mirrors : tree.Mirrors script.tree)
      (named : List.Forall₂ script.Names script.events events) :
      Resolves script (.ok { tree, describe := script.describe, events })

variable {script : Script}

theorem Labelled.unique {id : NodeId} {label other : String} (left : script.Labelled id label)
    (right : script.Labelled id other) : label = other := by
  simpa using left.symm.trans right

theorem SharesLabel.of_repeats {id : NodeId} {label : String} (again : script.Repeats id label) :
    script.SharesLabel := by
  obtain ⟨second, earlier, older, first⟩ := again
  exact ⟨earlier, id, label, older, first, second⟩

theorem rightUnique_names : Relator.RightUnique script.Names := by
  intro event left right here there
  have node : left.1 = right.1 := (there.2 left.1).mp ((here.2 left.1).mpr rfl)
  exact Prod.ext node (here.1.trans there.1.symm)

theorem not_misses_of_names {events : List ScriptEvent} {resolved : List (NodeId × Progress)}
    (named : List.Forall₂ script.Names events resolved) :
    ∀ event ∈ events, ¬ script.Misses event := by
  induction named with
  | nil => simp
  | cons names _ ih =>
      intro event member
      rcases List.mem_cons.mp member with rfl | later
      · exact fun missing => missing _ ((names.2 _).mpr rfl)
      · exact ih event later

theorem labelled_of_names {events : List ScriptEvent} {resolved : List (NodeId × Progress)}
    (named : List.Forall₂ script.Names events resolved) :
    ∀ pair ∈ resolved, ∃ label, script.Labelled pair.1 label := by
  induction named with
  | nil => simp
  | cons names _ ih =>
      intro pair member
      rcases List.mem_cons.mp member with rfl | later
      · exact ⟨_, (names.2 _).mpr rfl⟩
      · exact ih pair later

theorem Resolves.unique {left right : Except ScriptError ResolvedScript}
    (here : script.Resolves left) (there : script.Resolves right) : left = right := by
  cases here with
  | repeated id label again first =>
      cases there with
      | repeated id' label' again' first' =>
          rcases Nat.lt_trichotomy id id' with less | same | more
          · exact absurd again (first' id less label)
          · subst same
            rw [again.1.unique again'.1]
          · exact absurd again' (first id' more label')
      | unknown _ _ distinct => exact absurd (.of_repeats again) distinct
      | resolved _ _ distinct => exact absurd (.of_repeats again) distinct
  | unknown index event distinct present missing first =>
      cases there with
      | repeated id label again => exact absurd (.of_repeats again) distinct
      | unknown index' event' _ present' missing' first' =>
          rcases Nat.lt_trichotomy index index' with less | same | more
          · exact absurd missing (first' index less event present)
          · subst same
            rw [Option.some.inj (present.symm.trans present')]
          · exact absurd missing' (first index' more event' present')
      | resolved _ _ _ _ named =>
          exact absurd missing (not_misses_of_names named _ (List.mem_of_getElem? present))
  | resolved tree events distinct mirrors named =>
      cases there with
      | repeated id label again => exact absurd (.of_repeats again) distinct
      | unknown index event _ present missing =>
          exact absurd missing (not_misses_of_names named _ (List.mem_of_getElem? present))
      | resolved tree' events' _ mirrors' named' =>
          rw [mirrors.unique mirrors', List.right_unique_forall₂' rightUnique_names named named']

end Script

def Noted (labels : Labels) (names : List (Option String)) : Prop :=
  ∀ label id, labels.lookup label = some id ↔ names[id]? = some (some label)

theorem noted_nil : Noted [] [] := by simp [Noted]

theorem getElem?_concat_eq_some_iff {names : List (Option String)} {name value : Option String}
    {id : Nat} : (names ++ [name])[id]? = some value ↔
      names[id]? = some value ∨ id = names.length ∧ name = value := by
  rcases Nat.lt_trichotomy id names.length with less | rfl | more
  · simp [List.getElem?_append_left less, Nat.ne_of_lt less]
  · simp
  · have beyond : (names ++ [name]).length ≤ id := by
      rw [List.length_append]
      exact more
    rw [List.getElem?_eq_none beyond, List.getElem?_eq_none (Nat.le_of_lt more)]
    simp [Nat.ne_of_gt more]

theorem Noted.unlabelled {labels : Labels} {names : List (Option String)}
    (noted : Noted labels names) : Noted labels (names ++ [none]) := by
  intro label id
  rw [noted label id, getElem?_concat_eq_some_iff]
  simp

theorem Noted.labelled {labels : Labels} {names : List (Option String)} {name : String}
    (noted : Noted labels names) (fresh : labels.lookup name = none) :
    Noted ((name, names.length) :: labels) (names ++ [some name]) := by
  intro label id
  rw [getElem?_concat_eq_some_iff, ← noted label id]
  by_cases same : label = name
  · subst same
    simp [fresh, eq_comm]
  · simp [List.lookup_cons, beq_false_of_ne same, Ne.symm same]

theorem Noted.unique {labels : Labels} {names : List (Option String)} (noted : Noted labels names)
    {label : String} {first second : Nat} (here : names[first]? = some (some label))
    (there : names[second]? = some (some label)) : first = second := by
  rw [← noted] at here there
  exact Option.some.inj (here.symm.trans there)

theorem noteLabel_cases {labels : Labels} {names : List (Option String)}
    (noted : Noted labels names) (name : Option String) :
    (∃ larger, Script.noteLabel labels names.length name = .ok larger ∧
        Noted larger (names ++ [name])) ∨
      ∃ label, name = some label ∧ some label ∈ names ∧
        Script.noteLabel labels names.length name = .error (.duplicateLabel label) := by
  cases name with
  | none => exact .inl ⟨labels, rfl, noted.unlabelled⟩
  | some label =>
      cases known : labels.lookup label with
      | none =>
          exact .inl ⟨(label, names.length) :: labels, by simp [Script.noteLabel, known],
            noted.labelled known⟩
      | some id =>
          exact .inr ⟨label, rfl, List.mem_of_getElem? ((noted label id).mp known),
            by simp [Script.noteLabel, known]⟩

theorem noteLabels_cases {labels : Labels} {names : List (Option String)}
    (noted : Noted labels names) (rest : List (Option String)) :
    (∃ final, noteLabels labels names.length rest = .ok final ∧ Noted final (names ++ rest)) ∨
      ∃ labels' before label after,
        noteLabels labels names.length rest = .error (.duplicateLabel label) ∧
          names ++ rest = before ++ some label :: after ∧ some label ∈ before ∧
          Noted labels' before := by
  induction rest generalizing labels names with
  | nil => exact .inl ⟨labels, rfl, by simpa using noted⟩
  | cons name rest ih =>
      rcases noteLabel_cases noted name with ⟨larger, passed, next⟩ | ⟨label, rfl, again, refused⟩
      · have here : noteLabels labels names.length (name :: rest) =
            noteLabels larger (names.length + 1) rest := by
          rw [noteLabels, passed]
          rfl
        have later := ih next
        rw [List.length_append, List.append_assoc] at later
        rwa [here]
      · refine .inr ⟨labels, names, label, rest, ?_, rfl, again, noted⟩
        rw [noteLabels, refused]
        rfl

namespace Script

theorem resolveEvents_cases {script : Script} {labels : Labels}
    (noted : Noted labels (script.tree.nodes.map ScriptNode.label)) (index : Nat)
    (events : List ScriptEvent) :
    (∃ resolved, resolveEvents labels index events = .ok resolved ∧
        List.Forall₂ script.Names events resolved) ∨
      ∃ place event,
        resolveEvents labels index events = .error (.unknownLabel (index + place) event.node) ∧
          events[place]? = some event ∧ script.Misses event ∧
          ∀ earlier < place, ∀ other, events[earlier]? = some other → ¬ script.Misses other := by
  induction events generalizing index with
  | nil => exact .inl ⟨[], rfl, .nil⟩
  | cons event rest ih =>
      cases known : labels.lookup event.node with
      | none =>
          refine .inr ⟨0, event, by simp [resolveEvents, known], rfl, fun id here => ?_, by simp⟩
          rw [(noted event.node id).mpr here] at known
          cases known
      | some id =>
          have names : script.Names event (id, event.progress) := by
            refine ⟨rfl, fun other => ?_⟩
            rw [Labelled, ← noted event.node other, known, Option.some.injEq, eq_comm]
          have here : resolveEvents labels index (event :: rest) =
              ((id, event.progress) :: ·) <$> resolveEvents labels (index + 1) rest := by
            simp [resolveEvents, known]
          rw [here]
          rcases ih (index + 1) with ⟨resolved, passed, named⟩ | ⟨place, missed, refused, later⟩
          · exact .inl ⟨(id, event.progress) :: resolved, by rw [passed]; rfl, .cons names named⟩
          · obtain ⟨present, misses, first⟩ := later
            refine .inr ⟨place + 1, missed, ?_, present, misses, ?_⟩
            · rw [refused, Nat.add_right_comm]
              rfl
            · intro earlier less other atOther
              cases earlier with
              | zero =>
                  obtain rfl : event = other := by simpa using atOther
                  exact fun missing => missing id ((names.2 id).mpr rfl)
              | succ earlier => exact first earlier (by omega) other (by simpa using atOther)

theorem resolve_eq {script : Script} {tree : Tree}
    (goes : ∀ labels, addNodes (Tree.single script.tree.kind) labels
        (below Tree.root script.tree.children) =
      (tree, ·) <$> noteLabels labels 1 ((listNodes script.tree.children).map ScriptNode.label)) :
    script.resolve = do
      let labels ← noteLabels [] Tree.root (script.tree.nodes.map ScriptNode.label)
      let events ← resolveEvents labels 0 script.events
      return { tree, describe := script.describe, events } := by
  rw [resolve, nodes_eq, List.map_cons, noteLabels]
  cases noteLabel [] Tree.root script.tree.label with
  | error cause => rfl
  | ok labels =>
      change (addNodes _ labels (below Tree.root script.tree.children) >>= _) =
        (noteLabels labels 1 _ >>= _)
      rw [goes]
      cases noteLabels labels 1 _ <;> rfl

theorem not_sharesLabel {script : Script} {labels : Labels}
    (noted : Noted labels (script.tree.nodes.map ScriptNode.label)) : ¬ script.SharesLabel := by
  intro shares
  obtain ⟨first, second, label, less, here, there⟩ := shares
  exact Nat.ne_of_lt less (noted.unique here there)

-- The labels before the repeated one are all different, so none of them repeats another.
theorem resolves_repeated {script : Script} {labels : Labels} {before after : List (Option String)}
    {label : String}
    (split : script.tree.nodes.map ScriptNode.label = before ++ some label :: after)
    (again : some label ∈ before) (noted : Noted labels before) :
    script.Resolves (.error (.duplicateLabel label)) := by
  have early {id : Nat} {other : String} (inside : id < before.length) :
      script.Labelled id other ↔ before[id]? = some (some other) := by
    rw [Labelled, split, List.getElem?_append_left inside]
  obtain ⟨earlier, older, here⟩ := List.getElem_of_mem again
  refine .repeated before.length label ⟨?_, earlier, older, ?_⟩ fun id inside other repeats => ?_
  · simp [Labelled, split]
  · rw [early older, List.getElem?_eq_getElem older, here]
  · obtain ⟨second, third, less, first⟩ := repeats
    have one := (early inside).mp second
    have two := (early (Nat.lt_trans less inside)).mp first
    exact Nat.ne_of_lt less (noted.unique two one)

theorem resolve_resolves (script : Script) : script.Resolves script.resolve := by
  obtain ⟨tree, mirrors, goes⟩ := exists_mirror script.tree
  rw [resolve_eq goes]
  rcases noteLabels_cases noted_nil (script.tree.nodes.map ScriptNode.label) with
    ⟨labels, passed, noted⟩ | ⟨labels, before, label, after, refused, split, again, noted⟩
  · have distinct := not_sharesLabel noted
    rw [show noteLabels [] Tree.root _ = _ from passed]
    rcases resolveEvents_cases noted 0 script.events with
      ⟨events, resolved, named⟩ | ⟨index, event, missed, present, misses, first⟩
    · change script.Resolves (resolveEvents labels 0 script.events >>= _)
      rw [resolved]
      exact .resolved tree events distinct mirrors named
    · change script.Resolves (resolveEvents labels 0 script.events >>= _)
      rw [missed, Nat.zero_add]
      exact .unknown index event distinct present misses first
  · rw [show noteLabels [] Tree.root _ = _ from refused]
    exact resolves_repeated split again noted

-- What an event was resolved to is a node of the tree, so a replay drops no event.
theorem concerns_run {script : Script} {resolved : ResolvedScript}
    (resolves : script.Resolves (.ok resolved)) :
    ∀ event ∈ resolved.run, event.concerns resolved.tree = true := by
  cases resolves with
  | resolved tree events distinct mirrors named =>
      intro event member
      simp only [ResolvedScript.run, List.cons_append, List.mem_cons, List.mem_append,
        List.mem_map, List.not_mem_nil, or_false] at member
      rcases member with rfl | ⟨pair, inEvents, rfl⟩ | rfl
      · rfl
      · obtain ⟨label, here⟩ := labelled_of_names named pair inEvents
        have inside := (List.getElem?_eq_some_iff.mp here).1
        rw [List.length_map, ← mirrors.size] at inside
        exact Tree.contains_iff.mpr inside
      · rfl

-- A repeated label is told of before an event without a node, and the tree is never the reason.
theorem resolve_exact (script : Script) :
    (∀ outcome, script.resolve = outcome ↔ script.Resolves outcome) ∧
      (∀ cause, script.resolve ≠ .error (.badTree cause)) ∧
      ((∃ label, script.resolve = .error (.duplicateLabel label)) ↔ script.SharesLabel) ∧
      ((∃ index label, script.resolve = .error (.unknownLabel index label)) ↔
        ¬ script.SharesLabel ∧ ∃ event ∈ script.events, script.Misses event) ∧
      ((∃ resolved, script.resolve = .ok resolved) ↔
        ¬ script.SharesLabel ∧ ∀ event ∈ script.events, ¬ script.Misses event) ∧
      ∀ resolved, script.resolve = .ok resolved →
        ∀ event ∈ resolved.run, event.concerns resolved.tree = true := by
  have whole := script.resolve_resolves
  refine ⟨fun outcome => ⟨fun same => same ▸ whole, whole.unique⟩, ?_⟩
  generalize script.resolve = outcome at whole
  cases whole with
  | repeated id label here first =>
      have shares := SharesLabel.of_repeats here
      simp [shares]
  | unknown index event distinct here missing first =>
      have missed : ∃ event ∈ script.events, script.Misses event :=
        ⟨event, List.mem_of_getElem? here, missing⟩
      have unmet : ¬ ∀ event ∈ script.events, ¬ script.Misses event := fun all =>
        all event (List.mem_of_getElem? here) missing
      simp [distinct, missed, unmet]
  | resolved tree events distinct mirrors named =>
      have known := not_misses_of_names named
      have kept := concerns_run (.resolved tree events distinct mirrors named)
      refine ⟨by simp, by simp [distinct], ?_, ?_, ?_⟩
      · simpa [distinct] using known
      · simpa [distinct] using known
      · simpa using kept

example :
    ({ tree := .container "all" (some "x") [.leaf "a.S" "t" (some "x")]
       events := [{ node := "y", progress := .started }] } : Script).resolve =
      .error (.duplicateLabel "x") := by
  rfl

end Script

end RunStream
