import RunStream.Wire.Message

set_option autoImplicit false

namespace RunStream.Wire

def trackSuites? (opens closes : String) (suites : List (String × String)) (message : Message) :
    Option (List (String × String)) :=
  if message.name = opens then
    match message.get? "name", message.get? "locationHint" with
    | some name, some location => some (suites ++ [(name, location)])
    | _, _ => none
  else if message.name = closes then
    match suites.getLast?, message.get? "name" with
    | some (opened, _), some name => if opened = name then some suites.dropLast else none
    | _, _ => none
  else some suites

def suitesAfter? (opens closes : String) (suites : List (String × String))
    (messages : List Message) : Option (List (String × String)) :=
  messages.foldlM (trackSuites? opens closes) suites

def enclosing? (opens closes : String) (messages : List Message) :
    Option (List (String × String)) :=
  suitesAfter? opens closes [] messages

theorem foldlM_append_of_eq_some {State Item : Type} {step : State → Item → Option State}
    {start middle : State} {first : List Item} (here : first.foldlM step start = some middle)
    (second : List Item) : (first ++ second).foldlM step start = second.foldlM step middle := by
  rw [List.foldlM_append, here]
  rfl

theorem foldlM_cons_eq_some {State Item : Type} {step : State → Item → Option State}
    {start final : State} {first : Item} {rest : List Item}
    (whole : (first :: rest).foldlM step start = some final) :
    ∃ middle, step start first = some middle ∧ rest.foldlM step middle = some final := by
  rw [List.foldlM_cons] at whole
  exact Option.bind_eq_some_iff.mp whole

variable {opens closes : String} {suites : List (String × String)} {message : Message}

theorem trackSuites?_open {name location : String} (opening : message.name = opens)
    (named : message.get? "name" = some name)
    (located : message.get? "locationHint" = some location) :
    trackSuites? opens closes suites message = some (suites ++ [(name, location)]) := by
  simp [trackSuites?, opening, named, located]

theorem trackSuites?_close {name location : String} (different : closes ≠ opens)
    (closing : message.name = closes) (named : message.get? "name" = some name) :
    trackSuites? opens closes (suites ++ [(name, location)]) message = some suites := by
  simp [trackSuites?, closing, different, named]

theorem trackSuites?_other (notOpening : message.name ≠ opens)
    (notClosing : message.name ≠ closes) :
    trackSuites? opens closes suites message = some suites := by
  simp [trackSuites?, notOpening, notClosing]

end RunStream.Wire
