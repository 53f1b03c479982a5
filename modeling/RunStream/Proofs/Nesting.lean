import RunStream.Nesting

set_option autoImplicit false

namespace RunStream

open Wire

variable {index : Nat} {opened : List (Bracket × String)} {summary : NestingSummary}
  {message : Message} {rest : List Message} {bracket : Bracket} {name : String}

theorem checkFrom_opening (sort : bracket? message.name = some (bracket, .opening))
    (named : message.nameAttribute? = some name) :
    checkFrom index opened summary (message :: rest) =
      checkFrom (index + 1) ((bracket, name) :: opened) (summary.count bracket) rest := by
  simp [checkFrom, sort, named]

theorem checkFrom_closing (sort : bracket? message.name = some (bracket, .closing))
    (named : message.nameAttribute? = some name) :
    checkFrom index ((bracket, name) :: opened) summary (message :: rest) =
      checkFrom (index + 1) opened summary rest := by
  simp [checkFrom, sort, named]

theorem checkFrom_other (sort : bracket? message.name = none) :
    checkFrom index opened summary (message :: rest) =
      checkFrom (index + 1) opened summary rest := by
  simp [checkFrom, sort]

def Neutral (messages : List Message) : Prop :=
  ∀ index opened summary rest, ∃ position counted,
    checkFrom index opened summary (messages ++ rest) = checkFrom position opened counted rest

theorem neutral_nil : Neutral [] :=
  fun index _ summary _ => ⟨index, summary, rfl⟩

theorem Neutral.append {left right : List Message} (first : Neutral left) (second : Neutral right) :
    Neutral (left ++ right) := by
  intro index opened summary rest
  obtain ⟨middle, between, here⟩ := first index opened summary (right ++ rest)
  obtain ⟨position, counted, there⟩ := second middle opened between rest
  exact ⟨position, counted, by rw [List.append_assoc, here, there]⟩

theorem neutral_flatMap {α : Type} {items : List α} {messages : α → List Message}
    (each : ∀ item ∈ items, Neutral (messages item)) : Neutral (items.flatMap messages) := by
  induction items with
  | nil => exact neutral_nil
  | cons item rest ih =>
      exact (each item (List.mem_cons_self ..)).append
        (ih fun other member => each other (List.mem_cons_of_mem _ member))

theorem neutral_other (sort : bracket? message.name = none) : Neutral [message] :=
  fun index _ summary _ => ⟨index + 1, summary, checkFrom_other sort⟩

theorem Neutral.enclosed {inner : List Message} {last : Message} (neutral : Neutral inner)
    (opens : bracket? message.name = some (bracket, .opening))
    (closes : bracket? last.name = some (bracket, .closing))
    (named : message.nameAttribute? = some name) (same : last.nameAttribute? = some name) :
    Neutral (message :: inner ++ [last]) := by
  intro index opened summary rest
  obtain ⟨position, counted, inside⟩ :=
    neutral (index + 1) ((bracket, name) :: opened) (summary.count bracket) (last :: rest)
  refine ⟨position + 1, counted, ?_⟩
  rw [List.cons_append, List.cons_append, checkFrom_opening opens named, List.append_assoc,
    List.singleton_append, inside, checkFrom_closing closes same]

def opensTest (message : Message) : Bool :=
  decide (message.name = "testStarted")

def opensSuite (message : Message) : Bool :=
  decide (message.name = "testSuiteStarted" ∨ message.name = "suiteTreeStarted")

def NestingSummary.add (summary : NestingSummary) (messages : List Message) : NestingSummary where
  suites := summary.suites + messages.countP opensSuite
  tests := summary.tests + messages.countP opensTest

theorem bracket?_opening :
    bracket? message.name = some (bracket, .opening) ↔
      message.name = "testSuiteStarted" ∧ bracket = .suite ∨
        message.name = "testStarted" ∧ bracket = .test ∨
          message.name = "suiteTreeStarted" ∧ bracket = .describedSuite := by
  unfold bracket?
  split
  · next named => simp [named, eq_comm]
  · split
    · next named => simp [named]
    · split
      · next named => simp [named, eq_comm]
      · split
        · next named => simp [named]
        · split
          · next named => simp [named, eq_comm]
          · split <;> simp_all

theorem add_of_opening (sort : bracket? message.name = some (bracket, .opening))
    (summary : NestingSummary) (rest : List Message) :
    summary.add (message :: rest) = (summary.count bracket).add rest := by
  rcases bracket?_opening.mp sort with ⟨named, rfl⟩ | ⟨named, rfl⟩ | ⟨named, rfl⟩ <;>
    simp [NestingSummary.add, NestingSummary.count, opensSuite, opensTest, named,
      Nat.add_comm, Nat.add_left_comm]

theorem add_of_not_opening (sort : ∀ bracket, bracket? message.name ≠ some (bracket, .opening))
    (summary : NestingSummary) (rest : List Message) :
    summary.add (message :: rest) = summary.add rest := by
  have names : message.name ≠ "testSuiteStarted" ∧ message.name ≠ "testStarted" ∧
      message.name ≠ "suiteTreeStarted" :=
    ⟨fun named => sort .suite (bracket?_opening.mpr (.inl ⟨named, rfl⟩)),
      fun named => sort .test (bracket?_opening.mpr (.inr (.inl ⟨named, rfl⟩))),
      fun named => sort .describedSuite (bracket?_opening.mpr (.inr (.inr ⟨named, rfl⟩)))⟩
  simp [NestingSummary.add, opensSuite, opensTest, names]

-- A check that succeeds has passed every message, so it has counted every one that opens.
theorem eq_add_of_checkFrom {messages : List Message} {counted : NestingSummary}
    (checked : checkFrom index opened summary messages = .ok counted) :
    counted = summary.add messages := by
  induction messages generalizing index opened summary with
  | nil =>
      simp only [checkFrom] at checked
      split at checked
      · cases checked
        rfl
      · cases checked
  | cons message rest ih =>
      rw [checkFrom] at checked
      split at checked
      · next other =>
          rw [add_of_not_opening (by simp [other])]
          exact ih checked
      · next bracket side sort =>
          split at checked
          · cases checked
          · split at checked
            · rw [add_of_opening sort]
              exact ih checked
            · rw [add_of_not_opening (by simp [sort])]
              split at checked
              · cases checked
              · split at checked
                · exact ih checked
                · cases checked

theorem Neutral.checked {messages : List Message} (neutral : Neutral messages) :
    checkNesting messages = .ok (({} : NestingSummary).add messages) := by
  obtain ⟨position, counted, passed⟩ := neutral 0 [] {} []
  rw [List.append_nil] at passed
  have checked : checkNesting messages = .ok counted := passed
  rw [checked, eq_add_of_checkFrom checked]

end RunStream
