import RunStream.Proofs.Brackets
import RunStream.Proofs.Nesting

set_option autoImplicit false

namespace RunStream

open Wire

variable {opened : List (Bracket × String)} {message : Message} {messages : List Message}

def nestingBracket? (message : Message) : Option (Side × Bracket × String) :=
  match bracket? message.name, message.nameAttribute? with
  | some (bracket, side), some name => some (side, bracket, name)
  | _, _ => none

def nestingBrackets (messages : List Message) : List (Side × Bracket × String) :=
  messages.filterMap nestingBracket?

theorem nestingBrackets_cons (message : Message) (rest : List Message) :
    nestingBrackets (message :: rest) =
      (nestingBracket? message).toList ++ nestingBrackets rest := by
  cases sort : nestingBracket? message <;> simp [nestingBrackets, sort]

def Named (message : Message) : Prop :=
  bracket? message.name ≠ none → message.nameAttribute? ≠ none

structure WellNested (messages : List Message) : Prop where
  named : ∀ message ∈ messages, Named message
  balanced : Balanced (nestingBrackets messages)

def nest? (opened : List (Bracket × String)) (message : Message) :
    Option (List (Bracket × String)) :=
  match bracket? message.name, message.nameAttribute? with
  | none, _ => some opened
  | some _, none => none
  | some (bracket, side), some name => restack? opened (side, bracket, name)

def openAfter? (opened : List (Bracket × String)) (messages : List Message) :
    Option (List (Bracket × String)) :=
  messages.foldlM nest? opened

theorem nest?_eq_some {next : List (Bracket × String)} :
    nest? opened message = some next ↔
      Named message ∧ stackAfter? opened (nestingBracket? message).toList = some next := by
  unfold nest? Named nestingBracket?
  cases bracket? message.name with
  | none => simp [stackAfter?]
  | some sort => cases message.nameAttribute? <;> simp [stackAfter?]

theorem openAfter?_eq_some {final : List (Bracket × String)} :
    openAfter? opened messages = some final ↔ (∀ message ∈ messages, Named message) ∧
      stackAfter? opened (nestingBrackets messages) = some final := by
  induction messages generalizing opened with
  | nil => simp [openAfter?, nestingBrackets, stackAfter?]
  | cons message rest ih =>
      rw [nestingBrackets_cons, List.forall_mem_cons]
      constructor
      · intro followed
        obtain ⟨middle, step, later⟩ := foldlM_cons_eq_some followed
        obtain ⟨here, stacked⟩ := nest?_eq_some.mp step
        obtain ⟨named, final⟩ := ih.mp later
        exact ⟨⟨here, named⟩, stackAfter?_append stacked _ ▸ final⟩
      · rintro ⟨⟨here, named⟩, stacked⟩
        rw [stackAfter?, List.foldlM_append] at stacked
        obtain ⟨middle, step, later⟩ := Option.bind_eq_some_iff.mp stacked
        rw [openAfter?, List.foldlM_cons, nest?_eq_some.mpr ⟨here, step⟩]
        exact ih.mpr ⟨named, later⟩

theorem wellNested_iff : WellNested messages ↔ openAfter? [] messages = some [] := by
  have nothing := @leavesOpen_iff _ _ ([] : List (Bracket × String)) (nestingBrackets messages)
  rw [List.reverse_nil] at nothing
  rw [openAfter?_eq_some, ← nothing]
  exact ⟨fun nested => ⟨nested.named, .nothing nested.balanced⟩,
    fun both => ⟨both.1, both.2.balanced⟩⟩

theorem checkFrom_nest {next : List (Bracket × String)} (step : nest? opened message = some next)
    (index : Nat) (summary : NestingSummary) (rest : List Message) :
    checkFrom index opened summary (message :: rest) =
      checkFrom (index + 1) next (summary.add [message]) rest := by
  unfold nest? at step
  split at step
  · next other =>
      obtain rfl := Option.some.inj step
      rw [checkFrom_other other, add_of_not_opening (by simp [other])]
      rfl
  · cases step
  · next bracket side name sort named =>
      cases side with
      | opening =>
          obtain rfl := Option.some.inj step
          rw [checkFrom_opening sort named, add_of_opening sort]
          rfl
      | closing =>
          cases opened with
          | nil => cases step
          | cons top outer =>
              obtain ⟨rfl, rfl⟩ : top = (bracket, name) ∧ outer = next := by
                simpa [restack?] using step
              rw [checkFrom_closing sort named, add_of_not_opening (by simp [sort])]
              rfl

def nestingFault (index : Nat) (opened : List (Bracket × String)) (message : Message) :
    NestingError :=
  match message.nameAttribute? with
  | none => .missingName index message.name
  | some name => .unexpectedClose index message.name name (opened.head?.map Prod.snd)

section Fault

variable {position index : Nat} {sort closed : String} {innermost : Option String}

theorem nestingFault_eq_missingName :
    nestingFault position opened message = .missingName index sort ↔
      position = index ∧ message.name = sort ∧ message.nameAttribute? = none := by
  unfold nestingFault
  split <;> simp_all

theorem nestingFault_eq_unexpectedClose :
    nestingFault position opened message = .unexpectedClose index sort closed innermost ↔
      position = index ∧ message.name = sort ∧ message.nameAttribute? = some closed ∧
        opened.head?.map Prod.snd = innermost := by
  unfold nestingFault
  split <;> simp_all

theorem nestingFault_ne_unclosed (names : List String) :
    nestingFault position opened message ≠ .unclosed names := by
  unfold nestingFault
  split <;> simp

theorem nestingFault_ne_undecodable (cause : ParseError) :
    nestingFault position opened message ≠ .undecodable index cause := by
  unfold nestingFault
  split <;> simp

end Fault

theorem checkFrom_fault (stop : nest? opened message = none) (index : Nat)
    (summary : NestingSummary) (rest : List Message) :
    checkFrom index opened summary (message :: rest) =
      .error (nestingFault index opened message) := by
  unfold nest? at stop
  split at stop
  · cases stop
  · next sort bracketing unnamed => simp [checkFrom, bracketing, unnamed, nestingFault]
  · next bracket side name sort named =>
      cases side with
      | opening => cases stop
      | closing =>
          cases opened with
          | nil => simp [checkFrom, sort, named, nestingFault]
          | cons top outer =>
              have other : top ≠ (bracket, name) := by simpa [restack?] using stop
              simp [checkFrom, sort, named, nestingFault, other]

theorem checkFrom_openAfter {final : List (Bracket × String)}
    (followed : openAfter? opened messages = some final) (index : Nat) (summary : NestingSummary)
    (rest : List Message) :
    checkFrom index opened summary (messages ++ rest) =
      checkFrom (index + messages.length) final (summary.add messages) rest := by
  induction messages generalizing index opened summary with
  | nil =>
      obtain rfl := Option.some.inj followed
      rfl
  | cons message more ih =>
      obtain ⟨middle, step, later⟩ := foldlM_cons_eq_some followed
      have counted : (summary.add [message]).add more = summary.add (message :: more) := by
        simp [NestingSummary.add, List.countP_cons]
        omega
      rw [List.cons_append, checkFrom_nest step, ih later, counted, List.length_cons]
      congr 1
      omega

theorem exists_stop (missing : openAfter? opened messages = none) :
    ∃ before message after middle, messages = before ++ message :: after ∧
      openAfter? opened before = some middle ∧ nest? middle message = none := by
  induction messages generalizing opened with
  | nil => cases missing
  | cons message rest ih =>
      cases step : nest? opened message with
      | none => exact ⟨[], message, rest, opened, rfl, rfl, step⟩
      | some next =>
          have later : openAfter? next rest = none := by
            simpa [openAfter?, step] using missing
          obtain ⟨before, stopping, after, middle, rfl, followed, stop⟩ := ih later
          refine ⟨message :: before, stopping, after, middle, rfl, ?_, stop⟩
          simpa [openAfter?, step] using followed

def closer (label : Bracket × String) : Message where
  name :=
    match label.1 with
    | .suite => "testSuiteFinished"
    | .test => "testFinished"
    | .describedSuite => "suiteTreeEnded"
  attributes := [("name", label.2)]

theorem nest?_closer (label : Bracket × String) (outer : List (Bracket × String)) :
    nest? (label :: outer) (closer label) = some outer := by
  obtain ⟨bracket, name⟩ := label
  have sort : bracket? (closer (bracket, name)).name = some (bracket, .closing) := by
    cases bracket <;> rfl
  have named : (closer (bracket, name)).nameAttribute? = some name := rfl
  simp [nest?, sort, named, restack?]

theorem openAfter?_closers (opened : List (Bracket × String)) :
    openAfter? opened (opened.map closer) = some [] := by
  induction opened with
  | nil => rfl
  | cons label outer ih =>
      rw [List.map_cons, openAfter?, List.foldlM_cons, nest?_closer]
      exact ih

def Extendable (messages : List Message) : Prop :=
  ∃ more summary, checkNesting (messages ++ more) = .ok summary

theorem checkNesting_open (followed : openAfter? [] messages = some opened) :
    checkNesting messages =
      if opened.isEmpty then .ok (({} : NestingSummary).add messages)
      else .error (.unclosed (opened.reverse.map Prod.snd)) := by
  have whole := checkFrom_openAfter followed 0 {} []
  rw [List.append_nil] at whole
  exact whole

theorem checkNesting_stop {before after : List Message}
    (followed : openAfter? [] before = some opened) (stop : nest? opened message = none) :
    checkNesting (before ++ message :: after) =
      .error (nestingFault before.length opened message) := by
  rw [checkNesting, checkFrom_openAfter followed, checkFrom_fault stop, Nat.zero_add]

theorem checkNesting_cases (messages : List Message) :
    (∃ opened, openAfter? [] messages = some opened) ∨
      ∃ before message after opened, messages = before ++ message :: after ∧
        openAfter? [] before = some opened ∧ nest? opened message = none ∧
        checkNesting messages = .error (nestingFault before.length opened message) := by
  cases followed : openAfter? [] messages with
  | none =>
      obtain ⟨before, message, after, opened, rfl, followed, stop⟩ := exists_stop followed
      exact .inr ⟨before, message, after, opened, rfl, followed, stop,
        checkNesting_stop followed stop⟩
  | some opened => exact .inl ⟨opened, rfl⟩

theorem checkNesting_ok_iff {summary : NestingSummary} :
    checkNesting messages = .ok summary ↔
      openAfter? [] messages = some [] ∧ summary = ({} : NestingSummary).add messages := by
  constructor
  · intro checked
    rcases checkNesting_cases messages with ⟨opened, followed⟩ | ⟨_, _, _, _, _, _, _, failed⟩
    · rw [checkNesting_open followed] at checked
      cases opened with
      | nil => exact ⟨followed, (Except.ok.inj checked).symm⟩
      | cons label outer => cases checked
    · cases failed.symm.trans checked
  · rintro ⟨followed, rfl⟩
    exact checkNesting_open followed

theorem extendable_iff : Extendable messages ↔ ∃ opened, openAfter? [] messages = some opened := by
  constructor
  · rintro ⟨more, summary, checked⟩
    have whole := (checkNesting_ok_iff.mp checked).1
    rw [openAfter?, List.foldlM_append] at whole
    obtain ⟨opened, followed, _⟩ := Option.bind_eq_some_iff.mp whole
    exact ⟨opened, followed⟩
  · rintro ⟨opened, followed⟩
    refine ⟨opened.map closer, _, checkNesting_ok_iff.mpr ⟨?_, rfl⟩⟩
    exact (foldlM_append_of_eq_some followed _).trans (openAfter?_closers opened)

theorem leavesOpen_of_openAfter (followed : openAfter? [] messages = some opened) :
    LeavesOpen opened.reverse (nestingBrackets messages) := by
  rw [leavesOpen_iff, List.reverse_reverse]
  exact (openAfter?_eq_some.mp followed).2

theorem checkNesting_unclosed_iff {names : List String} :
    checkNesting messages = .error (.unclosed names) ↔
      ∃ label outer, openAfter? [] messages = some (label :: outer) ∧
        names = (label :: outer).reverse.map Prod.snd := by
  constructor
  · intro failed
    rcases checkNesting_cases messages with ⟨opened, followed⟩ | ⟨_, _, _, _, _, _, _, fault⟩
    · rw [checkNesting_open followed] at failed
      cases opened with
      | nil => cases failed
      | cons label outer =>
          cases failed
          exact ⟨label, outer, followed, rfl⟩
    · exact absurd (Except.error.inj (fault.symm.trans failed)) (nestingFault_ne_unclosed names)
  · rintro ⟨label, outer, followed, rfl⟩
    exact checkNesting_open followed

theorem exists_fault {error : NestingError} (failed : checkNesting messages = .error error)
    (early : ∀ names, error ≠ .unclosed names) :
    ∃ before message after opened, messages = before ++ message :: after ∧
      openAfter? [] before = some opened ∧ nest? opened message = none ∧
      nestingFault before.length opened message = error := by
  rcases checkNesting_cases messages with
    ⟨opened, followed⟩ | ⟨before, message, after, opened, whole, followed, stop, fault⟩
  · rw [checkNesting_open followed] at failed
    split at failed
    · cases failed
    · exact absurd (Except.error.inj failed).symm (early _)
  · exact ⟨before, message, after, opened, whole, followed, stop,
      Except.error.inj (fault.symm.trans failed)⟩

def StopsAt (messages : List Message) (index : Nat) : Prop :=
  (∃ sort, checkNesting messages = .error (.missingName index sort)) ∨
    ∃ sort closed innermost,
      checkNesting messages = .error (.unexpectedClose index sort closed innermost)

theorem stopsAt_iff {index : Nat} :
    StopsAt messages index ↔
      ∃ before message after opened, messages = before ++ message :: after ∧
        before.length = index ∧ openAfter? [] before = some opened ∧
        nest? opened message = none := by
  constructor
  · rintro (⟨sort, failed⟩ | ⟨sort, closed, innermost, failed⟩)
    · obtain ⟨before, message, after, opened, whole, followed, stop, fault⟩ :=
        exists_fault failed (by simp)
      have here := (nestingFault_eq_missingName.mp fault).1
      exact ⟨before, message, after, opened, whole, here, followed, stop⟩
    · obtain ⟨before, message, after, opened, whole, followed, stop, fault⟩ :=
        exists_fault failed (by simp)
      have here := (nestingFault_eq_unexpectedClose.mp fault).1
      exact ⟨before, message, after, opened, whole, here, followed, stop⟩
  · rintro ⟨before, message, after, opened, rfl, rfl, followed, stop⟩
    have failed : checkNesting (before ++ message :: after) = _ := checkNesting_stop followed stop
    unfold nestingFault at failed
    split at failed
    · exact .inl ⟨_, failed⟩
    · exact .inr ⟨_, _, _, failed⟩

theorem stopsAt_iff_extendable {index : Nat} :
    StopsAt messages index ↔
      Extendable (messages.take index) ∧ ¬ Extendable (messages.take (index + 1)) := by
  rw [stopsAt_iff, extendable_iff, extendable_iff]
  constructor
  · rintro ⟨before, message, after, opened, rfl, rfl, followed, stop⟩
    have first : (before ++ message :: after).take before.length = before := List.take_left
    have upTo : (before ++ message :: after).take (before.length + 1) = before ++ [message] :=
      List.take_length_add_append 1
    have blocked : openAfter? [] (before ++ [message]) = none := by
      rw [openAfter?, foldlM_append_of_eq_some followed]
      simp [stop]
    rw [first, upTo, blocked]
    exact ⟨⟨opened, followed⟩, by simp⟩
  · rintro ⟨⟨opened, followed⟩, blocked⟩
    have inside : index < messages.length := by
      refine Nat.lt_of_not_le fun outside => blocked ⟨opened, ?_⟩
      rw [List.take_of_length_le outside] at followed
      rwa [List.take_of_length_le (Nat.le_succ_of_le outside)]
    have upTo := List.take_succ_eq_append_getElem inside
    refine ⟨messages.take index, messages[index], messages.drop (index + 1), opened, ?_, ?_,
      followed, ?_⟩
    · rw [← List.drop_eq_getElem_cons inside, List.take_append_drop]
    · rw [List.length_take]
      omega
    · cases step : nest? opened messages[index] with
      | none => rfl
      | some next =>
          refine absurd ⟨next, ?_⟩ blocked
          rw [upTo, openAfter?, foldlM_append_of_eq_some followed]
          simp [step]

theorem check_exact (messages : List Message) :
    (∀ summary, checkNesting messages = .ok summary ↔ WellNested messages ∧
      summary = { suites := messages.countP opensSuite, tests := messages.countP opensTest }) ∧
    (∀ index, StopsAt messages index ↔
      Extendable (messages.take index) ∧ ¬ Extendable (messages.take (index + 1))) ∧
    (∀ index sort, checkNesting messages = .error (.missingName index sort) →
      ∃ message, messages[index]? = some message ∧ message.name = sort ∧ ¬ Named message) ∧
    (∀ index sort closed innermost,
      checkNesting messages = .error (.unexpectedClose index sort closed innermost) →
        ∃ message labels, messages[index]? = some message ∧ message.name = sort ∧
          message.nameAttribute? = some closed ∧
          LeavesOpen labels (nestingBrackets (messages.take index)) ∧
          innermost = labels.getLast?.map Prod.snd) ∧
    (∀ names, checkNesting messages = .error (.unclosed names) ↔
      Extendable messages ∧ ¬ WellNested messages ∧
        ∃ labels, LeavesOpen labels (nestingBrackets messages) ∧ names = labels.map Prod.snd) ∧
    ∀ index cause, checkNesting messages ≠ .error (.undecodable index cause) := by
  refine ⟨fun summary => ?_, fun index => stopsAt_iff_extendable, fun index sort failed => ?_,
    fun index sort closed innermost failed => ?_, fun names => ?_, fun index cause failed => ?_⟩
  · rw [checkNesting_ok_iff, wellNested_iff]
    simp [NestingSummary.add]
  · obtain ⟨before, message, after, opened, rfl, _, stop, fault⟩ := exists_fault failed (by simp)
    obtain ⟨rfl, named, unnamed⟩ := nestingFault_eq_missingName.mp fault
    refine ⟨message, by simp, named, fun nameable => nameable ?_ unnamed⟩
    intro other
    simp [nest?, other] at stop
  · obtain ⟨before, message, after, opened, rfl, followed, _, fault⟩ :=
      exists_fault failed (by simp)
    obtain ⟨rfl, named, closes, top⟩ := nestingFault_eq_unexpectedClose.mp fault
    refine ⟨message, opened.reverse, by simp, named, closes, ?_, by simp [top]⟩
    simpa using leavesOpen_of_openAfter followed
  · rw [checkNesting_unclosed_iff, extendable_iff, wellNested_iff]
    constructor
    · rintro ⟨label, outer, followed, rfl⟩
      exact ⟨⟨_, followed⟩, by simp [followed], _, leavesOpen_of_openAfter followed, rfl⟩
    · rintro ⟨⟨opened, followed⟩, unfinished, labels, leaves, rfl⟩
      have same := (openAfter?_eq_some.mp followed).2.symm.trans leaves.on_stack
      obtain rfl : opened = labels.reverse := Option.some.inj same
      cases stack : labels.reverse with
      | nil => exact absurd (stack ▸ followed) unfinished
      | cons label outer =>
          refine ⟨label, outer, stack ▸ followed, ?_⟩
          rw [← stack, List.reverse_reverse]
  · obtain ⟨_, _, _, _, _, _, _, fault⟩ := exists_fault failed (by simp)
    exact nestingFault_ne_undecodable cause fault

example : checkNesting
    [{ name := "testSuiteStarted", attributes := [("name", "A")] },
      { name := "testSuiteStarted", attributes := [("name", "B")] },
      { name := "testSuiteFinished", attributes := [("name", "A")] }] =
    .error (.unexpectedClose 2 "testSuiteFinished" "A" (some "B")) := rfl

end RunStream
