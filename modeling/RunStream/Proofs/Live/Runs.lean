import RunStream.Proofs.Live.Course
import RunStream.Proofs.Live.Messages
import RunStream.Proofs.Live.Placement

set_option autoImplicit false

namespace RunStream

variable {plan : Plan}

namespace Plan

theorem handle_runFinished_fresh (plan : Plan) (described : Bool) :
    plan.handle .runFinished { described } = ({ described }, []) := rfl

theorem handleAll_after {ending : Event} (ends : ending.endsRun = true)
    (first second : List Event) (described : Bool) :
    plan.handleAll (first ++ ending :: second) { described } =
      ((plan.handleAll second { described }).1,
        (plan.handleAll (first ++ [ending]) { described }).2 ++
          (plan.handleAll second { described }).2) := by
  have ended := handleAll_ended ends first (@soundSession_fresh plan described)
  rw [List.append_cons, handleAll_append, ended]

-- A run that starts ends the one before as well.
theorem runs_independent (plan : Plan) (first second : List Event) (ending : Event)
    (described : Bool) (ends : ending.endsRun = true) :
    let before := plan.handleAll (first ++ [ending]) { described }
    let after := plan.handleAll second { described }
    let whole := plan.handleAll (first ++ ending :: second) { described }
    before.1 = { described } ∧ before.1.depth = 0 ∧ before.1.heldCount = 0 ∧
      whole.1 = after.1 ∧
      plan.messages whole.2 = plan.messages before.2 ++ plan.messages after.2 ∧
      plan.messages (plan.handle .runFinished before.1).2 = [] := by
  intro before after whole
  have ended : before.1 = { described } :=
    handleAll_ended ends first (@soundSession_fresh plan described)
  have split : whole = (after.1, before.2 ++ after.2) := handleAll_after ends first second described
  refine ⟨ended, by rw [ended]; rfl, by rw [ended]; rfl, by rw [split], ?_, ?_⟩
  · rw [split, messages_append]
  · rw [ended, handle_runFinished_fresh]
    rfl

theorem restarted_run_independent :
    let first : List Event := [.node 1 (.failed []), .node 3 .started, .node 2 (.ignored none)]
    let before := suiteAndLoneTest.handleAll (first ++ [.runStarted]) {}
    let after := suiteAndLoneTest.handleAll [.node 2 .started] {}
    let whole := suiteAndLoneTest.handleAll (first ++ [.runStarted, .node 2 .started]) {}
    before.1 = {} ∧ before.1.depth = 0 ∧ before.1.heldCount = 0 ∧ whole.1 = after.1 ∧
      suiteAndLoneTest.messages whole.2 =
        suiteAndLoneTest.messages before.2 ++ suiteAndLoneTest.messages after.2 ∧
      suiteAndLoneTest.messages (suiteAndLoneTest.handle .runFinished before.1).2 = [] :=
  runs_independent suiteAndLoneTest _ [.node 2 .started] .runStarted false rfl

end Plan

end RunStream
