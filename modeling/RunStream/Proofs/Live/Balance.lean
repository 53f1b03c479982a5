import RunStream.Proofs.Brackets
import RunStream.Proofs.Live.Suites

set_option autoImplicit false

namespace RunStream

open Wire

variable {plan : Plan}

def suiteBracket? (message : Message) : Option (Side × Option String) :=
  if message.name = "testSuiteStarted" then some (.opening, message.nameAttribute?)
  else if message.name = "testSuiteFinished" then some (.closing, message.nameAttribute?)
  else none

def suiteBrackets (messages : List Message) : List (Side × Option String) :=
  messages.filterMap suiteBracket?

theorem suiteBrackets_append (left right : List Message) :
    suiteBrackets (left ++ right) = suiteBrackets left ++ suiteBrackets right :=
  List.filterMap_append

namespace Plan

def suiteLabels (plan : Plan) (suites : List Scope) : List (Option String) :=
  suites.map fun scope => some (plan.scopeName scope)

theorem suiteBrackets_opened (plan : Plan) (scope : Scope) :
    suiteBrackets (plan.message? (.suiteOpened scope)).toList =
      [(.opening, some (plan.scopeName scope))] :=
  rfl

theorem suiteBrackets_closed (plan : Plan) (scope : Scope) :
    suiteBrackets (plan.message? (.suiteClosed scope)).toList =
      [(.closing, some (plan.scopeName scope))] :=
  rfl

theorem leavesOpen_notice {suites after : List Scope} {notice : Notice}
    {brackets : List (Side × Option String)}
    (leaves : LeavesOpen (plan.suiteLabels suites) brackets)
    (followed : plan.follow? suites notice = some after) :
    LeavesOpen (plan.suiteLabels after)
      (brackets ++ suiteBrackets (plan.message? notice).toList) := by
  cases notice with
  | suiteOpened scope =>
      simp only [follow?, Option.some.injEq] at followed
      subst followed
      simpa [suiteLabels, suiteBrackets_opened] using leaves.opened (some (plan.scopeName scope))
  | suiteClosed scope =>
      simp only [follow?, Option.ite_none_right_eq_some, Option.some.injEq] at followed
      obtain ⟨top, rfl⟩ := followed
      obtain ⟨outer, rfl⟩ := List.getLast?_eq_some_iff.mp top
      rw [suiteLabels, List.map_append] at leaves
      simpa [suiteLabels, suiteBrackets_closed] using leaves.closed
  | testStarted subject =>
      simp only [follow?, Option.ite_none_right_eq_some, Option.some.injEq] at followed
      obtain ⟨_, rfl⟩ := followed
      simpa [suiteBrackets, suiteBracket?, message?] using leaves
  | _ =>
      simp only [follow?, Option.some.injEq] at followed
      subst followed
      simpa [suiteBrackets, suiteBracket?, message?, RootName.message] using leaves

theorem leavesOpen_notices {suites final : List Scope} {notices : List Notice}
    {brackets : List (Side × Option String)}
    (leaves : LeavesOpen (plan.suiteLabels suites) brackets)
    (followed : plan.followAll? suites notices = some final) :
    LeavesOpen (plan.suiteLabels final)
      (brackets ++ suiteBrackets (plan.messages notices)) := by
  induction notices generalizing suites brackets with
  | nil =>
      simp only [followAll?, List.foldlM_nil, Option.pure_def, Option.some.injEq] at followed
      subst followed
      simpa [suiteBrackets, messages] using leaves
  | cons notice rest ih =>
      obtain ⟨middle, step, later⟩ := followAll?_cons_eq_some followed
      rw [messages_cons, suiteBrackets_append, ← List.append_assoc]
      exact ih (leavesOpen_notice leaves step) later

theorem leavesOpen_handleAll (plan : Plan) (events : List Event) (described : Bool) :
    LeavesOpen (plan.suiteLabels (plan.handleAll events { described }).1.stage.suites)
      (suiteBrackets (plan.messages (plan.handleAll events { described }).2)) := by
  have sound := @soundSession_fresh plan described
  have nothing : LeavesOpen (plan.suiteLabels []) [] := .nothing .nil
  exact leavesOpen_notices nothing ((handleAll_course events _ sound).follow sound)

theorem suites_balance (plan : Plan) (events : List Event) (described : Bool) :
    let now := plan.handleAll events { described }
    let written := suiteBrackets (plan.messages now.2)
    let labels := plan.suiteLabels now.1.stage.suites
    let ended := plan.handleAll (events ++ [.runFinished]) { described }
    LeavesOpen labels written ∧ openings written = closings written + now.1.depth ∧
      Balanced (written ++ labels.reverse.map (Side.closing, ·)) ∧
      Balanced (suiteBrackets (plan.messages ended.2)) ∧ ended.1.depth = 0 := by
  intro now written labels ended
  have leaves : LeavesOpen labels written := leavesOpen_handleAll plan events described
  have last : ended.1 = { described } := handleAll_finished events (soundSession_fresh described)
  have final := leavesOpen_handleAll plan (events ++ [.runFinished]) described
  have depth : labels.length = now.1.depth := by simp [labels, suiteLabels, Session.depth]
  refine ⟨leaves, depth ▸ leaves.openings_eq, leaves.completed, ?_, ?_⟩
  · rw [last] at final
    exact final.balanced
  · rw [last]
    rfl

end Plan

end RunStream
