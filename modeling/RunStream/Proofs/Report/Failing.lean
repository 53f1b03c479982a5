import RunStream.Report.Reporter

set_option autoImplicit false

namespace RunStream

open Wire Text

def Delivery.ok (delivery : Delivery) : Bool :=
  delivery.failure?.isNone

structure Attempt where
  call : Call
  delivery : Delivery
deriving DecidableEq, Repr

def passed (log : List Attempt) : List Attempt :=
  log.filter (·.delivery.ok)

def passedCalls (log : List Attempt) : List Call :=
  (passed log).map Attempt.call

variable {call : Call} {delivery : Delivery}

theorem passed_cons_of_ok (ok : delivery.ok = true) (rest : List Attempt) :
    passed ({ call, delivery } :: rest) = { call, delivery } :: passed rest :=
  List.filter_cons_of_pos ok

theorem passed_cons_of_failed (failed : delivery.ok = false) (rest : List Attempt) :
    passed ({ call, delivery } :: rest) = passed rest :=
  List.filter_cons_of_neg (by simp [failed])

theorem passedCalls_cons_of_ok (ok : delivery.ok = true) (rest : List Attempt) :
    passedCalls ({ call, delivery } :: rest) = call :: passedCalls rest := by
  rw [passedCalls, passed_cons_of_ok ok, List.map_cons, ← passedCalls]

theorem passedCalls_cons_of_failed (failed : delivery.ok = false) (rest : List Attempt) :
    passedCalls ({ call, delivery } :: rest) = passedCalls rest := by
  rw [passedCalls, passed_cons_of_failed failed, ← passedCalls]

def reachedBytes (log : List Attempt) : List UInt8 :=
  log.flatMap (·.delivery.reached)

theorem reachedBytes_passed {log : List Attempt}
    (clean : ∀ attempt ∈ log, attempt.delivery.ok = false → attempt.delivery.reached = []) :
    reachedBytes (passed log) = reachedBytes log := by
  induction log with
  | nil => rfl
  | cons attempt rest ih =>
      obtain ⟨call, delivery⟩ := attempt
      have later := ih fun other member => clean other (List.mem_cons_of_mem _ member)
      cases ok : delivery.ok with
      | true =>
          rw [passed_cons_of_ok ok, reachedBytes, List.flatMap_cons, ← reachedBytes, later]
          rfl
      | false =>
          have nothing := clean _ (List.mem_cons_self ..) ok
          rw [passed_cons_of_failed ok, later, reachedBytes, reachedBytes, List.flatMap_cons,
            nothing]
          rfl

namespace Plan

variable {σ : Type} {plan : Plan} {offer : σ → List UInt8 → σ × Response} {call : Call}
  {session : Session} {sink : σ}

def reportAll (plan : Plan) (offer : σ → List UInt8 → σ × Response) :
    List Call → Session → σ → Session × σ × List Attempt
  | [], session, sink => (session, sink, [])
  | call :: rest, session, sink =>
      let (next, sink, delivery) := plan.report offer call session sink
      let (last, sink, log) := plan.reportAll offer rest next sink
      (last, sink, { call, delivery } :: log)

def due (plan : Plan) (call : Call) (session : Session) : Delivery :=
  (plan.report Sink.offer call session .willing).2.2

def ideal (plan : Plan) (calls : List Call) (session : Session) : Session × List Attempt :=
  let (last, _, log) := plan.reportAll Sink.offer calls session .willing
  (last, log)

theorem report_quiet (none : (plan.produce call session).2.2 = []) :
    plan.report offer call session sink = ((plan.produce call session).1, sink, {}) := by
  simp [report, none]

theorem due_quiet (none : (plan.produce call session).2.2 = []) : plan.due call session = {} := by
  rw [due, report_quiet none]

theorem due_loud (some : (plan.produce call session).2.2 ≠ []) :
    plan.due call session =
      { reached := toBytes (plan.linesOf (plan.produce call session).2.2), flushes := 1 } := by
  simp [due, report, some, Sink.offer]

theorem report_loud (some : (plan.produce call session).2.2 ≠ []) :
    plan.report offer call session sink =
      match offer sink (plan.due call session).reached with
      | (sink, .taken) => ((plan.produce call session).1, sink, plan.due call session)
      | (sink, .refused accepted reason) => (session, sink,
          { reached := (plan.due call session).reached.take accepted, failure? := .some reason })
      | (sink, .stuck reason) => (session, sink,
          { reached := (plan.due call session).reached, failure? := .some reason }) := by
  rw [due_loud some]
  simp only [report, List.isEmpty_eq_false_iff.mpr some]
  cases answer : offer sink (toBytes (plan.linesOf (plan.produce call session).2.2)) with
  | mk sink response => cases response <;> simp

theorem due_ok (plan : Plan) (call : Call) (session : Session) :
    (plan.due call session).ok = true := by
  by_cases none : (plan.produce call session).2.2 = []
  · rw [due_quiet none]
    rfl
  · rw [due_loud none]
    rfl

theorem report_willing (plan : Plan) (call : Call) (session : Session) :
    plan.report Sink.offer call session .willing =
      ((plan.produce call session).1, .willing, plan.due call session) := by
  by_cases none : (plan.produce call session).2.2 = []
  · rw [report_quiet none, due_quiet none]
  · rw [report_loud none]
    rfl

def Outcome (plan : Plan) (call : Call) (session : Session) (next : Session)
    (delivery : Delivery) : Prop :=
  (delivery.ok = true ∧ delivery = plan.due call session ∧
      next = (plan.produce call session).1) ∨
    (delivery.ok = false ∧ delivery.reached <+: (plan.due call session).reached ∧ next = session)

theorem report_outcome (plan : Plan) (offer : σ → List UInt8 → σ × Response) (call : Call)
    (session : Session) (sink : σ) :
    plan.Outcome call session (plan.report offer call session sink).1
      (plan.report offer call session sink).2.2 := by
  by_cases none : (plan.produce call session).2.2 = []
  · rw [report_quiet none, ← due_quiet none]
    exact .inl ⟨due_ok plan call session, rfl, rfl⟩
  · rw [report_loud none]
    cases offer sink (plan.due call session).reached with
    | mk sink response =>
        cases response with
        | taken => exact .inl ⟨due_ok plan call session, rfl, rfl⟩
        | refused accepted reason => exact .inr ⟨rfl, List.take_prefix _ _, rfl⟩
        | stuck reason => exact .inr ⟨rfl, List.prefix_rfl, rfl⟩

theorem reportAll_cons (call : Call) (rest : List Call) (session : Session) (sink : σ) :
    let made := plan.report offer call session sink
    let later := plan.reportAll offer rest made.1 made.2.1
    plan.reportAll offer (call :: rest) session sink =
      (later.1, later.2.1, { call, delivery := made.2.2 } :: later.2.2) :=
  rfl

theorem ideal_cons (plan : Plan) (call : Call) (rest : List Call) (session : Session) :
    plan.ideal (call :: rest) session =
      ((plan.ideal rest (plan.produce call session).1).1,
        { call, delivery := plan.due call session } ::
          (plan.ideal rest (plan.produce call session).1).2) := by
  simp [ideal, reportAll_cons, report_willing]

theorem ideal_passedCalls (calls : List Call) (session : Session) (sink : σ) :
    plan.ideal (passedCalls (plan.reportAll offer calls session sink).2.2) session =
      ((plan.reportAll offer calls session sink).1,
        passed (plan.reportAll offer calls session sink).2.2) := by
  induction calls generalizing session sink with
  | nil => rfl
  | cons call rest ih =>
      rw [reportAll_cons]
      rcases plan.report_outcome offer call session sink with
        ⟨ok, asDue, moved⟩ | ⟨failed, _, stayed⟩
      · rw [passedCalls_cons_of_ok ok, passed_cons_of_ok ok, ideal_cons, ← moved, ← asDue, ih]
      · rw [passedCalls_cons_of_failed failed, passed_cons_of_failed failed, stayed]
        exact ih session _

/-- The attempt fits a session: it passed just as over a sink that does not fail, or the sink got
the beginning of that. -/
structure Fits (plan : Plan) (session : Session) (attempt : Attempt) : Prop where
  passed : attempt.delivery.ok = true → attempt.delivery = plan.due attempt.call session
  failed : attempt.delivery.ok = false →
    attempt.delivery.reached <+: (plan.due attempt.call session).reached
  quiet : (plan.produce attempt.call session).2.2 = [] → attempt.delivery = {}

theorem fits_report (plan : Plan) (offer : σ → List UInt8 → σ × Response) (call : Call)
    (session : Session) (sink : σ) :
    plan.Fits session { call, delivery := (plan.report offer call session sink).2.2 } where
  passed := fun ok => by
    rcases plan.report_outcome offer call session sink with ⟨_, asDue, _⟩ | ⟨failed, _, _⟩
    · exact asDue
    · simp [failed] at ok
  failed := fun failed => by
    rcases plan.report_outcome offer call session sink with ⟨ok, _, _⟩ | ⟨_, start, _⟩
    · simp [ok] at failed
    · exact start
  quiet := fun none => by rw [report_quiet none]

theorem fits_reportAll {calls : List Call} {session : Session} {sink : σ}
    {before after : List Attempt} {attempt : Attempt}
    (log : (plan.reportAll offer calls session sink).2.2 = before ++ attempt :: after) :
    plan.Fits (plan.ideal (passedCalls before) session).1 attempt := by
  induction calls generalizing session sink before with
  | nil => simp [reportAll] at log
  | cons call rest ih =>
      rw [reportAll_cons] at log
      cases before with
      | nil =>
          simp only [List.nil_append, List.cons.injEq] at log
          rw [← log.1]
          exact plan.fits_report offer call session sink
      | cons first before =>
          simp only [List.cons_append, List.cons.injEq] at log
          have later := ih log.2
          rcases plan.report_outcome offer call session sink with
            ⟨ok, _, moved⟩ | ⟨failed, _, stayed⟩
          · rw [← log.1, passedCalls_cons_of_ok ok, ideal_cons, ← moved]
            exact later
          · rw [← log.1, passedCalls_cons_of_failed failed]
            rwa [stayed] at later

inductive Retries (plan : Plan) (offer : σ → List UInt8 → σ × Response) :
    List Call → Session → σ → List Attempt → Session → Prop
  | done (session : Session) (sink : σ) : Retries plan offer [] session sink [] session
  | passed {call : Call} {rest : List Call} {session last : Session} {sink : σ} {log : List Attempt}
      (ok : (plan.report offer call session sink).2.2.ok = true)
      (later : Retries plan offer rest (plan.report offer call session sink).1
        (plan.report offer call session sink).2.1 log last) :
      Retries plan offer (call :: rest) session sink
        ({ call, delivery := (plan.report offer call session sink).2.2 } :: log) last
  | again {call : Call} {rest : List Call} {session last : Session} {sink : σ} {log : List Attempt}
      (failed : (plan.report offer call session sink).2.2.ok = false)
      (later : Retries plan offer (call :: rest) (plan.report offer call session sink).1
        (plan.report offer call session sink).2.1 log last) :
      Retries plan offer (call :: rest) session sink
        ({ call, delivery := (plan.report offer call session sink).2.2 } :: log) last

theorem Retries.made {calls : List Call} {last : Session} {log : List Attempt}
    (retries : plan.Retries offer calls session sink log last) :
    ∃ final, plan.reportAll offer (log.map Attempt.call) session sink = (last, final, log) ∧
      passedCalls log = calls := by
  induction retries with
  | done session sink => exact ⟨sink, rfl, rfl⟩
  | passed ok _ ih =>
      obtain ⟨final, made, calls⟩ := ih
      refine ⟨final, ?_, ?_⟩
      · rw [List.map_cons, reportAll_cons, made]
      · rw [passedCalls_cons_of_ok ok, calls]
  | again failed _ ih =>
      obtain ⟨final, made, calls⟩ := ih
      refine ⟨final, ?_, ?_⟩
      · rw [List.map_cons, reportAll_cons, made]
      · rw [passedCalls_cons_of_failed failed, calls]

theorem Retries.as_ideal {calls : List Call} {last : Session} {log : List Attempt}
    (retries : plan.Retries offer calls session sink log last)
    (clean : ∀ attempt ∈ log, attempt.delivery.ok = false → attempt.delivery.reached = []) :
    last = (plan.ideal calls session).1 ∧
      reachedBytes log = reachedBytes (plan.ideal calls session).2 := by
  obtain ⟨final, made, rfl⟩ := retries.made
  have whole := @ideal_passedCalls σ plan offer (log.map Attempt.call) session sink
  rw [made] at whole
  exact ⟨by rw [whole], by rw [whole, reachedBytes_passed clean]⟩

def TouchesOnce (plan : Plan) (offer : σ → List UInt8 → σ × Response) (call : Call)
    (session : Session) (sink : σ) : Prop :=
  if (plan.produce call session).2.2 = [] then
    plan.report offer call session sink = ((plan.produce call session).1, sink, {})
  else
    (plan.report offer call session sink).2.1 = (offer sink (plan.due call session).reached).1 ∧
      (plan.due call session).flushes = 1

theorem touchesOnce (plan : Plan) (offer : σ → List UInt8 → σ × Response) (call : Call)
    (session : Session) (sink : σ) : plan.TouchesOnce offer call session sink := by
  unfold TouchesOnce
  split
  · next none => exact report_quiet none
  · next some =>
      refine ⟨?_, by rw [due_loud some]⟩
      rw [report_loud some]
      cases offer sink (plan.due call session).reached with
      | mk sink response => cases response <;> rfl

-- The sink may change its mind at any time: `offer` is given what became of it.
theorem failing_sink_harmless (plan : Plan) (offer : σ → List UInt8 → σ × Response)
    (calls : List Call) (session : Session) (sink : σ) :
    let made := plan.reportAll offer calls session sink
    plan.ideal (passedCalls made.2.2) session = (made.1, passed made.2.2) ∧
      (∀ before attempt after, made.2.2 = before ++ attempt :: after →
        plan.Fits (plan.ideal (passedCalls before) session).1 attempt) ∧
      (∀ call session sink, plan.TouchesOnce offer call session sink) ∧
      ∀ log last, plan.Retries offer calls session sink log last →
        (∀ attempt ∈ log, attempt.delivery.ok = false → attempt.delivery.reached = []) →
        last = (plan.ideal calls session).1 ∧
          reachedBytes log = reachedBytes (plan.ideal calls session).2 :=
  ⟨ideal_passedCalls calls session sink, fun _ _ _ log => fits_reportAll log,
    plan.touchesOnce offer, fun _ _ retries clean => retries.as_ideal clean⟩

def loneTest : Plan where
  tree := .single (.leaf "a.Suite" "test")

def answerAsTold : List Response → List UInt8 → List Response × Response
  | [], _ => ([], .taken)
  | response :: rest, _ => (rest, response)

theorem busy_sink_harmless :
    let calls : List Call := [.event (.node 0 .started), .event (.node 0 .finished)]
    let answers : List Response := [.refused 0 "busy", .taken, .refused 0 "busy"]
    ∃ log last, loneTest.Retries answerAsTold calls {} answers log last ∧ log.length = 4 ∧
      last = (loneTest.ideal calls {}).1 ∧
      reachedBytes log = reachedBytes (loneTest.ideal calls {}).2 := by
  intro calls answers
  have retries : loneTest.Retries answerAsTold calls {} answers _ _ :=
    .again (by decide +kernel) (.passed (by decide +kernel) (.again (by decide +kernel)
      (.passed (by decide +kernel) (.done _ _))))
  obtain ⟨_, _, _, again⟩ := failing_sink_harmless loneTest answerAsTold calls {} answers
  exact ⟨_, _, retries, rfl, again _ _ retries (by decide +kernel)⟩

end Plan

end RunStream
