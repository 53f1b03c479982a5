import RunStream.Proofs.Live.Blocks

set_option autoImplicit false

namespace RunStream

variable {plan : Plan} {stage : Stage} {session : Session}

namespace Plan

inductive Reachable (plan : Plan) : Session → Prop
  | fresh : Reachable plan {}
  | described {session : Session} (before : Reachable plan session) :
      Reachable plan { session with described := true }
  | handled {session : Session} (event : Event) (before : Reachable plan session) :
      Reachable plan (plan.handle event session).1

theorem settled_handle (sound : plan.SoundSession session) (settled : plan.Settled session)
    (event : Event) : plan.Settled (plan.handle event session).1 := by
  have fresh : plan.Settled { described := session.described } := fun item member => by
    simp at member
  cases event with
  | runStarted =>
      rw [handle_endsRun rfl sound]
      exact fresh
  | runFinished =>
      rw [handle_endsRun rfl sound]
      exact fresh
  | node id progress =>
      cases known : plan.tree.contains id with
      | false => rwa [handle_foreign known]
      | true =>
          rw [handle_known known]
          exact (drains_drain plan _).is_settled

theorem Reachable.sound (reachable : plan.Reachable session) :
    plan.SoundSession session ∧ plan.Settled session := by
  induction reachable with
  | fresh => exact ⟨soundSession_fresh false, fun item member => by simp at member⟩
  | described _ ih => exact ⟨⟨ih.1.stage, ih.1.known⟩, ih.2⟩
  | handled event _ ih => exact ⟨handle_sound ih.1 event, settled_handle ih.1 ih.2 event⟩

theorem Reachable.handleAll (reachable : plan.Reachable session) (events : List Event) :
    plan.Reachable (plan.handleAll events session).1 := by
  induction events generalizing session with
  | nil => exact reachable
  | cons event rest ih => exact ih (reachable.handled event)

def eventsOf (reports : List Report) : List Event :=
  reports.map fun report => .node report.1 report.2

-- Taking in reports one by one applies what taking them in all at once would.
theorem drains_handleAll (reports : List Report) (session : Session)
    (settled : plan.Settled session)
    (known : ∀ report ∈ reports, plan.tree.contains report.1 = true) :
    plan.Drains { session with held := session.held ++ reports.map Report.held }
      (plan.handleAll (eventsOf reports) session).2
      (plan.handleAll (eventsOf reports) session).1 := by
  induction reports generalizing session with
  | nil => simpa [eventsOf, handleAll] using Drains.settled settled
  | cons report rest ih =>
      have first : plan.handle (.node report.1 report.2) session =
          plan.drain { session with held := session.held ++ [Report.held report] } :=
        handle_known (known report (List.mem_cons_self ..))
      have drains := drains_drain plan
        { session with held := session.held ++ [Report.held report] }
      rw [← first] at drains
      have later := ih (plan.handle (.node report.1 report.2) session).1 drains.is_settled
        fun other member => known other (List.mem_cons_of_mem _ member)
      have whole := drains.append later
      simpa [eventsOf, handleAll_cons] using whole

def inTurn (plan : Plan) (reports : List Report) : Step :=
  Step.forEach reports fun report => plan.apply (Report.held report)

@[simp]
theorem inTurn_nil (stage : Stage) : plan.inTurn [] stage = (stage, []) := rfl

theorem inTurn_cons (report : Report) (rest : List Report) (stage : Stage) :
    plan.inTurn (report :: rest) stage =
      ((plan.inTurn rest (plan.apply (Report.held report) stage).1).1,
        (plan.apply (Report.held report) stage).2 ++
          (plan.inTurn rest (plan.apply (Report.held report) stage).1).2) :=
  rfl

theorem inTurn_append (left right : List Report) (stage : Stage) :
    plan.inTurn (left ++ right) stage =
      ((plan.inTurn right (plan.inTurn left stage).1).1,
        (plan.inTurn left stage).2 ++ (plan.inTurn right (plan.inTurn left stage).1).2) := by
  rw [inTurn, Step.forEach_append]
  rfl

theorem isBlocked_report {leaf : NodeId} {report : Report} (busy : stage.running = some leaf)
    (known : plan.tree.isLeaf report.1 = true) :
    plan.isBlocked stage (Report.held report) = (report.1 != leaf) := by
  obtain ⟨node, progress⟩ := report
  obtain ⟨className, methodName, kind⟩ := Tree.isLeaf_iff.mp known
  rw [isBlocked_running busy]
  have notContainer := Tree.isContainer_eq_false_of_isLeaf known
  have below := Tree.leavesUnder_leaf kind
  by_cases same : node = leaf
  · cases progress <;> simp_all [Report.held, blocks, skipCause?]
  · cases progress <;> simp_all [Report.held, blocks, skipCause?, Ne.symm]

theorem deferred_report {leaf : NodeId} (sound : plan.Sound stage)
    (known : plan.tree.isLeaf leaf = true)
    (near : stage.running = none ∨ stage.running = some leaf) (progress : Progress) :
    plan.deferred stage (.event leaf progress) = [] := by
  obtain ⟨className, methodName, kind⟩ := Tree.isLeaf_iff.mp known
  cases skips : plan.skipCause? leaf progress with
  | none => simp [deferred, skips]
  | some cause =>
      rcases near with idle | busy
      · simp [deferred, skips, idle]
      · have status := (sound.recorded leaf).mp busy
        simp [deferred, skips, Tree.leavesUnder_leaf kind, status]

theorem Drains.taken {front back : List Report} {report : Report} {described : Bool}
    {written : List Notice} {final : Session} (sound : plan.Sound stage)
    (known : plan.tree.isLeaf report.1 = true)
    (near : stage.running = none ∨ stage.running = some report.1)
    (blocked : ∀ other ∈ front, plan.isBlocked stage (Report.held other) = true)
    (free : plan.isBlocked stage (Report.held report) = false)
    (rest : plan.Drains
      { stage := (plan.apply (Report.held report) stage).1
        held := (front ++ back).map Report.held
        described } written final) :
    plan.Drains { stage, held := (front ++ report :: back).map Report.held, described }
      ((plan.apply (Report.held report) stage).2 ++ written) final := by
  refine .applied (front.map Report.held) (Report.held report) (back.map Report.held) ?_ ?_ free ?_
  · simp
  · intro other member
    obtain ⟨report, inFront, rfl⟩ := List.mem_map.mp member
    exact blocked report inFront
  · have none : plan.deferred stage (Report.held report) = [] :=
      deferred_report sound known near report.2
    simpa [advance, none] using rest

theorem exists_next {leaf : NodeId} {report : Report} {queue more : List Report}
    (sound : plan.Sound stage) (busy : stage.running = some leaf)
    (known : ∀ report ∈ queue, plan.tree.isLeaf report.1 = true)
    (own : about leaf queue = report :: more) (later : Report.isStart report = false) :
    ∃ left, Taken leaf [report] queue left ∧
      ∀ (described : Bool) (written : List Notice) (final : Session),
        plan.Drains
          { stage := (plan.apply (Report.held report) stage).1
            held := left.map Report.held
            described } written final →
        plan.Drains { stage, held := queue.map Report.held, described }
          ((plan.apply (Report.held report) stage).2 ++ written) final := by
  have here : report ∈ queue ∧ report.1 = leaf := by
    have member : report ∈ about leaf queue := by simp [own]
    simpa [about] using member
  obtain ⟨front, back, split, away, taken⟩ := exists_taken own later
  have isLeaf := known report here.1
  refine ⟨front ++ back, taken, fun described written final rest => ?_⟩
  rw [split]
  refine Drains.taken sound isLeaf (.inr (here.2 ▸ busy)) (fun other member => ?_) ?_ rest
  · rw [isBlocked_report busy (known other (split ▸ List.mem_append_left _ member))]
    simpa using away other member
  · rw [isBlocked_report busy isLeaf]
    simp [here.2]

structure Passed (plan : Plan) (leaf : NodeId) (stage : Stage) (reports queue left : List Report) :
    Prop where
  taken : Taken leaf reports queue left
  sound : plan.Sound (plan.inTurn reports stage).1
  idle : (plan.inTurn reports stage).1.running = none
  drains : ∀ (described : Bool) (written : List Notice) (final : Session),
    plan.Drains
      { stage := (plan.inTurn reports stage).1, held := left.map Report.held, described }
      written final →
    plan.Drains { stage, held := queue.map Report.held, described }
      ((plan.inTurn reports stage).2 ++ written) final

theorem free_of_running {leaf : NodeId} (busy : stage.running = some leaf)
    (known : plan.tree.isLeaf leaf = true) (progress : Progress) :
    plan.isBlocked stage (.event leaf progress) = false := by
  have blocked := @isBlocked_report plan stage leaf (leaf, progress) busy known
  simpa [Report.held] using blocked

theorem moves_remark {leaf : NodeId} (remark : Remark) (sound : plan.Sound stage)
    (busy : stage.running = some leaf) (known : plan.tree.isLeaf leaf = true) :
    plan.Moves [] stage (plan.apply (.event leaf remark.progress) stage).2
      (plan.apply (.event leaf remark.progress) stage).1 := by
  have member : plan.knowsHeld (.event leaf remark.progress) = true :=
    Tree.contains_of_isLeaf known
  have quiet : plan.turns (.event leaf remark.progress) = false := by cases remark <;> rfl
  exact (quiet_apply sound member (free_of_running busy known remark.progress) quiet).1

theorem apply_remark {leaf : NodeId} (remark : Remark) (sound : plan.Sound stage)
    (busy : stage.running = some leaf) (known : plan.tree.isLeaf leaf = true) :
    plan.Sound (plan.apply (.event leaf remark.progress) stage).1 ∧
      (plan.apply (.event leaf remark.progress) stage).1.running = some leaf :=
  ⟨sound.apply (Tree.contains_of_isLeaf known) (free_of_running busy known remark.progress),
    (moves_remark remark sound busy known).running.trans busy⟩

theorem apply_start {leaf : NodeId} (sound : plan.Sound stage) (idle : stage.running = none)
    (known : plan.tree.isLeaf leaf = true) :
    plan.Sound (plan.apply (.event leaf .started) stage).1 ∧
      (plan.apply (.event leaf .started) stage).1.running = some leaf := by
  have free : plan.isBlocked stage (.event leaf .started) = false := isBlocked_idle idle _
  obtain ⟨middle, written, _, _, result⟩ := apply_started sound known free
  exact ⟨sound.apply (Tree.contains_of_isLeaf known) free, by rw [result]⟩

theorem exists_passed {leaf : NodeId} (remarks : List Remark) {queue more : List Report}
    (sound : plan.Sound stage) (busy : stage.running = some leaf)
    (known : ∀ report ∈ queue, plan.tree.isLeaf report.1 = true)
    (own : about leaf queue = Block.tail ⟨leaf, remarks⟩ ++ more) :
    ∃ left, plan.Passed leaf stage (Block.tail ⟨leaf, remarks⟩) queue left := by
  have isLeaf := sound.isLeaf leaf busy
  induction remarks generalizing stage queue with
  | nil =>
      obtain ⟨left, taken, drains⟩ := exists_next sound busy known own rfl
      have ended := apply_finished isLeaf (free_of_running busy isLeaf .finished)
      refine ⟨left, taken, ?_, ?_, fun described written final rest => ?_⟩
      · exact sound.apply (Tree.contains_of_isLeaf isLeaf) (free_of_running busy isLeaf .finished)
      · simp [Block.tail, inTurn_cons, Report.held, ended]
      · simpa [Block.tail, inTurn_cons] using drains described written final rest
  | cons remark rest ih =>
      obtain ⟨middle, taken, drains⟩ :=
        exists_next sound busy known own (by cases remark <;> rfl)
      obtain ⟨soundNext, busyNext⟩ := apply_remark remark sound busy isLeaf
      have ownNext : about leaf middle = Block.tail ⟨leaf, rest⟩ ++ more :=
        List.append_cancel_left (taken.own.symm.trans own)
      obtain ⟨left, passed⟩ := ih soundNext busyNext
        (fun report member => known report (taken.members report member)) ownNext
      refine ⟨left, taken.trans passed.taken, passed.sound, passed.idle,
        fun described written final rest => ?_⟩
      have later := drains described _ final (passed.drains described written final rest)
      simpa [Block.tail, inTurn_cons, Report.held] using later

-- Each block is applied as a whole, since its leaf is the only one that may go on.
theorem drains_interleaving (blocks : List Block) {queue : List Report}
    (interleaved : Interleaves blocks queue)
    (leaves : ∀ block ∈ blocks, plan.tree.isLeaf block.leaf = true) (sound : plan.Sound stage)
    (idle : stage.running = none) (described : Bool) :
    plan.Drains { stage, held := queue.map Report.held, described }
      (plan.inTurn (serial blocks) stage).2
      { stage := (plan.inTurn (serial blocks) stage).1, described } := by
  induction blocks generalizing stage queue with
  | nil =>
      rw [interleaved.eq_nil]
      exact .settled fun item member => by simp at member
  | cons block rest ih =>
      have isLeaf := leaves block (List.mem_cons_self ..)
      have known : ∀ report ∈ queue, plan.tree.isLeaf report.1 = true := by
        intro report member
        obtain ⟨owner, inBlocks, inReports⟩ := List.mem_flatMap.mp (interleaved.mem_serial member)
        rw [leaf_of_mem_reports inReports]
        exact leaves owner inBlocks
      obtain ⟨later, rfl, started⟩ := interleaved.started
      obtain ⟨soundNext, busy⟩ := apply_start sound idle isLeaf
      obtain ⟨left, passed⟩ := exists_passed block.remarks soundNext busy
        (fun report member => known report (List.mem_cons_of_mem _ member)) started.own
      have others := ih (started.interleaves passed.taken)
        (fun other member => leaves other (List.mem_cons_of_mem _ member)) passed.sound passed.idle
      have first := @Drains.taken plan stage [] later (block.leaf, .started) described _ _ sound
        isLeaf (.inl idle) (by simp) (isBlocked_idle idle _) (passed.drains described _ _ others)
      have whole : serial (block :: rest) = (block.leaf, .started) :: (block.tail ++ serial rest) :=
        serial_cons block rest
      rw [whole, inTurn_cons, inTurn_append]
      simpa [Report.held] using first

theorem handleAll_interleaving {blocks : List Block} {reports : List Report}
    (reachable : plan.Reachable session) (idle : session.stage.running = none)
    (leaves : ∀ block ∈ blocks, plan.tree.isLeaf block.leaf = true)
    (interleaved : Interleaves blocks reports) :
    plan.handleAll (eventsOf reports) session =
      ({ stage := (plan.inTurn (serial blocks) session.stage).1, described := session.described },
        (plan.inTurn (serial blocks) session.stage).2) := by
  obtain ⟨sound, settled⟩ := reachable.sound
  have known : ∀ report ∈ reports, plan.tree.contains report.1 = true := by
    intro report member
    obtain ⟨block, inBlocks, inReports⟩ := List.mem_flatMap.mp (interleaved.mem_serial member)
    rw [leaf_of_mem_reports inReports]
    exact Tree.contains_of_isLeaf (leaves block inBlocks)
  have arrived := drains_handleAll reports session settled known
  rw [settled.held_eq_nil idle, List.nil_append] at arrived
  have applied := drains_interleaving blocks interleaved leaves sound.stage idle session.described
  obtain ⟨same, written⟩ := arrived.unique applied
  rw [← same, ← written]

theorem interleaving_eq_serial {blocks : List Block} {reports : List Report}
    (reachable : plan.Reachable session) (idle : session.stage.running = none)
    (leaves : ∀ block ∈ blocks, plan.tree.isLeaf block.leaf = true)
    (interleaved : Interleaves blocks reports) :
    plan.handleAll (eventsOf reports) session =
        plan.handleAll (eventsOf (serial blocks)) session ∧
      (plan.handleAll (eventsOf reports) session).1.held = [] ∧
      ∀ others, Interleaves blocks others →
        plan.handleAll (eventsOf others) session = plan.handleAll (eventsOf reports) session := by
  have whole := handleAll_interleaving reachable idle leaves interleaved
  have inOrder := handleAll_interleaving reachable idle leaves (interleaves_serial blocks)
  refine ⟨whole.trans inOrder.symm, by rw [whole], fun others same => ?_⟩
  exact (handleAll_interleaving reachable idle leaves same).trans whole.symm

def twoSuites : Plan where
  tree := ((Tree.single (.container "all")).addAll
    [(0, .container "a.One"), (1, .leaf "a.One" "first"), (0, .container "a.Two"),
      (3, .leaf "a.Two" "second")]).1

theorem overlapping_tests_eq_serial :
    let blocks : List Block := [⟨2, [.failed [{ message := "no" }]]⟩, ⟨4, [.ignored none]⟩, ⟨2, []⟩]
    let reports : List Report :=
      [(2, .started), (4, .started), (2, .failed [{ message := "no" }]), (4, .ignored none),
        (2, .finished), (2, .started), (4, .finished), (2, .finished)]
    let session := (twoSuites.handle (.node 1 (.failed [])) {}).1
    Interleaves blocks reports ∧
      twoSuites.handleAll (eventsOf reports) session =
        twoSuites.handleAll (eventsOf (serial blocks)) session ∧
      (twoSuites.handleAll (eventsOf reports) session).1.held = [] ∧
      ∀ others, Interleaves blocks others →
        twoSuites.handleAll (eventsOf others) session =
          twoSuites.handleAll (eventsOf reports) session := by
  intro blocks reports session
  have interleaved : Interleaves blocks reports := by
    refine ⟨fun leaf => ?_, rfl⟩
    by_cases first : leaf = 2
    · subst first
      rfl
    · by_cases second : leaf = 4
      · subst second
        rfl
      · simp [blocks, reports, about, serial, Block.reports, Block.tail, Ne.symm first,
          Ne.symm second]
  exact ⟨interleaved, interleaving_eq_serial (.handled (.node 1 (.failed [])) .fresh)
    (by decide +kernel) (by decide +kernel) interleaved⟩

end Plan

end RunStream
