import RunStream.Proofs.Live.Course

set_option autoImplicit false

namespace RunStream

variable {plan : Plan} {stage : Stage} {session : Session}

inductive Remark where
  | failed (failures : List Failure)
  | assumptionFailed (failure : Failure)
  | ignored (reason : Option String)
deriving DecidableEq, Repr

def Remark.progress : Remark → Progress
  | .failed failures => .failed failures
  | .assumptionFailed failure => .assumptionFailed failure
  | .ignored reason => .ignored reason

structure Block where
  leaf : NodeId
  remarks : List Remark
deriving DecidableEq, Repr

abbrev Report := NodeId × Progress

def Report.isStart : Report → Bool
  | (_, .started) => true
  | _ => false

def Report.held (report : Report) : Held :=
  .event report.1 report.2

namespace Block

def tail (block : Block) : List Report :=
  block.remarks.map (fun remark => (block.leaf, remark.progress)) ++ [(block.leaf, .finished)]

def reports (block : Block) : List Report :=
  (block.leaf, .started) :: block.tail

end Block

def serial (blocks : List Block) : List Report :=
  blocks.flatMap Block.reports

def about (leaf : NodeId) (reports : List Report) : List Report :=
  reports.filter (·.1 == leaf)

def startsIn (reports : List Report) : List Report :=
  reports.filter Report.isStart

/-- The reports of the blocks in any order that keeps those about one leaf as they are and starts
the blocks in turn. -/
structure Interleaves (blocks : List Block) (reports : List Report) : Prop where
  leaves : ∀ leaf, about leaf reports = about leaf (serial blocks)
  starts : startsIn reports = startsIn (serial blocks)

theorem interleaves_serial (blocks : List Block) : Interleaves blocks (serial blocks) :=
  ⟨fun _ => rfl, rfl⟩

variable {blocks : List Block} {reports : List Report}

theorem about_append (leaf : NodeId) (left right : List Report) :
    about leaf (left ++ right) = about leaf left ++ about leaf right :=
  List.filter_append ..

theorem about_cons_self {leaf : NodeId} {report : Report} (same : report.1 = leaf)
    (rest : List Report) : about leaf (report :: rest) = report :: about leaf rest :=
  List.filter_cons_of_pos (by simpa using same)

theorem about_cons_ne {leaf : NodeId} {report : Report} (other : report.1 ≠ leaf)
    (rest : List Report) : about leaf (report :: rest) = about leaf rest :=
  List.filter_cons_of_neg (by simpa using other)

theorem leaf_of_mem_reports {block : Block} {report : Report} (member : report ∈ block.reports) :
    report.1 = block.leaf := by
  simp only [Block.reports, Block.tail, List.mem_cons, List.mem_append, List.mem_map,
    List.not_mem_nil, or_false] at member
  rcases member with rfl | ⟨remark, _, rfl⟩ | rfl <;> rfl

theorem about_reports_self (block : Block) : about block.leaf block.reports = block.reports :=
  List.filter_eq_self.mpr fun report member => by simp [leaf_of_mem_reports member]

theorem about_reports_ne {block : Block} {leaf : NodeId} (other : leaf ≠ block.leaf) :
    about leaf block.reports = [] :=
  List.filter_eq_nil_iff.mpr fun report member => by
    simp [leaf_of_mem_reports member, Ne.symm other]

theorem startsIn_tail (block : Block) : startsIn block.tail = [] := by
  refine List.filter_eq_nil_iff.mpr fun report member => ?_
  simp only [Block.tail, List.mem_append, List.mem_map, List.mem_singleton] at member
  rcases member with ⟨remark, _, rfl⟩ | rfl
  · cases remark <;> simp [Report.isStart, Remark.progress]
  · simp [Report.isStart]

theorem serial_cons (block : Block) (rest : List Block) :
    serial (block :: rest) = block.reports ++ serial rest :=
  List.flatMap_cons ..

theorem first_about_serial {leaf : NodeId} {first : Report} {rest : List Report}
    (whole : about leaf (serial blocks) = first :: rest) : first = (leaf, .started) := by
  induction blocks with
  | nil => simp [serial, about] at whole
  | cons block others ih =>
      rw [serial_cons, about_append] at whole
      by_cases same : leaf = block.leaf
      · subst same
        rw [about_reports_self, Block.reports, List.cons_append, List.cons.injEq] at whole
        exact whole.1.symm
      · rw [about_reports_ne same, List.nil_append] at whole
        exact ih whole

theorem Interleaves.eq_nil (interleaved : Interleaves [] reports) : reports = [] := by
  cases reports with
  | nil => rfl
  | cons first rest =>
      have empty := interleaved.leaves first.1
      simp [about, serial] at empty

structure Started (block : Block) (rest : List Block) (reports : List Report) : Prop where
  own : about block.leaf reports = block.tail ++ about block.leaf (serial rest)
  others : ∀ leaf, leaf ≠ block.leaf → about leaf reports = about leaf (serial rest)
  starts : startsIn reports = startsIn (serial rest)

theorem startsIn_serial_cons (block : Block) (rest : List Block) :
    startsIn (serial (block :: rest)) = (block.leaf, .started) :: startsIn (serial rest) := by
  have split : serial (block :: rest) = (block.leaf, .started) :: (block.tail ++ serial rest) :=
    serial_cons block rest
  rw [split, startsIn, List.filter_cons_of_pos rfl, List.filter_append]
  exact congrArg _ (congrArg (· ++ _) (startsIn_tail block))

theorem Interleaves.started {block : Block} {rest : List Block}
    (interleaved : Interleaves (block :: rest) reports) :
    ∃ later, reports = (block.leaf, .started) :: later ∧ Started block rest later := by
  have starts := interleaved.starts
  rw [startsIn_serial_cons] at starts
  cases reports with
  | nil => simp [startsIn] at starts
  | cons first later =>
      have leads : about first.1 (first :: later) = first :: about first.1 later :=
        about_cons_self rfl later
      have opens := first_about_serial ((interleaved.leaves first.1).symm.trans leads)
      have isStart : Report.isStart first = true := by rw [opens]; rfl
      rw [startsIn, List.filter_cons_of_pos isStart, List.cons.injEq] at starts
      obtain ⟨rfl, starts⟩ := starts
      refine ⟨later, rfl, ?_, fun leaf other => ?_, starts⟩
      · have own := interleaved.leaves block.leaf
        rw [leads, serial_cons, about_append, about_reports_self, Block.reports, List.cons_append,
          List.cons.injEq] at own
        exact own.2
      · have same := interleaved.leaves leaf
        rw [serial_cons, about_append, about_reports_ne other, List.nil_append] at same
        rw [← same, about_cons_ne (Ne.symm other)]

theorem Interleaves.mem_serial (interleaved : Interleaves blocks reports) {report : Report}
    (member : report ∈ reports) : report ∈ serial blocks := by
  have own : report ∈ about report.1 reports := List.mem_filter.mpr ⟨member, by simp⟩
  rw [interleaved.leaves] at own
  exact (List.mem_filter.mp own).1

structure Taken (leaf : NodeId) (taken reports left : List Report) : Prop where
  own : about leaf reports = taken ++ about leaf left
  others : ∀ other, other ≠ leaf → about other left = about other reports
  starts : startsIn left = startsIn reports
  members : ∀ report ∈ left, report ∈ reports

theorem Taken.trans {leaf : NodeId} {first second middle left : List Report}
    (here : Taken leaf first reports middle) (there : Taken leaf second middle left) :
    Taken leaf (first ++ second) reports left where
  own := by rw [here.own, there.own, List.append_assoc]
  others := fun other away => (there.others other away).trans (here.others other away)
  starts := there.starts.trans here.starts
  members := fun report member => here.members report (there.members report member)

theorem exists_taken {leaf : NodeId} {report : Report} {more : List Report}
    (own : about leaf reports = report :: more) (later : Report.isStart report = false) :
    ∃ front back, reports = front ++ report :: back ∧ (∀ other ∈ front, other.1 ≠ leaf) ∧
      Taken leaf [report] reports (front ++ back) := by
  obtain ⟨front, back, rfl, before, here, _⟩ := List.filter_eq_cons_iff.mp own
  have same : report.1 = leaf := by simpa using here
  have away : about leaf front = [] := List.filter_eq_nil_iff.mpr before
  refine ⟨front, back, rfl, fun other member => by simpa using before other member, ?_⟩
  refine ⟨?_, fun other different => ?_, ?_, fun other member => ?_⟩
  · rw [about_append, about_append, away, about_cons_self same]
    rfl
  · have passed : report.1 ≠ other := same ▸ Ne.symm different
    rw [about_append, about_append, about_cons_ne passed]
  · simp [startsIn, List.filter_append, later]
  · rcases List.mem_append.mp member with member | member
    · exact List.mem_append_left _ member
    · exact List.mem_append_right _ (List.mem_cons_of_mem _ member)

theorem Started.interleaves {block : Block} {rest : List Block} {left : List Report}
    (started : Started block rest reports) (taken : Taken block.leaf block.tail reports left) :
    Interleaves rest left where
  leaves := fun leaf => by
    by_cases same : leaf = block.leaf
    · subst same
      exact List.append_cancel_left (taken.own.symm.trans started.own)
    · exact (taken.others leaf same).trans (started.others leaf same)
  starts := taken.starts.trans started.starts

end RunStream
