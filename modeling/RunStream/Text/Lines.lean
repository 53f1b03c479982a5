set_option autoImplicit false

namespace RunStream.Text

def lines : List Char → List (List Char)
  | [] => []
  | c :: rest =>
      if c = '\n' then [] :: lines rest
      else if c = '\r' ∧ rest.head? = some '\n' then lines rest
      else
        match lines rest with
        | [] => [[c]]
        | line :: more => (c :: line) :: more

theorem lines_append_newline (line rest : List Char)
    (noFeed : '\n' ∉ line) (noReturn : line.getLast? ≠ some '\r') :
    lines (line ++ '\n' :: rest) = line :: lines rest := by
  induction line with
  | nil => simp [lines]
  | cons c tail ih =>
      have different : c ≠ '\n' := fun same => noFeed (by simp [same])
      have tailFeed : '\n' ∉ tail := fun member => noFeed (by simp [member])
      cases tail with
      | nil =>
          have notReturn : c ≠ '\r' := by simpa using noReturn
          simp [lines, different, notReturn]
      | cons d more =>
          have next : d ≠ '\n' := fun same => tailFeed (by simp [same])
          have tailReturn : (d :: more).getLast? ≠ some '\r' := by
            simpa [List.getLast?_cons_cons] using noReturn
          have read := ih tailFeed tailReturn
          simp only [List.cons_append] at read ⊢
          rw [lines]
          simp [different, next, read]

theorem lines_cons_kept {c : Char} {text line : List Char} {more : List (List Char)}
    (notFeed : c ≠ '\n') (next : text.head? ≠ some '\n') (read : lines text = line :: more) :
    lines (c :: text) = (c :: line) :: more := by
  simp [lines, notFeed, next, read]

theorem lines_append_return (line rest : List Char) (noFeed : '\n' ∉ line) :
    lines (line ++ '\r' :: '\n' :: rest) = line :: lines rest := by
  induction line with
  | nil => simp [lines]
  | cons c tail ih =>
      rw [List.mem_cons, not_or] at noFeed
      refine lines_cons_kept (Ne.symm noFeed.1) ?_ (ih noFeed.2)
      cases tail with
      | nil => simp
      | cons d more =>
          rw [List.mem_cons, not_or] at noFeed
          simpa using Ne.symm noFeed.2.1

theorem exists_lines_cut (line rest : List Char) (noFeed : '\n' ∉ line) :
    ∃ cut, cut <+: line ∧ lines (line ++ '\n' :: rest) = cut :: lines rest := by
  by_cases last : line.getLast? = some '\r'
  · obtain ⟨front, rfl⟩ := List.getLast?_eq_some_iff.mp last
    rw [List.mem_append, not_or] at noFeed
    refine ⟨front, List.prefix_append .., ?_⟩
    simpa using lines_append_return front rest noFeed.1
  · exact ⟨line, List.prefix_rfl, lines_append_newline line rest noFeed last⟩

end RunStream.Text
