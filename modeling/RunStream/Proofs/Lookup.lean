set_option autoImplicit false

namespace RunStream

variable {Key Value : Type} [BEq Key] [LawfulBEq Key] {key : Key}

theorem lookup_filter_key (keep : Key → Bool) (kept : keep key = true)
    (table : List (Key × Value)) :
    (table.filter fun entry => keep entry.1).lookup key = table.lookup key := by
  induction table with
  | nil => rfl
  | cons entry rest ih =>
      obtain ⟨other, value⟩ := entry
      by_cases same : key = other
      · subst same
        simp [kept]
      · have apart : (key == other) = false := beq_false_of_ne same
        cases passed : keep other <;> simp [List.lookup_cons, passed, apart, ih]

end RunStream
