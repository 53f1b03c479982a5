set_option autoImplicit false

namespace RunStream

variable {stop : Char} {front : List Char}

theorem not_mem_takeWhile (stop : Char) (text : List Char) :
    stop ∉ text.takeWhile (· != stop) := by
  intro member
  have passed := List.all_eq_true.mp List.all_takeWhile stop member
  simp at passed

theorem cut_append (absent : stop ∉ front) (rest : List Char) :
    (front ++ rest).takeWhile (· != stop) = front ++ rest.takeWhile (· != stop) ∧
      (front ++ rest).dropWhile (· != stop) = rest.dropWhile (· != stop) := by
  have passes : ∀ c ∈ front, (c != stop) = true := fun c member =>
    bne_iff_ne.mpr fun same => absent (same ▸ member)
  exact ⟨List.takeWhile_append_of_pos passes, List.dropWhile_append_of_pos passes⟩

theorem cut_before {rest : List Char} (absent : stop ∉ front)
    (next : ∀ c, rest.head? = some c → c = stop) :
    (front ++ rest).takeWhile (· != stop) = front ∧
      (front ++ rest).dropWhile (· != stop) = rest := by
  obtain ⟨taken, dropped⟩ := cut_append absent rest
  rw [taken, dropped]
  cases rest with
  | nil => simp
  | cons c more => simp [next c rfl]

theorem takeWhile_stop (absent : stop ∉ front) (rest : List Char) :
    (front ++ stop :: rest).takeWhile (· != stop) = front ∧
      (front ++ stop :: rest).dropWhile (· != stop) = stop :: rest :=
  cut_before absent fun _ first => (Option.some.inj first).symm

end RunStream
