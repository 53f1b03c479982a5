set_option autoImplicit false

namespace RunStream.Text

-- The ranges of code points with the property `White_Space`, ends included.
def blankRanges : List (Nat × Nat) :=
  [(0x09, 0x0D), (0x20, 0x20), (0x85, 0x85), (0xA0, 0xA0), (0x1680, 0x1680),
   (0x2000, 0x200A), (0x2028, 0x2029), (0x202F, 0x202F), (0x205F, 0x205F), (0x3000, 0x3000)]

def isBlank (c : Char) : Bool :=
  blankRanges.any fun (first, last) => decide (first ≤ c.toNat ∧ c.toNat ≤ last)

def trimStart (text : List Char) : List Char :=
  text.dropWhile isBlank

theorem trimStart_blank (indent rest : List Char) (blank : ∀ c ∈ indent, isBlank c = true) :
    trimStart (indent ++ rest) = trimStart rest :=
  List.dropWhile_append_of_pos blank

theorem trimStart_isPrefix {cut text : List Char} (cutOff : cut <+: text) :
    trimStart cut <+: trimStart text := by
  obtain ⟨tail, rfl⟩ := cutOff
  rw [trimStart, trimStart, List.dropWhile_append]
  split
  · next none => simp [List.isEmpty_iff.mp none]
  · exact List.prefix_append ..

def trimEndWhere (drop : Char → Bool) (text : List Char) : List Char :=
  (text.reverse.dropWhile drop).reverse

theorem trimEndWhere_isPrefix (drop : Char → Bool) (text : List Char) :
    trimEndWhere drop text <+: text := by
  have cut := List.dropWhile_suffix (l := text.reverse) drop
  rwa [← List.reverse_prefix, List.reverse_reverse] at cut

theorem exists_trimmed (drop : Char → Bool) (text : List Char) :
    ∃ tail, text = trimEndWhere drop text ++ tail ∧ ∀ c ∈ tail, drop c = true := by
  have whole := congrArg List.reverse
    (List.takeWhile_append_dropWhile (p := drop) (l := text.reverse))
  rw [List.reverse_append, List.reverse_reverse] at whole
  refine ⟨(text.reverse.takeWhile drop).reverse, whole.symm, fun c member => ?_⟩
  exact List.all_eq_true.mp List.all_takeWhile c (List.mem_reverse.mp member)

theorem dropWhile_all (drop : Char → Bool) (text : List Char)
    (dropped : ∀ c ∈ text, drop c = true) : text.dropWhile drop = [] := by
  induction text with
  | nil => rfl
  | cons c rest ih =>
      simp only [List.dropWhile_cons, dropped c (by simp), if_true]
      exact ih fun d member => dropped d (by simp [member])

theorem trimEndWhere_append_dropped (drop : Char → Bool) (text tail : List Char)
    (dropped : ∀ c ∈ tail, drop c = true) :
    trimEndWhere drop (text ++ tail) = trimEndWhere drop text := by
  have gone : tail.reverse.dropWhile drop = [] :=
    dropWhile_all drop tail.reverse fun c member => dropped c (List.mem_reverse.mp member)
  simp [trimEndWhere, List.dropWhile_append, gone]

theorem trimEndWhere_append_kept (drop : Char → Bool) (text : List Char) (last : Char)
    (kept : drop last = false) :
    trimEndWhere drop (text ++ [last]) = text ++ [last] := by
  simp [trimEndWhere, kept]

end RunStream.Text
