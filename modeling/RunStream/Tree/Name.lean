set_option autoImplicit false

namespace RunStream.Name

def isParameterChars (name : List Char) : Bool :=
  name.head? == some '[' && name.getLast? == some ']'

def isParameter (name : String) : Bool :=
  isParameterChars name.toList

def splitLastDot : List Char → Option (List Char × List Char)
  | [] => none
  | c :: rest =>
      match splitLastDot rest with
      | some (before, after) => some (c :: before, after)
      | none => if c = '.' then some ([], rest) else none

/-- Splits at the last dot that comes before the first opening bracket. -/
def splitQualifier (name : List Char) : Option (List Char × List Char) :=
  (splitLastDot (name.takeWhile (· != '['))).map fun (before, after) =>
    (before, after ++ name.dropWhile (· != '['))

def split? (name : List Char) : Option (List Char × List Char) :=
  if isParameterChars name then none else splitQualifier name

def short (name : String) : String :=
  match split? name.toList with
  | some (_, after) => String.ofList after
  | none => name

def package? (name : String) : Option String :=
  match split? name.toList with
  | some (before, after) =>
      if before.isEmpty || after.isEmpty then none else some (String.ofList before)
  | none => none

theorem splitLastDot_append {name before after : List Char}
    (found : splitLastDot name = some (before, after)) : name = before ++ '.' :: after := by
  induction name generalizing before after with
  | nil => simp [splitLastDot] at found
  | cons c rest ih =>
      unfold splitLastDot at found
      split at found
      · next inner =>
          simp only [Option.some.injEq, Prod.mk.injEq] at found
          rw [ih inner, ← found.1, ← found.2]
          rfl
      · split at found
        · next dot =>
            simp only [Option.some.injEq, Prod.mk.injEq] at found
            simp [dot, ← found.1, ← found.2]
        · simp at found

theorem splitLastDot_eq_none {name : List Char} : splitLastDot name = none ↔ '.' ∉ name := by
  induction name with
  | nil => simp [splitLastDot]
  | cons c rest ih =>
      unfold splitLastDot
      split
      · next inner =>
          have present : '.' ∈ rest := by
            rw [splitLastDot_append inner]
            simp
          simp [present]
      · next absent =>
          have missing := ih.mp absent
          by_cases dot : c = '.' <;> simp [dot, missing, eq_comm]

theorem splitLastDot_dotless {name before after : List Char}
    (found : splitLastDot name = some (before, after)) : '.' ∉ after := by
  induction name generalizing before after with
  | nil => simp [splitLastDot] at found
  | cons c rest ih =>
      unfold splitLastDot at found
      split at found
      · next inner =>
          simp only [Option.some.injEq, Prod.mk.injEq] at found
          exact found.2 ▸ ih inner
      · next absent =>
          split at found
          · simp only [Option.some.injEq, Prod.mk.injEq] at found
            exact found.2 ▸ splitLastDot_eq_none.mp absent
          · simp at found

theorem splitLastDot_eq_some {name before after : List Char} :
    splitLastDot name = some (before, after) ↔ name = before ++ '.' :: after ∧ '.' ∉ after := by
  constructor
  · exact fun found => ⟨splitLastDot_append found, splitLastDot_dotless found⟩
  · rintro ⟨rfl, dotless⟩
    induction before with
    | nil => simp [splitLastDot, splitLastDot_eq_none.mpr dotless]
    | cons c rest ih => rw [List.cons_append, splitLastDot, ih]

end RunStream.Name
