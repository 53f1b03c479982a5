import RunStream.Nesting
import RunStream.Proofs.Wire.Enclosing

set_option autoImplicit false

namespace RunStream

variable {Label : Type}

inductive Balanced : List (Side × Label) → Prop
  | nil : Balanced []
  | enclosed {before inner : List (Side × Label)} (label : Label) (first : Balanced before)
      (within : Balanced inner) :
      Balanced (before ++ (.opening, label) :: inner ++ [(.closing, label)])

/-- The labels of what is left open, outermost first. -/
inductive LeavesOpen : List Label → List (Side × Label) → Prop
  | nothing {brackets : List (Side × Label)} (balanced : Balanced brackets) :
      LeavesOpen [] brackets
  | within {outer : List Label} {before inner : List (Side × Label)} (label : Label)
      (around : LeavesOpen outer before) (balanced : Balanced inner) :
      LeavesOpen (outer ++ [label]) (before ++ (.opening, label) :: inner)

theorem Balanced.append {left right : List (Side × Label)} (first : Balanced left)
    (second : Balanced right) : Balanced (left ++ right) := by
  induction second with
  | nil => simpa using first
  | enclosed label _ within ih _ =>
      simpa only [List.append_assoc] using Balanced.enclosed label ih within

def openings (brackets : List (Side × Label)) : Nat :=
  brackets.countP (·.1 = .opening)

def closings (brackets : List (Side × Label)) : Nat :=
  brackets.countP (·.1 = .closing)

theorem Balanced.openings_eq {brackets : List (Side × Label)} (balanced : Balanced brackets) :
    openings brackets = closings brackets := by
  induction balanced with
  | nil => rfl
  | enclosed label _ _ before inner =>
      simp only [openings, closings] at before inner
      simp [openings, closings, before, inner]

namespace LeavesOpen

variable {labels outer : List Label} {brackets : List (Side × Label)}

theorem openings_eq (leaves : LeavesOpen labels brackets) :
    openings brackets = closings brackets + labels.length := by
  induction leaves with
  | nothing balanced => exact balanced.openings_eq
  | within label _ balanced before =>
      have inner := balanced.openings_eq
      simp only [openings, closings] at before inner
      simp [openings, closings, before, inner]
      omega

theorem append {more : List (Side × Label)} (leaves : LeavesOpen labels brackets)
    (balanced : Balanced more) : LeavesOpen labels (brackets ++ more) := by
  cases leaves with
  | nothing before => exact .nothing (before.append balanced)
  | within label around inside =>
      rw [List.append_assoc, List.cons_append]
      exact .within label around (inside.append balanced)

theorem opened (leaves : LeavesOpen labels brackets) (label : Label) :
    LeavesOpen (labels ++ [label]) (brackets ++ [(.opening, label)]) :=
  .within label leaves .nil

theorem closed {label : Label} (leaves : LeavesOpen (outer ++ [label]) brackets) :
    LeavesOpen outer (brackets ++ [(.closing, label)]) := by
  generalize whole : outer ++ [label] = labels at leaves
  cases leaves with
  | nothing _ => simp at whole
  | within last around inside =>
      obtain ⟨rfl, same⟩ := List.append_inj' whole rfl
      obtain rfl := List.singleton_inj.mp same
      have block := Balanced.enclosed label .nil inside
      simpa using around.append block

theorem balanced (leaves : LeavesOpen ([] : List Label) brackets) : Balanced brackets := by
  generalize none : ([] : List Label) = labels at leaves
  cases leaves with
  | nothing balanced => exact balanced
  | within => simp at none

theorem completed (leaves : LeavesOpen labels brackets) :
    Balanced (brackets ++ labels.reverse.map (Side.closing, ·)) := by
  generalize stack : labels.reverse = inward
  obtain rfl : labels = inward.reverse := by rw [← stack, List.reverse_reverse]
  clear stack
  induction inward generalizing brackets with
  | nil => simpa using leaves.balanced
  | cons label rest ih =>
      rw [List.reverse_cons] at leaves
      simpa using ih leaves.closed

end LeavesOpen

section Stack

variable [DecidableEq Label]

def restack? : List Label → Side × Label → Option (List Label)
  | stack, (.opening, label) => some (label :: stack)
  | [], (.closing, _) => none
  | top :: outer, (.closing, label) => if top = label then some outer else none

def stackAfter? (stack : List Label) (brackets : List (Side × Label)) : Option (List Label) :=
  brackets.foldlM restack? stack

theorem stackAfter?_append {stack middle : List Label} {first : List (Side × Label)}
    (here : stackAfter? stack first = some middle) (second : List (Side × Label)) :
    stackAfter? stack (first ++ second) = stackAfter? middle second :=
  Wire.foldlM_append_of_eq_some here second

theorem Balanced.keeps_stack {brackets : List (Side × Label)} (balanced : Balanced brackets)
    (stack : List Label) : stackAfter? stack brackets = some stack := by
  induction balanced generalizing stack with
  | nil => rfl
  | @enclosed before inner label _ _ first within =>
      have opened : stackAfter? stack ((.opening, label) :: inner) =
          some (label :: stack) := within (label :: stack)
      rw [List.append_assoc, stackAfter?_append (first stack), stackAfter?_append opened]
      simp [stackAfter?, restack?]

theorem LeavesOpen.on_stack {labels : List Label} {brackets : List (Side × Label)}
    (leaves : LeavesOpen labels brackets) : stackAfter? [] brackets = some labels.reverse := by
  induction leaves with
  | nothing balanced => exact balanced.keeps_stack []
  | @within outer before inner label _ balanced around =>
      rw [stackAfter?_append around, List.reverse_append]
      exact balanced.keeps_stack (label :: outer.reverse)

theorem LeavesOpen.extended {stack final : List Label} {before after : List (Side × Label)}
    (leaves : LeavesOpen stack.reverse before)
    (followed : stackAfter? stack after = some final) :
    LeavesOpen final.reverse (before ++ after) := by
  induction after generalizing stack before with
  | nil =>
      obtain rfl : stack = final := Option.some.inj followed
      simpa using leaves
  | cons bracket rest ih =>
      obtain ⟨middle, step, later⟩ := Wire.foldlM_cons_eq_some followed
      obtain ⟨side, label⟩ := bracket
      have here : LeavesOpen middle.reverse (before ++ [(side, label)]) := by
        cases side with
        | opening =>
            obtain rfl : label :: stack = middle := Option.some.inj step
            simpa using leaves.opened label
        | closing =>
            cases stack with
            | nil => cases step
            | cons top outer =>
                obtain ⟨rfl, rfl⟩ : top = label ∧ outer = middle := by simpa [restack?] using step
                rw [List.reverse_cons] at leaves
                exact leaves.closed
      simpa using ih here later

theorem leavesOpen_iff {labels : List Label} {brackets : List (Side × Label)} :
    LeavesOpen labels brackets ↔ stackAfter? [] brackets = some labels.reverse := by
  refine ⟨LeavesOpen.on_stack, fun followed => ?_⟩
  have start : LeavesOpen ([] : List Label).reverse [] := .nothing .nil
  simpa using start.extended followed

end Stack

end RunStream
