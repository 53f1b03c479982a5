import Mathlib
import RunStream.Proofs.Lookup
import RunStream.Settings.Document

set_option autoImplicit false

namespace RunStream

open Text Toml

namespace SettingsDocument

end SettingsDocument

def Harmless (c : Char) : Prop :=
  isBlank c = false ∧ c ∉ ['[', ']', '\'', '|']

def UsableProtocol (protocol : String) : Prop :=
  protocol ≠ "" ∧ ∀ c ∈ protocol.toList, Harmless c

def UsableScheme (scheme : Option String) : Prop :=
  ∀ text, scheme = some text → ∀ c ∈ text.toList, c ≠ ':' ∧ isBlank c = false

inductive Unusable (settings : Settings) : String → Complaint → Prop
  | noProtocol (empty : settings.protocol = "") : Unusable settings "messages.protocol-name" .empty
  | protocol {before after : List Char} {c : Char}
      (split : settings.protocol.toList = before ++ c :: after)
      (first : ∀ other ∈ before, Harmless other) (bad : ¬ Harmless c) :
      Unusable settings "messages.protocol-name" (.contains c)
  | scheme (usable : UsableProtocol settings.protocol)
      (bad : ¬ UsableScheme settings.locationScheme) :
      Unusable settings "messages.location-protocol" .colonOrBlank

namespace Settings

variable {settings : Settings}

theorem endsProtocol_eq_false {c : Char} : endsProtocol c = false ↔ Harmless c := by
  simp [endsProtocol, Harmless, and_assoc]

theorem usableProtocol_iff {protocol : String} :
    UsableProtocol protocol ↔ protocol ≠ "" ∧ protocol.toList.find? endsProtocol = none := by
  simp only [UsableProtocol, List.find?_eq_none, Bool.not_eq_true, endsProtocol_eq_false]

theorem usableScheme_iff {scheme : Option String} :
    UsableScheme scheme ↔
      ((scheme.getD "").toList.any fun c => c == ':' || isBlank c) = false := by
  cases scheme with
  | none => simp [UsableScheme]
  | some text => simp [UsableScheme]

theorem Unusable.complaint? {key : String} {complaint : Complaint}
    (unusable : Unusable settings key complaint) : settings.complaint? = some (key, complaint) := by
  unfold Settings.complaint?
  cases unusable with
  | noProtocol empty => exact if_pos empty
  | @protocol before after c split first bad =>
      have nonempty : settings.protocol ≠ "" := by
        intro empty
        simp [empty] at split
      have found : settings.protocol.toList.find? endsProtocol = some c := by
        refine List.find?_eq_some_iff_append.mpr ⟨?_, before, after, split, fun other member => ?_⟩
        · rwa [← endsProtocol_eq_false, Bool.not_eq_false] at bad
        · rw [endsProtocol_eq_false.mpr (first other member)]
          rfl
      rw [if_neg nonempty, found]
      rfl
  | scheme usable bad =>
      obtain ⟨nonempty, none⟩ := usableProtocol_iff.mp usable
      rw [usableScheme_iff, Bool.not_eq_false] at bad
      rw [if_neg nonempty, none]
      exact if_pos bad

section Documents

open SettingsDocument

variable {path : String} {document : Table}

def checked (path : String) (settings : Settings) : Except SettingsError Settings :=
  match settings.complaint? with
  | some (key, complaint) => .error (.invalidValue path key complaint)
  | none => .ok settings

end Documents

end Settings

end RunStream
