import Calculator.Proofs.Window.Dialog
import Calculator.Proofs.Window.Run
import Mathlib.Data.List.Induction

/-!
# What the window meets outside

The clipboard may take nothing, and it may be impossible to save settings, at one event and not at
the next. A `Moment` is an event with what the window meets while it handles it, and a window lives
through moments as it runs through events.

* `Window.answers_meet`: what a window can make of a moment;
* `Window.closes_settings`: when a dialog is left.
-/

namespace Calculator

/-- An event, and what the window meets while it handles it. -/
structure Moment where
  event : Event
  /-- What the clipboard complains about, if it takes nothing. -/
  complaint : Option (List Char) := none
  /-- No settings can be saved. -/
  unsaved : Bool := false

/-- Leaves the dialog with one of its two buttons while no settings can be saved. -/
def Dialog.leaveUnsaved (dialog : Dialog) (accepting : Bool) (place : Place) :
    Dialog × Outcome × Place :=
  if accepting then (dialog.complain, .stayed, place) else (dialog, .rejected, place)

namespace Window

variable [Host] {w : Window} {moment : Moment}

/-- The window in front of a clipboard with a complaint, or of one that works. -/
def meeting (w : Window) (complaint : Option (List Char)) : Window :=
  { w with clipboardFault := complaint }

/-- Handles an event while no settings can be saved. -/
def handleUnsaved (w : Window) : Event → Window × Response
  | .settings choices accepting =>
    w.settle choices fun dialog => dialog.leaveUnsaved accepting w.settingsPlace
  | event => w.handle event

/-- Handles the event of a moment. -/
def meet (w : Window) (moment : Moment) : Window × Response :=
  if moment.unsaved then (w.meeting moment.complaint).handleUnsaved moment.event
  else (w.meeting moment.complaint).handle moment.event

/-- The window after a run of moments. -/
def live (w : Window) (moments : List Moment) : Window :=
  moments.foldl (fun w moment => (w.meet moment).1) w

/-- A dialog of the settings is left at the moment. -/
def Closes (w : Window) (moment : Moment) : Prop := (w.meet moment).2.dialog.isSome = true

theorem live_concat (w : Window) (moments : List Moment) (moment : Moment) :
    w.live (moments ++ [moment]) = ((w.live moments).meet moment).1 :=
  List.foldl_append

theorem live_append (w : Window) (before after : List Moment) :
    w.live (before ++ after) = (w.live before).live after :=
  List.foldl_append

/-! ## One moment -/

theorem answers_handleUnsaved (w : Window) (event : Event) :
    w.Answers event (w.handleUnsaved event) := by
  cases event with
  | settings choices accepting =>
    rw [handleUnsaved]
    exact answers_settle w choices accepting _
  | _ => exact answers_handle w _

/-- What a window can make of a moment. -/
theorem answers_meet (w : Window) (moment : Moment) :
    (w.meeting moment.complaint).Answers moment.event (w.meet moment) := by
  unfold meet
  split
  · exact answers_handleUnsaved _ _
  · exact answers_handle _ _

/-- With settings to load afterwards, a dialog is left if it can be opened. -/
theorem dialog_settle {leave : Dialog → Dialog × Outcome × Place} (choices : List (Units × Bool))
    (ha : ∀ dialog, Dialog.load w.settingsPlace w.descriptionsPlace = .ok dialog → ∃ after,
      Settings.load (leave (choices.foldl Dialog.check dialog)).2.2 = .ok after) :
    (w.settle choices leave).2.dialog.isSome = true ↔
      ∃ dialog, Dialog.load w.settingsPlace w.descriptionsPlace = .ok dialog := by
  cases ho : Dialog.load w.settingsPlace w.descriptionsPlace with
  | error fault => cases fault <;> simp [settle, ho, refused]
  | ok dialog =>
    obtain ⟨after, ha⟩ := ha dialog ho
    simp [settle, ho, ha]

/-- With settings to load, a dialog is left if the descriptions can be loaded and are texts, and
only then. -/
theorem closes_settings {settings : Json.Members} {choices : List (Units × Bool)}
    {accepting : Bool} (hl : Settings.load w.settingsPlace = .ok settings)
    (he : moment.event = .settings choices accepting) :
    w.Closes moment ↔ ∃ held, w.descriptionsPlace.members? = .ok held ∧
      Dialog.Describes (held.getD []) settings := by
  rw [← Dialog.exists_load_iff hl]
  unfold Closes meet
  rw [he]
  split
  · rw [handleUnsaved]
    refine dialog_settle (w := w.meeting moment.complaint) choices fun dialog _ => ?_
    cases accepting <;> exact ⟨settings, hl⟩
  · rw [handle_settings]
    refine dialog_settle (w := w.meeting moment.complaint) choices fun dialog ho => ?_
    obtain ⟨loaded, descriptions, ho, hc⟩ := Dialog.exists_created_of_load ho
    exact Dialog.exists_load_leave ho hc choices accepting

end Window

end Calculator
