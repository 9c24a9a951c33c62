import Calculator.Proofs.Window.Run
import Mathlib.Data.List.Basic
import Mathlib.Data.List.Induction

/-!
# What the window shows

The labels of the window follow its state whatever happens to it, and the colour of the equation
follows the mark of the line. The tooltip follows another rule: each key sets it, to the text of a
failure or to nothing, while a mark can outlive it. So a tooltip tells that the last key was a `=`
that failed, and that the line is marked.

* `Window.shows_handle`, `Window.shows_run`: the window shows its state after each event;
* `Window.tooltip_handle`: what one event does to the tooltip;
* `Window.labels_follow_state`: what is shown after a run of events.
-/

namespace Calculator

theorem State.error_of_solve_ne_none [Host] {state : State} (h : state.solve.2 ≠ none) :
    state.solve.1.error = true := by
  unfold solve at h ⊢
  split
  · rename_i hc
    simp [hc] at h
  · rfl

namespace Window

variable {w : Window} {event : Event} {events : List Event}

/-- The labels and the colour of the equation show the state, and there is a tooltip on a marked
line only. -/
structure Shows (w : Window) : Prop where
  result : w.resultLabel = w.state.result
  equation : w.equationLabel = w.state.display
  colour : w.equationStyle = Theme.equation w.state.error
  marked : w.tooltip ≠ [] → w.state.error = true

/-- The tooltip after `=`: the text of the failure, if there was one. -/
def tooltipAfter : Option Failure → List Char
  | some failure => tooltipFor failure
  | none => []

theorem tooltipAfter_ne_nil {failure : Option Failure} :
    tooltipAfter failure ≠ [] ↔ failure ≠ none := by
  cases failure with
  | none => simp [tooltipAfter]
  | some failure => simp [tooltipAfter, tooltipFor]

theorem shows_render (h : w.tooltip ≠ [] → w.state.error = true) : w.render.Shows :=
  ⟨rfl, rfl, rfl, h⟩

section

variable [Host]

/-- The last of the events that is a key is a `=`, and the equation of that moment fails. -/
def FailedLast (w : Window) (events : List Event) : Prop :=
  ∃ before event after, events = before ++ event :: after ∧ event.key? = some .equals ∧
    (∀ later ∈ after, later.key? = none) ∧ (w.run before).state.solve.2 ≠ none

/-! ## One event -/

theorem tooltip_evaluate (w : Window) : w.evaluate.1.tooltip = tooltipAfter w.state.solve.2 := by
  unfold evaluate
  split <;> rename_i h <;> rw [h] <;> rfl

theorem tooltip_press (w : Window) (key : Key) :
    (w.press key).1.tooltip = if key = .equals then tooltipAfter w.state.solve.2 else [] := by
  rw [press]
  split
  · exact tooltip_evaluate w
  · rfl

theorem shows_press (w : Window) (key : Key) : (w.press key).1.Shows := by
  rw [press]
  split
  · refine shows_render fun ht => ?_
    rw [tooltip_evaluate, tooltipAfter_ne_nil] at ht
    rw [state_evaluate]
    exact State.error_of_solve_ne_none ht
  · exact shows_render fun ht => absurd rfl ht

/-- An event that is no key leaves the labels, the colour and the tooltip as they are. -/
theorem Answers.of_key?_eq_none {answer : Window × Response} (h : w.Answers event answer)
    (hn : event.key? = none) :
    (w.Shows → answer.1.Shows) ∧ answer.1.tooltip = w.tooltip := by
  cases h with
  | pressed hk =>
    rw [hn] at hk
    cases hk
  | configured he hl =>
    exact ⟨fun hw => ⟨hw.result, hw.equation, hw.colour, hw.marked⟩, rfl⟩
  | noted hn => exact ⟨fun hw => ⟨hw.result, hw.equation, hw.colour, hw.marked⟩, rfl⟩

/-- The window shows its state after an event if it did before. -/
theorem shows_handle (h : w.Shows) (event : Event) : (w.handle event).1.Shows := by
  cases he : event.key? with
  | none => exact ((answers_handle w event).of_key?_eq_none he).1 h
  | some key =>
    rw [handle_of_key? he]
    exact shows_press w key

/-- What one event does to the tooltip: a key sets it, and any other event keeps it. -/
theorem tooltip_handle (w : Window) (event : Event) :
    (w.handle event).1.tooltip =
      match event.key? with
      | some key => if key = .equals then tooltipAfter w.state.solve.2 else []
      | none => w.tooltip := by
  cases he : event.key? with
  | none => exact ((answers_handle w event).of_key?_eq_none he).2
  | some key => rw [handle_of_key? he, tooltip_press]

/-! ## A run of events -/

theorem shows_run (h : w.Shows) (events : List Event) : (w.run events).Shows :=
  List.foldlRecOn events _ h fun _ hw event _ => shows_handle hw event

/-- Either the last event is a `=` that fails, or it is no key and one of those before it is. -/
theorem failedLast_concat :
    w.FailedLast (events ++ [event]) ↔
      (event.key? = some .equals ∧ (w.run events).state.solve.2 ≠ none) ∨
        event.key? = none ∧ w.FailedLast events := by
  constructor
  · rintro ⟨before, last, after, he, hk, hn, hf⟩
    rcases List.eq_nil_or_concat' after with rfl | ⟨after, later, rfl⟩
    · obtain ⟨rfl, hl⟩ := List.append_inj' he rfl
      rw [List.singleton_inj.mp hl]
      exact .inl ⟨hk, hf⟩
    · rw [← List.cons_append, ← List.append_assoc] at he
      obtain ⟨rfl, hl⟩ := List.append_inj' he rfl
      rw [List.singleton_inj.mp hl]
      exact .inr ⟨hn later (by simp), before, last, after, rfl, hk,
        fun other hm => hn other (List.mem_append_left _ hm), hf⟩
  · rintro (⟨hk, hf⟩ | ⟨hk, before, last, after, rfl, hl, hn, hf⟩)
    · exact ⟨events, event, [], rfl, hk, nofun, hf⟩
    · refine ⟨before, last, after ++ [event], by simp, hl, fun later hm => ?_, hf⟩
      rcases List.mem_append.mp hm with hm | hm
      · exact hn later hm
      · rwa [List.mem_singleton.mp hm]

/-- A window without a tooltip gets one by a `=` that fails, and keeps it until the next key. -/
theorem tooltip_run (h : w.tooltip = []) (events : List Event) :
    (w.run events).tooltip ≠ [] ↔ w.FailedLast events := by
  induction events using List.reverseRecOn with
  | nil => simp [run, h, FailedLast]
  | append_singleton events event ih =>
    rw [run_concat, tooltip_handle, failedLast_concat, ← ih]
    cases event.key? with
    | none => simp
    | some key =>
      by_cases hk : key = .equals <;> simp [hk, tooltipAfter_ne_nil]

theorem load_shows {settingsPlace descriptionsPlace : Place} {clipboardFault : Option (List Char)}
    (h : load settingsPlace descriptionsPlace clipboardFault = .ok w) :
    w.Shows ∧ w.tooltip = [] := by
  obtain ⟨settings, -, rfl⟩ := exists_of_load h
  exact ⟨shows_render fun ht => absurd rfl ht, rfl⟩

/-- After any events, on a window with any settings that can be loaded, the labels show the state,
and the equation has the colour of errors exactly if its line is marked. There is a tooltip exactly
if the last key was a `=` that failed, and then the line is marked. -/
theorem labels_follow_state {settingsPlace descriptionsPlace : Place}
    {clipboardFault : Option (List Char)}
    (h : load settingsPlace descriptionsPlace clipboardFault = .ok w) (events : List Event) :
    let now := w.run events
    now.resultLabel = now.state.result ∧
      now.equationLabel = Operator.display now.state.equation ∧
      (now.equationStyle = "color: #8b0000;".toList ↔ now.state.error = true) ∧
      (now.tooltip ≠ [] ↔
        ∃ before event after, events = before ++ event :: after ∧ event.key? = some .equals ∧
          (∀ later ∈ after, later.key? = none) ∧ (w.run before).state.solve.2 ≠ none) ∧
      (now.tooltip ≠ [] → now.state.error = true) := by
  obtain ⟨hs, ht⟩ := load_shows h
  have hr := shows_run hs events
  refine ⟨hr.result, hr.equation, ?_, tooltip_run ht events, hr.marked⟩
  rw [hr.colour]
  cases (w.run events).state.error <;> decide

end

theorem labels_follow_state_of_trailing_operator :
    ∃ w, load .missing .missing none = .ok w ∧
      (w.run [.click (some .add), .click (some .equals), .keyRelease .shift]).tooltip ≠ [] := by
  have h : load .missing .missing none =
      .ok (create Settings.defaults .missing .missing none) := rfl
  refine ⟨_, h, (labels_follow_state h _).2.2.2.1.mpr
    ⟨[.click (some .add)], .click (some .equals), [.keyRelease .shift], rfl, by decide, ?_, ?_⟩⟩
  · simp [Event.key?]
  · decide

end Window

end Calculator
