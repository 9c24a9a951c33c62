import Calculator.Proofs.State.Run
import Calculator.Window.Basic

/-!
# Runs of the window

Whatever happens to the window, its state changes only by the key that the event means. The window
presses `=` itself, but as the state does.

* `Window.Answers`, `Window.answers_handle`: what a window can make of an event;
* `Window.state_handle`: what one event does to the state;
* `Window.state_run`: what a run of events does;
* `Window.drivers_agree`: a line, a state and a window go through a run of keys alike.
-/

namespace Calculator

/-- The key that an event means: the key of a button, or the key that is pressed on a keyboard, by
its name or else by the text that it types. -/
def Event.key? : Event → Option Key
  | .click key => key.filter (· ∈ Key.buttons)
  | .keyPress .shift _ => none
  | .keyPress named text => named.key?.or (Key.ofTyped? text)
  | .keyRelease _ | .systemShift _ | .settings _ _ => none

/-- Whether an event of the window tells that the Shift key is held. -/
def Event.shift? : Event → Option Bool
  | .keyPress .shift _ => some true
  | .keyRelease .shift => some false
  | _ => none

/-- Whether the system tells that the Shift key is held. -/
def Event.systemShift? : Event → Option Bool
  | .systemShift held => some held
  | _ => none

theorem Event.shift?_of_key? {event : Event} {key : Key} (h : event.key? = some key) :
    event.shift? = none ∧ event.systemShift? = none := by
  cases event with
  | click clicked => exact ⟨rfl, rfl⟩
  | keyPress named text =>
    cases named with
    | shift => cases h
    | _ => exact ⟨rfl, rfl⟩
  | _ => cases h

namespace Window

variable [Host] {w : Window} {event : Event} {answer : Window × Response}

/-- The window after a run of events. -/
def run (w : Window) (events : List Event) : Window :=
  events.foldl (fun w event => (w.handle event).1) w

/-- The window with what an event tells of the Shift keys. -/
def noteShift (w : Window) (event : Event) : Window :=
  { w with
    shiftIsHeld := event.shift?.getD w.shiftIsHeld
    systemShift := event.systemShift?.getD w.systemShift }

/-- Opens the settings, sets boxes and leaves the dialog in a given way. -/
def settle (w : Window) (choices : List (Units × Bool))
    (leave : Dialog → Dialog × Outcome × Place) : Window × Response :=
  match Dialog.load w.settingsPlace w.descriptionsPlace with
  | .error fault => (w, refused fault)
  | .ok opened =>
    let (dialog, outcome, settingsPlace) := leave (choices.foldl Dialog.check opened)
    match Settings.load settingsPlace with
    | .error error => (w, refused (.unreadable error))
    | .ok settings =>
      (({ w with settingsPlace } : Window).adopt settings,
        { messages := dialog.messages, dialog := some ⟨dialog, outcome⟩ })

theorem exists_of_load {settingsPlace descriptionsPlace : Place}
    {clipboardFault : Option (List Char)}
    (h : load settingsPlace descriptionsPlace clipboardFault = .ok w) :
    ∃ settings, Settings.load settingsPlace = .ok settings ∧
      w = create settings settingsPlace descriptionsPlace clipboardFault := by
  unfold load at h
  cases hl : Settings.load settingsPlace with
  | error error =>
    rw [hl] at h
    cases h
  | ok settings =>
    rw [hl] at h
    cases h
    exact ⟨settings, rfl, rfl⟩

/-! ## One event -/

/-- What a window can make of an event, and respond. -/
inductive Answers (w : Window) (event : Event) : Window × Response → Prop
  /-- The key that the event means is pressed. -/
  | pressed {key : Key} (h : event.key? = some key) : Answers w event (w.press key)
  /-- A dialog is left, and the window takes over the settings that can then be loaded. -/
  | configured {choices : List (Units × Bool)} {accepting : Bool} {settingsPlace : Place}
      {settings : Json.Members} {messages : List (String × String)} {report : DialogReport}
      (h : event = .settings choices accepting) (hl : Settings.load settingsPlace = .ok settings) :
      Answers w event (({ w with settingsPlace } : Window).adopt settings,
        { messages, dialog := some report })
  /-- No more changes than what is known of the Shift keys. -/
  | noted {passedOn : Bool} {fault : Option EventFault} {undescribed : Option Units}
      (h : event.key? = none) :
      Answers w event (w.noteShift event, { passedOn, fault, undescribed })

theorem handle_settings (w : Window) (choices : List (Units × Bool)) (accepting : Bool) :
    w.handle (.settings choices accepting) =
      w.settle choices fun dialog => dialog.leave accepting w.settingsPlace := by
  rw [handle, configure, settle]
  cases Dialog.load w.settingsPlace w.descriptionsPlace with
  | error fault => rfl
  | ok opened =>
    simp only [bind, Except.bind]
    generalize (choices.foldl Dialog.check opened).leave accepting w.settingsPlace = left
    cases Settings.load left.2.2 <;> rfl

theorem answers_settle (w : Window) (choices : List (Units × Bool)) (accepting : Bool)
    (leave : Dialog → Dialog × Outcome × Place) :
    w.Answers (.settings choices accepting) (w.settle choices leave) := by
  have hrefused (fault : DialogFault) :
      w.Answers (.settings choices accepting) (w, refused fault) := by
    cases fault <;> exact .noted rfl
  unfold settle
  split
  · exact hrefused _
  · dsimp only
    split
    · exact hrefused _
    · rename_i hl
      exact .configured rfl hl

theorem answers_handle (w : Window) (event : Event) : w.Answers event (w.handle event) := by
  cases event with
  | click clicked =>
    cases clicked with
    | none => exact .noted rfl
    | some key =>
      have hk : (Event.click (some key)).key? = if key ∈ Key.buttons then some key else none := by
        simp only [Event.key?, Option.filter_some, decide_eq_true_eq]
      rw [handle]
      split at hk <;> rename_i hb
      · rw [if_pos hb]
        exact .pressed hk
      · rw [if_neg hb]
        exact .noted hk
  | keyPress named text =>
    by_cases hs : named = .shift
    · rw [hs]
      exact .noted rfl
    · have hk : (Event.keyPress named text).key? = keyOf named text := by
        rw [Event.key?, keyOf]
        exact hs
      rw [handle]
      · cases ho : keyOf named text with
        | none =>
          have hn : w.noteShift (.keyPress named text) = w := by
            cases named with
            | shift => exact absurd rfl hs
            | _ => rfl
          have ha : w.Answers (.keyPress named text) (w.noteShift _, { passedOn := true }) :=
            .noted (hk.trans ho)
          rwa [hn] at ha
        | some key => exact .pressed (hk.trans ho)
      · exact hs
  | keyRelease named =>
    have hn : w.noteShift (.keyRelease named) =
        { w with shiftIsHeld := w.shiftIsHeld && named != .shift } := by
      cases named <;> simp [noteShift, Event.shift?, Event.systemShift?]
    rw [handle, ← hn]
    exact .noted rfl
  | systemShift held => exact .noted rfl
  | settings choices accepting =>
    rw [handle_settings]
    exact answers_settle w choices accepting _

theorem Answers.eq_press {key : Key} (h : w.Answers event answer) (hk : event.key? = some key) :
    answer = w.press key := by
  cases h with
  | pressed ho =>
    rw [ho] at hk
    rw [Option.some.inj hk]
  | configured he _ =>
    rw [he] at hk
    cases hk
  | noted hn =>
    rw [hn] at hk
    cases hk

theorem handle_of_key? {key : Key} (h : event.key? = some key) : w.handle event = w.press key :=
  (answers_handle w event).eq_press h

theorem state_evaluate (w : Window) : w.evaluate.1.state = w.state.solve.1 := by
  unfold evaluate
  split <;> rename_i h <;> rw [h]

theorem state_press (w : Window) (key : Key) : (w.press key).1.state = w.state.press key := by
  rw [press]
  split
  · rename_i he
    rw [he, State.press_equals, ← state_evaluate]
    rfl
  · rfl

/-- A key changes the state and what the window shows of it, and opens no dialog. -/
theorem press_eq_render (w : Window) (key : Key) :
    ∃ state tooltip output offered copied,
      w.press key = (({ w with state, tooltip } : Window).render, { output, offered, copied }) := by
  rw [press]
  split
  · rw [evaluate]
    split
    · exact ⟨_, _, _, _, _, rfl⟩
    · rw [copy]
      split
      · split <;> exact ⟨_, _, _, _, _, rfl⟩
      · exact ⟨_, _, _, _, _, rfl⟩
  · exact ⟨_, _, _, _, _, rfl⟩

theorem Answers.state (h : w.Answers event answer) :
    answer.1.state = w.state.pressAny event.key? := by
  cases h with
  | pressed hk =>
    rw [hk]
    exact state_press w _
  | configured he _ =>
    rw [he]
    rfl
  | noted hn =>
    rw [hn]
    rfl

/-- The window changes nothing that it meets outside, but for the settings that a dialog saves. -/
theorem Answers.outside (h : w.Answers event answer) :
    answer.1.descriptionsPlace = w.descriptionsPlace ∧
      answer.1.clipboardFault = w.clipboardFault := by
  cases h with
  | @pressed key hk =>
    obtain ⟨_, _, _, _, _, hp⟩ := press_eq_render w key
    rw [hp]
    exact ⟨rfl, rfl⟩
  | configured he hl => exact ⟨rfl, rfl⟩
  | noted hn => exact ⟨rfl, rfl⟩

/-- What an event tells of the Shift keys is what is known of them afterwards. -/
theorem Answers.shifts (h : w.Answers event answer) :
    answer.1.shiftIsHeld = event.shift?.getD w.shiftIsHeld ∧
      answer.1.systemShift = event.systemShift?.getD w.systemShift := by
  cases h with
  | @pressed key hk =>
    obtain ⟨hw, hs⟩ := Event.shift?_of_key? hk
    obtain ⟨_, _, _, _, _, hp⟩ := press_eq_render w key
    rw [hp, hw, hs]
    exact ⟨rfl, rfl⟩
  | configured he hl =>
    rw [he]
    exact ⟨rfl, rfl⟩
  | noted hn => exact ⟨rfl, rfl⟩

/-- What one event does to the state. -/
theorem state_handle (w : Window) (event : Event) :
    (w.handle event).1.state = w.state.pressAny event.key? :=
  (answers_handle w event).state

/-! ## A run of events -/

theorem run_concat (w : Window) (events : List Event) (event : Event) :
    w.run (events ++ [event]) = ((w.run events).handle event).1 :=
  List.foldl_append

/-- What a run of events does to the state. -/
theorem state_run (w : Window) (events : List Event) :
    (w.run events).state = (events.filterMap Event.key?).foldl State.press w.state := by
  rw [run, List.foldl_filterMap]
  refine (List.foldl_hom state fun w event => ?_).symm
  rw [state_handle]
  cases event.key? <;> rfl

/-- A line, a state and a window go through a run alike: a line is the line of the state after the
same keys, and the state of a window is the state after the keys that its events mean. -/
theorem drivers_agree :
    (∀ keys : List (Option Key),
      keys.foldl Line.apply Line.initial = (keys.foldl State.pressAny State.initial).line) ∧
    ∀ settings settingsPlace descriptionsPlace clipboardFault events,
      ((create settings settingsPlace descriptionsPlace clipboardFault).run events).state =
        (events.filterMap Event.key?).foldl State.press State.initial := by
  refine ⟨fun keys => ?_, fun settings settingsPlace descriptionsPlace clipboardFault events => ?_⟩
  · have hne : State.initial.equation ≠ [] := List.cons_ne_nil _ _
    rw [State.line_foldl hne]
    rfl
  · exact state_run _ events

end Window

end Calculator
