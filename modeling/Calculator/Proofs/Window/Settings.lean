import Calculator.Proofs.Window.Outside

/-!
# The settings of the window

The window takes its settings over when it is made and whenever a dialog is left, and only a dialog
changes what can be loaded. So the settings in memory are always those that can be loaded, and the
styles are those of the settings, however many dialogs are accepted, rejected or fail to save. Only
the button that opens the settings is always plain.

* `Window.Answers.takes_or_keeps`: what one event does to the settings;
* `Window.inStep_live`: the window is in step with its settings;
* `Window.settings_in_step`: the settings in memory, in their place and on the screen.
-/

namespace Calculator

namespace Window

section

variable [Host] {w : Window} {event : Event} {answer : Window × Response}

/-- The settings of the window are those that can be loaded, and the styles are those of the
settings, but for the button that opens them. -/
structure InStep (w : Window) : Prop where
  loaded : Settings.load w.settingsPlace = .ok w.settings
  style : w.style = Theme.window w.isDark
  result : w.resultStyle = Theme.result w.isDark
  buttons : w.buttonStyle = Theme.button w.isDark
  settingsButton : w.settingsButtonStyle = []

/-- The engine prints what it evaluates if the settings ask for it. -/
def DebugInStep (w : Window) : Prop := w.debug = Settings.isOn w.settings Settings.debug

/-! ## One moment -/

/-- Either a dialog is left, and the settings are taken over, or they are kept. -/
theorem Answers.takes_or_keeps (ha : w.Answers event answer) :
    (answer.2.dialog.isSome = true ∧ (w.InStep → answer.1.InStep) ∧ answer.1.DebugInStep) ∨
      (¬ answer.2.dialog.isSome = true ∧ answer.1.settings = w.settings ∧
        answer.1.debug = w.debug ∧ (w.InStep → answer.1.InStep)) := by
  cases ha with
  | @pressed key hk =>
    obtain ⟨_, _, _, _, _, hp⟩ := press_eq_render w key
    rw [hp]
    exact .inr ⟨nofun, rfl, rfl, fun h =>
      ⟨h.loaded, h.style, h.result, h.buttons, h.settingsButton⟩⟩
  | configured he hl => exact .inl ⟨rfl, fun h => ⟨hl, rfl, rfl, rfl, h.settingsButton⟩, rfl⟩
  | noted hn =>
    exact .inr ⟨nofun, rfl, rfl, fun h =>
      ⟨h.loaded, h.style, h.result, h.buttons, h.settingsButton⟩⟩

theorem Answers.inStep (ha : w.Answers event answer) (h : w.InStep) : answer.1.InStep := by
  rcases ha.takes_or_keeps with ⟨-, hi, -⟩ | ⟨-, -, -, hi⟩
  · exact hi h
  · exact hi h

theorem Answers.debugInStep (ha : w.Answers event answer) (h : w.DebugInStep) :
    answer.1.DebugInStep := by
  rcases ha.takes_or_keeps with ⟨-, -, hd⟩ | ⟨-, hs, hd, -⟩
  · exact hd
  · rw [DebugInStep, hs, hd]
    exact h

/-- When a dialog is left, debugging is taken over from the settings. -/
theorem Answers.debugInStep_of_dialog (ha : w.Answers event answer)
    (hd : answer.2.dialog.isSome = true) : answer.1.DebugInStep := by
  rcases ha.takes_or_keeps with ⟨-, -, h⟩ | ⟨hn, -⟩
  · exact h
  · exact absurd hd hn

/-- The settings change only when a dialog is left. -/
theorem Answers.settings_of_no_dialog (ha : w.Answers event answer)
    (hn : ¬ answer.2.dialog.isSome = true) : answer.1.settings = w.settings := by
  rcases ha.takes_or_keeps with ⟨hd, -⟩ | ⟨-, hs, -⟩
  · exact absurd hd hn
  · exact hs

/-! ## A run of moments -/

theorem inStep_live (h : w.InStep) (moments : List Moment) : (w.live moments).InStep :=
  List.foldlRecOn moments _ h fun w hw moment _ =>
    (answers_meet w moment).inStep
      ⟨hw.loaded, hw.style, hw.result, hw.buttons, hw.settingsButton⟩

theorem debugInStep_live (h : w.DebugInStep) (moments : List Moment) :
    (w.live moments).DebugInStep :=
  List.foldlRecOn moments _ h fun w hw moment _ => (answers_meet w moment).debugInStep hw

theorem descriptionsPlace_live (w : Window) (moments : List Moment) :
    (w.live moments).descriptionsPlace = w.descriptionsPlace :=
  List.foldlRecOn (motive := fun v : Window => v.descriptionsPlace = w.descriptionsPlace) moments _
    rfl fun v hv moment _ => (answers_meet v moment).outside.1.trans hv

theorem load_inStep {settingsPlace descriptionsPlace : Place}
    {clipboardFault : Option (List Char)}
    (h : load settingsPlace descriptionsPlace clipboardFault = .ok w) :
    w.InStep ∧ w.descriptionsPlace = descriptionsPlace := by
  obtain ⟨settings, hl, rfl⟩ := exists_of_load h
  exact ⟨⟨hl, rfl, rfl, rfl, rfl⟩, rfl⟩

/-- After any events, among them dialogs that are accepted, that are rejected and that cannot save,
the settings of the window are what can be loaded at that moment, and the window, its result and the
buttons of its keys are dark if dark mode is on, and else plain. The button that opens the settings
is plain in either case. From the first dialog that is left, debugging is on if its setting is; and
a dialog that is opened is left if the descriptions can be loaded and are texts. -/
theorem settings_in_step {settingsPlace descriptionsPlace : Place}
    {clipboardFault : Option (List Char)}
    (h : load settingsPlace descriptionsPlace clipboardFault = .ok w) (moments : List Moment) :
    let now := w.live moments
    let dark := Settings.isOn now.settings Settings.darkMode
    Settings.value now.settingsPlace Settings.everything = .ok (.object now.settings) ∧
      now.style = (if dark then "background-color: #121212;".toList else []) ∧
      now.resultStyle = (if dark then "color: white;".toList else []) ∧
      (∀ key, now.styleOf (.key key) =
        if dark then "background-color: #2e2e2e; color: white; font-weight: bold;".toList
        else []) ∧
      now.styleOf .settings = [] ∧
      (∀ before moment after, moments = before ++ moment :: after →
        (w.live before).Closes moment →
          now.debug = Settings.isOn now.settings Settings.debug) ∧
      ∀ moment choices accepting, moment.event = .settings choices accepting →
        (now.Closes moment ↔ ∃ held, descriptionsPlace.members? = .ok held ∧
          Dialog.Describes (held.getD []) now.settings) := by
  obtain ⟨hs, hd⟩ := load_inStep h
  intro now dark
  have hnow : now.InStep := inStep_live hs moments
  refine ⟨Settings.value_eq_ok_iff.mpr hnow.loaded, hnow.style, hnow.result,
    fun _ => hnow.buttons, hnow.settingsButton, ?_, ?_⟩
  · intro before moment after hm hc
    have hb := (answers_meet (w.live before) moment).debugInStep_of_dialog hc
    have ha := debugInStep_live hb after
    rwa [← live_concat, ← live_append, List.append_assoc, List.singleton_append, ← hm] at ha
  · intro moment choices accepting he
    have hp : now.descriptionsPlace = descriptionsPlace :=
      (descriptionsPlace_live w moments).trans hd
    rw [closes_settings hnow.loaded he, hp]

end

/-- A dialog that cannot save puts debugging in step too. -/
theorem settings_in_step_of_unsaved :
    ∃ w : Window, load .missing .missing none = .ok w ∧
      let unsaved : Moment := { event := .settings [(Settings.debug, true)] true, unsaved := true }
      let later := w.live [unsaved, { event := .click (some .seven) }]
      later.debug = Settings.isOn later.settings Settings.debug := by
  have h : load .missing .missing none =
      .ok (create Settings.defaults .missing .missing none) := rfl
  refine ⟨_, h, ?_⟩
  intro unsaved later
  have hdescribes : Dialog.Describes [] Settings.defaults := fun _ _ => rfl
  have hc : (create Settings.defaults .missing .missing none).Closes unsaved :=
    ((settings_in_step h []).2.2.2.2.2.2 unsaved _ _ rfl).mpr ⟨none, rfl, hdescribes⟩
  exact (settings_in_step h _).2.2.2.2.2.1 [] unsaved _ rfl hc

/-- In dark mode the button that opens the settings is as plain as before. -/
theorem settings_button_plain_when_dark :
    ∃ w : Window, load (.file "\x7b\"darkmode\": true\x7d".toUTF8) .missing none = .ok w ∧
      Settings.isOn w.settings Settings.darkMode = true ∧
      w.styleOf (.key .equals) =
        "background-color: #2e2e2e; color: white; font-weight: bold;".toList ∧
      w.styleOf .settings = [] := by
  have hl : Settings.load (.file "\x7b\"darkmode\": true\x7d".toUTF8) =
      .ok [(Settings.darkMode, .bool true), (Settings.debug, .bool false),
        (Settings.shiftToCopy, .bool true), (Settings.copyResult, .bool false)] := rfl
  refine ⟨_, by rw [load, hl]; rfl, by decide, rfl, rfl⟩

end Window

end Calculator
