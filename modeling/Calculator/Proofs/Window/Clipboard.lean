import Calculator.Proofs.Window.Settings

/-!
# What is copied

A result is offered to the clipboard when `=` has been evaluated and the settings in force ask for a
copy, which may depend on the Shift keys. A clipboard that takes nothing is told about, and makes no
other difference, then or later.

* `Window.Answers.offered`, `Window.Answers.copied`: what an event offers, and what is taken of it;
* `Window.inForce_iff`: the settings of the window are those in force;
* `Window.shifts_live`: what is known of the Shift keys;
* `Window.meet_eq`, `Window.live_working`: what a clipboard that takes nothing changes;
* `Window.copies_result`: when a result is copied after any events.
-/

namespace Calculator

theorem State.solve_eq_none_iff [Host] (state : State) :
    state.solve.2 = none ↔ ∃ result, Equation.calculate state.equation = .ok result := by
  rw [solve]
  cases Equation.calculate state.equation with
  | error failure => simp
  | ok result => simp

/-- The moment with a clipboard that works. -/
def Moment.working (moment : Moment) : Moment := { moment with complaint := none }

/-- A response of a window whose clipboard works, as it is with a clipboard that may have a
complaint: what is offered is not taken then, and the complaint is printed. -/
def Response.met (response : Response) (complaint : Option (List Char)) : Response :=
  match complaint, response.offered with
  | some fault, some _ =>
    { response with output := response.output ++ Window.clipboardNotice fault, copied := [] }
  | _, _ => response

theorem Response.met_of_offered {response : Response} (h : response.offered = none)
    (complaint : Option (List Char)) : response.met complaint = response := by
  unfold met
  rw [h]
  cases complaint <;> rfl

/-- A complaint about what is offered adds to what is printed, and nothing is taken. -/
theorem Response.met_eq (response : Response) (complaint : Option (List Char)) :
    ∃ printed,
      response.met complaint =
        { response with
          output := response.output ++ printed
          copied := (response.met complaint).copied } ∧
      (printed ≠ [] → complaint ≠ none ∧ (response.met complaint).offered.isSome = true) := by
  unfold met
  split
  · rename_i ho
    exact ⟨_, rfl, fun _ => ⟨nofun, by rw [ho]; rfl⟩⟩
  · exact ⟨[], by rw [List.append_nil], fun hn => absurd rfl hn⟩

namespace Window

theorem offered_copy (w : Window) (text : List Char) :
    (w.copy text).offered = some text ∧
      (w.copy text).copied = if w.clipboardFault = none then [text] else [] := by
  rw [copy]
  cases w.clipboardFault with
  | some fault => exact ⟨rfl, rfl⟩
  | none => exact ⟨rfl, rfl⟩

theorem eq_met_of_offered {after met : Window} {response : Response} (ha : after = met)
    (ho : response.offered = none) (complaint : Option (List Char)) :
    (after, response) = (met, response.met complaint) := by
  rw [Response.met_of_offered ho, ha]

theorem asksForCopy_iff (w : Window) :
    w.asksForCopy = true ↔
      Settings.isOn w.settings Settings.copyResult = true ∨
        Settings.isOn w.settings Settings.shiftToCopy = true ∧
          (w.shiftIsHeld = true ∨ w.systemShift = true) := by
  simp [asksForCopy, shiftHeld]

section

variable [Host] {w : Window} {event : Event} {answer : Window × Response}
  {moments : List Moment} {settings : Json.Members}

/-- The settings in force after moments: those that are loaded first, and then those that are loaded
when a dialog is left. -/
inductive InForce (w : Window) : List Moment → Json.Members → Prop
  | loaded {settings : Json.Members} (hl : Settings.load w.settingsPlace = .ok settings) :
      InForce w [] settings
  | closed {moments : List Moment} {moment : Moment} {settings : Json.Members}
      (hc : (w.live moments).Closes moment)
      (hl : Settings.load (w.live (moments ++ [moment])).settingsPlace = .ok settings) :
      InForce w (moments ++ [moment]) settings
  | kept {moments : List Moment} {moment : Moment} {settings : Json.Members}
      (h : InForce w moments settings) (hc : ¬ (w.live moments).Closes moment) :
      InForce w (moments ++ [moment]) settings

/-! ## What is offered -/

theorem offered_evaluate (w : Window) :
    w.evaluate.2.offered =
      (if w.state.solve.2 = none ∧ w.asksForCopy = true then some w.evaluate.1.state.result
        else none) ∧
      w.evaluate.2.copied =
        if w.clipboardFault = none then w.evaluate.2.offered.toList else [] := by
  unfold evaluate
  rcases w.state.solve with ⟨state, _ | failure⟩
  · obtain ⟨ho, hc⟩ := w.offered_copy state.result
    cases w.asksForCopy with
    | false => simp
    | true => simp [ho, hc]
  · simp

theorem offered_press (w : Window) (key : Key) :
    (w.press key).2.offered =
      (if key = .equals ∧ w.state.solve.2 = none ∧ w.asksForCopy = true then
        some (w.press key).1.state.result else none) ∧
      (w.press key).2.copied =
        if w.clipboardFault = none then (w.press key).2.offered.toList else [] := by
  rw [press]
  split
  · rename_i he
    simp only [he, true_and]
    exact w.offered_evaluate
  · rename_i he
    simp [he]

/-- What an event offers to the clipboard. -/
theorem Answers.offered (h : w.Answers event answer) :
    answer.2.offered =
      if event.key? = some .equals ∧ w.state.solve.2 = none ∧ w.asksForCopy = true then
        some answer.1.state.result
      else none := by
  cases h with
  | pressed hk =>
    simp only [hk, Option.some_inj]
    exact (w.offered_press _).1
  | configured he hl => simp [he, Event.key?]
  | noted hn => simp [hn]

/-- What the clipboard takes of what is offered. -/
theorem Answers.copied (h : w.Answers event answer) :
    answer.2.copied = if w.clipboardFault = none then answer.2.offered.toList else [] := by
  cases h with
  | pressed hk => exact (w.offered_press _).2
  | configured he hl => simp
  | noted hn => simp

/-! ## A clipboard that takes nothing -/

/-- What a window makes of something with a clipboard that may have a complaint is what it makes of
it with a clipboard that works, but for the complaint. -/
def Indifferent (handle : Window → Window × Response) : Prop :=
  ∀ (w : Window) complaint, handle (w.meeting complaint) =
    ((handle (w.meeting none)).1.meeting complaint, (handle (w.meeting none)).2.met complaint)

theorem indifferent_evaluate : Indifferent evaluate := by
  intro w complaint
  have ha (complaint : Option (List Char)) :
      (w.meeting complaint).asksForCopy = w.asksForCopy := rfl
  have ht (complaint : Option (List Char)) :
      (w.meeting complaint).traceOf .equals = w.traceOf .equals := rfl
  have hs (complaint : Option (List Char)) : (w.meeting complaint).state = w.state := rfl
  unfold evaluate
  simp only [ha, ht, hs]
  rcases w.state.solve with ⟨state, _ | failure⟩
  · cases w.asksForCopy with
    | false => exact eq_met_of_offered rfl rfl complaint
    | true =>
      cases complaint with
      | none => rfl
      | some fault => simp [copy, meeting, Response.met]
  · exact eq_met_of_offered rfl rfl complaint

theorem indifferent_press (key : Key) : Indifferent fun w => w.press key := by
  intro w complaint
  simp only [press]
  split
  · rw [indifferent_evaluate]
    rfl
  · exact eq_met_of_offered rfl rfl complaint

theorem settle_meeting (w : Window) (choices : List (Units × Bool))
    (leave : Dialog → Dialog × Outcome × Place) (complaint : Option (List Char)) :
    (w.meeting complaint).settle choices leave =
      ((w.settle choices leave).1.meeting complaint, (w.settle choices leave).2) := by
  simp only [settle, meeting]
  cases Dialog.load w.settingsPlace w.descriptionsPlace with
  | error error => rfl
  | ok opened =>
    dsimp only
    cases Settings.load (leave (choices.foldl Dialog.check opened)).2.2 <;> rfl

theorem indifferent_settle (choices : List (Units × Bool))
    (leave : Place → Dialog → Dialog × Outcome × Place) :
    Indifferent fun w => w.settle choices (leave w.settingsPlace) := by
  intro w complaint
  have ho : ((w.meeting none).settle choices (leave w.settingsPlace)).2.offered = none := by
    rw [(answers_settle _ choices true _).offered]
    exact if_neg nofun
  have hm := settle_meeting (w.meeting none) choices (leave w.settingsPlace) complaint
  exact hm.trans (eq_met_of_offered rfl ho complaint)

theorem indifferent_handle (event : Event) : Indifferent fun w => w.handle event := by
  intro w complaint
  cases event with
  | click clicked =>
    cases clicked with
    | none => exact eq_met_of_offered rfl rfl complaint
    | some key =>
      simp only [handle]
      split
      · exact indifferent_press key w complaint
      · exact eq_met_of_offered rfl rfl complaint
  | keyPress named text =>
    cases named with
    | shift => exact eq_met_of_offered rfl rfl complaint
    | _ =>
      simp only [handle]
      split
      · exact indifferent_press _ w complaint
      · exact eq_met_of_offered rfl rfl complaint
  | keyRelease named => exact eq_met_of_offered rfl rfl complaint
  | systemShift held => exact eq_met_of_offered rfl rfl complaint
  | settings choices accepting =>
    simp only [handle_settings]
    exact indifferent_settle choices (fun place dialog => dialog.leave accepting place) w complaint

theorem indifferent_handleUnsaved (event : Event) : Indifferent fun w => w.handleUnsaved event := by
  cases event with
  | settings choices accepting =>
    simp only [handleUnsaved]
    exact indifferent_settle choices fun place dialog => dialog.leaveUnsaved accepting place
  | click key => exact indifferent_handle (.click key)
  | keyPress named text => exact indifferent_handle (.keyPress named text)
  | keyRelease named => exact indifferent_handle (.keyRelease named)
  | systemShift held => exact indifferent_handle (.systemShift held)

/-- What a window makes of a moment is what it makes of it with a clipboard that works, but for the
complaint. -/
theorem meet_eq (w : Window) (moment : Moment) :
    w.meet moment =
      ((w.meet moment.working).1.meeting moment.complaint,
        (w.meet moment.working).2.met moment.complaint) := by
  obtain ⟨event, complaint, unsaved⟩ := moment
  cases unsaved with
  | false => exact indifferent_handle event w complaint
  | true => exact indifferent_handleUnsaved event w complaint

theorem meet_working (w : Window) (moment : Moment) :
    w.meet moment.working = (w.meeting none).meet moment.working := rfl

/-- A clipboard that takes nothing makes no difference to what comes later. -/
theorem live_working (w : Window) (moments : List Moment) :
    (w.live (moments.map Moment.working)).meeting none = (w.live moments).meeting none := by
  induction moments using List.reverseRecOn with
  | nil => rfl
  | append_singleton moments moment ih =>
    rw [List.map_append, List.map_singleton, live_concat, live_concat, meet_eq _ moment,
      meet_working (w.live (moments.map Moment.working)), ih]
    rfl

theorem meet_eq_of_working (w : Window) (before : List Moment) (moment : Moment) :
    let works := (w.live (before.map Moment.working)).meet moment.working
    (w.live before).meet moment =
      (works.1.meeting moment.complaint, works.2.met moment.complaint) := by
  intro works
  have hn : (w.live before).meet moment.working = works := by
    rw [meet_working (w.live before), ← live_working]
    rfl
  rw [meet_eq, hn]

/-! ## What is known of the Shift keys -/

/-- What the events of the moments told last. -/
def toldLast (tell : Event → Option Bool) (moments : List Moment) : Option Bool :=
  (moments.filterMap fun moment => tell moment.event).getLast?

theorem live_eq_toldLast {get : Window → Bool} {tell : Event → Option Bool}
    (h : ∀ (w : Window) moment, get (w.meet moment).1 = (tell moment.event).getD (get w))
    (moments : List Moment) :
    get (w.live moments) = (toldLast tell moments).getD (get w) := by
  induction moments using List.reverseRecOn with
  | nil => rfl
  | append_singleton moments moment ih =>
    rw [live_concat, h, ih, toldLast, toldLast, List.filterMap_append, List.getLast?_append]
    cases ht : tell moment.event with
    | none => simp [ht]
    | some held => simp [ht]

/-- A window that was told nothing knows that a Shift key is held if it was the last that it was
told. -/
theorem shifts_live (hw : w.shiftIsHeld = false) (hs : w.systemShift = false)
    (moments : List Moment) :
    ((w.live moments).shiftIsHeld = true ↔ toldLast Event.shift? moments = some true) ∧
      ((w.live moments).systemShift = true ↔
        toldLast Event.systemShift? moments = some true) := by
  have hgetD (told : Option Bool) : told.getD false = true ↔ told = some true := by
    cases told <;> simp
  rw [live_eq_toldLast (fun w moment => (answers_meet w moment).shifts.1), hw,
    live_eq_toldLast (fun w moment => (answers_meet w moment).shifts.2), hs, hgetD, hgetD]
  exact ⟨.rfl, .rfl⟩

/-! ## The settings in force -/

/-- The settings of the window are those in force. -/
theorem inForce_iff (h : w.InStep) :
    w.InForce moments settings ↔ settings = (w.live moments).settings := by
  constructor
  · intro hf
    induction hf with
    | loaded hl => exact Except.ok.inj (hl.symm.trans h.loaded)
    | closed hc hl => exact Except.ok.inj (hl.symm.trans (inStep_live h _).loaded)
    | kept _ hc ih =>
      rw [ih, live_concat]
      exact ((answers_meet _ _).settings_of_no_dialog hc).symm
  · rintro rfl
    induction moments using List.reverseRecOn with
    | nil => exact .loaded h.loaded
    | append_singleton moments moment ih =>
      by_cases hc : (w.live moments).Closes moment
      · exact .closed hc (inStep_live h _).loaded
      · have hs := (answers_meet (w.live moments) moment).settings_of_no_dialog hc
        rw [live_concat, hs]
        exact .kept ih hc

/-- After any events, an event offers something to the clipboard exactly if it is a `=`, the
equation can be calculated, and the settings in force ask for a copy, always or because a Shift key
is held. It then offers one text, the new result, which a clipboard that works takes. The window is
the same as if the clipboard had worked all the time, and what it responds too, but for the text
that is not taken and for what is then printed. -/
theorem copies_result {settingsPlace descriptionsPlace : Place}
    {clipboardFault : Option (List Char)}
    (h : load settingsPlace descriptionsPlace clipboardFault = .ok w)
    (before : List Moment) (moment : Moment) :
    let now := w.live before
    let answer := now.meet moment
    let works := (w.live (before.map Moment.working)).meet moment.working
    (∃ settings, w.InForce before settings ∧
      (answer.2.offered.isSome = true ↔
        moment.event.key? = some .equals ∧
          (∃ result, Equation.calculate now.state.equation = .ok result) ∧
          (Settings.isOn settings Settings.copyResult = true ∨
            Settings.isOn settings Settings.shiftToCopy = true ∧
              (toldLast Event.shift? before = some true ∨
                toldLast Event.systemShift? before = some true)))) ∧
      (∀ text, answer.2.offered = some text → text = answer.1.state.result) ∧
      answer.2.copied = (if moment.complaint = none then answer.2.offered.toList else []) ∧
      answer.1 = { works.1 with clipboardFault := moment.complaint } ∧
      ∃ printed,
        answer.2 =
          { works.2 with
            output := works.2.output ++ printed
            copied := answer.2.copied } ∧
        (printed ≠ [] → moment.complaint ≠ none ∧ answer.2.offered.isSome = true) := by
  intro now answer works
  have ha : (now.meeting moment.complaint).Answers moment.event answer := answers_meet now moment
  have ho := ha.offered
  have hm : answer = (works.1.meeting moment.complaint, works.2.met moment.complaint) :=
    meet_eq_of_working w before moment
  obtain ⟨hs, -⟩ := load_inStep h
  have ⟨hw, hy⟩ : w.shiftIsHeld = false ∧ w.systemShift = false := by
    obtain ⟨settings, -, rfl⟩ := exists_of_load h
    exact ⟨rfl, rfl⟩
  refine ⟨⟨now.settings, (inForce_iff hs).mpr rfl, ?_⟩, ?_, ha.copied, by rw [hm]; rfl, ?_⟩
  · obtain ⟨hshift, hsystem⟩ := shifts_live hw hy before
    rw [ho, ← State.solve_eq_none_iff, ← hshift, ← hsystem, ← asksForCopy_iff]
    exact Option.isSome_ite
  · intro text ht
    rw [ho] at ht
    split at ht <;> cases ht
    rfl
  · rw [hm]
    exact works.2.met_eq moment.complaint

end

theorem copies_result_of_shift :
    ∃ w : Window, load .missing .missing none = .ok w ∧
      let held : Moment := { event := .keyPress .shift [] }
      let digit : Moment := { event := .click (some .seven), complaint := some ['x'] }
      let equals : Moment := { event := .keyPress .enter [], complaint := some ['x'] }
      ((w.live [held, digit]).meet equals).2.offered.isSome = true := by
  have h : load .missing .missing none =
      .ok (create Settings.defaults .missing .missing none) := rfl
  refine ⟨_, h, ?_⟩
  intro held digit equals
  obtain ⟨settings, hf, ho⟩ := (copies_result h [held, digit] equals).1
  rw [inForce_iff (load_inStep h).1] at hf
  refine ho.mpr ⟨rfl, ⟨_, rfl⟩, .inr ⟨?_, .inl rfl⟩⟩
  rw [hf]
  decide

end Window

end Calculator
