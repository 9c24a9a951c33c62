import Calculator.State
import Mathlib.Data.List.Basic
import Mathlib.Data.List.Induction

/-!
# Where the result and the mark come from

What a state shows goes back to presses of `=` long before. The result is that of the last `=` that
succeeded, unless `C` was pressed since; the mark comes from the last `=` that failed, and stays as
long as only operators are pressed. Both are cases of `LastEquals`, so what one more key does to
them is said once.

* `lastEquals_concat`: which `=` counts after one more key;
* `State.pressAny_result_of_ne`, `State.pressAny_error_iff`: what one key does;
* `State.result_after`, `State.error_after`: the result and the mark after a run of keys;
* `State.after_provenance`: where a state comes from.
-/

namespace Calculator

/-- The operators, a power, a root and a sign included: the keys that keep the mark of a line. -/
def Key.operators : List Key :=
  [add, subtract, multiply, divide, plusMinus, powerTwo, powerY, squareRoot]

/-- After the keys `before`, `=` was pressed with the outcome, for the last time in `keys`, and all
keys since then are harmless. -/
def LastEquals (outcome : List (Option Key) → Prop) (harmless : Option Key → Prop)
    (before keys : List (Option Key)) : Prop :=
  ∃ since, keys = before ++ some .equals :: since ∧ outcome before ∧
    (∀ middle rest, since = middle ++ some .equals :: rest →
      ¬ outcome (before ++ some .equals :: middle)) ∧
    ∀ key ∈ since, harmless key

section LastEquals

variable {outcome : List (Option Key) → Prop} {harmless : Option Key → Prop}
  {before other keys : List (Option Key)} {key : Option Key}

theorem not_lastEquals_nil : ¬ LastEquals outcome harmless before [] := by
  rintro ⟨since, he, -⟩
  cases before <;> cases he

theorem LastEquals.concat (h : LastEquals outcome harmless before keys) (hs : harmless key)
    (hn : ¬ (key = some .equals ∧ outcome keys)) :
    LastEquals outcome harmless before (keys ++ [key]) := by
  obtain ⟨since, rfl, ho, hl, hk⟩ := h
  refine ⟨since ++ [key], by simp, ho, fun middle rest he => ?_, fun other hm => ?_⟩
  · rcases List.eq_nil_or_concat' rest with rfl | ⟨rest, last, rfl⟩
    · obtain ⟨rfl, hk⟩ := List.append_inj' he rfl
      exact fun ho => hn ⟨List.singleton_inj.mp hk, ho⟩
    · rw [← List.cons_append, ← List.append_assoc] at he
      exact hl middle rest (List.append_inj' he rfl).1
  · rcases List.mem_append.mp hm with hm | hm
    · exact hk other hm
    · rwa [List.mem_singleton.mp hm]

/-- Either the last key is the `=` that counts, or it is harmless and another one counts already
before it. -/
theorem lastEquals_concat :
    LastEquals outcome harmless before (keys ++ [key]) ↔
      (key = some .equals ∧ outcome keys) ∧ before = keys ∨
      ¬ (key = some .equals ∧ outcome keys) ∧ harmless key ∧
        LastEquals outcome harmless before keys := by
  constructor
  · rintro ⟨since, he, ho, hl, hk⟩
    rcases List.eq_nil_or_concat' since with rfl | ⟨since, last, rfl⟩
    · obtain ⟨rfl, hk⟩ := List.append_inj' he rfl
      exact .inl ⟨⟨List.singleton_inj.mp hk, ho⟩, rfl⟩
    · rw [← List.cons_append, ← List.append_assoc] at he
      obtain ⟨rfl, hlast⟩ := List.append_inj' he rfl
      obtain rfl := List.singleton_inj.mp hlast
      have hlk : harmless key := hk key (List.mem_append_right _ (List.mem_singleton_self key))
      refine .inr ⟨?_, hlk, since, rfl, ho, fun middle rest hr => ?_, fun other hm => ?_⟩
      · rintro ⟨rfl, hn⟩
        exact hl since [] rfl hn
      · exact hl middle (rest ++ [key]) (by rw [hr]; simp)
      · exact hk other (List.mem_append_left _ hm)
  · rintro (⟨⟨rfl, ho⟩, rfl⟩ | ⟨hn, hs, h⟩)
    · exact ⟨[], rfl, ho, by simp, by simp⟩
    · exact h.concat hs hn

theorem exists_lastEquals_concat :
    (∃ before, LastEquals outcome harmless before (keys ++ [key])) ↔
      (key = some .equals ∧ outcome keys) ∨
        (∃ before, LastEquals outcome harmless before keys) ∧ harmless key := by
  constructor
  · rintro ⟨before, h⟩
    rcases lastEquals_concat.mp h with ⟨hc, -⟩ | ⟨-, hs, h⟩
    · exact .inl hc
    · exact .inr ⟨⟨before, h⟩, hs⟩
  · intro h
    by_cases hc : key = some .equals ∧ outcome keys
    · exact ⟨keys, lastEquals_concat.mpr (.inl ⟨hc, rfl⟩)⟩
    · obtain ⟨⟨before, h⟩, hs⟩ := h.resolve_left hc
      exact ⟨before, h.concat hs hc⟩

/-- If `=` was pressed with the outcome and all keys since then are harmless, then there is a last
such `=`. -/
theorem exists_lastEquals {since : List (Option Key)} (ho : outcome before)
    (hk : ∀ key ∈ since, harmless key) :
    ∃ last, LastEquals outcome harmless last (before ++ some .equals :: since) := by
  induction since using List.reverseRecOn with
  | nil => exact exists_lastEquals_concat.mpr (.inl ⟨rfl, ho⟩)
  | append_singleton since key ih =>
    rw [← List.cons_append, ← List.append_assoc, exists_lastEquals_concat]
    exact .inr ⟨ih fun k hm => hk k (List.mem_append_left _ hm), hk key (by simp)⟩

end LastEquals

namespace Line

variable [Host]

/-- Every key but `=` keeps the mark or clears it. -/
theorem editTyped_error {line edited : Line} {key : Key} (hk : key ≠ .equals)
    (he : editTyped line key = .ok edited) :
    edited.error = (line.error && decide (key ∈ Key.operators)) := by
  cases key with
  | equals => exact absurd rfl hk
  | clear | clearEntry | delete | parentheses =>
    cases he
    exact (Bool.and_false _).symm
  | squareRoot =>
    cases he
    exact (Bool.and_true _).symm
  | plusMinus | powerTwo | powerY =>
    obtain ⟨equation, -, rfl⟩ := exists_rule_of_ok he
    exact (Bool.and_true _).symm
  | _ =>
    obtain ⟨equation, -, rfl⟩ := exists_rule_of_ok he
    rfl

end Line

namespace State

variable [Host]

/-- The state after a run of keys. -/
def after (keys : List (Option Key)) : State := keys.foldl pressAny initial

/-- The equation of the state has a result. -/
def Solvable (state : State) : Prop := ∃ result, Equation.calculate state.equation = .ok result

/-- An `=` succeeds that is pressed after the keys. -/
def Succeeds (keys : List (Option Key)) : Prop := (after keys).Solvable

/-- No `=` has succeeded, or `C` has been pressed since. -/
def Cleared (keys : List (Option Key)) : Prop :=
  ∀ before since, keys = before ++ some .equals :: since → Succeeds before → some .clear ∈ since

variable {state : State} {key : Option Key} {result : List Char}

theorem after_concat (keys : List (Option Key)) (key : Option Key) :
    after (keys ++ [key]) = (after keys).pressAny key := by
  rw [after, List.foldl_append]
  rfl

/-! ## One key -/

theorem press_equals_of_ok (h : Equation.calculate state.equation = .ok result) :
    state.press .equals = ⟨state.equation, false, result⟩ := by
  rw [press_equals, solve, h]

theorem press_equals_of_not_solvable (h : ¬ state.Solvable) :
    state.press .equals = ⟨state.equation, true, state.result⟩ := by
  cases hc : Equation.calculate state.equation with
  | ok result => exact absurd ⟨result, hc⟩ h
  | error failure => rw [press_equals, solve, hc]

/-- Only `C` and an `=` that succeeds change the result. -/
theorem pressAny_result_of_ne (hc : key ≠ some .clear)
    (hn : ¬ (key = some .equals ∧ state.Solvable)) :
    (state.pressAny key).result = state.result := by
  cases key with
  | none => rfl
  | some key =>
    rw [pressAny]
    by_cases he : key = .equals
    · rw [he, press_equals_of_not_solvable fun h => hn ⟨congrArg some he, h⟩]
    · rw [press, if_neg he]
      exact if_neg fun h => hc (congrArg some h)

theorem press_error_of_ne {key : Key} (he : key ≠ .equals) :
    (state.press key).error = (state.error && decide (key ∈ Key.operators)) := by
  rw [press, if_neg he]
  exact Line.editTyped_error he (Line.edit?_eq_ok state.line key)

/-- An `=` that fails marks the line, and operators keep the mark. -/
theorem pressAny_error_iff :
    (state.pressAny key).error = true ↔
      (key = some .equals ∧ ¬ state.Solvable) ∨
        state.error = true ∧ ∀ k ∈ key, k ∈ Key.operators := by
  cases key with
  | none => simp [pressAny]
  | some key =>
    have hk : (∀ k ∈ some key, k ∈ Key.operators) ↔ key ∈ Key.operators := by simp
    rw [pressAny, Option.some.injEq, hk]
    by_cases he : key = .equals
    · have ho : Key.equals ∉ Key.operators := by decide
      rw [he, and_iff_right rfl, or_iff_left fun h => ho h.2]
      by_cases hs : state.Solvable
      · obtain ⟨result, hr⟩ := id hs
        simp [press_equals_of_ok hr, hs]
      · simp [press_equals_of_not_solvable hs, hs]
    · rw [press_error_of_ne he, Bool.and_eq_true, decide_eq_true_iff, or_iff_right fun h => he h.1]

/-! ## A run of keys -/

/-- The result goes back to the last `=` that succeeded and after which `C` was not pressed, and
without one it is zero; by induction on the keys from their end. -/
theorem result_after (keys : List (Option Key)) :
    (∃ before, LastEquals Succeeds (· ≠ some .clear) before keys ∧
        Equation.calculate (after before).equation = .ok (after keys).result) ∨
      (¬ ∃ before, LastEquals Succeeds (· ≠ some .clear) before keys) ∧
        (after keys).result = ['0'] := by
  induction keys using List.reverseRecOn with
  | nil => exact .inr ⟨fun ⟨before, h⟩ => not_lastEquals_nil h, rfl⟩
  | append_singleton keys key ih =>
    rw [after_concat]
    by_cases hc : key = some .clear
    · rw [hc, exists_lastEquals_concat]
      exact .inr ⟨by simp, rfl⟩
    · by_cases hs : key = some .equals ∧ Succeeds keys
      · refine .inl ⟨keys, lastEquals_concat.mpr (.inl ⟨hs, rfl⟩), ?_⟩
        obtain ⟨rfl, result, hr⟩ := hs
        rw [pressAny, press_equals_of_ok hr, hr]
      · rw [pressAny_result_of_ne hc hs, exists_lastEquals_concat, or_iff_right hs,
          and_iff_left hc]
        exact ih.imp_left fun ⟨before, h, hr⟩ => ⟨before, h.concat hc hs, hr⟩

/-- If an `=` succeeded and `C` was not pressed since, there is a last one of this kind. -/
theorem exists_lastEquals_of_not_cleared {keys : List (Option Key)} (h : ¬ Cleared keys) :
    ∃ before, LastEquals Succeeds (· ≠ some .clear) before keys := by
  simp only [Cleared, not_forall] at h
  obtain ⟨before, since, rfl, hs, hc⟩ := h
  refine exists_lastEquals hs fun key hk he => hc ?_
  rwa [← he]

/-- The line is marked if some `=` failed and only operators were pressed since the last one that
did; by induction on the keys from their end. -/
theorem error_after (keys : List (Option Key)) :
    (after keys).error = true ↔
      ∃ before, LastEquals (¬ Succeeds ·) (∀ key ∈ ·, key ∈ Key.operators) before keys := by
  induction keys using List.reverseRecOn with
  | nil =>
    refine iff_of_false Bool.false_ne_true ?_
    rintro ⟨before, h⟩
    exact not_lastEquals_nil h
  | append_singleton keys key ih =>
    rw [after_concat, pressAny_error_iff, exists_lastEquals_concat, ih]
    rfl

/-- The result is zero until an `=` succeeds and after `C`; else it is that of the last `=` that
succeeded. The line is marked if some `=` failed and only operators were pressed since the last one
that did. No `=` changes the equation. -/
theorem after_provenance (keys : List (Option Key)) :
    (Cleared keys → (after keys).result = ['0']) ∧
    (¬ Cleared keys → ∃ before, LastEquals Succeeds (· ≠ some .clear) before keys ∧
      Equation.calculate (after before).equation = .ok (after keys).result) ∧
    ((after keys).error = true ↔
      ∃ before, LastEquals (¬ Succeeds ·) (∀ key ∈ ·, key ∈ Key.operators) before keys) ∧
    ∀ state : State, (state.press .equals).equation = state.equation := by
  refine ⟨fun hc => ?_, fun hc => ?_, error_after keys, solve_equation⟩
  · rcases result_after keys with ⟨before, ⟨since, he, hs, -, hk⟩, -⟩ | ⟨-, hz⟩
    · exact absurd rfl (hk _ (hc before since he hs))
    · exact hz
  · rcases result_after keys with h | ⟨hno, -⟩
    · exact h
    · exact absurd (exists_lastEquals_of_not_cleared hc) hno

end State

end Calculator
