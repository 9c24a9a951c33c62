import Mathlib.Data.List.TakeWhile

/-!
# Runs of characters

A run of characters is as long as possible if no character of its kind follows it.

* `forall_mem_of_all`: what holds of each of finitely many characters can be decided;
* `takeWhile_run_append`: a run that is as long as possible is what `takeWhile` finds.
-/

namespace Calculator

/-- What is decided of each member holds of each. Deciding the statement itself would go through all
characters. -/
theorem forall_mem_of_all {α : Type} {p : α → Prop} [DecidablePred p] {l : List α}
    (h : l.all (fun x => decide (p x)) = true) : ∀ x ∈ l, p x :=
  fun x hx => of_decide_eq_true (List.all_eq_true.mp h x hx)

theorem takeWhile_run_append {p : Char → Bool} {run rest : List Char}
    (hr : ∀ c ∈ run, p c = true) (ha : ∀ c ∈ rest.head?, p c = false) :
    (run ++ rest).takeWhile p = run ∧ (run ++ rest).dropWhile p = rest := by
  rw [List.takeWhile_append_of_pos hr, List.dropWhile_append_of_pos hr]
  cases rest with
  | nil => simp
  | cons c rest => simp [ha c rfl]

end Calculator
