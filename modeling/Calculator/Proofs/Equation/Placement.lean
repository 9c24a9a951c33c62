import Calculator.Line
import Mathlib.Data.List.Chain

/-!
# Where operators stand in a typed equation

Every rule of typing changes the end of the equation. Which characters may
stand side by side is `Equation.MayFollow`: no operator follows an operator,
and a power follows what takes it. The beginning of an equation is treated as
if it followed an operator, so none can stand there.

Each rule keeps an equation `Placed`, in which every character may follow the
one before it; so does each key, and so does any run of keys:

* `Equation.placed_append`: what may be added at the end;
* `Line.placed_editTyped`: one key, by the rules;
* `Line.operators_placed`: any run of keys from the initial line.
-/

namespace Calculator

namespace Equation

/-- The second character may stand right after the first one. -/
def MayFollow (a b : Char) : Prop :=
  (Operator.isBinaryChar a = true → Operator.isBinaryChar b = false) ∧
    (b = '^' → takesPower a = true)

instance (a b : Char) : Decidable (MayFollow a b) := inferInstanceAs (Decidable (_ ∧ _))

/-- Every character may follow the one before it, and the first may follow an operator. -/
def Placed (equation : List Char) : Prop := List.IsChain MayFollow ('+' :: equation)

instance (equation : List Char) : Decidable (Placed equation) :=
  inferInstanceAs (Decidable (List.IsChain MayFollow _))

/-- The character that the next one follows. -/
def tip (equation : List Char) : Char := equation.getLast?.getD '+'

/-- The character may follow any other. -/
def Free (c : Char) : Prop := Operator.isBinaryChar c = false ∧ c ≠ '^'

instance (c : Char) : Decidable (Free c) := inferInstanceAs (Decidable (_ ∧ _))

variable {equation text exponent edited : List Char} {a b c d : Char}

theorem Free.mayFollow (h : Free b) (a : Char) : MayFollow a b :=
  ⟨fun _ => h.1, fun hb => absurd hb h.2⟩

theorem free_of_isDigit (h : c.isDigit = true) : Free c := by
  refine ⟨Bool.eq_false_iff.mpr fun ho => ?_, ?_⟩
  · simp only [Operator.isBinaryChar, Bool.or_eq_true, beq_iff_eq, or_assoc] at ho
    rcases ho with rfl | rfl | rfl | rfl | rfl | rfl <;> exact absurd h (by decide)
  · rintro rfl
    exact absurd h (by decide)

theorem tip_append (text : List Char) (c : Char) : tip (text ++ [c]) = c := by
  rw [tip, List.getLast?_concat]
  rfl

theorem concat_ne_blank (h : c ≠ ' ') (before : List Char) : before ++ [c] ≠ blank := by
  intro he
  have hl := congrArg List.getLast? he
  rw [List.getLast?_concat] at hl
  exact h (Option.some.inj hl)

/-! ## Adding to the end and removing from it -/

theorem placed_append : Placed (equation ++ b :: text) ↔
    Placed equation ∧ MayFollow (tip equation) b ∧ List.IsChain MayFollow (b :: text) := by
  rw [Placed, ← List.cons_append, List.isChain_append, List.getLast?_cons, ← tip]
  simp only [Option.mem_def, Option.some.injEq, List.head?_cons, forall_eq', and_comm, Placed]

theorem placed_blank : Placed blank := by decide

theorem Placed.dropLast (h : Placed equation) : Placed equation.dropLast :=
  List.IsChain.prefix h (List.cons_prefix_cons.mpr ⟨rfl, List.dropLast_prefix equation⟩)

theorem Placed.ofTyped (h : Placed equation) : Placed (ofTyped equation) := by
  unfold Equation.ofTyped
  split
  · exact placed_blank
  · exact h

theorem Placed.typed (h : Placed equation) : Placed (typed equation) := by
  unfold Equation.typed
  split
  · exact List.isChain_singleton _
  · exact h

theorem Free.placed (h : Free c) : Placed [c] := List.isChain_pair.mpr (h.mayFollow '+')

/-! ## The rules -/

theorem Placed.deleteLast (h : Placed equation) : Placed (deleteLast equation) := by
  unfold Equation.deleteLast
  split
  · exact h
  · exact h.dropLast.ofTyped

theorem Placed.openRoot (h : Placed equation) : Placed (openRoot equation) := by
  rw [Equation.openRoot, List.append_assoc]
  exact placed_append.mpr ⟨h.typed, Free.mayFollow (by decide) _, by decide⟩

theorem Placed.openOrClose (h : Placed equation) : Placed (openOrClose equation) := by
  unfold Equation.openOrClose
  refine placed_append.mpr ⟨h.typed, Free.mayFollow ?_ _, List.isChain_singleton _⟩
  split <;> decide

theorem Placed.raise (h : Placed equation) (hx : List.IsChain MayFollow ('^' :: exponent))
    (he : raise equation exponent = .ok edited) : Placed edited := by
  rcases List.eq_nil_or_concat' equation with rfl | ⟨before, c, rfl⟩
  · cases he
  rw [Equation.raise, last_append] at he
  simp only [bind, Except.bind, pure, Except.pure] at he
  split at he <;> cases he
  · refine placed_append.mpr ⟨h, ⟨fun _ => rfl, fun _ => ?_⟩, hx⟩
    rwa [tip_append]
  · exact h

theorem Placed.toggleSign (h : Placed equation) (he : toggleSign equation = .ok edited) :
    Placed edited := by
  unfold Equation.toggleSign at he
  split at he
  · cases he
    decide
  rcases List.eq_nil_or_concat' equation with rfl | ⟨before, c, rfl⟩
  · cases he
  rw [last_append] at he
  simp only [bind, Except.bind, pure, Except.pure, List.dropLast_concat] at he
  have hb := (placed_append.mp h).1
  -- The group is taken back, opened after an operator, taken off a digit that stands alone in it,
  -- or opened around the last digit; else nothing changes.
  repeat' split at he
  all_goals cases he
  · exact hb.dropLast.ofTyped
  · exact placed_append.mpr ⟨h, Free.mayFollow (by decide) _, by decide⟩
  · exact (free_of_isDigit ‹_›).placed
  · have hc := free_of_isDigit ‹_›
    rw [List.append_assoc]
    refine placed_append.mpr ⟨hb, Free.mayFollow (by decide) _, ?_⟩
    exact .cons_cons (by decide) (.cons_cons (hc.mayFollow '-') (.singleton c))
  · exact h

/-- A number that is completed stays placed: a zero, a point and a digit may follow anything, and
any token but a power may follow a zero. -/
theorem Placed.completeNumber (h : Placed equation) (hd : d ≠ '^')
    (he : completeNumber equation [d] = some edited) : Placed edited := by
  have hz : Free '0' := by decide
  unfold Equation.completeNumber at he
  split at he
  · split at he
    · split at he
      · cases he
        have hzd : MayFollow '0' d := ⟨fun e => absurd e (by decide), fun e => absurd e hd⟩
        exact placed_append.mpr ⟨h, hz.mayFollow _, .cons_cons hzd (.singleton d)⟩
      · split at he <;> cases he
        exact placed_append.mpr ⟨h, (free_of_isDigit ‹_›).mayFollow _, .singleton d⟩
    · split at he <;> cases he
      have hf : Free d := free_of_isDigit ‹_›
      refine placed_append.mpr ⟨h.dropLast, hz.mayFollow _, ?_⟩
      exact .cons_cons (by decide) (.cons_cons (hf.mayFollow '.') (.singleton d))
  · cases he

/-- An operator takes the place of another one, and follows anything else. -/
theorem Placed.swapOperator (h : Placed equation) (hd : d ≠ '^') {replaced : Option (List Char)}
    (he : swapOperator equation [d] = .ok replaced) :
    Placed (replaced.getD (equation ++ [d])) := by
  rcases List.eq_nil_or_concat' equation with rfl | ⟨before, c, rfl⟩
  · cases he
  rw [Equation.swapOperator, last_append, Operator.isBinary_singleton] at he
  simp only [bind, Except.bind, pure, Except.pure, List.dropLast_concat] at he
  split at he <;> cases he
  · obtain ⟨hb, hc, -⟩ := placed_append.mp h
    rename_i ho
    rw [Bool.and_eq_true] at ho
    refine placed_append.mpr ⟨hb, ⟨fun hp => ?_, fun e => absurd e hd⟩, .singleton d⟩
    rw [hc.1 hp] at ho
    exact absurd ho.1 (by decide)
  · rename_i ho
    refine placed_append.mpr ⟨h, ⟨fun hp => ?_, fun e => absurd e hd⟩, .singleton d⟩
    rw [tip_append] at hp
    rw [hp, Bool.true_and] at ho
    exact Bool.eq_false_iff.mpr ho

theorem Placed.typeToken (h : Placed equation) (hd : d ≠ '^')
    (he : typeToken equation [d] = .ok edited) : Placed edited := by
  unfold Equation.typeToken at he
  split at he
  · cases he
    split
    · exact h
    · rename_i ho
      rw [Operator.isBinary_singleton] at ho
      exact Free.placed ⟨Bool.eq_false_iff.mpr ho, hd⟩
  · split at he
    · cases he
      exact h.completeNumber hd ‹_›
    · cases hs : Equation.swapOperator equation [d] with
      | error refusal => rw [hs] at he; cases he
      | ok replaced =>
        have hp := h.swapOperator hd hs
        rw [hs] at he
        cases replaced <;> cases he <;> exact hp

end Equation

namespace Line

open Equation

variable [Host] {line edited : Line}

/-- What one key preserves. -/
theorem placed_editTyped (h : Placed line.equation) {key : Key}
    (he : editTyped line key = .ok edited) : Placed edited.equation := by
  cases key with
  | clear | clearEntry =>
    cases he
    exact placed_blank
  | delete =>
    cases he
    exact h.deleteLast
  | equals =>
    cases he
    exact h
  | squareRoot =>
    cases he
    exact h.openRoot
  | parentheses =>
    cases he
    exact h.openOrClose
  | plusMinus =>
    obtain ⟨equation, hr, rfl⟩ := exists_rule_of_ok he
    exact h.toggleSign hr
  | powerTwo | powerY =>
    obtain ⟨equation, hr, rfl⟩ := exists_rule_of_ok he
    exact h.raise (by decide) hr
  | _ =>
    obtain ⟨equation, hr, rfl⟩ := exists_rule_of_ok he
    exact h.typeToken (by decide) hr

theorem placed_apply (h : Placed line.equation) (key : Option Key) :
    Placed (line.apply key).equation := by
  cases key with
  | none => exact h
  | some key => exact placed_editTyped h.ofTyped (edit?_eq_ok line key)

/-- What a run of keys preserves, by induction on the keys. -/
theorem placed_foldl (h : Placed line.equation) (keys : List (Option Key)) :
    Placed (keys.foldl apply line).equation := by
  induction keys generalizing line with
  | nil => exact h
  | cons key keys ih => exact ih (placed_apply h key)

/-- After any run of keys, unknown ones included, the equation does not begin with an operator, no
two operators stand side by side, and what precedes a power is a digit or a closing parenthesis. -/
theorem operators_placed (keys : List (Option Key)) :
    (∀ c ∈ (keys.foldl apply initial).equation.head?, Operator.isBinaryChar c = false) ∧
    (∀ a b, [a, b] <:+: (keys.foldl apply initial).equation →
      ¬ (Operator.isBinaryChar a = true ∧ Operator.isBinaryChar b = true)) ∧
    ∀ before, before ++ ['^'] <+: (keys.foldl apply initial).equation →
      ∃ c ∈ before.getLast?, c.isDigit = true ∨ c = ')' := by
  have h : Placed (keys.foldl apply initial).equation := placed_foldl placed_blank keys
  generalize (keys.foldl apply initial).equation = equation at h
  refine ⟨fun c hc => ?_, fun a b hi ho => ?_, fun before hp => ?_⟩
  · obtain ⟨rest, rfl⟩ := List.head?_eq_some_iff.mp hc
    exact (List.isChain_cons_cons.mp h).1.1 (by decide)
  · have hab : List.IsChain MayFollow [a, b] :=
      List.IsChain.infix h (hi.trans (List.suffix_cons '+' equation).isInfix)
    rw [(List.isChain_pair.mp hab).1 ho.1] at ho
    exact absurd ho.2 (by decide)
  · obtain ⟨after, rfl⟩ := hp
    rw [List.append_assoc] at h
    have ht := (placed_append.mp h).2.1.2 rfl
    rcases List.eq_nil_or_concat' before with rfl | ⟨start, c, rfl⟩
    · exact absurd ht (by decide)
    · rw [tip_append, takesPower, Bool.or_eq_true, beq_iff_eq] at ht
      exact ⟨c, List.getLast?_concat, ht⟩

end Line

end Calculator
