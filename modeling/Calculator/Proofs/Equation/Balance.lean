import Calculator.Proofs.Equation.Change
import Mathlib.Data.List.Infix

/-!
# Groups of a typed equation

Without the key `)`, no group is closed that has not been opened: every
beginning of the equation has at least as many opening as closing parentheses.
The key `( )` closes the groups that are open, one at a time, and then opens a
new one.

* `Equation.Balanced.change`: what one change preserves;
* `Line.equation_press_parentheses`: the key `( )`, again and again;
* `Line.groups_balanced`: any run of keys, and the key `( )` after it.
-/

namespace Calculator

namespace Equation

/-- Every beginning of the text opens at least as many groups as it closes. -/
def Balanced (text : List Char) : Prop :=
  ∀ before, before <+: text → before.count ')' ≤ before.count '('

variable {text added kept : List Char} {key : Key} {k : Nat}

theorem Balanced.cut (h : Balanced text) (hp : kept <+: text) : Balanced kept :=
  fun before hb => h before (hb.trans hp)

theorem balanced_of_not_mem (h : ')' ∉ text) : Balanced text := by
  intro before hb
  have hc : before.count ')' = 0 := List.count_eq_zero.mpr fun hm => h (hb.subset hm)
  omega

theorem Balanced.append (h : Balanced text) (ha : Balanced added) : Balanced (text ++ added) := by
  intro before hb
  rw [List.prefix_iff_eq_take.mp hb, List.take_append, List.count_append, List.count_append]
  have ht := h _ (List.take_prefix before.length text)
  have hr := ha _ (List.take_prefix (before.length - text.length) added)
  omega

/-- Where more groups are open than closed, one of them can be closed. -/
theorem Balanced.close (h : Balanced text) (hc : text.count '(' ≠ text.count ')') :
    Balanced (text ++ [')']) := by
  intro before hb
  rcases List.prefix_concat_iff.mp hb with rfl | hb
  · have ht := h text List.prefix_rfl
    have ho : [')'].count '(' = 0 := rfl
    have hs : [')'].count ')' = 1 := rfl
    simp only [List.count_append]
    omega
  · exact h before hb

theorem balanced_exponent {exponent : List Char}
    (h : exponent = ['(', '2', ')'] ∨ exponent = ['(']) : Balanced ('^' :: exponent) := by
  rcases h with rfl | rfl
  · have ho : Balanced ['^', '(', '2'] := balanced_of_not_mem (by decide)
    exact ho.close (by decide)
  · exact balanced_of_not_mem (by decide)

theorem eq_closeParenthesis (h : key.token = [')']) : key = .closeParenthesis := by
  have hk := Key.ofToken?_token key
  rw [h, show Key.ofToken? [')'] = some .closeParenthesis by decide] at hk
  exact (Option.some.inj hk).symm

/-- What one change preserves: only `( )` closes a group, and only where one is open. -/
theorem Balanced.change (h : Balanced text) (hk : key ≠ .closeParenthesis)
    (hc : Change text key kept added) : Balanced (kept ++ added) := by
  cases hc with
  | cut hp =>
    rw [List.append_nil]
    exact h.cut hp
  | negative => exact h.append (balanced_of_not_mem (by decide))
  | @sign _ group d hp hg hd =>
    have hn : ')' ∉ [d] := by
      rw [List.mem_singleton]
      rintro rfl
      exact absurd hd (by decide)
    have hgroup : ')' ∉ group := by rcases hg with rfl | rfl <;> decide
    refine (h.cut hp).append (balanced_of_not_mem ?_)
    exact fun hm => (List.mem_append.mp hm).elim hgroup hn
  | power hx => exact h.append (balanced_exponent hx)
  | root | opens => exact h.append (balanced_of_not_mem (by decide))
  | closes hn => exact h.close hn
  | @types _ zero c hp hz _ ht =>
    have hn : ')' ∉ [c] := by
      rw [List.mem_singleton]
      rintro rfl
      exact hk (eq_closeParenthesis ht)
    have hzero : ')' ∉ zero := by
      simp only [List.mem_cons, List.not_mem_nil, or_false] at hz
      rcases hz with rfl | rfl | rfl <;> decide
    refine (h.cut hp).append (balanced_of_not_mem ?_)
    exact fun hm => (List.mem_append.mp hm).elim hzero hn

theorem Balanced.ofTyped (h : Balanced text) : Balanced (ofTyped text) := by
  unfold Equation.ofTyped
  split
  · exact balanced_of_not_mem (by decide)
  · exact h

/-! ## Closing what is open -/

/-- The text ends where a group can be closed. -/
def Closable (text : List Char) : Prop :=
  ∀ c ∈ text.getLast?, c ≠ '(' ∧ Operator.isBinaryChar c = false

theorem closable_concat {c : Char} (hc : c ≠ '(' ∧ Operator.isBinaryChar c = false) :
    Closable (text ++ [c]) := by
  intro d hd
  rw [List.getLast?_concat, Option.mem_some_iff] at hd
  rwa [← hd]

theorem open_mem_of_count (hc : text.count '(' = text.count ')' + k) (hk : 0 < k) : '(' ∈ text :=
  List.count_pos_iff.mp (by omega)

theorem ne_blank_of_mem (h : '(' ∈ text) : text ≠ blank := by
  rintro rfl
  exact absurd h (by decide)

theorem openOrClose_of_balanced (hb : text ≠ blank) (hc : text.count '(' = text.count ')') :
    openOrClose text = text ++ ['('] := by
  simp [openOrClose, typed, hb, hc]

theorem openOrClose_of_closable (hb : text ≠ blank) (hc : text.count '(' ≠ text.count ')')
    (hl : Closable text) : openOrClose text = text ++ [')'] := by
  have ho : (text.getLast?.any fun c => c == '(' || Operator.isBinaryChar c) = false := by
    rw [Option.any_eq_false]
    intro c hm
    rw [(hl c hm).2, beq_false_of_ne (hl c hm).1]
    rfl
  rw [openOrClose, typed, if_neg hb]
  simp only [ho, beq_false_of_ne hc, Bool.or_false, Bool.false_eq_true, if_false]

end Equation

namespace Line

open Equation

theorem count_append_close (text : List Char) (j : Nat) :
    (text ++ List.replicate j ')').count '(' = text.count '(' ∧
      (text ++ List.replicate j ')').count ')' = text.count ')' + j := by
  have ho : (List.replicate j ')').count '(' = 0 := by simp [List.count_replicate]
  rw [List.count_append, List.count_append, List.count_replicate_self, ho]
  exact ⟨rfl, rfl⟩

section

variable [Host]

/-- The line after a key is pressed again and again. -/
def pressAgain (line : Line) (key : Key) (count : Nat) : Line :=
  (List.replicate count (some key)).foldl apply line

variable {line : Line} {j k : Nat}

theorem pressAgain_succ (line : Line) (key : Key) (count : Nat) :
    line.pressAgain key (count + 1) = (line.pressAgain key count).edit key := by
  rw [pressAgain, List.replicate_succ', List.foldl_append]
  rfl

theorem edit_parentheses (h : line.equation ≠ []) :
    (line.edit .parentheses).equation = openOrClose line.equation := by
  have he := edit?_eq_ok line .parentheses
  rw [edit?, ofTyped_of_ne_nil h] at he
  exact (congrArg equation (Except.ok.inj he)).symm

/-- While groups are open, `( )` closes one of them each time; by induction on the presses. -/
theorem equation_press_parentheses (hc : line.equation.count '(' = line.equation.count ')' + k)
    (hl : Closable line.equation) (hj : j ≤ k) :
    (line.pressAgain .parentheses j).equation = line.equation ++ List.replicate j ')' := by
  induction j with
  | zero => exact (List.append_nil _).symm
  | succ j ih =>
    have he := ih (by omega)
    obtain ⟨ho, hs⟩ := count_append_close line.equation j
    have hmem : '(' ∈ line.equation ++ List.replicate j ')' :=
      List.mem_append_left _ (open_mem_of_count hc (by omega))
    have hn : (line.equation ++ List.replicate j ')').count '(' ≠
        (line.equation ++ List.replicate j ')').count ')' := by omega
    have hlast : Closable (line.equation ++ List.replicate j ')') := by
      cases j with
      | zero => rwa [List.replicate_zero, List.append_nil]
      | succ i =>
        rw [List.replicate_succ', ← List.append_assoc]
        exact closable_concat (by decide)
    rw [pressAgain_succ, edit_parentheses (he ▸ List.ne_nil_of_mem hmem), he,
      openOrClose_of_closable (ne_blank_of_mem hmem) hn hlast, List.append_assoc,
      ← List.replicate_succ']

/-- After any run of keys without `)`, no beginning of the equation closes more groups than it
opens. Where some are open, and the equation does not end with an operator or an opening
parenthesis, `( )` closes them one at a time, until all are closed, and then opens one. -/
theorem groups_balanced {keys : List (Option Key)} (hk : some .closeParenthesis ∉ keys) :
    (∀ before, before <+: (keys.foldl apply initial).equation →
      before.count ')' ≤ before.count '(') ∧
    ∀ k, 0 < k →
      (keys.foldl apply initial).equation.count '(' =
        (keys.foldl apply initial).equation.count ')' + k →
      Closable (keys.foldl apply initial).equation →
      (∀ j ≤ k, ((keys.foldl apply initial).pressAgain .parentheses j).equation =
        (keys.foldl apply initial).equation ++ List.replicate j ')') ∧
      ((keys.foldl apply initial).pressAgain .parentheses k).equation.count '(' =
        ((keys.foldl apply initial).pressAgain .parentheses k).equation.count ')' ∧
      ((keys.foldl apply initial).pressAgain .parentheses (k + 1)).equation =
        (keys.foldl apply initial).equation ++ List.replicate k ')' ++ ['('] := by
  refine ⟨?_, fun k hpos hc hl => ?_⟩
  · have hl : initial.equation = ofTyped [] := rfl
    have hn : Balanced [] := balanced_of_not_mem List.not_mem_nil
    obtain ⟨text, he, -, hb⟩ := exists_typed_foldl hl List.not_mem_nil hn
      fun text key kept added hm hb hc => hb.change (fun h => hk (h ▸ hm)) hc
    rw [he]
    exact hb.ofTyped
  · generalize keys.foldl apply initial = line at hc hl
    have hp := fun j (hj : j ≤ k) => equation_press_parentheses hc hl hj
    obtain ⟨ho, hs⟩ := count_append_close line.equation k
    have he : (line.equation ++ List.replicate k ')').count '(' =
        (line.equation ++ List.replicate k ')').count ')' := by omega
    have hmem : '(' ∈ line.equation ++ List.replicate k ')' :=
      List.mem_append_left _ (open_mem_of_count hc hpos)
    have hlast := hp k (Nat.le_refl k)
    refine ⟨hp, by rw [hlast, he], ?_⟩
    rw [pressAgain_succ, edit_parentheses (hlast ▸ List.ne_nil_of_mem hmem), hlast,
      openOrClose_of_balanced (ne_blank_of_mem hmem) he]

end

/-- Two groups are open in `(square(9`, the last one of them for a root. -/
theorem groups_balanced_of_root_in_group :
    some .closeParenthesis ∉ [some Key.parentheses, some .squareRoot, some .nine] ∧
    (([some Key.parentheses, some .squareRoot, some .nine].foldl apply initial).pressAgain
        .parentheses 2).equation = "(square(9))".toList ∧
    (([some Key.parentheses, some .squareRoot, some .nine].foldl apply initial).pressAgain
        .parentheses 3).equation = "(square(9))(".toList := by
  have hk : some .closeParenthesis ∉ [some Key.parentheses, some .squareRoot, some .nine] := by
    decide
  have he : ([some Key.parentheses, some .squareRoot, some .nine].foldl apply initial).equation =
      "(square(9".toList := by decide
  have hl : Closable ("(square(".toList ++ ['9']) := closable_concat (by decide)
  obtain ⟨hp, -, ho⟩ := (groups_balanced hk).2 2 (by decide) (by rw [he]; decide) (he ▸ hl)
  rw [hp 2 (by decide), ho, he]
  decide

end Line

end Calculator
