import Calculator.Proofs.Expr.Parse

/-!
# Calls inside one another

An equation is read with a bound on the calls that stand inside one another. A
factor takes one call, and three if it stands in parentheses. So the bound on
calls and a bound on nested factors each follow from the other, and within the
bound the outcome is that of parsing without one:

* `Reading.refines_within`, `Reading.refines_factorWithin`: calls and factors;
* `Reading.wholeWithin_eq_parse_or`: the bound runs out only on long texts.
-/

namespace Calculator

namespace Reading

variable {calls nesting : Nat} {text : List Char}

theorem current?_of_within {e : Expr} {c d : Cursor}
    (h : expressionWithin calls c = (.ok e, d)) : d.current? ≠ some ' ' := by
  cases calls with
  | zero => cases h
  | succ calls => exact current?_of_joined isSymbol_terms (isRegular_within calls).2.1 h

/-- As many nested factors are read as there may be calls. -/
theorem refines_within (h : calls ≤ nesting) :
    Refines (expressionWithin calls) (expression (factor nesting)) ∧
      Refines (termWithin calls) (term (factor nesting)) ∧
      Refines (factorWithin calls) (factor nesting) := by
  induction calls generalizing nesting with
  | zero => exact ⟨refines_tooDeep _, refines_tooDeep _, refines_tooDeep _⟩
  | succ calls ih =>
    obtain ⟨m, rfl⟩ := Nat.exists_eq_add_of_le' (Nat.le_trans (Nat.succ_le_succ (Nat.zero_le _)) h)
    obtain ⟨-, ht, hf⟩ := ih (Nat.le_of_succ_le h)
    obtain ⟨he, -, hi⟩ := ih (Nat.le_of_succ_le_succ h)
    exact ⟨refines_joined _ ht, refines_joined _ hf, refines_signed he hi⟩

/-- Each nested factor takes three calls at most. -/
theorem refines_factorWithin (h : 3 * nesting ≤ calls) :
    Refines (factor nesting) (factorWithin calls) := by
  induction nesting generalizing calls with
  | zero => exact refines_tooDeep _
  | succ nesting ih =>
    obtain ⟨k, rfl⟩ := Nat.exists_eq_add_of_le' (Nat.le_trans (Nat.le_add_left 3 _) h)
    have hi : Refines (factor nesting) (factorWithin k) := ih (by omega)
    have hf : Refines (factor nesting) (factorWithin (k + 2)) := ih (by omega)
    exact refines_signed (refines_expression hi) hf

theorem refines_wholeWithin (h : 3 * nesting + 2 ≤ calls) :
    Refines (whole nesting) (wholeWithin calls) := by
  obtain ⟨k, rfl⟩ := Nat.exists_eq_add_of_le' (Nat.le_trans (Nat.le_add_left 2 _) h)
  exact refines_ended (refines_expression (refines_factorWithin (by omega)))

/-- A reading with nested factors that does not fail for its depth is one with three calls for each
of them. -/
theorem wholeWithin_eq_whole (h : 3 * nesting + 2 ≤ calls)
    (hn : (whole nesting (Cursor.start text)).1 ≠ .error .tooDeep) :
    (wholeWithin calls (Cursor.start text)).1 = (whole nesting (Cursor.start text)).1 :=
  congrArg Prod.fst ((refines_wholeWithin h (Cursor.start text)).resolve_left hn)

/-- A count of calls runs out only on texts with a third as many characters. -/
theorem wholeWithin_eq_parse_or (calls : Nat) (text : List Char) :
    (wholeWithin calls (Cursor.start text)).1 = Expr.parse text ∨
      (wholeWithin calls (Cursor.start text)).1 = .error .tooDeep ∧
        calls < 3 * text.length + 5 := by
  have hparse : Expr.parse text ≠ .error .tooDeep := fun h =>
    absurd (Expr.belongsTo_of_parse h) (by decide)
  rcases Nat.lt_or_ge calls (3 * text.length + 5) with hc | hc
  · have hn : calls ≤ calls + (text.length + 1) := Nat.le_add_right _ _
    have hw : (whole (calls + (text.length + 1)) (Cursor.start text)).1 = Expr.parse text :=
      Expr.whole_eq_parse (Nat.le_add_left _ _)
    rcases refines_ended (refines_within hn).1 (Cursor.start text) with h | h
    · exact .inr ⟨h, hc⟩
    · exact .inl ((congrArg Prod.fst h).symm.trans hw)
  · exact .inl (wholeWithin_eq_whole hc hparse)

end Reading

end Calculator
