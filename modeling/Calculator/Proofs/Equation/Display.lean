import Calculator.Line
import Calculator.Proofs.Equation.Validation
import Calculator.Proofs.Expr.Glyph

/-!
# The equation that is shown

What is shown of an equation is a text with glyphs, and this text is an
equation again. Both have the same result, or fail with the same code, unless
the name of the root stands right before more letters: in the equation this is
one unknown name, and where it is shown, a root of what follows.

* `Operator.ofText_display`: the tokens of the text that is shown;
* `Equation.code_validate_display`: its validation;
* `Equation.calculate_display`: its result, and where this differs.
-/

namespace Calculator

namespace Operator

/-- The glyph of a character that multiplies or divides; any other character is kept. -/
def shownChar (c : Char) : Char := if c = '*' then '×' else if c = '/' then '÷' else c

theorem replaceAll_char (c g : Char) (text : List Char) :
    replaceAll [c] [g] text = text.map fun d => if d = c then g else d := by
  rw [replaceAll_singleton, List.map_eq_flatMap]
  congr 1
  funext d
  split <;> rfl

theorem display_eq_map (equation : List Char) :
    display equation = (rooted equation).map shownChar := by
  simp only [display, symbol, glyph, replaceAll_char, List.map_map, rooted]
  refine List.map_congr_left fun c _ => ?_
  simp only [Function.comp_apply, shownChar]
  split <;> simp_all

theorem canonical_shownChar (c : Char) : canonical (shownChar c) = canonical c := by
  by_cases hm : c = '*'
  · rw [hm]
    decide
  by_cases hd : c = '/'
  · rw [hd]
    decide
  rw [shownChar, if_neg hm, if_neg hd]

theorem ofText_display (equation : List Char) :
    Token.ofText (display equation) = Token.ofText (rooted equation) := by
  rw [display_eq_map, Token.ofText, List.map_map]
  exact congrArg _ (List.map_congr_left fun c _ => canonical_shownChar c)

end Operator

namespace Equation

open Operator

variable {equation before : List Char} {last : Char}

/-! ## Validation -/

theorem validate_concat (before : List Char) (last : Char) :
    validate (before ++ [last]) =
      if isBinaryChar last then .error (.trailingOperator [last])
      else if last = '0' ∧ before.getLast?.map canonical = some '/' then .error .divisionByZero
      else if last = '(' then .error .unclosedGroup
      else .ok () := by
  rw [validate, List.reverse_concat]
  simp only [List.head?_reverse]

/-- A letter, or the glyph of the root. -/
def IsLetter (c : Char) : Prop := isNameChar c = true ∨ c = '√'

instance (c : Char) : Decidable (IsLetter c) := inferInstanceAs (Decidable (_ ∨ _))

theorem shownChar_of_isLetter (h : IsLetter last) : shownChar last = last := by
  have hne {c : Char} (hc : ¬ IsLetter c) : last ≠ c := fun he => hc (he ▸ h)
  rw [shownChar, if_neg (hne (by decide)), if_neg (hne (by decide))]

theorem validate_of_isLetter (h : IsLetter last) (before : List Char) :
    validate (before ++ [last]) = .ok () := by
  have hb : isBinaryChar last = false := by
    rw [Bool.eq_false_iff]
    intro hb
    obtain ⟨⟨-, -, hn, hr⟩, -⟩ := isSymbol_canonical_of_isBinaryChar hb
    rcases h with h | rfl
    · rw [isNameChar_canonical, h] at hn
      cases hn
    · exact hr rfl
  have hne {c : Char} (hc : ¬ IsLetter c) : last ≠ c := fun he => hc (he ▸ h)
  have hz : last ≠ '0' := hne (by decide)
  have ho : last ≠ '(' := hne (by decide)
  rw [validate_concat, hb, if_neg Bool.false_ne_true, if_neg fun h => hz h.1, if_neg ho]

theorem rooted_concat (h : isNameChar last = false) (before : List Char) :
    rooted (before ++ [last]) = rooted before ++ [last] := by
  rw [rooted_append (by simpa using h), rooted_cons h]
  rfl

theorem getLast?_rooted (equation : List Char) :
    (rooted equation).getLast?.map canonical = some '/' ↔
      equation.getLast?.map canonical = some '/' := by
  simp only [Option.map_eq_some_iff]
  constructor
  · rintro ⟨x, hx, hc⟩
    rcases getLast?_replaceFrom (by decide) hx with hl | hl
    · exact ⟨x, hl, hc⟩
    · cases hl
      exact absurd hc (by decide)
  · rintro ⟨x, hx, hc⟩
    obtain ⟨before, rfl⟩ := List.getLast?_eq_some_iff.mp hx
    have hn : isNameChar x = false := by
      rw [← isNameChar_canonical, hc]
      decide
    refine ⟨x, ?_, hc⟩
    rw [rooted_concat hn, List.getLast?_concat]

/-- Where a letter was the last character, a letter or a root is. -/
theorem exists_rooted_concat (h : isNameChar last = true) (before : List Char) :
    ∃ start x, rooted (before ++ [last]) = start ++ [x] ∧ IsLetter x := by
  have hne : rooted (before ++ [last]) ≠ [] := by
    rw [ne_eq, rooted, replaceAll_eq_nil (by decide)]
    exact List.concat_ne_nil _ _
  obtain ⟨start, x, hx⟩ := (List.eq_nil_or_concat' _).resolve_left hne
  have hlast : (rooted (before ++ [last])).getLast? = some x := by rw [hx, List.getLast?_concat]
  refine ⟨start, x, hx, ?_⟩
  rcases getLast?_replaceFrom (by decide) hlast with hl | hl
  · rw [List.getLast?_concat] at hl
    exact .inl (Option.some.inj hl ▸ h)
  · exact .inr (Option.some.inj hl).symm

/-- Validation finds the same in what is shown. -/
theorem code_validate_display (equation : List Char) :
    (validate (display equation)).mapError Fault.code =
      (validate equation).mapError Fault.code := by
  rcases List.eq_nil_or_concat' equation with rfl | ⟨before, last, rfl⟩
  · rfl
  rw [display_eq_map]
  cases hn : isNameChar last with
  | false =>
    have hc : canonical ∘ shownChar = canonical := funext canonical_shownChar
    rw [rooted_concat hn, List.map_append, List.map_singleton, validate_concat, validate_concat,
      List.getLast?_map, Option.map_map, hc]
    simp only [getLast?_rooted]
    by_cases hm : last = '*'
    · rw [hm, if_pos (by decide), if_pos (by decide)]
      rfl
    by_cases hd : last = '/'
    · rw [hd, if_pos (by decide), if_pos (by decide)]
      rfl
    rw [shownChar, if_neg hm, if_neg hd]
  | true =>
    obtain ⟨start, x, hx, hletter⟩ := exists_rooted_concat hn before
    rw [hx, List.map_append, List.map_singleton, shownChar_of_isLetter hletter,
      validate_of_isLetter hletter, validate_of_isLetter (.inl hn)]

/-! ## Results -/

section

open Reading

variable [Host]

/-- The stages of a calculation, with the codes of their faults. -/
theorem code_calculate (equation : List Char) :
    (calculate equation).mapError (fun failure => failure.fault.code) = do
      (validate equation).mapError Fault.code
      let tree ← (parse equation).mapError Fault.code
      let value ← (value tree).mapError Fault.code
      return (Decimal.ofBinary64 value).plain := by
  rw [calculate_eq_map, evaluate, result]
  cases validate equation with
  | error fault => rfl
  | ok =>
    cases parse equation with
    | error fault => rfl
    | ok tree =>
      show Except.mapError _ (Except.map Decimal.plain (Except.mapError _
          (value tree >>= fun x => pure (Decimal.ofBinary64 x)))) =
        (value tree).mapError Fault.code >>= fun x => pure (Decimal.ofBinary64 x).plain
      cases value tree <;> rfl

/-- Two equations are read with one count of calls, unless the host has more calls for one of them
and too few for the other. -/
theorem exists_calls_or (equation other : List Char) :
    (∃ calls, parse equation = (wholeWithin calls (Cursor.start equation)).1 ∧
        parse other = (wholeWithin calls (Cursor.start other)).1) ∨
      Host.frames other ≠ Host.frames equation ∧
        (parse equation = .error .tooDeep ∨ parse other = .error .tooDeep) := by
  by_cases hf : Host.frames other = Host.frames equation
  · exact .inl ⟨Host.frames equation, rfl, by rw [parse, hf]⟩
  by_cases hd : parse equation = .error .tooDeep ∨ parse other = .error .tooDeep
  · exact .inr ⟨hf, hd⟩
  rw [not_or] at hd
  have hparse {text : List Char} {calls : Nat} (hc : 3 * text.length + 5 ≤ calls) :
      (wholeWithin calls (Cursor.start text)).1 = Expr.parse text :=
    (wholeWithin_eq_parse_or calls text).resolve_right fun h => Nat.not_lt_of_le hc h.2
  refine .inl ⟨max (3 * equation.length + 5) (3 * other.length + 5), ?_, ?_⟩
  · rw [parse_eq_of_ne hd.1, hparse (Nat.le_max_left _ _)]
  · rw [parse_eq_of_ne hd.2, hparse (Nat.le_max_right _ _)]

/-- An equation and what is shown of it have the same result, or fail with the same code, unless
the equation fails for an unknown name that begins with the name of the root. Where that name is not
the name of the root again and again, what is shown is nested too deeply. A host that has more calls
for one of the two may also have too few for the other. -/
theorem calculate_display (equation : List Char) :
    (calculate (display equation)).mapError (fun failure => failure.fault.code) =
        (calculate equation).mapError (fun failure => failure.fault.code) ∨
      (∃ rest, rest ≠ [] ∧
        calculate equation =
          .error ⟨.unknownFunction (squareRoot.symbol ++ rest), some equation⟩ ∧
        ((∃ count, rest = repeated count) ∨ TooDeep (display equation))) ∨
      Host.frames (display equation) ≠ Host.frames equation ∧
        (TooDeep equation ∨ TooDeep (display equation)) := by
  have halike : Resemblance.displayed.alike (Token.ofText equation)
      (Token.ofText (display equation)) := ⟨equation, rfl, ofText_display equation⟩
  have hv := code_validate_display equation
  rcases hvalid : validate equation with fault | ⟨⟩
  · left
    rw [code_calculate, code_calculate, hv, hvalid]
    rfl
  have hunknown {name : List Char} (hp : parse equation = .error (.unknownFunction name)) :
      calculate equation = .error ⟨.unknownFunction name, some equation⟩ :=
    calculate_eq_error_iff.mpr (evaluate_of_parse hvalid hp)
  rcases exists_calls_or equation (display equation) with ⟨calls, he, hd⟩ | ⟨hf, hd⟩
  swap
  · exact .inr (.inr ⟨hf, hd.imp .inl .inl⟩)
  rcases (Resemblance.respects_wholeWithin calls).cases halike with ⟨tree, hp, hp'⟩ |
    ⟨f, hp, ⟨count, rfl⟩ | ⟨g, hp', hcode | ⟨⟨rest, hne, rfl⟩, rfl⟩⟩⟩
  · left
    rw [code_calculate, code_calculate, hv, he, hd, hp, hp']
  · exact .inr (.inl ⟨repeated (count + 1), List.cons_ne_nil _ _, hunknown (he.trans hp),
      .inl ⟨count + 1, rfl⟩⟩)
  · left
    rw [code_calculate, code_calculate, hv, he, hd, hp, hp', Except.mapError, Except.mapError,
      hcode]
  · exact .inr (.inl ⟨rest, hne, hunknown (he.trans hp), .inr (.inl (hd.trans hp'))⟩)

end

end Equation

namespace Line

open Equation

/-- A name that is deleted up to its parenthesis is joined to the next one. -/
theorem display_of_joined_roots :
    ([some Key.squareRoot, some .delete, some .squareRoot, some .nine,
        some .closeParenthesis].foldl apply initial).equation = "squaresquare(9)".toList ∧
      calculate "squaresquare(9)".toList =
        .error ⟨.unknownFunction "squaresquare".toList, some "squaresquare(9)".toList⟩ ∧
      Operator.display "squaresquare(9)".toList = "√√(9)".toList ∧
      calculate "√√(9)".toList = .ok "1.73".toList := by
  refine ⟨by decide, by decide +kernel, by decide, by decide +kernel⟩

end Line

end Calculator
