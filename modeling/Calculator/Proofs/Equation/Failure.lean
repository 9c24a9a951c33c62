import Calculator.Proofs.Equation.Evaluation
import Calculator.Proofs.Expr.Failure

/-!
# Equations that fail in parsing

Which faults an equation has is decided by its tokens. An unknown function is a
name among them. A parenthesis is reported missing wherever an expression after
an opening parenthesis is not followed by the closing one, and so it may well
be there, after a token that cannot follow:

* `Equation.evaluate_eq_error_iff`: equations with a fault of parsing;
* `Fails.name_mem`: unknown functions;
* `Fails.openIn`, `OpenIn.closes_later`: parentheses that are reported missing;
* `Equation.evaluate_eq_missingParenthesis`: when one is.
-/

namespace Calculator

variable {strict : Bool} {part : Part} {fault : Fault} {ts us : List Token} {e : Expr}
  {function : Option (List Char)} {text : List Char} {x : Char}

/-! ## Unknown functions -/

/-- A function that is unknown is a name of the equation. -/
theorem Fails.name_mem {name : List Char} (h : Fails fault part ts)
    (hf : fault = .unknownFunction name) :
    .name name ∈ ts ∧ Expr.isRootName name = false := by
  induction h with
  | term _ ih | factor _ ih | closed _ ih => exact ih
  | sum _ _ _ ih | product _ _ _ ih | power _ _ ih =>
    exact ih.imp_left fun h => List.mem_append_right _ (List.mem_cons_of_mem _ h)
  | sign _ _ ih | group _ ih | apply _ _ _ ih =>
    exact ih.imp_left (List.mem_cons_of_mem _)
  | call _ _ ih =>
    exact ih.imp_left fun h => List.mem_cons_of_mem _ (List.mem_cons_of_mem _ h)
  | groupOpen he | callOpen he | malformed he | nothing he | unexpected he =>
    rw [hf] at he
    cases he
  | unknown he hn =>
    rw [hf] at he
    cases he
    exact ⟨List.mem_cons_self, hn⟩

/-! ## Counts of parentheses -/

namespace Token

/-- A symbol is a token wherever it is a character. -/
theorem count_ofCanonical (hx : IsSymbol x) (text : List Char) :
    (ofCanonical text).count (.symbol x) = text.count x := by
  have hrun {p : Char → Bool} (hp : p x = false) (c : Char) (hc : p c = true) (rest : List Char) :
      (c :: rest).count x = (rest.dropWhile p).count x := by
    have hn : x ∉ c :: rest.takeWhile p := by
      intro hm
      rcases List.mem_cons.mp hm with rfl | hm
      · rw [hp] at hc
        cases hc
      · rw [List.mem_takeWhile_imp hm] at hp
        cases hp
    rw [← List.takeWhile_append_dropWhile (p := p) (l := rest), ← List.cons_append,
      List.count_append, List.count_eq_zero.mpr hn, Nat.zero_add,
      List.takeWhile_append_dropWhile]
  obtain ⟨hs, hd, hn, hr⟩ := hx
  fun_induction ofCanonical text with
  | case1 => rfl
  | case2 rest ih => rw [ih, List.count_cons_of_ne (Ne.symm hs)]
  | case3 c rest _ hc ih =>
    have ht : numeral (c :: rest.takeWhile isNumeralChar) ≠ symbol x := by simp
    rw [List.count_cons_of_ne ht, ih, hrun hd c hc]
  | case4 c rest _ _ hc ih =>
    have ht : name (c :: rest.takeWhile isNameChar) ≠ symbol x := by simp
    rw [List.count_cons_of_ne ht, ih, hrun hn c hc]
  | case5 c rest _ _ _ hc ih =>
    have ht : name [c] ≠ symbol x := by simp
    have hne : c ≠ x := by
      rintro rfl
      exact hr hc
    rw [List.count_cons_of_ne ht, ih, List.count_cons_of_ne hne]
  | case6 c rest _ _ _ _ ih =>
    rw [List.count_cons, List.count_cons, ih]
    simp

theorem count_ofText (hx : x ∈ ['(', ')']) (text : List Char) :
    (ofText text).count (.symbol x) = text.count x := by
  have hs : IsSymbol x ∧ ∀ c, Operator.canonical c = x ↔ c = x := by
    unfold Operator.canonical
    rcases List.mem_pair.mp hx with rfl | rfl <;> refine ⟨by decide, fun c => ?_⟩ <;>
      split_ifs <;> simp_all
  rw [ofText, count_ofCanonical hs.1, List.count_eq_countP, List.count_eq_countP, List.countP_map]
  refine List.countP_congr fun c _ => ?_
  simp [hs.2]

end Token

theorem Derives.count_parentheses (h : Derives strict part ts e) :
    ts.count (.symbol '(') = ts.count (.symbol ')') := by
  induction h with
  | term _ ih | factor _ ih | closed _ ih | bare _ ih => exact ih
  | sum ho _ _ ihl ihr | product ho _ _ ihl ihr =>
    rcases List.mem_pair.mp ho with rfl | rfl <;> simp [List.count_append, ihl, ihr]
  | sign ho _ ih => rcases List.mem_pair.mp ho with rfl | rfl <;> simp [ih]
  | power _ _ ihb ihe | powerBare _ _ _ ihb ihe => simp [List.count_append, ihb, ihe]
  | group _ ih | call _ _ ih => simp [List.count_append, ih]
  | numeral => rfl
  | apply _ _ _ ih => simp [ih]

/-! ## Missing parentheses -/

/-- The tokens open a group, or the argument of a function. -/
def Opens (function : Option (List Char)) (ts : List Token) : Prop :=
  function = none ∧ ts = [.symbol '('] ∨
    function = some Operator.squareRoot.symbol ∧
      ∃ name, Expr.isRootName name = true ∧ ts = [.name name, .symbol '(']

/-- Somewhere a parenthesis is opened, and the token after its expression does not close it. No more
parentheses are closed before it than are opened. -/
def OpenIn (function : Option (List Char)) (ts : List Token) : Prop :=
  ∃ before opening inner e us, ts = before ++ (opening ++ (inner ++ us)) ∧
    before.count (.symbol ')') ≤ before.count (.symbol '(') ∧ Opens function opening ∧
    Derives true .expression inner e ∧ Unclosed us

theorem Opens.count (h : Opens function ts) :
    ts.count (.symbol '(') = 1 ∧ ts.count (.symbol ')') = 0 := by
  rcases h with ⟨-, rfl⟩ | ⟨-, name, -, rfl⟩ <;> exact ⟨rfl, rfl⟩

theorem Unclosed.ne {t : Token} (h : Unclosed (t :: ts)) :
    ∀ c ∈ [')', '+', '-', '*', '/', '^'], t ≠ .symbol c := by
  rintro c hc rfl
  rcases List.mem_cons.mp hc with rfl | hc
  · exact h.2 List.head?_cons
  · exact h.1 c hc List.head?_cons

theorem OpenIn.append (h : OpenIn function us)
    (hc : ts.count (.symbol ')') ≤ ts.count (.symbol '(')) : OpenIn function (ts ++ us) := by
  obtain ⟨before, opening, inner, e, us, rfl, hb, ho, hd, hu⟩ := h
  refine ⟨ts ++ before, opening, inner, e, us, by rw [List.append_assoc], ?_, ho, hd, hu⟩
  rw [List.count_append, List.count_append]
  omega

theorem OpenIn.cons {t : Token} (h : OpenIn function ts) (ht : t ≠ .symbol ')') :
    OpenIn function (t :: ts) := by
  have hc : [t].count (.symbol ')') ≤ [t].count (.symbol '(') := by
    rw [List.count_cons_of_ne ht]
    exact Nat.zero_le _
  exact h.append hc

/-- What is complete leaves no parenthesis open. -/
theorem OpenIn.join (h : OpenIn function us) (hd : Derives strict part ts e) (hx : x ≠ ')') :
    OpenIn function (ts ++ .symbol x :: us) := by
  have ht : Token.symbol x ≠ .symbol ')' := fun he => hx (Token.symbol.inj he)
  exact (h.cons ht).append hd.count_parentheses.ge

/-- Where a parenthesis is reported missing, the token after an expression does not close it. -/
theorem Fails.openIn (h : Fails fault part ts) (hf : fault = .missingParenthesis function) :
    OpenIn function ts := by
  have hterm : ∀ op ∈ ['+', '-'], op ≠ ')' := forall_mem_of_all (by decide)
  have hfactor : ∀ op ∈ ['*', '/'], op ≠ ')' := forall_mem_of_all (by decide)
  induction h with
  | term _ ih | factor _ ih | closed _ ih => exact ih
  | sum ho hl _ ih => exact ih.join hl (hterm _ ho)
  | product ho hl _ ih => exact ih.join hl (hfactor _ ho)
  | sign ho _ ih => exact ih.cons fun he => hterm _ ho (Token.symbol.inj he)
  | power hb _ ih => exact ih.join hb (by decide)
  | group _ ih => exact ih.cons (by decide)
  | @groupOpen ts us e he hd hu =>
    rw [hf] at he
    cases he
    exact ⟨[], [.symbol '('], ts, e, us, rfl, Nat.le_refl 0, .inl ⟨rfl, rfl⟩, hd, hu⟩
  | call _ _ ih => exact (ih.cons (by decide)).cons nofun
  | @callOpen name ts us e he hn hd hu =>
    rw [hf] at he
    cases he
    exact ⟨[], [.name name, .symbol '('], ts, e, us, rfl, Nat.le_refl 0, .inr ⟨rfl, name, hn, rfl⟩,
      hd, hu⟩
  | apply _ _ _ ih => exact ih.cons nofun
  | unknown he | malformed he | nothing he | unexpected he =>
    rw [hf] at he
    cases he

/-- If as many parentheses are closed as opened, the one that is reported missing comes later, after
a token with which nothing can be done. -/
theorem OpenIn.closes_later (h : OpenIn function ts)
    (hc : ts.count (.symbol '(') = ts.count (.symbol ')')) :
    ∃ before opening inner e t after, ts = before ++ (opening ++ (inner ++ t :: after)) ∧
      Opens function opening ∧ Derives true .expression inner e ∧ Unclosed (t :: after) ∧
      .symbol ')' ∈ after := by
  obtain ⟨before, opening, inner, e, us, rfl, hb, ho, hd, hu⟩ := h
  have hm : .symbol ')' ∈ us := by
    have hi := hd.count_parentheses
    obtain ⟨hopen, hclose⟩ := ho.count
    simp only [List.count_append] at hc
    exact List.count_pos_iff.mp (by omega)
  obtain ⟨t, after, rfl⟩ := List.exists_cons_of_ne_nil (List.ne_nil_of_mem hm)
  refine ⟨before, opening, inner, e, t, after, rfl, ho, hd, hu, ?_⟩
  rcases List.mem_cons.mp hm with rfl | hm
  · exact absurd List.head?_cons hu.2
  · exact hm

namespace Equation

variable {equation : List Char}

section

variable [Host]

/-- The bounds of the host hide other faults, and change none. -/
theorem parse_eq_error_iff (hf : fault ≠ .tooDeep) :
    parse equation = .error fault ↔
      parse equation ≠ .error .tooDeep ∧ FailsWhole fault (Token.ofText equation) := by
  constructor
  · intro h
    have hd : parse equation ≠ .error .tooDeep := by
      rw [h]
      exact fun he => hf (Except.error.inj he)
    exact ⟨hd, Expr.parse_eq_error_iff.mp (parse_eq_of_ne hd ▸ h)⟩
  · rintro ⟨hd, h⟩
    exact (parse_eq_of_ne hd).trans (Expr.parse_eq_error_iff.mpr h)

/-- A fault of parsing is that of an equation that passes validation. -/
theorem evaluate_eq_error_iff (hf : fault.BelongsTo .parsing) :
    evaluate equation = .error ⟨fault, some equation⟩ ↔
      validate equation = .ok () ∧ parse equation ≠ .error .tooDeep ∧
        FailsWhole fault (Token.ofText equation) := by
  have hd : fault ≠ .tooDeep := by
    rintro rfl
    exact absurd hf (by decide)
  rw [← parse_eq_error_iff hd]
  cases hv : validate equation with
  | error other =>
    rw [evaluate_of_validate hv]
    refine ⟨fun h => ?_, nofun⟩
    cases h
    have hs := (belongsTo_of_validate hv).1
    rw [hf.1] at hs
    cases hs
  | ok =>
    cases hp : parse equation with
    | error other =>
      rw [evaluate_of_parse hv hp]
      constructor
      · intro h
        cases h
        exact ⟨rfl, rfl⟩
      · rintro ⟨-, h⟩
        cases h
        rfl
    | ok tree =>
      obtain ⟨-, y, hy⟩ := depth_le_and_eval_of_parse hp
      rw [evaluate_of_eval hv hp hy]
      refine ⟨fun h => ?_, nofun⟩
      split at h <;> cases h
      exact absurd rfl hd

/-- A parenthesis is reported missing in the equations that pass validation and fail as the grammar
says, after an expression that is not closed; only in long equations may the host have too few
calls to read up to it. If such an equation closes as many parentheses as it opens, nothing is
missing: the token after the expression cannot follow it, and a closing parenthesis comes later. -/
theorem evaluate_eq_missingParenthesis (equation : List Char) (function : Option (List Char)) :
    (evaluate equation = .error ⟨.missingParenthesis function, some equation⟩ ↔
      validate equation = .ok () ∧ parse equation ≠ .error .tooDeep ∧
        Fails (.missingParenthesis function) .expression (Token.ofText equation)) ∧
    (parse equation = .error .tooDeep → Host.least < 3 * equation.length + 5) ∧
    (evaluate equation = .error ⟨.missingParenthesis function, some equation⟩ →
      equation.count '(' = equation.count ')' →
      ∃ before opening inner tree t after,
        Token.ofText equation = before ++ (opening ++ (inner ++ t :: after)) ∧
        Opens function opening ∧ Derives true .expression inner tree ∧
        (∀ c ∈ [')', '+', '-', '*', '/', '^'], t ≠ .symbol c) ∧ .symbol ')' ∈ after) := by
  have hiff : evaluate equation = .error ⟨.missingParenthesis function, some equation⟩ ↔
      validate equation = .ok () ∧ parse equation ≠ .error .tooDeep ∧
        Fails (.missingParenthesis function) .expression (Token.ofText equation) := by
    rw [evaluate_eq_error_iff ⟨rfl, rfl⟩, FailsWhole]
    simp
  refine ⟨hiff, fun hd => TooDeep.least_lt (.inl hd), fun h hc => ?_⟩
  have hopen := (hiff.mp h).2.2.openIn rfl
  rw [← Token.count_ofText (by decide), ← Token.count_ofText (by decide)] at hc
  obtain ⟨before, opening, inner, tree, t, after, ht, ho, hd, hu, hm⟩ := hopen.closes_later hc
  exact ⟨before, opening, inner, tree, t, after, ht, ho, hd, hu.ne, hm⟩

end

/-- No parenthesis is missing where a group follows a number inside another group; outside of one,
the group is what is reported. -/
theorem missingParenthesis_of_nested_group :
    (∀ before ∈ "(2(3))".toList.inits, before.count ')' ≤ before.count '(') ∧
      "(2(3))".toList.count '(' = "(2(3))".toList.count ')' ∧
      evaluate "(2(3))".toList = .error ⟨.missingParenthesis none, some "(2(3))".toList⟩ ∧
      evaluate "2(3)".toList = .error ⟨.unexpected (some ['(']), some "2(3)".toList⟩ := by
  refine ⟨by decide, by decide, by decide +kernel, by decide +kernel⟩

end Equation

end Calculator
