import Calculator.Proofs.Equation.Evaluation

/-!
# What validation refuses has no finite value

Validation looks at the last two characters. An equation that has a tree ends
with a numeral or a closing parenthesis, so no operator is the last; and where
it ends by dividing by zero, this is the last division of its last term, and
no group, power or argument of a function closes after it:

* `Derives.eq_of_getLast?`: the last token;
* `Derives.eval_of_endsByDividing`: the value of a tree whose tokens end by
  dividing;
* `Equation.calculate_of_isFinite`: the result of a tree with a finite value;
* `Equation.no_finite_value_of_validate`: what validation refuses.
-/

namespace Calculator

namespace Binary64

/-! ## Operands that are not finite -/

variable {x y : Binary64}

theorem isFinite_add_left (h : x.isFinite = false) : (x.add y).isFinite = false := by
  cases x with
  | finite => cases h
  | nan => rfl
  | infinity s =>
    cases y with
    | nan | finite => rfl
    | infinity t =>
      rw [add]
      split <;> rfl

theorem isFinite_add_right (h : y.isFinite = false) : (x.add y).isFinite = false := by
  cases x with
  | infinity s => exact isFinite_add_left rfl
  | nan => rfl
  | finite =>
    cases y with
    | nan | infinity => rfl
    | finite => cases h

theorem isFinite_sub_right (h : y.isFinite = false) : (x.sub y).isFinite = false := by
  refine isFinite_add_right ?_
  cases y with
  | nan | infinity => rfl
  | finite => cases h

theorem isFinite_divide (h : y.isZero = true) : (x.divide y).isFinite = false := by
  rw [divide, if_pos h]
  split <;> rfl

theorem isZero_numeralValue_zero : (numeralValue ['0']).isZero = true := by
  have hd : Nat.ofDigitChars 10 ['0'] 0 = 0 := by decide
  have hz : numeralValue ['0'] = zero := by
    rw [numeralValue, show ['0'].takeWhile (· != '.') = ['0'] by decide,
      show (['0'].dropWhile (· != '.')).drop 1 = [] by decide, fixedPoint, List.append_nil, hd,
      Nat.zero_mul]
    exact ofUnits_eq_finite false representable_zero
  rw [hz]
  rfl

end Binary64

namespace Derives

/-! ## How a derivation ends -/

variable {strict : Bool} {part : Part} {ts us : List Token} {e : Expr} {text : List Char}

/-- The tokens end by dividing by the numeral. -/
def EndsByDividing (text : List Char) (ts : List Token) : Prop :=
  [.symbol '/', .numeral text] <:+ ts

theorem EndsByDividing.of_cons {t : Token} (h : EndsByDividing text (t :: ts)) :
    EndsByDividing text ts ∨ t = .symbol '/' ∧ ts = [.numeral text] := by
  rcases List.suffix_cons_iff.mp h with h | h
  · exact .inr ⟨(List.cons.inj h).1.symm, (List.cons.inj h).2.symm⟩
  · exact .inl h

/-- After a symbol, the tokens end by dividing only if they do so without it, or the symbol
divides. -/
theorem EndsByDividing.of_append {t : Token} (h : EndsByDividing text (ts ++ t :: us))
    (hu : us ≠ []) : EndsByDividing text us ∨ t = .symbol '/' ∧ us = [.numeral text] := by
  rcases List.suffix_or_suffix_of_suffix h (List.suffix_append ts (t :: us)) with h | h
  · exact of_cons h
  · have hl : (t :: us).length = 2 := by
      have hle := h.length_le
      have hpos := List.length_pos_iff.mpr hu
      simp only [List.length_cons, List.length_nil] at hle ⊢
      omega
    exact .inr (List.cons.inj (h.eq_of_length hl))

/-- A symbol that is the last token closes a parenthesis. -/
theorem eq_of_getLast? (h : Derives strict part ts e) {c : Char}
    (hl : ts.getLast? = some (.symbol c)) : c = ')' := by
  induction h with
  | term _ ih | factor _ ih | closed _ ih | bare _ ih => exact ih hl
  | sum _ _ hr _ ih | product _ _ hr _ ih | power _ hr _ ih | powerBare _ _ hr _ ih =>
    rw [List.getLast?_append_cons, List.getLast?_cons_of_ne_nil hr.ne_nil] at hl
    exact ih hl
  | sign _ h ih | apply _ _ h ih =>
    rw [List.getLast?_cons_of_ne_nil h.ne_nil] at hl
    exact ih hl
  | group | call => simpa [List.getLast?_cons] using hl.symm
  | numeral => exact absurd hl (by simp)

theorem EndsByDividing.getLast? (h : EndsByDividing text ts) :
    ts.getLast? = some (.numeral text) := by
  obtain ⟨us, rfl⟩ := h
  rw [List.getLast?_append_cons, List.getLast?_cons_cons]
  rfl

/-- A numeral alone is a number, as any part of an equation. -/
theorem eq_number (h : Derives strict part ts e) (ht : ts = [.numeral text]) :
    e = .number (numeralValue text) := by
  induction h with
  | term _ ih | factor _ ih | closed _ ih | bare _ ih => exact ih ht
  | sum _ hl | product _ hl | power hl | powerBare _ hl =>
    have h := congrArg List.length ht
    have hp := List.length_pos_iff.mpr hl.ne_nil
    simp only [List.length_append, List.length_cons, List.length_nil] at h
    omega
  | sign | group | call | apply => exact absurd (List.cons.inj ht).1 nofun
  | numeral =>
    obtain rfl := Token.numeral.inj (List.cons.inj ht).1
    rfl

/-- Tokens that end by dividing by zero are no factor. They may be a term, or an expression whose
last term they end, and then the tree has a value that is not finite. -/
theorem eval_of_endsByDividing (h : Derives strict part ts e)
    (hz : (numeralValue text).isZero = true) (hd : EndsByDividing text ts) :
    (part = .expression ∨ part = .term) ∧ ∃ x, e.eval = .ok x ∧ x.isFinite = false := by
  induction h with
  | term _ ih => exact ⟨.inl rfl, (ih hd).2⟩
  | @sum _ _ l r op ho hl hr _ ihr =>
    refine ⟨.inl rfl, ?_⟩
    rcases hd.of_append hr.ne_nil with hd | ⟨ht, -⟩
    · obtain ⟨x, hx⟩ := Expr.eval_of_sound hl.sound
      obtain ⟨y, hy, hf⟩ := (ihr hd).2
      rcases List.mem_pair.mp ho with rfl | rfl
      · exact ⟨x.add y, by rw [Expr.eval, hx, hy]; rfl, Binary64.isFinite_add_right hf⟩
      · exact ⟨x.sub y, by rw [Expr.eval, hx, hy]; rfl, Binary64.isFinite_sub_right hf⟩
    · obtain rfl := Token.symbol.inj ht
      exact absurd ho (by decide)
  | factor _ ih => exact absurd (ih hd).1 (by simp)
  | @product _ _ l r op ho hl hr _ ihr =>
    refine ⟨.inr rfl, ?_⟩
    rcases hd.of_append hr.ne_nil with hd | ⟨ht, hu⟩
    · exact absurd (ihr hd).1 (by simp)
    · obtain ⟨x, hx⟩ := Expr.eval_of_sound hl.sound
      obtain rfl := Token.symbol.inj ht
      obtain rfl := hr.eq_number hu
      exact ⟨x.divide (numeralValue text), by rw [Expr.eval, hx]; rfl, Binary64.isFinite_divide hz⟩
  | sign ho _ ih =>
    rcases hd.of_cons with hd | ⟨ht, -⟩
    · exact absurd (ih hd).1 (by simp)
    · obtain rfl := Token.symbol.inj ht
      exact absurd ho (by decide)
  | closed _ ih | bare _ ih => exact absurd (ih hd).1 (by simp)
  | power _ he _ ih | powerBare _ _ he _ ih =>
    rcases hd.of_append he.ne_nil with hd | ⟨ht, -⟩
    · exact absurd (ih hd).1 (by simp)
    · exact absurd ht (by decide)
  | group | call => exact absurd hd.getLast? (by simp [List.getLast?_cons])
  | numeral => exact absurd hd.length_le (by simp)
  | apply _ _ _ ih =>
    rcases hd.of_cons with hd | ⟨ht, -⟩
    · exact absurd (ih hd).1 (by simp)
    · cases ht

end Derives

/-! ## What validation refuses -/

namespace Operator

theorem isSymbol_canonical_of_isBinaryChar {c : Char} (h : isBinaryChar c = true) :
    Token.IsSymbol (canonical c) ∧ canonical c ≠ ')' := by
  have hm : c ∈ ['*', '/', '+', '-', '×', '÷'] := by
    simpa [isBinaryChar, or_assoc] using h
  exact forall_mem_of_all (p := fun c => Token.IsSymbol (canonical c) ∧ canonical c ≠ ')')
    (by decide) c hm

end Operator

namespace Equation

variable {equation : List Char}

/-- The causes for which validation refuses an equation. -/
theorem validate_cases {fault : Fault} (h : validate equation = .error fault) :
    (∃ before c, equation = before ++ [c] ∧ Token.IsSymbol (Operator.canonical c) ∧
      Operator.canonical c ≠ ')') ∨
    ∃ before c, equation = before ++ [c, '0'] ∧ Operator.canonical c = '/' ∧
      fault = .divisionByZero := by
  unfold validate at h
  split at h
  · cases h
  · rename_i last before he
    have he : equation = before.reverse ++ [last] := by
      rw [← List.reverse_reverse equation, he, List.reverse_cons]
    split at h
    · exact .inl ⟨_, last, he, Operator.isSymbol_canonical_of_isBinaryChar ‹_›⟩
    · split at h
      · rename_i hz
        obtain ⟨c, hc, hd⟩ := Option.map_eq_some_iff.mp hz.2
        obtain ⟨rest, rfl⟩ := List.head?_eq_some_iff.mp hc
        cases h
        refine .inr ⟨rest.reverse, c, ?_, hd, rfl⟩
        rw [he, hz.1, List.reverse_cons, List.append_assoc]
        rfl
      · split at h
        · rename_i ho
          exact .inl ⟨_, last, he, ho ▸ by decide⟩
        · cases h

/-- The tree of an equation that validation refuses ends by dividing by zero. -/
theorem eval_of_validate {fault : Fault} {tree : Expr} (h : validate equation = .error fault)
    (ht : Derives true .expression (Token.ofText equation) tree) :
    fault = .divisionByZero ∧ ∃ x, tree.eval = .ok x ∧ x.isFinite = false := by
  rcases validate_cases h with ⟨before, c, rfl, hc, hn⟩ | ⟨before, c, rfl, hc, rfl⟩
  · rw [Token.ofText_append_symbol hc, show Token.ofText [] = [] by simp [Token.ofText,
      Token.ofCanonical]] at ht
    exact absurd (ht.eq_of_getLast? List.getLast?_concat) hn
  · have hz : Token.ofText ['0'] = [.numeral ['0']] := by
      simp [Token.ofText, Token.ofCanonical, isNumeralChar, Operator.canonical]
    rw [Token.ofText_append_symbol (by rw [hc]; decide), hc, hz] at ht
    exact ⟨rfl, (ht.eval_of_endsByDividing Binary64.isZero_numeralValue_zero
      (List.suffix_append _ _)).2⟩

/-- Validation refuses no equation whose value is finite. -/
theorem validate_of_isFinite {tree : Expr} {x : Binary64} (hp : Expr.parse equation = .ok tree)
    (hx : tree.eval = .ok x) (hf : x.isFinite = true) : validate equation = .ok () := by
  cases hv : validate equation with
  | ok => rfl
  | error fault =>
    obtain ⟨-, y, hy, hn⟩ := eval_of_validate hv (Expr.parse_eq_ok_iff.mp hp)
    obtain rfl : x = y := Except.ok.inj (hx.symm.trans hy)
    rw [hf] at hn
    cases hn

section

variable [Host]

theorem calculate_of_isFinite {tree : Expr} {x : Binary64} (hp : parse equation = .ok tree)
    (hx : tree.eval = .ok x) (hf : x.isFinite = true) :
    calculate equation = if Host.levels tree < tree.depth then .error ⟨.tooDeep, some equation⟩
      else .ok (Decimal.ofBinary64 x).plain := by
  have hv := validate_of_isFinite (parse_eq_of_ok hp) hx hf
  rw [calculate_eq_map, evaluate_of_eval hv hp hx]
  split <;> rfl

/-- An equation that validation refuses has no tree, unless it ends by dividing by zero, and then
the value of its tree is not finite. -/
theorem no_finite_value_of_validate {fault : Fault} (h : validate equation = .error fault) :
    (∃ other, Expr.parse equation = .error other ∧ ∃ limited, parse equation = .error limited) ∨
      fault = .divisionByZero ∧ ∃ tree x, Expr.parse equation = .ok tree ∧
        (parse equation = .ok tree ∨ parse equation = .error .tooDeep) ∧
        tree.eval = .ok x ∧ x.isFinite = false := by
  have hl := parse_eq_or equation
  cases hp : Expr.parse equation with
  | error other =>
    rw [hp] at hl
    exact .inl ⟨other, rfl, hl.elim (fun he => ⟨other, he⟩) fun he => ⟨.tooDeep, he.1⟩⟩
  | ok tree =>
    rw [hp] at hl
    obtain ⟨hf, x, hx, hn⟩ := eval_of_validate h (Expr.parse_eq_ok_iff.mp hp)
    exact .inr ⟨hf, tree, x, rfl, hl.imp_right And.left, hx, hn⟩

end

theorem no_finite_value_of_five_by_zero :
    validate ['5', '/', '0'] = .error .divisionByZero ∧
      ∃ tree x, parse ['5', '/', '0'] = .ok tree ∧ tree.eval = .ok x ∧ x.isFinite = false := by
  have hv : validate ['5', '/', '0'] = .error .divisionByZero := by decide
  have hp : (parse ['5', '/', '0']).isOk = true := by rfl
  rcases no_finite_value_of_validate hv with ⟨_, -, _, hl⟩ | ⟨-, tree, x, -, hl | hl, hx, hf⟩
  · rw [hl] at hp
    cases hp
  · exact ⟨hv, tree, x, hl, hx, hf⟩
  · rw [hl] at hp
    cases hp

end Equation

end Calculator
