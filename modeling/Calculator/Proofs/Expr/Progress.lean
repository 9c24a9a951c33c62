import Calculator.Proofs.Expr.Lookahead
import Calculator.Proofs.Expr.Procedure

/-!
# Parsing makes progress

The procedures of the parser and its readings do the same, if the limit to the
nesting of factors is great enough, and it is so if it is beyond the characters
that are left. What is known of the readings then holds of the procedures:
wherever they are started in a text, they end in the text and further on.

* `Procedure.follow_act`: a reading does what the procedure does, and then what it calls;
* `Procedure.Runs.exists_bound`: the readings have the outcome of the run, by
  induction on the run;
* `Procedure.Runs.reading_eq`: how great a limit has to be;
* `Procedure.makes_progress`: where reading an expression, a term or a factor ends.
-/

namespace Calculator

namespace Cursor

variable {c d : Cursor} {text : List Char}

/-- The cursor stands in the text, and what follows there is still to be read. -/
def IsIn (c : Cursor) (text : List Char) : Prop :=
  c.position ≤ text.length ∧ c.rest = text.drop c.position

theorem IsIn.current? (h : c.IsIn text) :
    c.current? = text[c.position]?.map Operator.canonical := by
  rw [Cursor.current?, h.2, List.head?_drop]

/-- Between two cursors stands what the first has before it and the second has behind it. -/
theorem IsIn.of_reaches (hc : c.IsIn text) (h : c.Reaches d) :
    d.IsIn text ∧ c.position ≤ d.position ∧
      c.rest = (text.take d.position).drop c.position ++ d.rest := by
  obtain ⟨passed, hr, hp⟩ := h
  obtain ⟨hle, hrest⟩ := hc
  have hdrop : text.drop c.position = passed ++ d.rest := hrest.symm.trans hr
  have hlen := congrArg List.length hdrop
  rw [List.length_drop, List.length_append] at hlen
  have hd : d.rest = text.drop d.position := by
    rw [hp, ← List.drop_drop, hdrop, List.drop_left]
  refine ⟨⟨by omega, hd⟩, by omega, ?_⟩
  rw [hr, List.drop_take, hdrop, show d.position - c.position = passed.length by omega,
    List.take_left]

end Cursor

namespace Reading

open Cursor

protected theorem id_map {α : Type} (m : Reading α) : id <$> m = m := by
  funext c
  show bind m (fun a => pure a) c = m c
  rw [bind]
  rcases m c with ⟨fault | a, d⟩ <;> rfl

protected theorem bind_assoc {α β γ : Type} (m : Reading α) (f : α → Reading β)
    (g : β → Reading γ) : m >>= f >>= g = m >>= fun a => f a >>= g := by
  funext c
  show bind (bind m f) g c = bind m (fun a => bind (f a) g) c
  rw [bind, bind, bind]
  rcases m c with ⟨fault | a, d⟩ <;> rfl

instance : LawfulMonad Reading :=
  .mk' Reading Reading.id_map (fun _ _ => rfl) Reading.bind_assoc

/-! ## Readings of procedures -/

/-- How an operand is read, with a limit to the nesting of factors. -/
def Level.reading (nesting : Nat) : Level → Reading Expr
  | terms => Reading.term (Reading.factor nesting)
  | factors => Reading.factor nesting

namespace Procedure

variable {p q : Procedure} {c d : Cursor} {tree : Expr} {o : Except Fault Expr × Cursor}
  {text : List Char}

/-- The reading of a procedure, with a limit to the nesting of factors. A loop counts what is left
of the text. -/
def reading (nesting : Nat) : Procedure → Reading Expr
  | joined level => Reading.joined level.operators (level.reading nesting)
  | chain level tree => fun c =>
    Reading.chain level.operators (level.reading nesting) c.rest.length tree c
  | factor => Reading.factor nesting
  | primary =>
    Reading.primary (Reading.expression (Reading.factor nesting)) (Reading.factor nesting)
  | argument function =>
    Reading.argument function (Reading.expression (Reading.factor nesting)) (Reading.factor nesting)
  | closing function tree => do
    close function
    return tree
  | powered base => Reading.powered (Reading.factor nesting) base
  | finished tree => return tree

example : expression.reading nesting = Reading.expression (Reading.factor nesting) := rfl

example : term.reading nesting = Reading.term (Reading.factor nesting) := rfl

/-- What comes of an action, if procedures are read within the limit. -/
def follow (nesting : Nat) : Action → Reading Expr
  | .done tree => return tree
  | .call callee next => do (next (← callee.reading nesting)).reading nesting

theorem follow_named (name : List Char) (nesting : Nat) :
    named name >>= follow nesting =
      applied name (Reading.expression (Reading.factor nesting)) (Reading.factor nesting) := by
  rw [named, applied]
  split
  · rw [pure_bind, follow, reading]
    rfl
  · rfl

theorem follow_unopened (nesting : Nat) :
    unopened >>= follow nesting =
      atom (Reading.expression (Reading.factor nesting)) (Reading.factor nesting) := by
  rw [unopened, atom, bind_assoc]
  refine bind_congr fun found => ?_
  cases found with
  | none => rfl
  | some x =>
    dsimp only
    split_ifs
    · rw [bind_assoc]
      exact bind_pure numeral
    · rw [bind_assoc]
      exact bind_congr fun name => follow_named name nesting
    · rw [bind_assoc]
      exact bind_congr fun name => follow_named name nesting
    · rfl

theorem isRegular_level (level : Level) (nesting : Nat) : IsRegular 0 (level.reading nesting) := by
  cases level
  · exact isRegular_joined isSymbol_factors (isRegular_factor_zero nesting)
  · exact isRegular_factor_zero nesting

theorem reading_operand (level : Level) (nesting : Nat) :
    level.operand.reading nesting = level.reading nesting := by
  cases level <;> rfl

/-- A loop needs no count: it goes on with what is left after each operand. -/
theorem follow_chain (level : Level) (tree : Expr) (nesting : Nat) :
    (chain level tree).act >>= follow nesting = (chain level tree).reading nesting := by
  have hx := isSymbol_operators level
  have hr := isRegular_level level nesting
  funext c
  show _ = Reading.chain level.operators (level.reading nesting) c.rest.length tree c
  -- With a count greater by one than what is left the chain does its first step, in any case.
  rw [← chain_succ hx hr tree (Nat.le_refl _), Reading.chain, act, bind_assoc]
  rcases eatAny_cases hx c with ⟨x, -, d, he, hp, -⟩ | ⟨d, he, -⟩ <;>
    rw [bind_of_ok he, bind_of_ok he]
  · show (level.operand.reading nesting >>= fun r =>
        (chain level (.binary [x] tree r)).reading nesting) d =
      (level.reading nesting >>= fun r =>
        Reading.chain level.operators (level.reading nesting) c.rest.length (.binary [x] tree r)) d
    rw [reading_operand]
    have hd := (hr d).reaches.length_le
    rcases ho : level.reading nesting d with ⟨fault | r, e⟩ <;> rw [ho] at hd
    · rw [bind_of_error ho, bind_of_error ho]
    · rw [bind_of_ok ho, bind_of_ok ho]
      exact (chain_eq_of_le hx hr _ (Nat.le_trans hd (Nat.le_of_lt hp.2))).symm
  · rfl

/-- Only a factor takes one from the limit. -/
theorem follow_factor (nesting : Nat) :
    factor.act >>= follow nesting = factor.reading (nesting + 1) := by
  rw [act, bind_assoc, reading, factor_succ, signed]
  refine bind_congr fun found => ?_
  cases found <;> rfl

theorem follow_act {p : Procedure} (h : p ≠ factor) (nesting : Nat) :
    p.act >>= follow nesting = p.reading nesting := by
  cases p with
  | joined level =>
    rw [act, pure_bind, follow, reading_operand]
    rfl
  | chain level tree => exact follow_chain level tree nesting
  | factor => exact absurd rfl h
  | primary =>
    rw [act, bind_assoc, reading, primary_def]
    refine bind_congr fun opens => ?_
    cases opens
    · exact follow_unopened nesting
    · rfl
  | argument function =>
    rw [act, bind_assoc, reading, argument_def]
    refine bind_congr fun opens => ?_
    cases opens
    · exact bind_pure (Reading.factor nesting)
    · rfl
  | closing function tree => rw [act, bind_assoc]; rfl
  | powered base =>
    rw [act, bind_assoc, reading, Reading.powered]
    refine bind_congr fun follows => ?_
    cases follows <;> rfl
  | finished tree => rfl

/-- A procedure is read by what it does, with a limit that is less by one at most. -/
theorem exists_follow (p : Procedure) {nesting bound : Nat} (h : bound < nesting) :
    ∃ inner, bound ≤ inner ∧ p.reading nesting = p.act >>= follow inner := by
  by_cases hp : p = factor
  · obtain ⟨inner, rfl⟩ := Nat.exists_eq_add_of_lt h
    subst hp
    exact ⟨bound + inner, Nat.le_add_right bound inner, (follow_factor _).symm⟩
  · exact ⟨nesting, Nat.le_of_lt h, (follow_act hp nesting).symm⟩

/-- By induction on the run; the greatest of the limits that its calls need is enough. -/
theorem Runs.exists_bound (h : Runs p c o) :
    ∃ bound, ∀ nesting, bound < nesting → p.reading nesting c = o := by
  induction h with
  | @fault p c f d h =>
    refine ⟨0, fun nesting hn => ?_⟩
    obtain ⟨inner, -, hf⟩ := p.exists_follow hn
    rw [hf, bind_of_error h]
  | @done p c tree d h =>
    refine ⟨0, fun nesting hn => ?_⟩
    obtain ⟨inner, -, hf⟩ := p.exists_follow hn
    rw [hf, bind_of_ok h]
    rfl
  | @callFault p q next c d f e h _ ih =>
    obtain ⟨bound, hq⟩ := ih
    refine ⟨bound + 1, fun nesting hn => ?_⟩
    obtain ⟨inner, hi, hf⟩ := p.exists_follow hn
    rw [hf, bind_of_ok h, follow, bind_of_error (hq inner hi)]
  | @call p q next c d tree e o h _ _ ihq ihn =>
    obtain ⟨bound, hq⟩ := ihq
    obtain ⟨bound', hn'⟩ := ihn
    refine ⟨max bound bound' + 1, fun nesting hn => ?_⟩
    obtain ⟨inner, hi, hf⟩ := p.exists_follow hn
    rw [hf, bind_of_ok h, follow, bind_of_ok (hq inner (by omega)), hn' inner (by omega)]

theorem Runs.unique {o' : Except Fault Expr × Cursor} (h : Runs p c o) (h' : Runs p c o') :
    o = o' := by
  obtain ⟨bound, hb⟩ := h.exists_bound
  obtain ⟨bound', hb'⟩ := h'.exists_bound
  rw [← hb (max bound bound' + 1) (by omega), ← hb' (max bound bound' + 1) (by omega)]

/-! ## The parts of an equation -/

/-- The procedure reads an expression, a term or a factor. -/
def IsPart (p : Procedure) : Prop := p = expression ∨ p = term ∨ p = factor

theorem IsPart.isRegular (hp : p.IsPart) (nesting : Nat) :
    IsRegular nesting (p.reading nesting) := by
  have hf := isRegular_factor nesting
  rcases hp with rfl | rfl | rfl
  · exact isRegular_expression hf
  · exact isRegular_joined isSymbol_factors hf
  · exact hf

theorem IsPart.refines (hp : p.IsPart) {nesting larger : Nat} (hn : nesting ≤ larger) :
    Refines (p.reading nesting) (p.reading larger) := by
  have hf := refines_factor hn
  rcases hp with rfl | rfl | rfl
  · exact refines_expression hf
  · exact refines_joined _ hf
  · exact hf

theorem IsPart.isSound (hp : p.IsPart) (nesting : Nat) :
    ∃ part, IsSound part (p.reading nesting) := by
  have hr := isRegular_factor_zero nesting
  have hs := isSound_factor nesting
  rcases hp with rfl | rfl | rfl
  · exact ⟨_, isSound_expression hr hs⟩
  · exact ⟨_, isSound_joined joins_factors hr hs⟩
  · exact ⟨_, hs⟩

/-- A limit beyond the characters that are left is none: nesting takes a character each time. -/
theorem Runs.reading_eq (h : Runs p c o) (hp : p.IsPart) {nesting : Nat}
    (hn : c.rest.length < nesting) : p.reading nesting c = o := by
  obtain ⟨bound, hb⟩ := h.exists_bound
  have ho := hb (max bound nesting + 1) (by omega)
  rcases hp.refines (show nesting ≤ max bound nesting + 1 by omega) c with hd | he
  · -- The limit would have run out, and for that the text is too short.
    have hle := (((hp.isRegular nesting c).fault _ hd).resolve_left (by decide)).2
    omega
  · rw [← he, ho]

/-- A part that is read has a token, so it is more than spaces. -/
theorem Runs.exists_passed (h : Runs p c (.ok tree, d)) (hp : p.IsPart) {passed : List Char}
    (hc : c.rest = passed ++ d.rest) : ∃ x ∈ passed, x ≠ ' ' := by
  obtain ⟨part, hs⟩ := hp.isSound (c.rest.length + 1)
  obtain ⟨⟨ts, ht, hd⟩, -⟩ := hs c tree d (h.reading_eq hp (Nat.lt_succ_self _))
  by_contra hn
  have hspace : ∀ x ∈ passed, (x == ' ') = true := by simpa using hn
  have hskip : c.tokens = d.tokens := by
    rw [tokens, hc, ← ofText_dropWhile_space, List.dropWhile_append_of_pos hspace,
      ofText_dropWhile_space]
    rfl
  rw [hskip] at ht
  exact hd.ne_nil (List.append_left_eq_self.mp ht.symm)

/-- Reading an expression, a term or a factor from anywhere in a text ends, in one way only, and the
readings with a limit do the same if it is beyond the characters that are left. Whatever the
outcome, the cursor has only moved on and stands in the text. A fault is one of parsing, and a part
that is read has a character other than a space. -/
theorem makes_progress (hc : c.IsIn text) (hp : p.IsPart) :
    ∃ outcome d, (∀ o, Runs p c o ↔ o = (outcome, d)) ∧
      (∀ nesting, c.rest.length < nesting → p.reading nesting c = (outcome, d)) ∧
      d.IsIn text ∧ c.position ≤ d.position ∧
      d.current? = text[d.position]?.map Operator.canonical ∧
      (∀ fault, outcome = .error fault → fault.BelongsTo .parsing) ∧
      ∀ tree, outcome = .ok tree → ∃ x ∈ (text.take d.position).drop c.position, x ≠ ' ' := by
  obtain ⟨⟨outcome, d⟩, h, hr⟩ := p.exists_runs c
  obtain ⟨hd, hle, hrest⟩ := hc.of_reaches hr
  have hread (nesting : Nat) (hn : c.rest.length < nesting) := h.reading_eq hp hn
  refine ⟨outcome, d, fun o => ⟨fun ho => ho.unique h, fun ho => ho ▸ h⟩, hread, hd, hle,
    hd.current?, ?_, ?_⟩
  · rintro fault rfl
    have hf := (hp.isRegular _ c).fault fault (congrArg Prod.fst (hread _ (Nat.lt_succ_self _)))
    exact hf.resolve_right fun hdeep => Nat.not_succ_le_self _ hdeep.2
  · rintro tree rfl
    exact h.exists_passed hp hrest

/-- A term inside a group, from the space before it to the parenthesis after it. -/
theorem makes_progress_in_group :
    (⟨3, [' ', '√', '9', ')']⟩ : Cursor).IsIn ['(', '2', '×', ' ', '√', '9', ')'] ∧
      term.IsPart ∧
      Runs term ⟨3, [' ', '√', '9', ')']⟩ (.ok (.call Operator.squareRoot.symbol
        (.number (numeralValue ['9']))), ⟨6, [')']⟩) ∧
      ∃ x ∈ [' ', '√', '9'], x ≠ ' ' := by
  have hc : (⟨3, [' ', '√', '9', ')']⟩ : Cursor).IsIn ['(', '2', '×', ' ', '√', '9', ')'] :=
    ⟨by decide, rfl⟩
  have hp : term.IsPart := .inr (.inl rfl)
  have ho : term.reading 5 ⟨3, [' ', '√', '9', ')']⟩ = (.ok (.call Operator.squareRoot.symbol
      (.number (numeralValue ['9']))), ⟨6, [')']⟩) := by rfl
  obtain ⟨outcome, d, hruns, hread, -, -, -, -, hpassed⟩ := makes_progress hc hp
  have hd := (hread 5 (by decide)).symm.trans ho
  obtain ⟨rfl, rfl⟩ := Prod.mk.inj hd
  exact ⟨hc, hp, (hruns _).mpr rfl, hpassed _ rfl⟩

end Procedure

end Reading

end Calculator
