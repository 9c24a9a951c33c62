import Calculator.Proofs.Expr.Parse

/-!
# Equations made of equations

What has been read up to the end is read in the same way up to a closing parenthesis, so an
equation keeps its tree inside parentheses, whatever stands around them. Each way of making an
equation of others by parentheses nests the factors at most two levels deeper:

* `Reading.Closable`: a reading that a closing parenthesis after the end does not disturb;
* `Reading.closable_factor`, `Reading.closable_expression`: reading a factor, and an expression;
* `Reading.yields_grouped`: an equation in parentheses is read as a factor;
* `Expr.parse_composes`: the trees of what is made of two equations.
-/

namespace Calculator

/-- The equation in parentheses. -/
def Equation.grouped (equation : List Char) : List Char := '(' :: (equation ++ [')'])

/-- What is made by parentheses of two equations with the trees `l` and `r`: the group of the first
one, a sign or a root before this group, and the groups of both with an operator between them. -/
inductive Composes (first second : List Char) (l r : Expr) : List Char → Expr → Prop where
  | group : Composes first second l r (Equation.grouped first) l
  | sign {op} (ho : op ∈ ['+', '-']) :
      Composes first second l r (op :: Equation.grouped first) (.unary [op] l)
  | root : Composes first second l r (Operator.squareRoot.symbol ++ Equation.grouped first)
      (.call Operator.squareRoot.symbol l)
  | join {op} (ho : op ∈ ['+', '-', '*', '/', '^']) :
      Composes first second l r (Equation.grouped first ++ op :: Equation.grouped second)
        (.binary [op] l r)

namespace Reading

open Cursor Equation

variable {α β : Type} {c d : Cursor} {e l r tree : Expr} {x op : Char} {ts us : List Token}
  {operators : List Char} {operand inner : Reading Expr} {lower upper : Part} {nesting : Nat}
  {text first second : List Char}

/-! ## Before a closing parenthesis -/

/-- Whatever the reading reads before the end, it reads before a closing parenthesis as well. -/
def Closable (m : Reading α) : Prop :=
  ∀ c a d, m c = (.ok a, d) → ∀ us, Yields m (c.tokens ++ .symbol ')' :: us) a
    (d.tokens ++ .symbol ')' :: us)

theorem Closable.bind {m : Reading α} {f : α → Reading β} (hm : Closable m)
    (hf : ∀ a, Closable (f a)) : Closable (m >>= f) := fun c b d h us => by
  obtain ⟨a, c', ha, hb⟩ := bind_eq_ok h
  exact (hm c a c' ha us).bind (hf a c' b d hb us)

theorem closable_pure (a : α) : Closable (pure a : Reading α) := fun c b d h us => by
  cases h
  exact yields_pure a _

/-- The closing parenthesis is no other symbol, where the tokens before it have ended. -/
theorem head?_append_close (h : ts.head? ≠ some (.symbol x)) (hx : x ≠ ')') :
    (ts ++ .symbol ')' :: us).head? ≠ some (.symbol x) := by
  cases ts with
  | nil =>
    rw [List.nil_append, List.head?_cons, ne_eq, Option.some.injEq, Token.symbol.injEq]
    exact hx.symm
  | cons t ts => exact h

theorem closable_eat (hx : Token.IsSymbol x) (hc : x ≠ ')') : Closable (eat (some x)) := by
  intro c b d h us
  rcases eat_cases hx c with ⟨d', he, -, ht⟩ | ⟨d', he, -, -, ht, hn⟩ <;> rw [he] at h <;> cases h
  · rw [ht]
    exact yields_eat hx
  · rw [ht]
    exact yields_eat_of_ne hx (head?_append_close hn hc)

theorem closable_close (function : Option (List Char)) : Closable (close function) := by
  intro c b d h us
  rw [tokens_of_close h]
  exact yields_close function

/-! ## Chains -/

/-- A chain that ends is still a chain before a closing parenthesis, and ends there; by induction on
the count of operands, each of which makes the chain longer. -/
theorem comesTo_of_chain (hj : Joins operators lower upper) (hr : IsRegular 0 operand)
    (hi : Closable operand) {count : Nat} (hn : c.rest.length ≤ count)
    (h : chain operators operand count tree c = (.ok e, d))
    (ht : ComesTo operators operand ts tree (c.tokens ++ .symbol ')' :: us)) :
    ComesTo operators operand ts e (d.tokens ++ .symbol ')' :: us) ∧
      ∀ x ∈ operators, d.tokens.head? ≠ some (.symbol x) := by
  induction count using Nat.strongRecOn generalizing c tree with
  | ind count ih =>
  rcases chain_cases hj.isSymbol operand tree hn with ⟨x, hm, c₁, k, rfl, hk, -, hc, he⟩ |
    ⟨c₁, he, -, -, hc, ho⟩ <;> rw [he] at h
  · obtain ⟨r, c₂, hr₂, h⟩ := bind_eq_ok h
    have hle := (hr c₁).reaches.length_le
    rw [hr₂] at hle
    rw [hc, List.cons_append] at ht
    exact ih k (Nat.lt_succ_self k) (Nat.le_trans hle hk) h
      (ht.snoc hj hr hm (hi c₁ r c₂ hr₂ us))
  · cases h
    rw [hc]
    exact ⟨ht, ho⟩

theorem closable_joined (hj : Joins operators lower upper) (hc : ')' ∉ operators)
    (hr : IsRegular 0 operand) (hi : Closable operand) : Closable (joined operators operand) := by
  intro c e d h us
  obtain ⟨first, c', hf, h⟩ := bind_eq_ok h
  obtain ⟨ht, hn⟩ := comesTo_of_chain hj hr hi (Nat.le_refl _) h (hi c first c' hf us).comesTo
  exact ht.yields hj fun x hx => head?_append_close (hn x hx) fun he => hc (he ▸ hx)

theorem closable_expression (hr : IsRegular 0 inner) (hi : Closable inner) :
    Closable (expression inner) :=
  closable_joined joins_terms (by decide) (isRegular_joined isSymbol_factors hr)
    (closable_joined joins_factors (by decide) hr hi)

/-! ## Factors -/

theorem closable_enclosed (function : Option (List Char)) (hr : IsRegular 0 inner)
    (hi : Closable inner) : Closable (enclosed function (expression inner)) :=
  (closable_expression hr hi).bind fun tree => (closable_close function).bind fun _ =>
    closable_pure tree

theorem closable_applied (name : List Char) (hr : IsRegular 0 inner) (hi : Closable inner) :
    Closable (applied name (expression inner) inner) := by
  cases hn : Expr.isRootName name with
  | false =>
    intro c e d h
    rw [applied_of_not_root hn] at h
    cases h
  | true =>
    rw [applied_of_root hn, argument_def]
    refine Closable.bind ?_ fun tree => closable_pure _
    refine (closable_eat Token.isSymbol_open (by decide)).bind fun b => ?_
    cases b with
    | false => exact hi
    | true => exact closable_enclosed _ hr hi

theorem closable_primary (hr : IsRegular 0 inner) (hi : Closable inner) :
    Closable (primary (expression inner) inner) := by
  intro c e d h us
  rw [primary_def] at h
  rcases eat_cases Token.isSymbol_open c with ⟨c₁, he, -, ht⟩ | ⟨c₁, he, -, hs, ht, -⟩ <;>
    rw [bind_of_ok he] at h
  · rw [ht]
    exact yields_group (closable_enclosed none hr hi c₁ e d h us)
  rw [← ht]
  rcases atom_cases (expression inner) inner hs with
    ⟨-, ha⟩ | ⟨text, c₂, hc, -, ha⟩ | ⟨name, c₂, hc, -, ha⟩ | ⟨x, -, ha⟩ <;>
    rw [if_neg Bool.false_ne_true, ha] at h
  · cases h
  · split at h <;> cases h
    rw [hc]
    exact yields_numeral ‹_›
  · rw [hc]
    exact yields_applied (closable_applied name hr hi c₂ e d h us)
  · cases h

theorem closable_powered (hi : Closable inner) (base : Expr) : Closable (powered inner base) := by
  refine (closable_eat Token.isSymbol_power (by decide)).bind fun b => ?_
  cases b with
  | false => exact closable_pure base
  | true => exact hi.bind fun exponent => closable_pure _

theorem closable_factor (nesting : Nat) : Closable (factor nesting) := by
  induction nesting with
  | zero =>
    intro c e d h
    cases h
  | succ nesting ih =>
    intro c e d h us
    rw [factor_succ, signed] at h
    rcases eatAny_cases isSymbol_terms c with ⟨x, hm, c₁, he, -, ht⟩ |
      ⟨c₁, he, -, -, ht, hn⟩ <;> rw [bind_of_ok he] at h
    · obtain ⟨operand, c₂, ho, h⟩ := bind_eq_ok h
      cases h
      rw [ht]
      exact yields_sign hm (ih c₁ operand d ho us)
    · obtain ⟨base, c₂, hb, h⟩ := bind_eq_ok h
      have hp := closable_primary (isRegular_factor_zero nesting) ih c₁ base c₂ hb us
      rw [ht] at hp
      refine yields_factor (fun x hx => head?_append_close (hn x hx) ?_) hp
        (closable_powered ih base c₂ e d h us)
      rintro rfl
      exact absurd hx (by decide)

/-! ## Groups -/

theorem yields_of_whole (h : (whole nesting (Cursor.start text)).1 = .ok tree) (us : List Token) :
    Yields (expression (factor nesting)) (Token.ofText text ++ .symbol ')' :: us) tree
      (.symbol ')' :: us) := by
  rcases ho : whole nesting (Cursor.start text) with ⟨outcome, d⟩
  rw [ho] at h
  obtain rfl : outcome = .ok tree := h
  obtain ⟨e, d₁, he, h⟩ := bind_eq_ok ho
  have hy := closable_expression (isRegular_factor_zero nesting) (closable_factor nesting) _ e d₁
    he us
  rw [bind_current?] at h
  cases hc : d₁.current? with
  | none =>
    rw [hc] at h
    cases h
    rwa [Cursor.tokens_of_end hc] at hy
  | some x =>
    rw [hc] at h
    cases h

theorem whole_of_le {larger : Nat} (hn : nesting ≤ larger)
    (h : (whole nesting (Cursor.start text)).1 = .ok tree) :
    (whole larger (Cursor.start text)).1 = .ok tree := by
  rcases refines_whole hn (Cursor.start text) with ho | ho
  · rw [h] at ho
    cases ho
  · rw [ho, h]

theorem ofText_grouped (text : List Char) :
    Token.ofText (grouped text) = .symbol '(' :: (Token.ofText text ++ [.symbol ')']) := by
  rw [grouped, Token.ofText_symbol_cons (by decide),
    Token.ofText_append_symbol (by decide), Token.ofText_nil]
  rfl

theorem yields_primary_grouped (h : (whole nesting (Cursor.start text)).1 = .ok tree)
    (us : List Token) :
    Yields (primary (expression (factor nesting)) (factor nesting))
      (Token.ofText (grouped text) ++ us) tree us := by
  rw [ofText_grouped, List.cons_append, List.append_assoc, List.singleton_append]
  exact yields_group ((yields_of_whole h us).enclosed none)

theorem no_sign_of_grouped (text : List Char) (us : List Token) :
    ∀ x ∈ ['+', '-'], (Token.ofText (grouped text) ++ us).head? ≠ some (.symbol x) := by
  intro x hx he
  rw [ofText_grouped, List.cons_append, List.head?_cons, Option.some.injEq,
    Token.symbol.injEq] at he
  exact absurd hx (by rw [← he]; decide)

/-- An equation in parentheses is read as a factor, one level deeper. -/
theorem yields_grouped (h : (whole nesting (Cursor.start text)).1 = .ok tree)
    (hu : Part.factor.EndsBefore us) :
    Yields (factor (nesting + 1)) (Token.ofText (grouped text) ++ us) tree us :=
  yields_factor (no_sign_of_grouped text us) (yields_primary_grouped h us) (yields_no_power tree hu)

theorem whole_of_factor (h : Yields (factor nesting) (Token.ofText text) tree []) :
    (whole nesting (Cursor.start text)).1 = .ok tree :=
  whole_of_comesTo (yields_term (Part.endsBefore_nil _) fun _ => h.comesTo).comesTo

/-! ## Compositions -/

theorem isSymbol_joins : ∀ op ∈ ['+', '-', '*', '/', '^'],
    Token.IsSymbol op ∧ Operator.canonical op = op := forall_mem_of_all (by decide)

theorem ofText_join (ho : op ∈ ['+', '-', '*', '/', '^']) (first second : List Char) :
    Token.ofText (grouped first ++ op :: grouped second) =
      Token.ofText (grouped first) ++ .symbol op :: (Token.ofText (grouped second) ++ []) := by
  obtain ⟨hx, hc⟩ := isSymbol_joins op ho
  rw [Token.ofText_append_symbol (hc.symm ▸ hx), hc, List.append_nil]

theorem whole_join (hl : (whole nesting (Cursor.start first)).1 = .ok l)
    (hr : (whole nesting (Cursor.start second)).1 = .ok r)
    (ho : op ∈ ['+', '-', '*', '/', '^']) :
    (whole (nesting + 2) (Cursor.start (grouped first ++ op :: grouped second))).1 =
      .ok (.binary [op] l r) := by
  have hl' := whole_of_le (Nat.le_succ nesting) hl
  have hr' := whole_of_le (Nat.le_succ nesting) hr
  have ht := ofText_join ho first second
  have hleft (us : List Token) (hu : Part.factor.EndsBefore us) := yields_grouped hl' hu
  have hright := yields_grouped hr' (Part.endsBefore_nil .factor)
  have hlevel : op ∈ ['+', '-'] ∨ op ∈ ['*', '/'] ∨ op = '^' := by
    simpa [or_assoc] using ho
  rcases hlevel with hs | hp | rfl
  · have hop (us : List Token) := Part.endsBefore_symbol (joins_terms.apart op hs) us
    have hsum := (yields_term (hop _) fun _ => (hleft _ (hop _).factor).comesTo).comesTo.snoc
      joins_terms (isRegular_joined isSymbol_factors (isRegular_factor_zero _)) hs
      (yields_term (Part.endsBefore_nil _) fun _ => hright.comesTo)
    exact whole_of_comesTo (ht ▸ hsum)
  · have hop (us : List Token) := Part.endsBefore_symbol (joins_factors.apart op hp) us
    have hproduct := (hleft _ (hop _)).comesTo.snoc joins_factors (isRegular_factor_zero _) hp
      hright
    exact whole_of_comesTo (ht ▸ (yields_term (Part.endsBefore_nil _) fun _ => hproduct).comesTo)
  · have hpower := yields_factor (no_sign_of_grouped first _) (yields_primary_grouped hl' _)
      (yields_power l (yields_grouped hr (Part.endsBefore_nil _)))
    exact whole_of_factor (ht ▸ hpower)

theorem ofText_root_grouped (text : List Char) :
    Token.ofText (Operator.squareRoot.symbol ++ grouped text) =
      .name Operator.squareRoot.symbol :: Token.ofText (grouped text) :=
  Token.ofText_name_append (List.cons_ne_nil _ _) (forall_mem_of_all (by decide)) fun c hc => by
    cases hc
    rfl

theorem whole_composes (hl : (whole nesting (Cursor.start first)).1 = .ok l)
    (hr : (whole nesting (Cursor.start second)).1 = .ok r)
    (h : Composes first second l r text tree) :
    (whole (nesting + 2) (Cursor.start text)).1 = .ok tree := by
  have hend := Part.endsBefore_nil .factor
  cases h with
  | group =>
    have hy := yields_grouped (whole_of_le (Nat.le_succ nesting) hl) hend
    rw [List.append_nil] at hy
    exact whole_of_factor hy
  | @sign op ho =>
    have hs : Token.IsSymbol op ∧ Operator.canonical op = op :=
      isSymbol_joins op (List.mem_append_left ['*', '/', '^'] ho)
    have hy := yields_sign ho (yields_grouped hl hend)
    rw [List.append_nil] at hy
    refine whole_of_factor ?_
    rw [Token.ofText_symbol_cons (hs.2.symm ▸ hs.1), hs.2]
    exact hy
  | root =>
    have he := (yields_of_whole (whole_of_le (Nat.le_succ nesting) hl) []).enclosed
      (some Operator.squareRoot.symbol)
    have hn : Expr.isRootName Operator.squareRoot.symbol = true := rfl
    have hy := yields_factor (by simp) (yields_call hn he) (yields_no_power _ hend)
    refine whole_of_factor ?_
    rw [ofText_root_grouped, ofText_grouped]
    exact hy
  | join ho => exact whole_join hl hr ho

end Reading

namespace Expr

open Reading

variable {first second text : List Char} {l r tree : Expr} {nesting : Nat}

theorem parse_of_whole (h : (whole nesting (Cursor.start text)).1 = .ok tree) :
    parse text = .ok tree := by
  rcases whole_eq_parse_or nesting text with hw | ⟨hw, -⟩
  · rw [← hw, h]
  · rw [hw] at h
    cases h

/-- What is made by parentheses of two equations that have trees has the tree that is made of these
in the same way. A limit within which both are read need be greater by two at most. -/
theorem parse_composes (hl : parse first = .ok l) (hr : parse second = .ok r)
    (h : Composes first second l r text tree) :
    parse text = .ok tree ∧
      ∀ nesting, (whole nesting (Cursor.start first)).1 = .ok l →
        (whole nesting (Cursor.start second)).1 = .ok r →
          (whole (nesting + 2) (Cursor.start text)).1 = .ok tree := by
  have hl' := whole_of_le (Nat.le_add_right (Cursor.start first).unlimited
    (Cursor.start second).unlimited) hl
  have hr' := whole_of_le (Nat.le_add_left (Cursor.start second).unlimited
    (Cursor.start first).unlimited) hr
  exact ⟨parse_of_whole (whole_composes hl' hr' h), fun nesting hl hr => whole_composes hl hr h⟩

theorem parse_composes_of_power :
    ∃ l r, parse ['1', '+', '2'] = .ok l ∧ parse ['3'] = .ok r ∧
      parse ['(', '1', '+', '2', ')', '^', '(', '3', ')'] = .ok (.binary ['^'] l r) := by
  have hl : parse ['1', '+', '2'] = .ok (.binary ['+'] (.number (numeralValue ['1']))
      (.number (numeralValue ['2']))) := by rfl
  have hr : parse ['3'] = .ok (.number (numeralValue ['3'])) := by rfl
  exact ⟨_, _, hl, hr, (parse_composes hl hr (.join (by decide))).1⟩

end Expr

end Calculator
