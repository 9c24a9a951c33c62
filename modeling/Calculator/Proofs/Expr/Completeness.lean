import Calculator.Proofs.Expr.Soundness

/-!
# What is in the grammar is parsed

Tokens that have a strict derivation are read, with the tree of the
derivation, wherever the tokens after them cannot continue the part.
`Reading.Yields` states this of a reading and `Reading.ComesTo` of a chain,
which can still go on. `Reading.reads_of_derives` is the induction on the
derivation: it says how each part is read (`Reading.Reads`), if as many nested
factors are allowed as there are tokens.
-/

namespace Calculator

namespace Reading

open Cursor

variable {α β : Type} {a : α} {b : β} {m : Reading α} {f : α → Reading β} {e tree : Expr}
  {part lower upper : Part} {ts us vs : List Token} {operators : List Char}
  {operand inside inner : Reading Expr} {nesting : Nat} {x : Char}

/-- Before the tokens `ts` the reading succeeds, and leaves the tokens `us`. -/
def Yields (m : Reading α) (ts : List Token) (a : α) (us : List Token) : Prop :=
  ∀ c, c.tokens = ts → ∃ d, m c = (.ok a, d) ∧ d.tokens = us

theorem Yields.bind (hm : Yields m ts a us) (hf : Yields (f a) us b vs) :
    Yields (m >>= f) ts b vs := fun c hc => by
  obtain ⟨d, hd, hu⟩ := hm c hc
  rw [bind_of_ok hd]
  exact hf d hu

theorem yields_pure (a : α) (ts : List Token) : Yields (pure a) ts a ts := fun c hc =>
  ⟨c, rfl, hc⟩

theorem yields_eat (hx : Token.IsSymbol x) : Yields (eat (some x)) (.symbol x :: us) true us := by
  intro c hc
  rcases eat_cases hx c with ⟨d, he, -, ht⟩ | ⟨d, -, -, -, -, ho⟩
  · rw [hc, List.cons.injEq] at ht
    exact ⟨d, he, ht.2.symm⟩
  · exact absurd (by rw [hc, List.head?_cons]) ho

theorem yields_eat_of_ne (hx : Token.IsSymbol x) (h : ts.head? ≠ some (.symbol x)) :
    Yields (eat (some x)) ts false ts := by
  intro c hc
  obtain ⟨d, he, -, ht⟩ := eat_of_ne hx (hc ▸ h)
  exact ⟨d, he, ht.trans hc⟩

theorem yields_close (function : Option (List Char)) :
    Yields (close function) (.symbol ')' :: us) () us :=
  (yields_eat (by decide)).bind (yields_pure () us)

/-! ## Chains -/

/-- Reading from the tokens `ts` comes to a chain with this tree, before the tokens `us`. -/
def ComesTo (operators : List Char) (operand : Reading Expr) (ts : List Token) (e : Expr)
    (us : List Token) : Prop :=
  ∀ c, c.tokens = ts → ∃ count d, joined operators operand c =
    chain operators operand count e d ∧ d.rest.length ≤ count ∧ d.tokens = us

theorem Yields.comesTo (h : Yields operand ts e us) : ComesTo operators operand ts e us := by
  intro c hc
  obtain ⟨d, hd, hu⟩ := h c hc
  exact ⟨d.rest.length, d, bind_of_ok hd, Nat.le_refl _, hu⟩

/-- A chain that meets an operator reads one more operand. -/
theorem ComesTo.snoc (hj : Joins operators lower upper) (hr : IsRegular 0 operand) {op : Char}
    (ho : op ∈ operators) (h : ComesTo operators operand ts tree (.symbol op :: us))
    (hs : Yields operand us e vs) : ComesTo operators operand ts (.binary [op] tree e) vs := by
  intro c hc
  obtain ⟨count, d, he, hn, ht⟩ := h c hc
  rcases chain_cases hj.isSymbol operand tree hn with ⟨x, -, d₁, k, -, hk, -, hd, hc⟩ |
    ⟨d₁, -, -, -, -, hn⟩
  · rw [ht, List.cons.injEq, Token.symbol.injEq] at hd
    obtain ⟨rfl, rfl⟩ := hd
    obtain ⟨d₂, h₂, hv⟩ := hs d₁ rfl
    have hle := (hr d₁).reaches.length_le
    rw [h₂] at hle
    exact ⟨k, d₂, by rw [he, hc, bind_of_ok h₂], Nat.le_trans hle hk, hv⟩
  · exact absurd (by rw [ht, List.head?_cons]) (hn op ho)

/-- A chain that meets no operator ends. -/
theorem ComesTo.ends (hj : Joins operators lower upper) (h : ComesTo operators operand ts e us)
    (hu : ∀ x ∈ operators, us.head? ≠ some (.symbol x)) {c : Cursor} (hc : c.tokens = ts) :
    ∃ d, joined operators operand c = (.ok e, d) ∧ d.current? ≠ some ' ' ∧ d.tokens = us := by
  obtain ⟨count, d, he, hn, ht⟩ := h c hc
  rcases chain_cases hj.isSymbol operand e hn with ⟨x, hm, d₁, k, -, -, -, hd, -⟩ |
    ⟨d₁, hc, -, hs, hd, -⟩
  · exact absurd (by rw [← ht, hd, List.head?_cons]) (hu x hm)
  · exact ⟨d₁, he.trans hc, hs, hd.trans ht⟩

theorem ComesTo.yields (hj : Joins operators lower upper) (h : ComesTo operators operand ts e us)
    (hu : ∀ x ∈ operators, us.head? ≠ some (.symbol x)) :
    Yields (joined operators operand) ts e us := fun c hc => by
  obtain ⟨d, hd, -, ht⟩ := h.ends hj hu hc
  exact ⟨d, hd, ht⟩

/-! ## Factors -/

theorem Yields.enclosed (function : Option (List Char))
    (h : Yields inside ts e (.symbol ')' :: us)) : Yields (enclosed function inside) ts e us :=
  h.bind ((yields_close function).bind (yields_pure e us))

theorem yields_enclosed (function : Option (List Char))
    (h : ComesTo ['+', '-'] (term inner) ts e (.symbol ')' :: us)) :
    Yields (enclosed function (expression inner)) ts e us := by
  have he : ∀ x ∈ ['+', '-'], (Token.symbol ')' :: us).head? ≠ some (.symbol x) := by
    intro x hx he
    rw [List.head?_cons, Option.some.injEq, Token.symbol.injEq] at he
    exact absurd hx (by rw [← he]; decide)
  exact (h.yields joins_terms he).enclosed function

theorem yields_group (h : Yields (enclosed none inside) ts e us) :
    Yields (primary inside inner) (.symbol '(' :: ts) e us :=
  (yields_eat (by decide)).bind h

/-- What is no group is read where spaces no longer stand before it. -/
theorem yields_primary (ho : ts.head? ≠ some (.symbol '('))
    (h : ∀ c, c.current? ≠ some ' ' → c.tokens = ts →
      ∃ d, atom inside inner c = (.ok e, d) ∧ d.tokens = us) :
    Yields (primary inside inner) ts e us := by
  intro c hc
  obtain ⟨d, he, hs, ht⟩ := eat_of_ne Token.isSymbol_open (hc ▸ ho)
  rw [primary_def, bind_of_ok he]
  exact h d hs (ht.trans hc)

theorem yields_numeral {text : List Char} (hn : IsNumeral text) :
    Yields (primary inside inner) (.numeral text :: us) (.number (numeralValue text)) us := by
  refine yields_primary nofun fun c hs hc => ?_
  obtain ⟨d, hd, ha⟩ := atom_of_numeral inside inner hs hc
  exact ⟨d, by rw [ha, if_pos hn], hd⟩

theorem yields_applied {name : List Char} (h : Yields (applied name inside inner) ts e us) :
    Yields (primary inside inner) (.name name :: ts) e us := by
  refine yields_primary nofun fun c hs hc => ?_
  obtain ⟨d, hd, ha⟩ := atom_of_name inside inner hs hc
  rw [ha]
  exact h d hd

theorem yields_call {name : List Char} (hn : Expr.isRootName name = true)
    (h : Yields (enclosed (some Operator.squareRoot.symbol) inside) ts e us) :
    Yields (primary inside inner) (.name name :: .symbol '(' :: ts)
      (.call Operator.squareRoot.symbol e) us := by
  refine yields_applied ?_
  rw [applied_of_root hn, argument_def]
  exact ((yields_eat (by decide)).bind h).bind (yields_pure _ us)

theorem yields_apply {name : List Char} (hn : Expr.isRootName name = true)
    (ho : ts.head? ≠ some (.symbol '(')) (h : Yields inner ts e us) :
    Yields (primary inside inner) (.name name :: ts) (.call Operator.squareRoot.symbol e) us := by
  refine yields_applied ?_
  rw [applied_of_root hn, argument_def]
  exact ((yields_eat_of_ne (by decide) ho).bind h).bind (yields_pure _ us)

theorem yields_power (base : Expr) (h : Yields inner ts e us) :
    Yields (powered inner base) (.symbol '^' :: ts) (.binary ['^'] base e) us :=
  (yields_eat (by decide)).bind (h.bind (yields_pure _ us))

theorem yields_no_power (base : Expr) (h : Part.factor.EndsBefore us) :
    Yields (powered inner base) us base us :=
  (yields_eat_of_ne (by decide) (h '^' (by decide))).bind (yields_pure base us)

theorem yields_sign {op : Char} (ho : op ∈ ['+', '-']) (h : Yields (factor nesting) ts e us) :
    Yields (factor (nesting + 1)) (.symbol op :: ts) (.unary [op] e) us := by
  intro c hc
  rcases eatAny_cases isSymbol_terms c with ⟨x, -, d, he, -, ht⟩ | ⟨d, -, -, -, -, hn⟩
  · rw [hc, List.cons.injEq, Token.symbol.injEq] at ht
    obtain ⟨rfl, rfl⟩ := ht
    have hy : Yields (do return Expr.unary [op] (← factor nesting)) d.tokens (.unary [op] e) us :=
      h.bind (yields_pure _ us)
    rw [factor_succ, signed, bind_of_ok he]
    exact hy d rfl
  · exact absurd (by rw [hc, List.head?_cons]) (hn op ho)

/-- A factor without a sign is what a power may follow, and the power. -/
theorem yields_factor {base : Expr} (hn : ∀ x ∈ ['+', '-'], ts.head? ≠ some (.symbol x))
    (hb : Yields (primary (expression (factor nesting)) (factor nesting)) ts base us)
    (hp : Yields (powered (factor nesting) base) us e vs) :
    Yields (factor (nesting + 1)) ts e vs := by
  intro c hc
  rcases eatAny_cases isSymbol_terms c with ⟨x, hm, d, -, -, ht⟩ | ⟨d, he, -, -, ht, -⟩
  · exact absurd (by rw [← hc, ht, List.head?_cons]) (hn x hm)
  · rw [factor_succ, signed, bind_of_ok he]
    exact hb.bind hp d (ht.trans hc)

/-! ## The induction -/

/-- How a part is read before the tokens `us`: what may still grow comes to a chain. -/
def Reads (nesting : Nat) (ts us : List Token) : Part → Expr → Prop
  | .expression, e =>
    Part.term.EndsBefore us → ComesTo ['+', '-'] (term (factor nesting)) ts e us
  | .term, e => Part.factor.EndsBefore us → ComesTo ['*', '/'] (factor nesting) ts e us
  | .factor, e => Part.factor.EndsBefore us → Yields (factor nesting) ts e us
  | .closed, e =>
    Yields (primary (expression (factor (nesting - 1))) (factor (nesting - 1))) ts e us
  | .bare, e => Part.bare.EndsBefore us →
    Yields (primary (expression (factor (nesting - 1))) (factor (nesting - 1))) ts e us

theorem yields_term (hu : Part.term.EndsBefore us) (h : Reads nesting ts us .term e) :
    Yields (term (factor nesting)) ts e us :=
  (h hu.factor).yields joins_factors fun x hx =>
    hu x (forall_mem_of_all (p := (· ∈ Part.term.continuations)) (by decide) x hx)

theorem exists_succ_of_length_le (h : Derives true part ts e) (hn : ts.length ≤ nesting) :
    ∃ k, nesting = k + 1 :=
  Nat.exists_eq_add_of_le' (Nat.le_trans (List.length_pos_of_ne_nil h.ne_nil) hn)

theorem no_sign_of_primary (h : Derives true part ts e) (hp : part = .closed ∨ part = .bare)
    (us : List Token) : ∀ x ∈ ['+', '-'], (ts ++ us).head? ≠ some (.symbol x) := by
  intro x hx he
  rw [List.head?_append_of_ne_nil _ h.ne_nil] at he
  rw [h.head?_of_primary hp he] at hx
  exact absurd hx (by decide)

/-- Tokens that have a strict derivation are read, by induction on the derivation. A factor has more
tokens than each factor inside it, so the count of nested factors does not run out. -/
theorem reads_of_derives (h : Derives true part ts e) (hn : ts.length ≤ nesting)
    (us : List Token) : Reads nesting (ts ++ us) us part e := by
  induction h generalizing nesting us with
  | term _ ih => exact fun hu => (yields_term hu (ih hn us)).comesTo
  | @sum ts vs l r op ho hl _ ihl ihr =>
    intro hu
    rw [List.length_append, List.length_cons] at hn
    rw [List.append_assoc, List.cons_append]
    have hop := Part.endsBefore_symbol (joins_terms.apart op ho) (vs ++ us)
    exact (ihl (by omega) _ hop).snoc joins_terms
      (isRegular_joined isSymbol_factors (isRegular_factor_zero nesting)) ho
      (yields_term hu (ihr (by omega) us))
  | factor _ ih => exact fun hu => (ih hn us hu).comesTo
  | @product ts vs l r op ho hl _ ihl ihr =>
    intro hu
    rw [List.length_append, List.length_cons] at hn
    rw [List.append_assoc, List.cons_append]
    have hop := Part.endsBefore_symbol (joins_factors.apart op ho) (vs ++ us)
    exact (ihl (by omega) _ hop).snoc joins_factors (isRegular_factor_zero nesting) ho
      (ihr (by omega) us hu)
  | @sign ts _ op ho h ih =>
    intro hu
    rw [List.length_cons] at hn
    obtain ⟨k, rfl⟩ := exists_succ_of_length_le (h.sign ho) hn
    exact yields_sign ho (ih (Nat.le_of_succ_le_succ hn) us hu)
  | closed h ih =>
    intro hu
    obtain ⟨k, rfl⟩ := exists_succ_of_length_le h hn
    exact yields_factor (no_sign_of_primary h (.inl rfl) us) (ih hn us) (yields_no_power _ hu)
  | bare h ih =>
    intro hu
    obtain ⟨k, rfl⟩ := exists_succ_of_length_le h hn
    exact yields_factor (no_sign_of_primary h (.inr rfl) us) (ih hn us hu) (yields_no_power _ hu)
  | @power ts vs base e hb he ihb ihe =>
    intro hu
    rw [List.length_append, List.length_cons] at hn
    obtain ⟨k, rfl⟩ := exists_succ_of_length_le hb (Nat.le_of_add_right_le hn)
    have hts := List.length_pos_of_ne_nil hb.ne_nil
    have hx : Yields (factor k) (vs ++ us) e us := ihe (by omega) us hu
    have hy : Yields (primary (expression (factor k)) (factor k))
        (ts ++ .symbol '^' :: (vs ++ us)) base _ := @ihb (k + 1) (by omega) _
    rw [List.append_assoc, List.cons_append]
    exact yields_factor (no_sign_of_primary hb (.inl rfl) _) hy (yields_power _ hx)
  | powerBare hs => exact absurd hs (by decide)
  | @group ts e h ih =>
    rw [List.length_cons, List.length_append, List.length_singleton] at hn
    rw [List.cons_append, List.append_assoc, List.singleton_append]
    exact yields_group (yields_enclosed _ (ih (by omega) _ (Part.endsBefore_symbol (by decide) us)))
  | numeral h => exact yields_numeral h
  | @call name ts e hr h ih =>
    rw [List.length_cons, List.length_cons, List.length_append, List.length_singleton] at hn
    rw [List.cons_append, List.cons_append, List.append_assoc, List.singleton_append]
    exact yields_call hr
      (yields_enclosed _ (ih (by omega) _ (Part.endsBefore_symbol (by decide) us)))
  | @apply name ts e hr ho h ih =>
    intro hu
    rw [List.length_cons] at hn
    rw [List.cons_append]
    refine yields_apply hr ?_ (ih (by omega) us hu)
    rw [List.head?_append_of_ne_nil _ h.ne_nil]
    exact ho rfl

end Reading

end Calculator
