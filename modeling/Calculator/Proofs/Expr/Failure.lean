import Calculator.Proofs.Expr.Parse

/-!
# Why an equation is not in the grammar

`Fails` says with which fault reading a part of an equation fails, by the
tokens from its beginning on: the parts before the fault have derivations, and
there the grammar cannot go on. It is the other half of the grammar, and
parsing follows it as well:

* `Reading.refuses_expression`, `Reading.refuses_factor`: a reading fails only
  as `Fails` says, or for its depth;
* `Reading.stops_of_fails`: and does fail then, by induction on `Fails`;
* `Expr.parse_eq_error_iff`: the fault of every text that has no tree.
-/

namespace Calculator

/-- An expression has ended before these tokens, and no parenthesis closes it. -/
def Unclosed (ts : List Token) : Prop :=
  Part.expression.EndsBefore ts ∧ ts.head? ≠ some (.symbol ')')

/-- Reading the part from these tokens on fails with the fault. -/
inductive Fails (fault : Fault) : Part → List Token → Prop where
  | term {ts} (h : Fails fault .term ts) : Fails fault .expression ts
  | sum {ts us l op} (ho : op ∈ ['+', '-']) (hl : Derives true .expression ts l)
      (hr : Fails fault .term us) : Fails fault .expression (ts ++ .symbol op :: us)
  | factor {ts} (h : Fails fault .factor ts) : Fails fault .term ts
  | product {ts us l op} (ho : op ∈ ['*', '/']) (hl : Derives true .term ts l)
      (hr : Fails fault .factor us) : Fails fault .term (ts ++ .symbol op :: us)
  | sign {ts op} (ho : op ∈ ['+', '-']) (h : Fails fault .factor ts) :
      Fails fault .factor (.symbol op :: ts)
  | closed {ts} (h : Fails fault .closed ts) : Fails fault .factor ts
  | power {ts us b} (hb : Derives true .closed ts b) (he : Fails fault .factor us) :
      Fails fault .factor (ts ++ .symbol '^' :: us)
  | group {ts} (h : Fails fault .expression ts) : Fails fault .closed (.symbol '(' :: ts)
  | groupOpen {ts us e} (hf : fault = .missingParenthesis none) (h : Derives true .expression ts e)
      (hu : Unclosed us) : Fails fault .closed (.symbol '(' :: (ts ++ us))
  | call {name ts} (hn : Expr.isRootName name = true) (h : Fails fault .expression ts) :
      Fails fault .closed (.name name :: .symbol '(' :: ts)
  | callOpen {name ts us e} (hf : fault = .missingParenthesis (some Operator.squareRoot.symbol))
      (hn : Expr.isRootName name = true) (h : Derives true .expression ts e) (hu : Unclosed us) :
      Fails fault .closed (.name name :: .symbol '(' :: (ts ++ us))
  | apply {name ts} (hn : Expr.isRootName name = true) (hs : ts.head? ≠ some (.symbol '('))
      (h : Fails fault .factor ts) : Fails fault .closed (.name name :: ts)
  | unknown {name ts} (hf : fault = .unknownFunction name) (hn : Expr.isRootName name = false) :
      Fails fault .closed (.name name :: ts)
  | malformed {text ts} (hf : fault = .malformedNumber text) (hn : ¬ IsNumeral text) :
      Fails fault .closed (.numeral text :: ts)
  | nothing (hf : fault = .unexpected none) : Fails fault .closed []
  | unexpected {x ts} (hf : fault = .unexpected (some [x])) (hx : x ∉ ['(', '+', '-']) :
      Fails fault .closed (.symbol x :: ts)

/-- Reading a whole equation fails with the fault: in its expression, or at the first token after
it. -/
def FailsWhole (fault : Fault) (ts : List Token) : Prop :=
  Fails fault .expression ts ∨ ∃ us e t vs, ts = us ++ t :: vs ∧ Derives true .expression us e ∧
    Part.expression.EndsBefore (t :: vs) ∧ fault = .unexpected (some [t.first])

namespace Reading

open Cursor

variable {α β : Type} {c d : Cursor} {e tree : Expr} {fault : Fault} {part lower upper : Part}
  {operators : List Char} {operand inner : Reading Expr} {ts us : List Token} {nesting : Nat}

theorem bind_eq_error {m : Reading α} {f : α → Reading β}
    (h : (m >>= f) c = (.error fault, d)) :
    m c = (.error fault, d) ∨ ∃ a c', m c = (.ok a, c') ∧ f a c' = (.error fault, d) := by
  rcases hm : m c with ⟨other | a, c'⟩
  · rw [bind_of_error hm] at h
    cases h
    exact .inl rfl
  · rw [bind_of_ok hm] at h
    exact .inr ⟨a, c', rfl, h⟩

/-! ## Every failure is one of these -/

/-- The reading fails only as the part does, or for its depth. -/
def Refuses (part : Part) (m : Reading Expr) : Prop :=
  ∀ c fault d, m c = (.error fault, d) → fault = .tooDeep ∨ Fails fault part c.tokens

/-- How a part `upper` fails that is made of parts `lower`. -/
structure FailsJoined (operators : List Char) (lower upper : Part) : Prop where
  single {f : Fault} {vs : List Token} : Fails f lower vs → Fails f upper vs
  join {f : Fault} {op : Char} {vs ws : List Token} {l : Expr} : op ∈ operators →
    Derives true upper vs l → Fails f lower ws → Fails f upper (vs ++ .symbol op :: ws)

theorem failsJoined_terms : FailsJoined ['+', '-'] .term .expression := ⟨.term, .sum⟩

theorem failsJoined_factors : FailsJoined ['*', '/'] .factor .term := ⟨.factor, .product⟩

/-- A chain fails in one of its operands, after a part that has been taken. -/
theorem fails_of_chain (hj : Joins operators lower upper) (hf : FailsJoined operators lower upper)
    (hr : IsRegular 0 operand) (hs : IsSound lower operand) (hm : Refuses lower operand)
    {count : Nat} (h : chain operators operand count tree c = (.error fault, d))
    (hn : c.rest.length ≤ count) (ht : Derives true upper ts tree) :
    fault = .tooDeep ∨ Fails fault upper (ts ++ c.tokens) := by
  induction count using Nat.strongRecOn generalizing c tree ts with
  | ind count ih =>
  rcases chain_cases hj.isSymbol operand tree hn with ⟨x, hx, c₁, k, rfl, hk, -, hc, he⟩ |
    ⟨c₁, he, -⟩
  · rw [he] at h
    rcases bind_eq_error h with h | ⟨r, c₂, hr₂, h⟩
    · rw [hc]
      exact (hm _ _ _ h).imp_right (hf.join hx ht)
    · obtain ⟨⟨vs, hv, hd⟩, -⟩ := hs _ _ _ hr₂
      have hle := (hr c₁).reaches.length_le
      rw [hr₂] at hle
      have := ih k (Nat.lt_succ_self k) h (Nat.le_trans hle hk) (hj.join hx ht hd)
      rwa [List.append_assoc, List.cons_append, ← hv, ← hc] at this
  · rw [he] at h
    cases h

theorem refuses_joined (hj : Joins operators lower upper) (hf : FailsJoined operators lower upper)
    (hr : IsRegular 0 operand) (hs : IsSound lower operand) (hm : Refuses lower operand) :
    Refuses upper (joined operators operand) := by
  intro c fault d h
  rcases bind_eq_error h with h | ⟨first, c', hfirst, h⟩
  · exact (hm _ _ _ h).imp_right hf.single
  · obtain ⟨⟨ts, ht, hd⟩, -⟩ := hs _ _ _ hfirst
    rw [ht]
    exact fails_of_chain hj hf hr hs hm h (Nat.le_refl _) (hj.single hd)

theorem refuses_expression (hr : IsRegular 0 inner) (hs : IsSound .factor inner)
    (hm : Refuses .factor inner) : Refuses .expression (expression inner) :=
  refuses_joined joins_terms failsJoined_terms (isRegular_joined isSymbol_factors hr)
    (isSound_joined joins_factors hr hs) (refuses_joined joins_factors failsJoined_factors hr hs hm)

/-- An enclosed expression fails, or is not closed. -/
theorem fails_of_enclosed (hr : IsRegular 0 inner) (hs : IsSound .factor inner)
    (hm : Refuses .factor inner) {function : Option (List Char)}
    (h : enclosed function (expression inner) c = (.error fault, d)) :
    fault = .tooDeep ∨ Fails fault .expression c.tokens ∨
      ∃ ts us e, c.tokens = ts ++ us ∧ Derives true .expression ts e ∧ Unclosed us ∧
        fault = .missingParenthesis function := by
  rcases bind_eq_error h with h | ⟨tree, c₁, he, h⟩
  · exact (refuses_expression hr hs hm _ _ _ h).imp_right .inl
  obtain ⟨⟨ts, ht, hd⟩, hl⟩ := isSound_expression hr hs _ _ _ he
  rcases bind_eq_error h with h | ⟨⟨⟩, c₂, -, h⟩
  · rcases eat_cases Token.isSymbol_close c₁ with ⟨c₂, hc, -⟩ | ⟨c₂, hc, -, -, -, hn⟩ <;>
      rw [close, bind_of_ok hc] at h <;> cases h
    exact .inr (.inr ⟨ts, c₁.tokens, tree, ht, hd, ⟨hl, hn⟩, rfl⟩)
  · cases h

theorem fails_of_applied (hr : IsRegular 0 inner) (hs : IsSound .factor inner)
    (hm : Refuses .factor inner) {name : List Char}
    (h : applied name (expression inner) inner c = (.error fault, d)) :
    fault = .tooDeep ∨ Fails fault .closed (.name name :: c.tokens) := by
  cases hn : Expr.isRootName name with
  | false =>
    rw [applied_of_not_root hn] at h
    cases h
    exact .inr (.unknown rfl hn)
  | true =>
    rw [applied_of_root hn, argument_def] at h
    rcases bind_eq_error h with h | ⟨tree, c₁, -, h⟩
    · rcases eat_cases Token.isSymbol_open c with ⟨c₁, he, -, ht⟩ | ⟨c₁, he, -, -, ht, ho⟩ <;>
        rw [bind_of_ok he] at h
      · rw [ht]
        rcases fails_of_enclosed hr hs hm h with hd | hf | ⟨ts, us, e, hc, hd, hu, rfl⟩
        · exact .inl hd
        · exact .inr (.call hn hf)
        · rw [hc]
          exact .inr (.callOpen rfl hn hd hu)
      · rw [if_neg Bool.false_ne_true] at h
        rw [← ht] at ho ⊢
        exact (hm _ _ _ h).imp_right (.apply hn ho)
    · cases h

theorem fails_of_primary (hr : IsRegular 0 inner) (hs : IsSound .factor inner)
    (hm : Refuses .factor inner) (hn : ∀ x ∈ ['+', '-'], c.tokens.head? ≠ some (.symbol x))
    (h : primary (expression inner) inner c = (.error fault, d)) :
    fault = .tooDeep ∨ Fails fault .closed c.tokens := by
  rw [primary_def] at h
  rcases eat_cases Token.isSymbol_open c with ⟨c₁, he, -, ht⟩ | ⟨c₁, he, -, hsp, ht, ho⟩ <;>
    rw [bind_of_ok he] at h
  · rw [ht]
    rcases fails_of_enclosed hr hs hm h with hd | hf | ⟨ts, us, e, hc, hd, hu, rfl⟩
    · exact .inl hd
    · exact .inr (.group hf)
    · rw [hc]
      exact .inr (.groupOpen rfl hd hu)
  rw [if_neg Bool.false_ne_true] at h
  rw [← ht] at ho hn ⊢
  rcases atom_cases (expression inner) inner hsp with
    ⟨hc, ha⟩ | ⟨text, c₂, hc, -, ha⟩ | ⟨name, c₂, hc, -, ha⟩ | ⟨x, hc, ha⟩ <;>
    rw [ha] at h
  · cases h
    rw [hc]
    exact .inr (.nothing rfl)
  · rw [hc]
    split at h <;> cases h
    exact .inr (.malformed rfl ‹_›)
  · rw [hc]
    exact fails_of_applied hr hs hm h
  · cases h
    obtain ⟨rest, hrest⟩ := List.head?_eq_some_iff.mp hc
    rw [hrest] at ho hn ⊢
    refine .inr (.unexpected rfl ?_)
    simpa [and_comm, eq_comm] using And.intro ho hn

theorem fails_of_powered (hm : Refuses .factor inner) {base : Expr}
    (hb : Derives true part ts base)
    (hp : part = .closed ∨ part = .bare ∧ Part.bare.EndsBefore c.tokens)
    (h : powered inner base c = (.error fault, d)) :
    fault = .tooDeep ∨ Fails fault .factor (ts ++ c.tokens) := by
  rw [powered] at h
  rcases eat_cases Token.isSymbol_power c with ⟨c₁, he, -, ht⟩ | ⟨c₁, he, -⟩ <;>
    rw [bind_of_ok he] at h
  · rcases bind_eq_error h with h | ⟨exponent, c₂, -, h⟩
    · rw [ht]
      rcases hp with rfl | ⟨rfl, hn⟩
      · exact (hm _ _ _ h).imp_right (.power hb)
      · exact absurd (by rw [ht, List.head?_cons]) (hn '^' (by decide))
    · cases h
  · cases h

/-- A factor fails as the grammar says, by induction on the count of nested factors. -/
theorem refuses_factor (nesting : Nat) : Refuses .factor (factor nesting) := by
  induction nesting with
  | zero =>
    intro c fault d h
    cases h
    exact .inl rfl
  | succ nesting ih =>
    intro c fault d h
    have hr := isRegular_factor_zero nesting
    have hs := isSound_factor nesting
    rw [factor_succ, signed] at h
    rcases eatAny_cases isSymbol_terms c with ⟨x, hx, c₁, he, -, ht⟩ | ⟨c₁, he, -, -, ht, hn⟩ <;>
      rw [bind_of_ok he] at h
    · rw [ht]
      rcases bind_eq_error h with h | ⟨operand, c₂, -, h⟩
      · exact (ih _ _ _ h).imp_right (.sign hx)
      · cases h
    · rw [← ht] at hn ⊢
      rcases bind_eq_error h with h | ⟨base, c₂, hb, h⟩
      · exact (fails_of_primary hr hs ih hn h).imp_right .closed
      · obtain ⟨ts, part, hc, hd, hp⟩ := takes_of_primary hr hs hb
        rw [hc]
        exact fails_of_powered ih hd hp h

/-! ## These are failures -/

/-- Before the tokens `ts` the reading fails with the fault. -/
def Stops (m : Reading α) (ts : List Token) (fault : Fault) : Prop :=
  ∀ c, c.tokens = ts → (m c).1 = .error fault

variable {m : Reading α} {f : α → Reading β} {a : α} {name : List Char}
  {function : Option (List Char)} {inside : Reading Expr}

theorem Stops.bind (h : Stops m ts fault) (f : α → Reading β) : Stops (m >>= f) ts fault := by
  intro c hc
  have hm := h c hc
  rcases ho : m c with ⟨outcome, d⟩
  rw [ho] at hm
  obtain rfl : outcome = .error fault := hm
  rw [bind_of_error ho]

theorem Yields.stops (hm : Yields m ts a us) (hf : Stops (f a) us fault) :
    Stops (m >>= f) ts fault := by
  intro c hc
  obtain ⟨d, hd, hu⟩ := hm c hc
  rw [bind_of_ok hd]
  exact hf d hu

theorem stops_fail (fault : Fault) (ts : List Token) : Stops (fail fault : Reading α) ts fault :=
  fun _ _ => rfl

/-- A chain that meets an operator fails if the operand after it does. -/
theorem ComesTo.stops (hj : Joins operators lower upper) {op : Char} (ho : op ∈ operators)
    (h : ComesTo operators operand ts tree (.symbol op :: us)) (hs : Stops operand us fault) :
    Stops (joined operators operand) ts fault := by
  intro c hc
  obtain ⟨count, d, he, hn, ht⟩ := h c hc
  rcases chain_cases hj.isSymbol operand tree hn with ⟨x, -, d₁, k, -, -, -, hd, hk⟩ |
    ⟨d₁, -, -, -, -, hn⟩
  · rw [ht, List.cons.injEq, Token.symbol.injEq] at hd
    obtain ⟨rfl, rfl⟩ := hd
    rw [he, hk]
    exact hs.bind _ d₁ rfl
  · exact absurd (by rw [ht, List.head?_cons]) (hn op ho)

theorem yields_expression (h : Derives true .expression ts e) (hn : ts.length ≤ nesting)
    (hu : Part.expression.EndsBefore us) :
    Yields (expression (factor nesting)) (ts ++ us) e us :=
  (reads_of_derives h hn us hu.term).yields joins_terms fun x hx =>
    hu x (forall_mem_of_all (p := (· ∈ Part.expression.continuations)) (by decide) x hx)

theorem stops_unclosed (h : Yields inside ts e us) (hu : us.head? ≠ some (.symbol ')')) :
    Stops (enclosed function inside) ts (.missingParenthesis function) := by
  have hc : Stops (close function) us (.missingParenthesis function) :=
    (yields_eat_of_ne Token.isSymbol_close hu).stops (stops_fail _ us)
  exact h.stops (hc.bind _)

theorem stops_group (h : Stops (enclosed none inside) ts fault) :
    Stops (primary inside inner) (.symbol '(' :: ts) fault :=
  (yields_eat Token.isSymbol_open).stops h

/-- What is no group is read where spaces no longer stand before it. -/
theorem stops_primary (ho : ts.head? ≠ some (.symbol '('))
    (h : ∀ c, c.current? ≠ some ' ' → c.tokens = ts → (atom inside inner c).1 = .error fault) :
    Stops (primary inside inner) ts fault := by
  intro c hc
  obtain ⟨d, he, hs, ht⟩ := eat_of_ne Token.isSymbol_open (hc ▸ ho)
  rw [primary_def, bind_of_ok he]
  exact h d hs (ht.trans hc)

theorem stops_applied (h : Stops (applied name inside inner) ts fault) :
    Stops (primary inside inner) (.name name :: ts) fault := by
  refine stops_primary nofun fun c hs hc => ?_
  obtain ⟨d, hd, ha⟩ := atom_of_name inside inner hs hc
  rw [ha]
  exact h d hd

theorem stops_call (hn : Expr.isRootName name = true)
    (h : Stops (enclosed (some Operator.squareRoot.symbol) inside) ts fault) :
    Stops (primary inside inner) (.name name :: .symbol '(' :: ts) fault := by
  refine stops_applied ?_
  rw [applied_of_root hn, argument_def]
  exact ((yields_eat Token.isSymbol_open).stops h).bind _

theorem stops_apply (hn : Expr.isRootName name = true) (ho : ts.head? ≠ some (.symbol '('))
    (h : Stops inner ts fault) : Stops (primary inside inner) (.name name :: ts) fault := by
  refine stops_applied ?_
  rw [applied_of_root hn, argument_def]
  exact ((yields_eat_of_ne Token.isSymbol_open ho).stops h).bind _

theorem stops_sign {op : Char} (ho : op ∈ ['+', '-']) (h : Stops (factor nesting) ts fault) :
    Stops (factor (nesting + 1)) (.symbol op :: ts) fault := by
  intro c hc
  rcases eatAny_cases isSymbol_terms c with ⟨x, -, d, he, -, ht⟩ | ⟨d, -, -, -, -, hn⟩
  · rw [hc, List.cons.injEq] at ht
    rw [factor_succ, signed, bind_of_ok he]
    exact h.bind _ d ht.2.symm
  · exact absurd (by rw [hc, List.head?_cons]) (hn op ho)

theorem stops_factor (hn : ∀ x ∈ ['+', '-'], ts.head? ≠ some (.symbol x))
    (h : Stops (primary (expression (factor nesting)) (factor nesting) >>=
      powered (factor nesting)) ts fault) :
    Stops (factor (nesting + 1)) ts fault := by
  intro c hc
  rcases eatAny_cases isSymbol_terms c with ⟨x, hm, d, -, -, ht⟩ | ⟨d, he, -, -, ht, -⟩
  · exact absurd (by rw [← hc, ht, List.head?_cons]) (hn x hm)
  · rw [factor_succ, signed, bind_of_ok he]
    exact h d (ht.trans hc)

theorem no_sign_of_fails (h : Fails fault .closed ts) :
    ∀ x ∈ ['+', '-'], ts.head? ≠ some (.symbol x) := by
  intro x hx he
  cases h with
  | group | groupOpen =>
    obtain rfl : '(' = x := by simpa using he
    exact absurd hx (by decide)
  | call | callOpen | apply | unknown | malformed | nothing => cases he
  | unexpected _ hn =>
    cases he
    exact hn (List.mem_cons_of_mem _ hx)

/-- How the failure of a part is read. -/
def StopsAs (nesting : Nat) (ts : List Token) (fault : Fault) : Part → Prop
  | .expression => Stops (expression (factor nesting)) ts fault
  | .term => Stops (term (factor nesting)) ts fault
  | .factor => Stops (factor nesting) ts fault
  | .closed | .bare =>
    Stops (primary (expression (factor (nesting - 1))) (factor (nesting - 1))) ts fault

/-- A part that fails is read up to its fault, by induction on the failure. There are more nested
factors allowed than there are tokens, so their count does not run out. -/
theorem stops_of_fails (h : Fails fault part ts) (hn : ts.length < nesting) :
    StopsAs nesting ts fault part := by
  induction h generalizing nesting with
  | term _ ih => exact (ih hn).bind _
  | @sum ts us l op ho hl _ ih =>
    rw [List.length_append, List.length_cons] at hn
    have hop := Part.endsBefore_symbol (joins_terms.apart op ho) us
    exact (reads_of_derives hl (by omega) _ hop).stops joins_terms ho (ih (by omega))
  | factor _ ih => exact (ih hn).bind _
  | @product ts us l op ho hl _ ih =>
    rw [List.length_append, List.length_cons] at hn
    have hop := Part.endsBefore_symbol (joins_factors.apart op ho) us
    exact (reads_of_derives hl (by omega) _ hop).stops joins_factors ho (ih (by omega))
  | sign ho _ ih =>
    obtain ⟨k, rfl⟩ := Nat.exists_eq_add_of_le' (Nat.succ_le_of_lt (Nat.zero_lt_of_lt hn))
    exact stops_sign ho (ih (Nat.lt_of_succ_lt_succ hn))
  | closed h ih =>
    obtain ⟨k, rfl⟩ := Nat.exists_eq_add_of_le' (Nat.succ_le_of_lt (Nat.zero_lt_of_lt hn))
    exact stops_factor (no_sign_of_fails h) ((ih hn).bind _)
  | @power ts us b hb _ ih =>
    rw [List.length_append, List.length_cons] at hn
    obtain ⟨k, rfl⟩ := Nat.exists_eq_add_of_le' (Nat.succ_le_of_lt (Nat.zero_lt_of_lt hn))
    have hts := List.length_pos_of_ne_nil hb.ne_nil
    have hy : Yields (primary (expression (factor k)) (factor k)) (ts ++ .symbol '^' :: us) b
        (.symbol '^' :: us) :=
      reads_of_derives hb (Nat.le_of_lt (Nat.lt_of_le_of_lt (Nat.le_add_right _ _) hn)) _
    have hp : Stops (powered (factor k) b) (.symbol '^' :: us) fault :=
      (yields_eat Token.isSymbol_power).stops ((ih (by omega)).bind _)
    exact stops_factor (no_sign_of_primary hb (.inl rfl) _) (hy.stops hp)
  | group _ ih =>
    rw [List.length_cons] at hn
    exact stops_group ((ih (by omega)).bind _)
  | @groupOpen ts us e hf h hu =>
    subst hf
    rw [List.length_cons, List.length_append] at hn
    exact stops_group (stops_unclosed (yields_expression h (by omega) hu.1) hu.2)
  | call hr _ ih =>
    rw [List.length_cons, List.length_cons] at hn
    exact stops_call hr ((ih (by omega)).bind _)
  | @callOpen name ts us e hf hr h hu =>
    subst hf
    rw [List.length_cons, List.length_cons, List.length_append] at hn
    exact stops_call hr (stops_unclosed (yields_expression h (by omega) hu.1) hu.2)
  | apply hr hs _ ih =>
    rw [List.length_cons] at hn
    exact stops_apply hr hs (ih (by omega))
  | unknown hf hr =>
    subst hf
    refine stops_applied ?_
    rw [applied_of_not_root hr]
    exact stops_fail _ _
  | malformed hf hm =>
    subst hf
    refine stops_primary nofun fun c hs hc => ?_
    obtain ⟨d, -, ha⟩ := atom_of_numeral _ _ hs hc
    rw [ha, if_neg hm]
  | nothing hf =>
    subst hf
    exact stops_primary nofun fun c hs hc => by rw [atom_of_end _ _ hs hc]
  | @unexpected x ts hf hx =>
    subst hf
    refine stops_primary ?_ fun c hs hc => by rw [atom_of_symbol _ _ hs hc]
    rw [List.head?_cons, ne_eq, Option.some.injEq, Token.symbol.injEq]
    rintro rfl
    exact hx List.mem_cons_self

/-! ## Whole equations -/

variable {text : List Char}

theorem failsWhole_of_whole (h : (whole nesting (Cursor.start text)).1 = .error fault) :
    fault = .tooDeep ∨ FailsWhole fault (Token.ofText text) := by
  have hr := isRegular_factor_zero nesting
  have hs := isSound_factor nesting
  rcases ho : whole nesting (Cursor.start text) with ⟨outcome, d⟩
  rw [ho] at h
  obtain rfl : outcome = .error fault := h
  rcases bind_eq_error ho with h | ⟨e, d, he, h⟩
  · exact (refuses_expression hr hs (refuses_factor nesting) _ _ _ h).imp_right .inl
  · obtain ⟨⟨us, ht, hd⟩, hl⟩ := isSound_expression hr hs _ _ _ he
    have hsp := current?_of_expression hr he
    rw [bind_current?] at h
    rcases hts : d.tokens with _ | ⟨t, vs⟩
    · rw [current?_of_tokens hsp hts] at h
      cases h
    · rw [current?_eq_first hsp hts] at h
      cases h
      rw [hts] at ht hl
      exact .inr (.inr ⟨us, e, t, vs, ht, hd, hl, rfl⟩)

theorem whole_of_failsWhole (h : FailsWhole fault (Token.ofText text))
    (hn : (Token.ofText text).length < nesting) :
    (whole nesting (Cursor.start text)).1 = .error fault := by
  have hc : (Cursor.start text).tokens = Token.ofText text := rfl
  rcases h with h | ⟨us, e, t, vs, ht, hd, hu, rfl⟩
  · have hs : Stops (expression (factor nesting)) (Token.ofText text) fault := stops_of_fails h hn
    exact hs.bind _ _ hc
  · rw [ht, List.length_append] at hn
    have hl : us.length ≤ nesting := by omega
    obtain ⟨d, he, hv⟩ := yields_expression hd hl hu (Cursor.start text) (hc.trans ht)
    have hsp := current?_of_expression (isRegular_factor_zero nesting) he
    rw [whole, ended, bind_of_ok he, bind_current?, current?_eq_first hsp hv]
    rfl

end Reading

namespace Expr

open Reading

variable {text : List Char} {fault : Fault}

/-- Parsing fails exactly as the grammar says. -/
theorem parse_eq_error_iff : parse text = .error fault ↔ FailsWhole fault (Token.ofText text) := by
  refine ⟨fun h => ?_, fun h => ?_⟩
  · refine (failsWhole_of_whole h).resolve_left ?_
    rintro rfl
    exact absurd (belongsTo_of_parse h) (by decide)
  · exact whole_of_failsWhole h (Nat.lt_succ_of_le (Token.length_ofText_le text))

end Expr

end Calculator
