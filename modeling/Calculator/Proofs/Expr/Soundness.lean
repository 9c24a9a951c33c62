import Calculator.Proofs.Expr.Grammar
import Calculator.Proofs.Expr.Reading

/-!
# What parsing takes is in the grammar

A reading of a part of an equation that succeeds has taken tokens that have a
strict derivation as this part, with the tree it yields, and it has stopped
where the part cannot go on. `Part.EndsBefore` says which tokens cannot
continue a part:

* `Reading.Joins`: how expressions are made of terms, and terms of factors;
* `Reading.isSound_expression`, `Reading.isSound_factor`: the readings of
  these parts are sound.
-/

namespace Calculator

/-- The symbols that would continue a part. -/
def Part.continuations : Part → List Char
  | .expression => ['+', '-', '*', '/', '^']
  | .term => ['*', '/', '^']
  | .factor | .bare => ['^']
  | .closed => []

/-- The part cannot go on with these tokens. -/
def Part.EndsBefore (part : Part) (ts : List Token) : Prop :=
  ∀ x ∈ part.continuations, ts.head? ≠ some (.symbol x)

theorem Part.EndsBefore.term {ts : List Token} (h : Part.expression.EndsBefore ts) :
    Part.term.EndsBefore ts := fun x hx =>
  h x (forall_mem_of_all (p := (· ∈ Part.expression.continuations)) (by decide) x hx)

theorem Part.EndsBefore.factor {ts : List Token} (h : Part.term.EndsBefore ts) :
    Part.factor.EndsBefore ts := fun x hx =>
  h x (forall_mem_of_all (p := (· ∈ Part.term.continuations)) (by decide) x hx)

theorem Part.endsBefore_symbol {part : Part} {x : Char} (h : x ∉ part.continuations)
    (ts : List Token) : part.EndsBefore (.symbol x :: ts) := fun y hy he => by
  rw [List.head?_cons, Option.some.injEq, Token.symbol.injEq] at he
  exact h (he ▸ hy)

theorem Part.endsBefore_nil (part : Part) : part.EndsBefore [] := fun _ _ => nofun

namespace Reading

open Cursor

variable {α β : Type} {c d : Cursor} {e tree : Expr}

theorem bind_eq_ok {m : Reading α} {f : α → Reading β} {b : β} (h : (m >>= f) c = (.ok b, d)) :
    ∃ a c', m c = (.ok a, c') ∧ f a c' = (.ok b, d) := by
  rcases hm : m c with ⟨fault | a, c'⟩
  · rw [bind_of_error hm] at h
    cases h
  · rw [bind_of_ok hm] at h
    exact ⟨a, c', rfl, h⟩

/-! ## Soundness -/

/-- Between the cursors stands a part with this tree, which does not go on after them. -/
structure Takes (part : Part) (c : Cursor) (e : Expr) (d : Cursor) : Prop where
  derives : ∃ ts, c.tokens = ts ++ d.tokens ∧ Derives true part ts e
  ends : part.EndsBefore d.tokens

/-- The reading takes the part whenever it succeeds. -/
def IsSound (part : Part) (m : Reading Expr) : Prop :=
  ∀ c e d, m c = (.ok e, d) → Takes part c e d

theorem tokens_of_close {function : Option (List Char)} (h : close function c = (.ok (), d)) :
    c.tokens = .symbol ')' :: d.tokens := by
  rcases eat_cases Token.isSymbol_close c with ⟨d', he, -, ht⟩ | ⟨d', he, -⟩ <;>
    rw [close, bind_of_ok he] at h <;> cases h
  exact ht

/-- The part `upper` is made of parts `lower` that operators join from left to right. -/
structure Joins (operators : List Char) (lower upper : Part) : Prop where
  isSymbol : ∀ x ∈ operators, Token.IsSymbol x
  single {ts e} : Derives true lower ts e → Derives true upper ts e
  join {op ts us l r} : op ∈ operators → Derives true upper ts l → Derives true lower us r →
    Derives true upper (ts ++ .symbol op :: us) (.binary [op] l r)
  continuations : ∀ x ∈ upper.continuations, x ∈ operators ∨ x ∈ lower.continuations
  apart : ∀ x ∈ operators, x ∉ lower.continuations

theorem joins_terms : Joins ['+', '-'] .term .expression :=
  ⟨isSymbol_terms, .term, .sum, forall_mem_of_all (by decide), forall_mem_of_all (by decide)⟩

theorem joins_factors : Joins ['*', '/'] .factor .term :=
  ⟨isSymbol_factors, .factor, .product, forall_mem_of_all (by decide),
    forall_mem_of_all (by decide)⟩

variable {operators : List Char} {operand inner : Reading Expr} {lower upper : Part}

/-- A chain goes on from a part that has been taken, and takes as many operands as there are. -/
theorem takes_of_chain (hj : Joins operators lower upper) (hr : IsRegular 0 operand)
    (hs : IsSound lower operand) {count : Nat}
    (h : chain operators operand count tree c = (.ok e, d)) (hn : c.rest.length ≤ count)
    (hl : lower.EndsBefore c.tokens) {ts : List Token} (ht : Derives true upper ts tree) :
    ∃ us, c.tokens = us ++ d.tokens ∧ Derives true upper (ts ++ us) e ∧
      upper.EndsBefore d.tokens := by
  induction count using Nat.strongRecOn generalizing c tree ts with
  | ind count ih =>
  rcases chain_cases hj.isSymbol operand tree hn with ⟨x, hm, c₁, k, rfl, hk, -, hc, he⟩ |
    ⟨c₁, he, -, -, hc, ho⟩
  · -- One more operand: the chain goes on from the part that it completes.
    rw [he] at h
    obtain ⟨r, c₂, hr₂, h⟩ := bind_eq_ok h
    obtain ⟨⟨vs, hv, hd⟩, hl₂⟩ := hs _ _ _ hr₂
    have hle := (hr c₁).reaches.length_le
    rw [hr₂] at hle
    obtain ⟨ws, hw, hdw, hu⟩ :=
      ih k (Nat.lt_succ_self k) h (Nat.le_trans hle hk) hl₂ (hj.join hm ht hd)
    refine ⟨.symbol x :: (vs ++ ws), ?_, ?_, hu⟩
    · rw [hc, hv, hw, List.cons_append, List.append_assoc]
    · rwa [List.append_assoc, List.cons_append] at hdw
  · rw [he] at h
    cases h
    refine ⟨[], hc.symm, by rwa [List.append_nil], fun x hx => ?_⟩
    rw [hc]
    exact (hj.continuations x hx).elim (ho x) (hl x)

theorem isSound_joined (hj : Joins operators lower upper) (hr : IsRegular 0 operand)
    (hs : IsSound lower operand) : IsSound upper (joined operators operand) := by
  intro c e d h
  obtain ⟨first, c', hf, h⟩ := bind_eq_ok h
  obtain ⟨⟨ts, ht, hd⟩, hl⟩ := hs _ _ _ hf
  obtain ⟨us, hu, hdu, he⟩ := takes_of_chain hj hr hs h (Nat.le_refl _) hl (hj.single hd)
  exact ⟨⟨ts ++ us, by rw [ht, hu, List.append_assoc], hdu⟩, he⟩

theorem isSound_expression (hr : IsRegular 0 inner) (hs : IsSound .factor inner) :
    IsSound .expression (expression inner) :=
  isSound_joined joins_terms (isRegular_joined isSymbol_factors hr)
    (isSound_joined joins_factors hr hs)

theorem takes_of_enclosed (hr : IsRegular 0 inner) (hs : IsSound .factor inner)
    {function : Option (List Char)} (h : enclosed function (expression inner) c = (.ok e, d)) :
    ∃ ts, c.tokens = ts ++ .symbol ')' :: d.tokens ∧ Derives true .expression ts e := by
  obtain ⟨tree, c', he, h⟩ := bind_eq_ok h
  obtain ⟨⟨⟩, c'', hc, h⟩ := bind_eq_ok h
  cases h
  obtain ⟨⟨ts, ht, hd⟩, -⟩ := isSound_expression hr hs _ _ _ he
  exact ⟨ts, by rw [ht, tokens_of_close hc], hd⟩

/-- What is read before a power is closed, or a function that leaves no power to read. -/
theorem takes_of_applied (hr : IsRegular 0 inner) (hs : IsSound .factor inner)
    {name : List Char} (h : applied name (expression inner) inner c = (.ok e, d)) :
    ∃ ts part, c.tokens = ts ++ d.tokens ∧ Derives true part (.name name :: ts) e ∧
      (part = .closed ∨ part = .bare ∧ Part.bare.EndsBefore d.tokens) := by
  cases hn : Expr.isRootName name with
  | false =>
    rw [applied_of_not_root hn] at h
    cases h
  | true =>
    rw [applied_of_root hn, argument_def] at h
    obtain ⟨tree, c', ha, h⟩ := bind_eq_ok h
    cases h
    rcases eat_cases Token.isSymbol_open c with ⟨c₁, he, -, ht⟩ |
      ⟨c₁, he, -, -, ht, ho⟩ <;> rw [bind_of_ok he] at ha
    · obtain ⟨ts, hc, hd⟩ := takes_of_enclosed hr hs ha
      refine ⟨.symbol '(' :: (ts ++ [.symbol ')']), .closed, ?_, .call hn hd, .inl rfl⟩
      rw [ht, hc, List.cons_append, List.append_assoc, List.singleton_append]
    · obtain ⟨⟨ts, hc, hd⟩, hl⟩ := hs _ _ _ ha
      refine ⟨ts, .bare, by rw [← ht, hc], .apply hn (fun _ h => ?_) hd, .inr ⟨rfl, hl⟩⟩
      -- The argument would begin with a parenthesis, which would have opened it.
      rw [← ht, hc, List.head?_append_of_ne_nil _ hd.ne_nil] at ho
      exact ho h

theorem takes_of_primary (hr : IsRegular 0 inner) (hs : IsSound .factor inner)
    (h : primary (expression inner) inner c = (.ok e, d)) :
    ∃ ts part, c.tokens = ts ++ d.tokens ∧ Derives true part ts e ∧
      (part = .closed ∨ part = .bare ∧ Part.bare.EndsBefore d.tokens) := by
  rw [primary_def] at h
  rcases eat_cases Token.isSymbol_open c with ⟨c₁, he, -, ht⟩ |
    ⟨c₁, he, -, hsp, ht, -⟩ <;> rw [bind_of_ok he] at h
  · obtain ⟨ts, hc, hd⟩ := takes_of_enclosed hr hs h
    refine ⟨.symbol '(' :: (ts ++ [.symbol ')']), .closed, ?_, .group hd, .inl rfl⟩
    rw [ht, hc, List.cons_append, List.append_assoc, List.singleton_append]
  rw [if_neg Bool.false_ne_true] at h
  rcases atom_cases (expression inner) inner hsp with
    ⟨-, ha⟩ | ⟨text, c₂, hc, -, ha⟩ | ⟨name, c₂, hc, -, ha⟩ | ⟨x, -, ha⟩ <;>
    rw [ha] at h
  · cases h
  · split at h <;> cases h
    exact ⟨[.numeral text], .closed, by rw [← ht, hc]; rfl, .numeral ‹_›, .inl rfl⟩
  · obtain ⟨ts, part, hd, hp⟩ := takes_of_applied hr hs h
    exact ⟨.name name :: ts, part, by rw [← ht, hc, hd, List.cons_append], hp⟩
  · cases h

/-- A strict derivation of a factor from what stands before a power and the power, if any. -/
theorem takes_of_powered (hs : IsSound .factor inner) {base : Expr} {ts : List Token}
    {part : Part} (hb : Derives true part ts base)
    (hp : part = .closed ∨ part = .bare ∧ Part.bare.EndsBefore c.tokens)
    (h : powered inner base c = (.ok e, d)) :
    ∃ us, c.tokens = us ++ d.tokens ∧ Derives true .factor (ts ++ us) e ∧
      Part.factor.EndsBefore d.tokens := by
  rw [powered] at h
  rcases eat_cases Token.isSymbol_power c with ⟨c₁, he, -, ht⟩ |
    ⟨c₁, he, -, -, ht, ho⟩ <;> rw [bind_of_ok he] at h
  · obtain ⟨exponent, c₂, hx, h⟩ := bind_eq_ok h
    cases h
    obtain ⟨⟨us, hc, hd⟩, hl⟩ := hs _ _ _ hx
    refine ⟨.symbol '^' :: us, by rw [ht, hc, List.cons_append], ?_, hl⟩
    rcases hp with rfl | ⟨rfl, hn⟩
    · exact .power hb hd
    · exact absurd (by rw [ht, List.head?_cons]) (hn '^' (by decide))
  · cases h
    refine ⟨[], ht.symm, ?_, fun x hx => ?_⟩
    · rw [List.append_nil]
      rcases hp with rfl | ⟨rfl, -⟩
      · exact .closed hb
      · exact .bare hb
    · rw [List.mem_singleton.mp hx, ht]
      exact ho

theorem isSound_factor (nesting : Nat) : IsSound .factor (factor nesting) := by
  induction nesting with
  | zero =>
    intro c e d h
    cases h
  | succ nesting ih =>
    intro c e d h
    rw [factor_succ, signed] at h
    rcases eatAny_cases isSymbol_terms c with ⟨x, hm, c₁, he, -, ht⟩ | ⟨c₁, he, -, -, ht, -⟩ <;>
      rw [bind_of_ok he] at h
    · obtain ⟨operand, c₂, ho, h⟩ := bind_eq_ok h
      cases h
      obtain ⟨⟨ts, hc, hd⟩, hl⟩ := ih _ _ _ ho
      exact ⟨⟨.symbol x :: ts, by rw [ht, hc, List.cons_append], .sign hm hd⟩, hl⟩
    · obtain ⟨base, c₂, hb, h⟩ := bind_eq_ok h
      obtain ⟨ts, part, hc, hd, hp⟩ := takes_of_primary (isRegular_factor_zero nesting) ih hb
      obtain ⟨us, hu, hdu, hl⟩ := takes_of_powered ih hd hp h
      exact ⟨⟨ts ++ us, by rw [← ht, hc, hu, List.append_assoc], hdu⟩, hl⟩

end Reading

end Calculator
