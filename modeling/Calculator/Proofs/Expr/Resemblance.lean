import Calculator.Proofs.Expr.Calls

/-!
# Equations that are read alike

Reading depends on the tokens alone, and not on all of them: a name of the root
may stand for the other one, and what follows an unknown name is never read. A
`Resemblance` is a relation between lists of tokens that reading respects, with
the faults it may tell apart. From its laws, which are about the first token,
follows how two equations are read:

* `Resemblance.respects_signed`, `Resemblance.respects_whole`,
  `Resemblance.respects_wholeWithin`: readings from tokens that are alike
  correspond;
* `Resemblance.Respects.cases`: two equations whose tokens are alike.
-/

namespace Calculator

/-- The tokens begin with names of the root, and then comes a name that is none. -/
def RootsBefore (roots : List (List Char)) (unknown : List Char) (ts : List Token) : Prop :=
  (∀ root ∈ roots, Expr.isRootName root = true) ∧ Expr.isRootName unknown = false ∧
    ∃ us, ts = roots.map .name ++ .name unknown :: us

theorem RootsBefore.head?_ne {roots : List (List Char)} {unknown : List Char} {ts : List Token}
    (h : RootsBefore roots unknown ts) (x : Char) : ts.head? ≠ some (.symbol x) := by
  obtain ⟨-, -, us, rfl⟩ := h
  cases roots <;> simp

/-- How two lists of tokens begin that are read alike. After the first token, unless it is an
unknown name, they are `alike` again; `refused` relates an unknown name to the tokens that stand
for it and for what follows it. -/
inductive Heads (alike : List Token → List Token → Prop)
    (refused : List Char → List Token → Prop) : List Token → List Token → Prop where
  | nil : Heads alike refused [] []
  | symbol {ts us} (x : Char) (h : alike ts us) :
      Heads alike refused (.symbol x :: ts) (.symbol x :: us)
  | numeral {ts us} (text : List Char) (h : alike ts us) :
      Heads alike refused (.numeral text :: ts) (.numeral text :: us)
  | root {ts us m n} (hm : Expr.isRootName m = true) (hn : Expr.isRootName n = true)
      (h : alike ts us) : Heads alike refused (.name m :: ts) (.name n :: us)
  | unknown {ts us m n} (hm : Expr.isRootName m = false) (h : refused m (.name n :: us)) :
      Heads alike refused (.name m :: ts) (.name n :: us)

/-- A relation between lists of tokens that reading respects. -/
structure Resemblance where
  alike : List Token → List Token → Prop
  /-- The faults that correspond. -/
  same : Fault → Fault → Prop
  /-- The faults of the first reading to which nothing need correspond. -/
  excused : Fault → Prop
  refl (fault : Fault) : same fault fault
  /-- What stands for an unknown name is refused too, unless the name is excused: it is a name that
  is unknown, after any number of roots, and these may be too many. -/
  heads {ts us} : alike ts us → Heads alike (fun name us => excused (.unknownFunction name) ∨
    ∃ roots unknown, RootsBefore roots unknown us ∧
      same (.unknownFunction name) (.unknownFunction unknown) ∧
      (roots ≠ [] → same (.unknownFunction name) .tooDeep)) ts us
  /-- Tokens that are left over are reported by their first characters. -/
  leftover {t u ts us} : alike (t :: ts) (u :: us) →
    same (.unexpected (some [t.first])) (.unexpected (some [u.first]))

namespace Resemblance

open Reading Cursor

variable {R : Resemblance} {α β : Type} {c d : Cursor} {ts us : List Token} {x : Char}
  {inside inner : Reading Expr} {operators : List Char}

/-- Two outcomes of reading that correspond. -/
inductive Corresponds (R : Resemblance) :
    Except Fault α × Cursor → Except Fault α × Cursor → Prop where
  | ok {c d : Cursor} (a : α) (h : R.alike c.tokens d.tokens) : Corresponds R (.ok a, c) (.ok a, d)
  | error {c d : Cursor} {f g : Fault} (h : R.same f g) : Corresponds R (.error f, c) (.error g, d)
  | excused {c : Cursor} {f : Fault} {o} (h : R.excused f) : Corresponds R (.error f, c) o

/-- Wherever the tokens are alike, the outcomes of the reading correspond. -/
def Respects (R : Resemblance) (m : Reading α) : Prop :=
  ∀ c d, R.alike c.tokens d.tokens → R.Corresponds (m c) (m d)

/-! ## One reading after another -/

theorem Corresponds.bind {m : Reading α} {f f' : α → Reading β} (hm : R.Corresponds (m c) (m d))
    (hf : ∀ a c' d', m c = (.ok a, c') → m d = (.ok a, d') → R.alike c'.tokens d'.tokens →
      R.Corresponds (f a c') (f' a d')) : R.Corresponds ((m >>= f) c) ((m >>= f') d) := by
  rcases hc : m c with ⟨o, c'⟩
  rcases hd : m d with ⟨o', d'⟩
  rw [hc, hd] at hm
  cases hm with
  | ok a h =>
    rw [bind_of_ok hc, bind_of_ok hd]
    exact hf a c' d' hc hd h
  | error h =>
    rw [bind_of_error hc, bind_of_error hd]
    exact .error h
  | excused h =>
    rw [bind_of_error hc]
    exact .excused h

theorem Respects.bind {m : Reading α} {f : α → Reading β} (hm : R.Respects m)
    (hf : ∀ a, R.Respects (f a)) : R.Respects (m >>= f) := fun c d h =>
  (hm c d h).bind fun a c' d' _ _ h' => hf a c' d' h'

theorem respects_pure (a : α) : R.Respects (pure a : Reading α) := fun _ _ h => .ok a h

theorem respects_fail (fault : Fault) : R.Respects (fail fault : Reading α) := fun _ _ _ =>
  .error (R.refl fault)

/-! ## Decisions -/

theorem head?_eq_symbol (h : R.alike ts us) :
    ts.head? = some (.symbol x) ↔ us.head? = some (.symbol x) := by
  cases R.heads h <;> simp

theorem alike_of_symbols {y : Char} (h : R.alike (.symbol x :: ts) (.symbol y :: us)) :
    x = y ∧ R.alike ts us := by
  cases R.heads h with
  | symbol _ h => exact ⟨rfl, h⟩

/-- Both readings pass the expected symbol, or neither does. -/
theorem eat_both (hx : Token.IsSymbol x) (h : R.alike c.tokens d.tokens) :
    (∃ c' d', eat (some x) c = (.ok true, c') ∧ eat (some x) d = (.ok true, d') ∧
      R.alike c'.tokens d'.tokens) ∨
    ∃ c' d', eat (some x) c = (.ok false, c') ∧ eat (some x) d = (.ok false, d') ∧
      c'.current? ≠ some ' ' ∧ d'.current? ≠ some ' ' ∧ R.alike c'.tokens d'.tokens := by
  have hh := head?_eq_symbol (x := x) h
  rcases eat_cases hx c with ⟨c', hc, -, ht⟩ | ⟨c', hc, -, hs, ht, hn⟩ <;>
    rcases eat_cases hx d with ⟨d', hd, -, hu⟩ | ⟨d', hd, -, hs', hu, hn'⟩
  · rw [ht, hu] at h
    exact .inl ⟨c', d', hc, hd, (alike_of_symbols h).2⟩
  · exact absurd (hh.mp (by rw [ht, List.head?_cons])) hn'
  · exact absurd (hh.mpr (by rw [hu, List.head?_cons])) hn
  · exact .inr ⟨c', d', hc, hd, hs, hs', by rwa [ht, hu]⟩

theorem respects_eat (hx : Token.IsSymbol x) : R.Respects (eat (some x)) := by
  intro c d h
  rcases eat_both hx h with ⟨c', d', hc, hd, h'⟩ | ⟨c', d', hc, hd, -, -, h'⟩ <;> rw [hc, hd]
  · exact .ok true h'
  · exact .ok false h'

theorem respects_eatAny (hx : ∀ x ∈ operators, Token.IsSymbol x) :
    R.Respects (eatAny operators) := by
  intro c d h
  rcases eatAny_cases hx c with ⟨x, hm, c', hc, -, ht⟩ | ⟨c', hc, -, -, ht, hn⟩ <;>
    rcases eatAny_cases hx d with ⟨y, hm', d', hd, -, hu⟩ | ⟨d', hd, -, -, hu, hn'⟩
  · rw [ht, hu] at h
    obtain ⟨rfl, h'⟩ := alike_of_symbols h
    rw [hc, hd]
    exact .ok (some x) h'
  · exact absurd ((head?_eq_symbol h).mp (by rw [ht, List.head?_cons])) (hn' x hm)
  · exact absurd ((head?_eq_symbol h).mpr (by rw [hu, List.head?_cons])) (hn y hm')
  · rw [hc, hd]
    exact .ok none (by rwa [ht, hu])

theorem respects_close (function : Option (List Char)) : R.Respects (close function) :=
  .bind (respects_eat Token.isSymbol_close) fun b => by
    cases b
    · exact respects_fail _
    · exact respects_pure ()

/-! ## Chains -/

/-- Counts that cover the characters left on either side make no difference. -/
theorem corresponds_chain (hx : ∀ x ∈ operators, Token.IsSymbol x) (hr : IsRegular 0 inner)
    (hi : R.Respects inner) {count count' : Nat} (tree : Expr) (hc : c.rest.length ≤ count)
    (hd : d.rest.length ≤ count') (h : R.alike c.tokens d.tokens) :
    R.Corresponds (chain operators inner count tree c) (chain operators inner count' tree d) := by
  induction count using Nat.strongRecOn generalizing c d count' tree with
  | ind count ih =>
    rcases chain_cases hx inner tree hc with ⟨x, hm, c₁, k, rfl, hk, -, ht, he⟩ |
      ⟨c₁, he, -, -, ht, hn⟩ <;>
      rcases chain_cases hx inner tree hd with ⟨y, hm', d₁, k', rfl, hk', -, hu, he'⟩ |
        ⟨d₁, he', -, -, hu, hn'⟩
    · rw [ht, hu] at h
      obtain ⟨rfl, h₁⟩ := alike_of_symbols h
      rw [he, he']
      refine (hi c₁ d₁ h₁).bind fun r c₂ d₂ hc₂ hd₂ h₂ => ?_
      have hle := (hr c₁).reaches.length_le
      have hle' := (hr d₁).reaches.length_le
      rw [hc₂] at hle
      rw [hd₂] at hle'
      exact ih k (Nat.lt_succ_self k) _ (Nat.le_trans hle hk) (Nat.le_trans hle' hk') h₂
    · exact absurd ((head?_eq_symbol h).mp (by rw [ht, List.head?_cons])) (hn' x hm)
    · exact absurd ((head?_eq_symbol h).mpr (by rw [hu, List.head?_cons])) (hn y hm')
    · rw [he, he']
      exact .ok tree (by rwa [ht, hu])

theorem respects_joined (hx : ∀ x ∈ operators, Token.IsSymbol x) (hr : IsRegular 0 inner)
    (hi : R.Respects inner) : R.Respects (joined operators inner) := fun c d h =>
  (hi c d h).bind fun first _ _ _ _ h' =>
    corresponds_chain hx hr hi first (Nat.le_refl _) (Nat.le_refl _) h'

theorem respects_enclosed (function : Option (List Char)) (hi : R.Respects inside) :
    R.Respects (enclosed function inside) :=
  hi.bind fun tree => (respects_close function).bind fun _ => respects_pure tree

theorem respects_powered (hi : R.Respects inner) (base : Expr) :
    R.Respects (powered inner base) :=
  (respects_eat Token.isSymbol_power).bind fun b => by
    cases b
    · exact respects_pure base
    · exact hi.bind fun exponent => respects_pure _

/-! ## Names -/

theorem respects_argument (function : List Char) (hs : R.Respects inside) (hi : R.Respects inner) :
    R.Respects (argument function inside inner) := by
  rw [argument_def]
  refine (respects_eat Token.isSymbol_open).bind fun b => ?_
  cases b
  · exact hi
  · exact respects_enclosed _ hs

/-- The reading fails before an unknown name that is not the first, for the name or for the roots
before it. -/
def Refuses (inner : Reading Expr) : Prop :=
  ∀ roots unknown c, RootsBefore roots unknown c.tokens →
    ∃ f d, inner c = (.error f, d) ∧ (f = .unknownFunction unknown ∨ f = .tooDeep)

/-- Names of the root do not hide an unknown name after them. -/
theorem atom_refuses (inside : Reading Expr) (hq : Refuses inner) (hs : c.current? ≠ some ' ')
    {roots : List (List Char)} {unknown : List Char} (h : RootsBefore roots unknown c.tokens) :
    ∃ f d, atom inside inner c = (.error f, d) ∧
      (f = .unknownFunction unknown ∨ roots ≠ [] ∧ f = .tooDeep) := by
  obtain ⟨hroots, hu, us, ht⟩ := h
  cases roots with
  | nil =>
    obtain ⟨d, -, ha⟩ := atom_of_name inside inner hs ht
    rw [ha, applied_of_not_root hu]
    exact ⟨_, d, rfl, .inl rfl⟩
  | cons root roots =>
    obtain ⟨hroot, hrest⟩ := List.forall_mem_cons.mp hroots
    obtain ⟨d, hd, ha⟩ := atom_of_name inside inner hs ht
    have hb : RootsBefore roots unknown d.tokens := ⟨hrest, hu, us, hd⟩
    obtain ⟨d₁, he, -, ht₁⟩ := eat_of_ne Token.isSymbol_open (hb.head?_ne '(')
    obtain ⟨f, d₂, hi, hf⟩ := hq roots unknown d₁ (ht₁ ▸ hb)
    have hg : argument Operator.squareRoot.symbol inside inner d = (.error f, d₂) := by
      rw [argument_def, bind_of_ok he]
      exact hi
    rw [ha, applied_of_root hroot, bind_of_error hg]
    exact ⟨f, d₂, rfl, hf.imp_right fun hf => ⟨List.cons_ne_nil _ _, hf⟩⟩

theorem refuses_signed (hq : Refuses inner) : Refuses (Reading.signed inside inner) := by
  intro roots unknown c h
  rcases eatAny_cases isSymbol_terms c with ⟨x, -, d, -, -, ht⟩ | ⟨c₁, he, -, -, ht₁, -⟩
  · exact absurd (by rw [ht, List.head?_cons]) (h.head?_ne x)
  have h₁ : RootsBefore roots unknown c₁.tokens := ht₁ ▸ h
  obtain ⟨c₂, he₂, hs, ht₂⟩ := eat_of_ne Token.isSymbol_open (h₁.head?_ne '(')
  obtain ⟨f, d, ha, hf⟩ := atom_refuses inside hq hs (ht₂ ▸ h₁)
  have hp : primary inside inner c₁ = (.error f, d) := by
    rw [primary_def, bind_of_ok he₂]
    exact ha
  rw [Reading.signed, bind_of_ok he]
  exact ⟨f, d, bind_of_error hp, hf.imp_right And.right⟩

theorem refuses_tooDeep : Refuses (fail .tooDeep) := fun _ _ c _ => ⟨.tooDeep, c, rfl, .inr rfl⟩

theorem refuses_factor (nesting : Nat) : Refuses (factor nesting) := by
  induction nesting with
  | zero => exact refuses_tooDeep
  | succ nesting ih => exact refuses_signed ih

theorem refuses_factorWithin (calls : Nat) : Refuses (factorWithin calls) := by
  induction calls with
  | zero => exact refuses_tooDeep
  | succ calls ih => exact refuses_signed ih

/-! ## Factors -/

theorem corresponds_atom (ho : R.Respects inside) (hi : R.Respects inner) (hq : Refuses inner)
    (hc : c.current? ≠ some ' ') (hd : d.current? ≠ some ' ') (h : R.alike c.tokens d.tokens) :
    R.Corresponds (atom inside inner c) (atom inside inner d) := by
  generalize hts : c.tokens = ts at h
  generalize hus : d.tokens = us at h
  cases R.heads h with
  | nil =>
    rw [atom_of_end inside inner hc hts, atom_of_end inside inner hd hus]
    exact .error (R.refl _)
  | symbol x =>
    rw [atom_of_symbol inside inner hc hts, atom_of_symbol inside inner hd hus]
    exact .error (R.refl _)
  | numeral text h =>
    obtain ⟨c', ht, ha⟩ := atom_of_numeral inside inner hc hts
    obtain ⟨d', hu, ha'⟩ := atom_of_numeral inside inner hd hus
    rw [ha, ha']
    split
    · exact .ok _ (by rwa [ht, hu])
    · exact .error (R.refl _)
  | root hm hn h =>
    obtain ⟨c', ht, ha⟩ := atom_of_name inside inner hc hts
    obtain ⟨d', hu, ha'⟩ := atom_of_name inside inner hd hus
    rw [ha, ha', applied_of_root hm, applied_of_root hn]
    exact (respects_argument _ ho hi).bind (fun tree => respects_pure _) c' d' (by rwa [ht, hu])
  | unknown hm hn =>
    obtain ⟨c', -, ha⟩ := atom_of_name inside inner hc hts
    rw [ha, applied_of_not_root hm]
    rcases hn with he | ⟨roots, unknown, hb, hs, hdeep⟩
    · exact .excused he
    · obtain ⟨f, d', ha', hf⟩ := atom_refuses inside hq hd (hus ▸ hb)
      rw [ha']
      rcases hf with rfl | ⟨hne, rfl⟩
      · exact .error hs
      · exact .error (hdeep hne)

theorem respects_primary (ho : R.Respects inside) (hi : R.Respects inner) (hq : Refuses inner) :
    R.Respects (primary inside inner) := by
  intro c d h
  rw [primary_def]
  rcases eat_both Token.isSymbol_open h with
    ⟨c', d', hc, hd, h'⟩ | ⟨c', d', hc, hd, hs, hs', h'⟩ <;>
    rw [bind_of_ok hc, bind_of_ok hd]
  · exact respects_enclosed none ho c' d' h'
  · exact corresponds_atom ho hi hq hs hs' h'

theorem respects_signed (ho : R.Respects inside) (hi : R.Respects inner) (hq : Refuses inner) :
    R.Respects (Reading.signed inside inner) := by
  refine (respects_eatAny isSymbol_terms).bind fun found => ?_
  cases found with
  | some sign => exact hi.bind fun operand => respects_pure _
  | none => exact (respects_primary ho hi hq).bind (respects_powered hi)

/-- With any count of nested factors, tokens that are alike are read alike. -/
theorem respects_factor (nesting : Nat) :
    R.Respects (expression (factor nesting)) ∧ R.Respects (factor nesting) := by
  have hexpression {nesting : Nat} (h : R.Respects (factor nesting)) :
      R.Respects (expression (factor nesting)) :=
    respects_joined isSymbol_terms
      (isRegular_joined isSymbol_factors (isRegular_factor_zero nesting))
      (respects_joined isSymbol_factors (isRegular_factor_zero nesting) h)
  have hfactor : R.Respects (factor nesting) := by
    induction nesting with
    | zero => exact respects_fail _
    | succ nesting ih => exact respects_signed (hexpression ih) ih (refuses_factor nesting)
  exact ⟨hexpression hfactor, hfactor⟩

/-- Within any count of calls, tokens that are alike are read alike. -/
theorem respects_within (calls : Nat) :
    R.Respects (expressionWithin calls) ∧ R.Respects (termWithin calls) ∧
      R.Respects (factorWithin calls) := by
  induction calls with
  | zero => exact ⟨respects_fail _, respects_fail _, respects_fail _⟩
  | succ calls ih =>
    obtain ⟨he, ht, hf⟩ := ih
    obtain ⟨-, hrt, hrf⟩ := isRegular_within calls
    exact ⟨respects_joined isSymbol_terms hrt ht, respects_joined isSymbol_factors hrf hf,
      respects_signed he hf (refuses_factorWithin calls)⟩

/-! ## Whole equations -/

theorem respects_ended {reading : Reading Expr} (hr : R.Respects reading)
    (hs : ∀ {tree c d}, reading c = (.ok tree, d) → d.current? ≠ some ' ') :
    R.Respects (ended reading) := by
  refine fun c d h => (hr c d h).bind fun tree c d hc hd h' => ?_
  rw [bind_current?, bind_current?]
  rcases ht : c.tokens with _ | ⟨t, ts⟩ <;> rcases hu : d.tokens with _ | ⟨u, us⟩
  · rw [current?_of_tokens (hs hc) ht, current?_of_tokens (hs hd) hu]
    exact .ok tree h'
  · rw [ht, hu] at h'
    nomatch R.heads h'
  · rw [ht, hu] at h'
    nomatch R.heads h'
  · rw [current?_eq_first (hs hc) ht, current?_eq_first (hs hd) hu]
    rw [ht, hu] at h'
    exact .error (R.leftover h')

theorem respects_whole (nesting : Nat) : R.Respects (whole nesting) :=
  respects_ended (respects_factor nesting).1
    (current?_of_expression (isRegular_factor_zero nesting))

theorem respects_wholeWithin (calls : Nat) : R.Respects (wholeWithin calls) :=
  respects_ended (respects_within calls).1 current?_of_within

/-- From both equations the same is read, or both have a fault, and the faults correspond. -/
theorem Respects.cases {reading : Reading α} (hr : R.Respects reading) {text text' : List Char}
    (h : R.alike (Token.ofText text) (Token.ofText text')) :
    (∃ a, (reading (Cursor.start text)).1 = .ok a ∧ (reading (Cursor.start text')).1 = .ok a) ∨
    ∃ f, (reading (Cursor.start text)).1 = .error f ∧
      (R.excused f ∨ ∃ g, (reading (Cursor.start text')).1 = .error g ∧ R.same f g) := by
  have hc := hr (.start text) (.start text') h
  generalize reading (Cursor.start text) = o at hc
  generalize reading (Cursor.start text') = o' at hc
  cases hc with
  | ok a => exact .inl ⟨a, rfl, rfl⟩
  | error hs => exact .inr ⟨_, rfl, .inr ⟨_, rfl, hs⟩⟩
  | excused he => exact .inr ⟨_, rfl, .inl he⟩

end Resemblance

end Calculator
