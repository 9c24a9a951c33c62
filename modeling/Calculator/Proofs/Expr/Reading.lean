import Calculator.Proofs.Expr.Token
import Calculator.Proofs.Number.Numeral

/-!
# Steps of reading

What each reading does next is decided by the first token from its cursor on.
The lemmas `eat_cases`, `eatAny_cases`, `atom_cases` and `chain_cases` say so
once for every place where the grammar decides: they give the cursor after the
decision, the tokens from it on, and the reading that goes on from there.

`Reading.IsRegular` collects what holds of every reading, however it ends:

* it only moves on, over characters of the text (`Cursor.Reaches`);
* it fails with a fault of parsing, unless the count of nested factors runs
  out, which takes as many characters as it counts (`isRegular_factor`).
-/

namespace Calculator

/-- The digits that the codes of a stage begin with. -/
def Stage.digits : Stage → List Char
  | validation => ['3', '1']
  | parsing => ['3', '2']
  | running => ['9', '9']

/-- The fault arises at the stage, and its code says so. -/
def Fault.BelongsTo (fault : Fault) (stage : Stage) : Prop :=
  fault.stage = stage ∧ fault.code.take 2 = stage.digits

instance (fault : Fault) (stage : Stage) : Decidable (fault.BelongsTo stage) :=
  inferInstanceAs (Decidable (_ ∧ _))

namespace Cursor

variable {c d e : Cursor} {x : Char}

/-- From `c` the cursor can move on to `d` over characters of the text. -/
def Reaches (c d : Cursor) : Prop :=
  ∃ passed, c.rest = passed ++ d.rest ∧ d.position = c.position + passed.length

/-- The cursor moves on over one character at least. -/
def Passes (c d : Cursor) : Prop := c.Reaches d ∧ d.rest.length < c.rest.length

theorem Reaches.refl (c : Cursor) : c.Reaches c := ⟨[], rfl, rfl⟩

theorem Reaches.trans (h : c.Reaches d) (h' : d.Reaches e) : c.Reaches e := by
  obtain ⟨p, hr, hp⟩ := h
  obtain ⟨q, hr', hp'⟩ := h'
  refine ⟨p ++ q, by rw [hr, hr', List.append_assoc], ?_⟩
  rw [hp', hp, List.length_append, Nat.add_assoc]

theorem Reaches.length_le (h : c.Reaches d) : d.rest.length ≤ c.rest.length := by
  obtain ⟨p, hr, -⟩ := h
  rw [hr, List.length_append]
  omega

theorem Reaches.passes (h : c.Reaches d) (h' : d.Passes e) : c.Passes e :=
  ⟨h.trans h'.1, Nat.lt_of_lt_of_le h'.2 h.length_le⟩

theorem reaches_skip (p : Char → Bool) (c : Cursor) : c.Reaches (c.skip p) :=
  ⟨c.run p, (run_append_skip p c).symm, rfl⟩

theorem passes_next (h : c.current? = some x) : c.Passes c.next := by
  obtain ⟨y, rest, hr, -⟩ := current?_eq_some.mp h
  refine ⟨⟨[y], by rw [next, hr]; rfl, rfl⟩, ?_⟩
  rw [next, hr, List.tail_cons, List.length_cons]
  exact Nat.lt_succ_self _

theorem passes_skip {p : Char → Bool} (h : c.current? = some x) (hx : p x = true)
    (hp : ∀ y, p (Operator.canonical y) = p y) : c.Passes (c.skip p) := by
  obtain ⟨y, rest, hr, rfl⟩ := current?_eq_some.mp h
  refine ⟨reaches_skip p c, ?_⟩
  rw [hp] at hx
  rw [skip, hr, List.dropWhile_cons_of_pos hx, List.length_cons]
  exact Nat.lt_succ_of_le (List.length_dropWhile_le _ _)

end Cursor

namespace Reading

open Cursor

variable {α β : Type} {c : Cursor} {x : Char} {size : Nat}

/-! ## Decisions -/

theorem bind_current? {f : Option Char → Reading α} : (current? >>= f) c = f c.current? c := rfl

/-- An expected symbol is passed if it is the next token; else the cursor only skips spaces. -/
theorem eat_cases (hx : Token.IsSymbol x) (c : Cursor) :
    (∃ d, eat (some x) c = (.ok true, d) ∧ c.Passes d ∧ c.tokens = .symbol x :: d.tokens) ∨
    ∃ d, eat (some x) c = (.ok false, d) ∧ c.Reaches d ∧ d.current? ≠ some ' ' ∧
      d.tokens = c.tokens ∧ c.tokens.head? ≠ some (.symbol x) := by
  have hr : c.Reaches c.skipSpaces := reaches_skip _ c
  have ht := tokens_skipSpaces c
  by_cases h : c.skipSpaces.current? = some x
  · refine .inl ⟨c.skipSpaces.next, if_pos h, hr.passes (passes_next h), ?_⟩
    rw [← ht, tokens_of_symbol h hx]
  · refine .inr ⟨c.skipSpaces, if_neg h, hr, current?_skipSpaces c, ht, ?_⟩
    rwa [← ht, Ne, head?_tokens_eq_symbol (current?_skipSpaces c) hx]

theorem eat_of_ne (hx : Token.IsSymbol x) (h : c.tokens.head? ≠ some (.symbol x)) :
    ∃ d, eat (some x) c = (.ok false, d) ∧ d.current? ≠ some ' ' ∧ d.tokens = c.tokens := by
  rcases eat_cases hx c with ⟨d, -, -, ht⟩ | ⟨d, he, -, hs, ht, -⟩
  · exact absurd (by rw [ht, List.head?_cons]) h
  · exact ⟨d, he, hs, ht⟩

/-- The same for several expected symbols. -/
theorem eatAny_cases {expected : List Char} (hx : ∀ x ∈ expected, Token.IsSymbol x) (c : Cursor) :
    (∃ x ∈ expected, ∃ d, eatAny expected c = (.ok (some x), d) ∧ c.Passes d ∧
      c.tokens = .symbol x :: d.tokens) ∨
    ∃ d, eatAny expected c = (.ok none, d) ∧ c.Reaches d ∧ d.current? ≠ some ' ' ∧
      d.tokens = c.tokens ∧ ∀ x ∈ expected, c.tokens.head? ≠ some (.symbol x) := by
  have hr : c.Reaches c.skipSpaces := reaches_skip _ c
  have hs := current?_skipSpaces c
  have ht := tokens_skipSpaces c
  have hn (hc : ∀ x ∈ expected, c.skipSpaces.current? ≠ some x) :
      ∀ x ∈ expected, c.tokens.head? ≠ some (.symbol x) := fun x hm => by
    rw [← ht, Ne, head?_tokens_eq_symbol hs (hx x hm)]
    exact hc x hm
  cases hc : c.skipSpaces.current? with
  | none =>
    refine .inr ⟨c.skipSpaces, by rw [eatAny, hc], hr, hs, ht, hn fun x _ => ?_⟩
    rw [hc]
    exact nofun
  | some y =>
    by_cases hy : y ∈ expected
    · refine .inl ⟨y, hy, c.skipSpaces.next, ?_, hr.passes (passes_next hc), ?_⟩
      · rw [eatAny, hc]
        exact if_pos hy
      · rw [← ht, tokens_of_symbol hc (hx y hy)]
    · refine .inr ⟨c.skipSpaces, ?_, hr, hs, ht, hn fun x hm => ?_⟩
      · rw [eatAny, hc]
        exact if_neg hy
      · rw [hc]
        rintro ⟨rfl⟩
        exact hy hm

theorem numeral_apply (c : Cursor) :
    numeral c = if IsNumeral (c.run isNumeralChar)
      then (.ok (.number (numeralValue (c.run isNumeralChar))), c.skip isNumeralChar)
      else (.error (.malformedNumber (c.run isNumeralChar)), c.skip isNumeralChar) := by
  have hv : numeralValue? (c.run isNumeralChar) = _ :=
    numeralValue?_of_isNumeralChar fun _ h => List.mem_takeWhile_imp h
  rw [numeral, bind_of_ok (show takeRun isNumeralChar c = _ from rfl), hv]
  split <;> rfl

/-- What stands at the cursor, other than a group, decides how reading goes on. -/
theorem atom_cases (inside factor : Reading Expr) (hc : c.current? ≠ some ' ') :
    c.tokens = [] ∧ atom inside factor c = (.error (.unexpected none), c) ∨
    (∃ text d, c.tokens = .numeral text :: d.tokens ∧ c.Passes d ∧
      atom inside factor c = if IsNumeral text then (.ok (.number (numeralValue text)), d)
        else (.error (.malformedNumber text), d)) ∨
    (∃ name d, c.tokens = .name name :: d.tokens ∧ c.Passes d ∧
      atom inside factor c = applied name inside factor d) ∨
    ∃ x, c.tokens.head? = some (.symbol x) ∧
      atom inside factor c = (.error (.unexpected (some [x])), c) := by
  rcases tokens_cases hc with ⟨h, ht⟩ | ⟨y, h, hy, ht⟩ | ⟨y, h, hy, ht⟩ | ⟨y, h, hy, ht⟩ |
    ⟨y, h, hy, ht⟩
  all_goals have ha : atom inside factor c = _ := bind_current?
  all_goals simp only [h] at ha
  · exact .inl ⟨ht, ha⟩
  · rw [if_pos hy, numeral_apply] at ha
    exact .inr (.inl ⟨_, _, ht, passes_skip h hy Operator.isNumeralChar_canonical, ha⟩)
  · rw [not_numeral_of_name hy, if_neg Bool.false_ne_true, if_pos hy] at ha
    exact .inr (.inr (.inl ⟨_, _, ht, passes_skip h hy Operator.isNameChar_canonical, ha⟩))
  · obtain rfl : y = '√' := (List.cons.inj hy).1
    exact .inr (.inr (.inl ⟨_, _, ht, passes_next h, ha⟩))
  · rw [hy.2.1, if_neg Bool.false_ne_true, hy.2.2.1, if_neg Bool.false_ne_true,
      if_neg hy.2.2.2] at ha
    exact .inr (.inr (.inr ⟨y, by rw [ht, List.head?_cons], ha⟩))

variable {text : List Char} {ts : List Token}

theorem atom_of_end (inside factor : Reading Expr) (hc : c.current? ≠ some ' ')
    (ht : c.tokens = []) :
    atom inside factor c = (.error (.unexpected none), c) := by
  rcases atom_cases inside factor hc with ⟨-, ha⟩ | ⟨_, _, h, -⟩ | ⟨_, _, h, -⟩ | ⟨_, h, -⟩
  · exact ha
  all_goals
    rw [ht] at h
    cases h

theorem atom_of_numeral (inside factor : Reading Expr) (hc : c.current? ≠ some ' ')
    (ht : c.tokens = .numeral text :: ts) : ∃ d, d.tokens = ts ∧
      atom inside factor c = if IsNumeral text then (.ok (.number (numeralValue text)), d)
        else (.error (.malformedNumber text), d) := by
  rcases atom_cases inside factor hc with ⟨h, -⟩ | ⟨_, d, h, -, ha⟩ | ⟨_, _, h, -⟩ | ⟨_, h, -⟩ <;>
    rw [ht] at h <;> cases h
  exact ⟨d, rfl, ha⟩

theorem atom_of_name (inside factor : Reading Expr) (hc : c.current? ≠ some ' ')
    (ht : c.tokens = .name text :: ts) :
    ∃ d, d.tokens = ts ∧ atom inside factor c = applied text inside factor d := by
  rcases atom_cases inside factor hc with ⟨h, -⟩ | ⟨_, _, h, -⟩ | ⟨_, d, h, -, ha⟩ | ⟨_, h, -⟩ <;>
    rw [ht] at h <;> cases h
  exact ⟨d, rfl, ha⟩

theorem atom_of_symbol (inside factor : Reading Expr) (hc : c.current? ≠ some ' ')
    (ht : c.tokens = .symbol x :: ts) :
    atom inside factor c = (.error (.unexpected (some [x])), c) := by
  rcases atom_cases inside factor hc with ⟨h, -⟩ | ⟨_, _, h, -⟩ | ⟨_, _, h, -⟩ | ⟨_, h, ha⟩ <;>
    rw [ht] at h <;> cases h
  exact ha

/-- A name of the square root stands for its symbol, and no other name for it. -/
theorem isRootName_symbol? (name : List Char) :
    Expr.isRootName ((Operator.symbol? name).getD name) = Expr.isRootName name ∧
      (Expr.isRootName name = true →
        (Operator.symbol? name).getD name = Operator.squareRoot.symbol) := by
  rw [Operator.symbol?]
  cases h : Operator.all.find? fun operator => operator.glyph == name with
  | none =>
    refine ⟨rfl, fun hr => ?_⟩
    have hg := List.find?_eq_none.mp h .squareRoot (by decide)
    rw [Expr.isRootName, Bool.or_eq_true, beq_iff_eq, beq_iff_eq] at hr
    exact hr.resolve_right fun he => hg (by rw [he, beq_self_eq_true])
  | some operator =>
    obtain rfl : operator.glyph = name := by simpa using List.find?_some h
    cases operator <;> decide

theorem applied_of_root {name : List Char} (h : Expr.isRootName name = true)
    (inside factor : Reading Expr) :
    applied name inside factor = (do
      let tree ← argument Operator.squareRoot.symbol inside factor
      return .call Operator.squareRoot.symbol tree) := by
  obtain ⟨hr, hs⟩ := isRootName_symbol? name
  rw [applied, hs h]
  exact if_pos rfl

theorem applied_of_not_root {name : List Char} (h : Expr.isRootName name = false)
    (inside factor : Reading Expr) :
    applied name inside factor = fail (.unknownFunction name) := by
  rw [applied]
  exact if_neg (by rw [(isRootName_symbol? name).1, h]; exact Bool.false_ne_true)

/-- Reads an expression that a parenthesis closes. -/
def enclosed (function : Option (List Char)) (inside : Reading Expr) : Reading Expr := do
  let tree ← inside
  close function
  return tree

theorem primary_def (inside factor : Reading Expr) :
    primary inside factor =
      (do if ← eat (some '(') then enclosed none inside else atom inside factor) := rfl

theorem argument_def (function : List Char) (inside factor : Reading Expr) :
    argument function inside factor =
      (do if ← eat (some '(') then enclosed (some function) inside else factor) := rfl

theorem factor_succ (nesting : Nat) :
    factor (nesting + 1) = signed (expression (factor nesting)) (factor nesting) := rfl

/-- While the count covers the characters that are left, it ends no chain: an operand is read
after each operator, and the chain ends where none follows. -/
theorem chain_cases {operators : List Char} (hx : ∀ x ∈ operators, Token.IsSymbol x)
    (operand : Reading Expr) (tree : Expr) {count : Nat} (h : c.rest.length ≤ count) :
    (∃ x ∈ operators, ∃ d k, count = k + 1 ∧ d.rest.length ≤ k ∧ c.Passes d ∧
      c.tokens = .symbol x :: d.tokens ∧ chain operators operand count tree c =
        (operand >>= fun r => chain operators operand k (.binary [x] tree r)) d) ∨
    ∃ d, chain operators operand count tree c = (.ok tree, d) ∧ c.Reaches d ∧
      d.current? ≠ some ' ' ∧ d.tokens = c.tokens ∧
      ∀ x ∈ operators, c.tokens.head? ≠ some (.symbol x) := by
  cases count with
  | zero =>
    have hn : c.current? = none :=
      current?_eq_none.mpr (List.eq_nil_of_length_eq_zero (Nat.le_zero.mp h))
    refine .inr ⟨c, rfl, .refl c, by rw [hn]; exact nofun, rfl, fun x _ => ?_⟩
    rw [tokens_of_end hn]
    exact nofun
  | succ k =>
    rcases eatAny_cases hx c with ⟨x, hm, d, he, hp, ht⟩ | ⟨d, he, hr⟩
    · refine .inl ⟨x, hm, d, k, rfl, ?_, hp, ht, bind_of_ok he⟩
      exact Nat.le_of_lt_succ (Nat.lt_of_lt_of_le hp.2 h)
    · exact .inr ⟨d, bind_of_ok he, hr⟩

/-! ## What holds of every reading -/

/-- An outcome of reading from `c`, where faults of depth need `size` characters. -/
structure Regular (size : Nat) (c : Cursor) (outcome : Except Fault α × Cursor) : Prop where
  reaches : c.Reaches outcome.2
  fault : ∀ f, outcome.1 = .error f → f.BelongsTo .parsing ∨ f = .tooDeep ∧ size ≤ c.rest.length

namespace Regular

variable {d : Cursor} {o : Except Fault α × Cursor}

theorem ok (h : c.Reaches d) (a : α) : Regular size c (.ok a, d) := ⟨h, nofun⟩

theorem parsing (h : c.Reaches d) {f : Fault} (hf : f.BelongsTo .parsing) :
    Regular (α := α) size c (.error f, d) :=
  ⟨h, fun g hg => .inl (by cases hg; exact hf)⟩

theorem of_reaches (h : c.Reaches d) (ho : Regular size d o) : Regular size c o :=
  ⟨h.trans ho.reaches, fun f hf =>
    (ho.fault f hf).imp_right fun ⟨e, hs⟩ => ⟨e, Nat.le_trans hs h.length_le⟩⟩

theorem of_passes (h : c.Passes d) (ho : Regular size d o) : Regular (size + 1) c o :=
  ⟨h.1.trans ho.reaches, fun f hf =>
    (ho.fault f hf).imp_right fun ⟨e, hs⟩ => ⟨e, Nat.lt_of_le_of_lt hs h.2⟩⟩

theorem of_le (h : Regular size c o) {smaller : Nat} (hs : smaller ≤ size) : Regular smaller c o :=
  ⟨h.reaches, fun f hf => (h.fault f hf).imp_right fun ⟨e, hc⟩ => ⟨e, Nat.le_trans hs hc⟩⟩

theorem bind {m : Reading α} {f : α → Reading β} (hm : Regular size c (m c))
    (hf : ∀ a d, Regular size d (f a d)) : Regular size c ((m >>= f) c) := by
  rcases h : m c with ⟨fault | a, d⟩ <;> rw [h] at hm
  · rw [bind_of_error h]
    exact ⟨hm.reaches, fun g hg => hm.fault g (by cases hg; rfl)⟩
  · rw [bind_of_ok h]
    exact of_reaches hm.reaches (hf a d)

end Regular

/-- Every outcome of the reading is regular. -/
def IsRegular (size : Nat) (m : Reading α) : Prop := ∀ c, Regular size c (m c)

theorem isSymbol_terms : ∀ x ∈ ['+', '-'], Token.IsSymbol x := forall_mem_of_all (by decide)

theorem isSymbol_factors : ∀ x ∈ ['*', '/'], Token.IsSymbol x := forall_mem_of_all (by decide)

theorem isRegular_close (size : Nat) (function : Option (List Char)) :
    IsRegular size (close function) := fun c => by
  rcases eat_cases Token.isSymbol_close c with ⟨d, he, hp, -⟩ | ⟨d, he, hr, -⟩ <;>
    rw [close, bind_of_ok he]
  · exact .ok hp.1 ()
  · exact .parsing hr ⟨rfl, rfl⟩

theorem isRegular_chain {operators : List Char} (hx : ∀ x ∈ operators, Token.IsSymbol x)
    {operand : Reading Expr} (h : IsRegular size operand) (count : Nat) (tree : Expr) :
    IsRegular size (chain operators operand count tree) := by
  induction count generalizing tree with
  | zero => exact fun c => .ok (.refl c) tree
  | succ count ih =>
    intro c
    rcases eatAny_cases hx c with ⟨x, -, d, he, hp, -⟩ | ⟨d, he, hr, -⟩ <;>
      rw [chain, bind_of_ok he]
    · exact .of_reaches hp.1 (.bind (h d) fun r => ih (.binary [x] tree r))
    · exact .ok hr tree

theorem isRegular_joined {operators : List Char} (hx : ∀ x ∈ operators, Token.IsSymbol x)
    {operand : Reading Expr} (h : IsRegular size operand) :
    IsRegular size (joined operators operand) := fun c =>
  .bind (h c) fun first d => isRegular_chain hx h d.rest.length first d

variable {inside factor : Reading Expr}

theorem isRegular_expression (h : IsRegular size factor) :
    IsRegular size (expression factor) :=
  isRegular_joined isSymbol_terms (isRegular_joined isSymbol_factors h)

theorem isRegular_enclosed (function : Option (List Char)) (hs : IsRegular size inside) :
    IsRegular size (enclosed function inside) := fun c =>
  .bind (hs c) fun tree d => .bind (isRegular_close size function d) fun _ e => .ok (.refl e) tree

theorem isRegular_applied (name : List Char) (hs : IsRegular size inside)
    (h : IsRegular size factor) : IsRegular size (applied name inside factor) := fun c => by
  cases hn : Expr.isRootName name with
  | false =>
    rw [applied_of_not_root hn]
    exact .parsing (.refl c) ⟨rfl, rfl⟩
  | true =>
    rw [applied_of_root hn, argument_def]
    refine .bind ?_ fun tree d => .ok (.refl d) _
    rcases eat_cases Token.isSymbol_open c with ⟨d, he, hp, -⟩ | ⟨d, he, hr, -⟩ <;>
      rw [bind_of_ok he]
    · exact .of_reaches hp.1 (isRegular_enclosed _ hs d)
    · exact .of_reaches hr (h d)

theorem isRegular_primary (hi : IsRegular size inside) (h : IsRegular size factor) :
    IsRegular (size + 1) (primary inside factor) := fun c => by
  rw [primary_def]
  rcases eat_cases Token.isSymbol_open c with
    ⟨d, he, hp, -⟩ | ⟨d, he, hr, hs, -⟩ <;> rw [bind_of_ok he]
  · exact .of_passes hp (isRegular_enclosed none hi d)
  refine .of_reaches hr ?_
  rw [if_neg Bool.false_ne_true]
  rcases atom_cases inside factor hs with ⟨-, ha⟩ | ⟨text, e, -, hp, ha⟩ | ⟨name, e, -, hp, ha⟩ |
    ⟨x, -, ha⟩ <;> rw [ha]
  · exact .parsing (.refl d) ⟨rfl, rfl⟩
  · split
    · exact .ok hp.1 _
    · exact .parsing hp.1 ⟨rfl, rfl⟩
  · exact .of_passes hp (isRegular_applied name hi h e)
  · exact .parsing (.refl d) ⟨rfl, rfl⟩

theorem isRegular_powered (h : IsRegular size factor) (base : Expr) :
    IsRegular (size + 1) (powered factor base) := fun c => by
  rcases eat_cases Token.isSymbol_power c with ⟨d, he, hp, -⟩ | ⟨d, he, hr, -⟩ <;>
    rw [powered, bind_of_ok he]
  · exact .of_passes hp (.bind (h d) fun exponent e => .ok (.refl e) _)
  · exact .ok hr base

theorem isRegular_signed (hi : IsRegular size inside) (h : IsRegular size factor) :
    IsRegular (size + 1) (signed inside factor) := fun c => by
  rcases eatAny_cases isSymbol_terms c with ⟨x, -, d, he, hp, -⟩ | ⟨d, he, hr, -⟩ <;>
    rw [signed, bind_of_ok he]
  · exact .of_passes hp (.bind (h d) fun operand e => .ok (.refl e) _)
  · exact .of_reaches hr (.bind (isRegular_primary hi h d) (isRegular_powered h))

theorem isRegular_ended {expression : Reading Expr} (h : IsRegular size expression) :
    IsRegular size (ended expression) := fun c => by
  refine .bind (h c) fun tree d => ?_
  rw [bind_current?]
  cases d.current? with
  | none => exact .ok (.refl d) tree
  | some x => exact .parsing (.refl d) ⟨rfl, rfl⟩

theorem isRegular_tooDeep : IsRegular (α := α) 0 (fail .tooDeep) := fun c =>
  ⟨.refl c, fun f hf => .inr ⟨by cases hf; rfl, Nat.zero_le _⟩⟩

/-- Reading a factor fails for its depth only after as many characters as factors are counted. -/
theorem isRegular_factor (nesting : Nat) : IsRegular nesting (Reading.factor nesting) := by
  induction nesting with
  | zero => exact isRegular_tooDeep
  | succ nesting ih => exact isRegular_signed (isRegular_expression ih) ih

theorem isRegular_factor_zero (nesting : Nat) : IsRegular 0 (Reading.factor nesting) := fun c =>
  (isRegular_factor nesting c).of_le (Nat.zero_le nesting)

theorem isRegular_whole (nesting : Nat) : IsRegular nesting (whole nesting) :=
  isRegular_ended (isRegular_expression (isRegular_factor nesting))

/-- Within any count of calls, an expression, a term and a factor are read in a regular way. -/
theorem isRegular_within (calls : Nat) :
    IsRegular 0 (expressionWithin calls) ∧ IsRegular 0 (termWithin calls) ∧
      IsRegular 0 (factorWithin calls) := by
  induction calls with
  | zero => exact ⟨isRegular_tooDeep, isRegular_tooDeep, isRegular_tooDeep⟩
  | succ calls ih =>
    obtain ⟨he, ht, hf⟩ := ih
    exact ⟨isRegular_joined isSymbol_terms ht, isRegular_joined isSymbol_factors hf, fun c =>
      (isRegular_signed he hf c).of_le (Nat.le_succ 0)⟩

end Reading

end Calculator
