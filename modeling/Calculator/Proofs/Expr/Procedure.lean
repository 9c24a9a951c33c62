import Calculator.Proofs.Expr.Reading

/-!
# The procedures of the parser

The readings of the parser have a limit to the nesting of factors, and count
the operands of a chain. Here the same parser stands without either, as
procedures that call one another. `Procedure.act` says what a procedure does
until it returns or makes a call; what it does after the call is a procedure of
its own, and so is each loop. `Procedure.Runs` is what comes of such calls: a
run that does not end has no outcome.

From a procedure to one that it calls the cursor moves on, or the rank goes
down, and likewise to what goes on after the call:

* `Procedure.descends_act`: what a procedure can do, and call, at any cursor;
* `Procedure.exists_runs`: every run ends, by induction on the weight, which
  is the characters that are left together with the rank.
-/

namespace Calculator

theorem Cursor.Passes.trans_reaches {c d e : Cursor} (h : c.Passes d) (h' : d.Reaches e) :
    c.Passes e :=
  ⟨h.1.trans h', Nat.lt_of_le_of_lt h'.length_le h.2⟩

namespace Reading

open Cursor

/-- What operators join from left to right: the terms of an expression, or the factors of a
term. -/
inductive Level where
  | terms
  | factors

/-- The operators that join them. -/
def Level.operators : Level → List Char
  | terms => ['+', '-']
  | factors => ['*', '/']

/-- The procedures of the parser. One that goes on after a call is given the tree that this
returned, or what is made of it. -/
inductive Procedure where
  /-- Reads an expression or a term: an operand, and those that follow. -/
  | joined (level : Level)
  /-- The loop that reads the operands that follow. -/
  | chain (level : Level) (tree : Expr)
  | factor
  /-- Reads a group, a numeral or a function with its argument. -/
  | primary
  | argument (function : List Char)
  /-- Reads the parenthesis after an expression in a group or an argument. -/
  | closing (function : Option (List Char)) (tree : Expr)
  /-- Reads the exponent of a base, if one follows. -/
  | powered (base : Expr)
  /-- Reads nothing more. -/
  | finished (tree : Expr)

/-- How a procedure stops reading by itself. -/
inductive Action where
  /-- It returns a tree. -/
  | done (tree : Expr)
  /-- It calls a procedure, and another one goes on with the tree that this returns. -/
  | call (callee : Procedure) (next : Expr → Procedure)

/-- The procedure that reads an operand. -/
def Level.operand : Level → Procedure
  | terms => .joined .factors
  | factors => .factor

namespace Procedure

/-- Reads an expression. -/
def expression : Procedure := joined .terms

/-- Reads a term. -/
def term : Procedure := joined .factors

/-- Reads on after the name of a function. -/
def named (name : List Char) : Reading Action :=
  let function := (Operator.symbol? name).getD name
  if Expr.isRootName function then
    return .call (argument function) fun tree => finished (.call function tree)
  else fail (.unknownFunction name)

/-- Reads on where no group opens. -/
def unopened : Reading Action := do
  match ← current? with
  | none => fail (.unexpected none)
  | some c =>
    if isNumeralChar c then return .done (← numeral)
    else if isNameChar c then named (← takeRun isNameChar)
    else if [c] = Operator.squareRoot.glyph then named (← takeOne)
    else fail (.unexpected (some [c]))

/-- What a procedure does until it returns or makes a call. -/
def act : Procedure → Reading Action
  | joined level => return .call level.operand (chain level)
  | chain level tree => do
    match ← eatAny level.operators with
    | some operator =>
      return .call level.operand fun right => chain level (.binary [operator] tree right)
    | none => return .done tree
  | factor => do
    match ← eatAny ['+', '-'] with
    | some sign => return .call factor fun operand => finished (.unary [sign] operand)
    | none => return .call primary powered
  | primary => do
    if ← eat (some '(') then return .call expression (closing none) else unopened
  | argument function => do
    if ← eat (some '(') then return .call expression (closing (some function))
    else return .call factor finished
  | closing function tree => do
    close function
    return .done tree
  | powered base => do
    if ← eat (some '^') then
      return .call factor fun exponent => finished (.binary ['^'] base exponent)
    else return .done base
  | finished tree => return .done tree

/-- The procedure, started at the cursor, ends with this outcome. A fault of one that it calls is
its own fault, and ends it where the cursor then stands. -/
inductive Runs : Procedure → Cursor → Except Fault Expr × Cursor → Prop where
  | fault {p c f d} (h : p.act c = (.error f, d)) : Runs p c (.error f, d)
  | done {p c tree d} (h : p.act c = (.ok (.done tree), d)) : Runs p c (.ok tree, d)
  | callFault {p q next c d f e} (h : p.act c = (.ok (.call q next), d))
      (hq : Runs q d (.error f, e)) : Runs p c (.error f, e)
  | call {p q next c d tree e o} (h : p.act c = (.ok (.call q next), d))
      (hq : Runs q d (.ok tree, e)) (hn : Runs (next tree) e o) : Runs p c o

variable {p q : Procedure} {next : Expr → Procedure} {c d : Cursor} {tree : Expr} {fault : Fault}

/-! ## Every run ends -/

/-- Without passing a character a procedure calls only those of a lower rank. -/
def rank : Procedure → Nat
  | joined .terms => 3
  | joined .factors | argument _ => 2
  | factor => 1
  | chain .. | primary | closing .. | powered _ | finished _ => 0

theorem rank_lt (p : Procedure) : p.rank < 4 := by
  fun_cases rank p <;> decide

/-- The characters that are left, and among equal ones the rank. -/
def weight (p : Procedure) (c : Cursor) : Nat := 4 * c.rest.length + p.rank

theorem weight_lt_of_passes (h : c.Passes d) (p q : Procedure) : q.weight d < p.weight c := by
  have hr := q.rank_lt
  have hlt := h.2
  rw [weight, weight]
  omega

theorem weight_lt_of_rank (h : c.Reaches d) (hr : q.rank < p.rank) : q.weight d < p.weight c := by
  have hle := h.length_le
  rw [weight, weight]
  omega

/-- What the procedure comes to from the cursor `c` on: the cursor has only moved on, and a call has
a smaller weight, as has what goes on wherever the call ends. -/
structure Descends (p : Procedure) (c : Cursor) (o : Except Fault Action × Cursor) : Prop where
  reaches : c.Reaches o.2
  call : ∀ q next, o.1 = .ok (.call q next) → q.weight o.2 < p.weight c ∧
    ∀ tree e, o.2.Reaches e → (next tree).weight e < p.weight c

theorem Descends.of_fault (h : c.Reaches d) : Descends p c (.error fault, d) := ⟨h, nofun⟩

theorem Descends.of_done (h : c.Reaches d) : Descends p c (.ok (.done tree), d) := ⟨h, nofun⟩

/-- After a character has been passed, any procedure can be called. -/
theorem Descends.of_passes (h : c.Passes d) : Descends p c (.ok (.call q next), d) where
  reaches := h.1
  call := by
    rintro _ _ ⟨⟩
    exact ⟨weight_lt_of_passes h p q, fun tree e hd =>
      weight_lt_of_passes (h.trans_reaches hd) p (next tree)⟩

/-- Before that, one of a lower rank can. -/
theorem Descends.of_rank (h : c.Reaches d) (hq : q.rank < p.rank)
    (hn : ∀ tree, (next tree).rank < p.rank) : Descends p c (.ok (.call q next), d) where
  reaches := h
  call := by
    rintro _ _ ⟨⟩
    exact ⟨weight_lt_of_rank h hq, fun tree e hd => weight_lt_of_rank (h.trans hd) (hn tree)⟩

theorem isSymbol_operators (level : Level) : ∀ x ∈ level.operators, Token.IsSymbol x := by
  cases level
  · exact isSymbol_terms
  · exact isSymbol_factors

theorem descends_named (h : c.Passes d) (name : List Char) : Descends p c (named name d) := by
  rw [named]
  split
  · exact .of_passes h
  · exact .of_fault h.1

theorem reaches_numeral (c : Cursor) : c.Reaches (numeral c).2 := by
  rw [numeral_apply]
  split <;> exact reaches_skip _ c

theorem descends_unopened (h : c.Reaches d) : Descends p c (unopened d) := by
  rw [unopened, bind_current?]
  cases hx : d.current? with
  | none => exact .of_fault h
  | some x =>
    show Descends p c ((if isNumeralChar x then _ else _ : Reading Action) d)
    split_ifs with hn hl hg
    · have hr := h.trans (reaches_numeral d)
      rcases hm : numeral d with ⟨fault | tree, e⟩ <;> rw [hm] at hr
      · rw [bind_of_error hm]
        exact .of_fault hr
      · rw [bind_of_ok hm]
        exact .of_done hr
    · exact descends_named (h.passes (passes_skip hx hl Operator.isNameChar_canonical)) _
    · exact descends_named (h.passes (passes_next hx)) _
    · exact .of_fault h

/-- Whatever a procedure does at a cursor, it has moved on, and what it calls is smaller. -/
theorem descends_act (p : Procedure) (c : Cursor) : Descends p c (p.act c) := by
  cases p with
  | joined level =>
    cases level
    · exact .of_rank (.refl c) (Nat.lt_succ_self 2) fun _ => Nat.succ_pos 2
    · exact .of_rank (.refl c) Nat.one_lt_two fun _ => Nat.two_pos
  | chain level tree =>
    rcases eatAny_cases (isSymbol_operators level) c with ⟨x, -, d, he, hp, -⟩ | ⟨d, he, hr, -⟩ <;>
      rw [act, bind_of_ok he]
    · exact .of_passes hp
    · exact .of_done hr
  | factor =>
    rcases eatAny_cases isSymbol_terms c with ⟨x, -, d, he, hp, -⟩ | ⟨d, he, hr, -⟩ <;>
      rw [act, bind_of_ok he]
    · exact .of_passes hp
    · exact .of_rank hr Nat.zero_lt_one fun _ => Nat.zero_lt_one
  | primary =>
    rcases eat_cases Token.isSymbol_open c with ⟨d, he, hp, -⟩ | ⟨d, he, hr, -⟩ <;>
      rw [act, bind_of_ok he]
    · exact .of_passes hp
    · exact descends_unopened hr
  | argument function =>
    rcases eat_cases Token.isSymbol_open c with ⟨d, he, hp, -⟩ | ⟨d, he, hr, -⟩ <;>
      rw [act, bind_of_ok he]
    · exact .of_passes hp
    · exact .of_rank hr Nat.one_lt_two fun _ => Nat.two_pos
  | closing function tree =>
    have hr := (isRegular_close 0 function c).reaches
    rcases hm : close function c with ⟨fault | ⟨⟩, d⟩ <;> rw [hm] at hr
    · rw [act, bind_of_error hm]
      exact .of_fault hr
    · rw [act, bind_of_ok hm]
      exact .of_done hr
  | powered base =>
    rcases eat_cases Token.isSymbol_power c with ⟨d, he, hp, -⟩ | ⟨d, he, hr, -⟩ <;>
      rw [act, bind_of_ok he]
    · exact .of_passes hp
    · exact .of_done hr
  | finished tree => exact .of_done (.refl c)

/-- Every procedure comes to an end, wherever it is started, and the cursor only moves on. -/
theorem exists_runs (p : Procedure) (c : Cursor) : ∃ o, Runs p c o ∧ c.Reaches o.2 := by
  induction h : p.weight c using Nat.strongRecOn generalizing p c with
  | ind weight ih =>
  subst h
  obtain ⟨hr, hc⟩ := descends_act p c
  rcases ha : p.act c with ⟨fault | ⟨tree | ⟨q, next⟩⟩, d⟩ <;> rw [ha] at hr hc
  · exact ⟨_, .fault ha, hr⟩
  · exact ⟨_, .done ha, hr⟩
  obtain ⟨hq, hn⟩ := hc q next rfl
  obtain ⟨⟨fault | tree, e⟩, hrun, he⟩ := ih _ hq q d rfl
  · exact ⟨_, .callFault ha hrun, hr.trans he⟩
  · -- The call may have ended anywhere further on; what goes on is smaller at each of these places.
    obtain ⟨o, hnext, ho⟩ := ih _ (hn tree e he) (next tree) e rfl
    exact ⟨o, .call ha hrun hnext, hr.trans (he.trans ho)⟩

end Procedure

end Reading

end Calculator
