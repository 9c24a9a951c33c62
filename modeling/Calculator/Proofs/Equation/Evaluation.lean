import Calculator.Equation.Evaluation
import Calculator.Proofs.Expr.Calls
import Calculator.Proofs.Number.Trapping

/-!
# Evaluation ends in a decimal or a failure

`Guarded.evaluate` evaluates an equation with the operations that may trap. It
catches the traps of arithmetic, and would let any other through:

* `Guarded.eval_eq_mapError`: a tree traps nowhere, whatever tree it is;
* `Guarded.evaluate_eq_ok`: nothing gets through, and what is caught is a fault;
* `Equation.evaluate_total`: which faults there are, and when.
-/

namespace Calculator

/-- What stops an evaluation: a fault, or a trap that got through its guard. -/
inductive Raised where
  | fault (fault : Fault)
  | trap (trap : Trap)
  deriving DecidableEq

namespace Guarded

/-- The operator applied to the values of its operands. -/
def applyBinary (operator : List Char) (left right : Binary64) : Except Raised Binary64 :=
  match operator with
  | ['+'] => .ok (left.add right)
  | ['-'] => .ok (left.sub right)
  | ['*'] => .ok (left.mul right)
  | ['/'] => (divide left right).mapError .trap
  | ['^'] => (power left right).mapError .trap
  | _ => .error (.fault (.unexpected (some operator)))

/-- The function applied to the value of its argument. -/
def applyFunction (name : List Char) (argument : Binary64) : Except Raised Binary64 :=
  if Expr.isRootName name then (squareRoot argument).mapError .trap
  else .error (.fault (.unknownFunction name))

/-- The value of an expression. -/
def eval : Expr → Except Raised Binary64
  | .number value => .ok value
  | .unary operator operand => (eval operand).map (Expr.applySign operator)
  | .binary operator left right => do
    let l ← eval left
    let r ← eval right
    applyBinary operator l r
  | .call function argument => do applyFunction function (← eval argument)

/-! ## No operation of a tree traps -/

theorem mapError_bind {α β : Type} (x : Except Fault α) (f : α → Except Fault β) :
    (x >>= f).mapError Raised.fault =
      x.mapError Raised.fault >>= fun a => (f a).mapError Raised.fault := by
  cases x <;> rfl

theorem applyBinary_eq_mapError (operator : List Char) (left right : Binary64) :
    applyBinary operator left right = (Expr.applyBinary operator left right).mapError .fault := by
  unfold applyBinary
  split
  · rfl
  · rfl
  · rfl
  · rw [divide_eq_ok]; rfl
  · rw [power_eq_ok]; rfl
  · unfold Expr.applyBinary
    split <;> first | contradiction | rfl

theorem applyFunction_eq_mapError (name : List Char) (argument : Binary64) :
    applyFunction name argument = (Expr.applyFunction name argument).mapError .fault := by
  unfold applyFunction Expr.applyFunction
  rw [squareRoot_eq_ok]
  split <;> rfl

/-- A tree has the value it has, or the fault it has: no operation in it traps. -/
theorem eval_eq_mapError (e : Expr) : eval e = e.eval.mapError .fault := by
  induction e with
  | number value => rfl
  | unary operator operand ih =>
    rw [eval, ih, Expr.eval]
    cases operand.eval <;> rfl
  | binary operator left right ihl ihr =>
    simp only [eval, Expr.eval, mapError_bind, ihl, ihr, applyBinary_eq_mapError]
  | call function argument ih =>
    simp only [eval, Expr.eval, mapError_bind, ih, applyFunction_eq_mapError]

/-! ## No trap gets through -/

variable [Host]

/-- The decimal to which an equation evaluates, or what stops this. -/
def result (equation : List Char) : Except Raised Decimal := do
  (Equation.validate equation).mapError .fault
  let tree ← (Equation.parse equation).mapError .fault
  if Host.levels tree < tree.depth then throw (.fault .tooDeep)
  let value ← eval tree
  (ofBinary64 value).mapError .trap

/-- The trap is one of arithmetic, and caught where an equation is evaluated. -/
def isArithmetic : Trap → Bool
  | .zeroDivision | .overflow | .precision => true
  | .domain => false

/-- The decimal to which an equation evaluates, a failure that names the equation, or else the trap
that escapes. A trap that is caught becomes a fault with the message of the trap. -/
def evaluate (message : Trap → List Char) (equation : List Char) :
    Except Trap (Except Failure Decimal) :=
  match result equation with
  | .ok decimal => .ok (.ok decimal)
  | .error (.fault fault) => .ok (.error ⟨fault, some equation⟩)
  | .error (.trap trap) =>
    if isArithmetic trap then
      .ok (.error ⟨.custom .running Fault.unforeseenCode (message trap), some equation⟩)
    else .error trap

theorem result_eq_mapError (equation : List Char) :
    result equation = (Equation.result equation).mapError .fault := by
  unfold result Equation.result
  simp only [mapError_bind]
  congr 1
  funext _
  congr 1
  funext tree
  rw [Equation.value]
  split
  · rfl
  · rw [eval_eq_mapError]
    cases tree.eval with
    | error fault => rfl
    | ok x => exact congrArg (Except.mapError Raised.trap) (ofBinary64_eq_ok x)

/-- Nothing escapes, and no trap is turned into a fault. -/
theorem evaluate_eq_ok (message : Trap → List Char) (equation : List Char) :
    evaluate message equation = .ok (Equation.evaluate equation) := by
  rw [evaluate, result_eq_mapError, Equation.evaluate]
  cases Equation.result equation <;> rfl

end Guarded

namespace Equation

variable {equation : List Char}

theorem belongsTo_of_validate {fault : Fault} (h : validate equation = .error fault) :
    fault.BelongsTo .validation := by
  unfold validate at h
  split at h
  · cases h
  · repeat' split at h
    all_goals cases h
    all_goals exact ⟨rfl, rfl⟩

/-- The code of faults that no other code foresees is of no fault of validation or parsing. -/
theorem code_ne_of_belongsTo {fault : Fault} {stage : Stage} (h : fault.BelongsTo stage)
    (hs : stage ≠ .running) : fault.code ≠ Fault.unforeseenCode := by
  intro hc
  have hd := h.2
  rw [hc] at hd
  cases stage with
  | validation | parsing => exact absurd hd (by decide)
  | running => exact hs rfl

variable [Host]

/-- The host reads the equation as its grammar says, unless the equation is long. -/
theorem parse_eq_or (equation : List Char) :
    parse equation = Expr.parse equation ∨
      parse equation = .error .tooDeep ∧ Host.least < 3 * equation.length + 5 :=
  (Reading.wholeWithin_eq_parse_or _ equation).imp_right fun h =>
    ⟨h.1, Nat.lt_of_le_of_lt (Host.least_le_frames equation) h.2⟩

theorem parse_eq_of_ne (h : parse equation ≠ .error .tooDeep) :
    parse equation = Expr.parse equation :=
  (parse_eq_or equation).resolve_right fun hp => h hp.1

theorem parse_eq_of_ok {tree : Expr} (h : parse equation = .ok tree) :
    Expr.parse equation = .ok tree := by
  have hne : parse equation ≠ .error .tooDeep := by simp [h]
  exact (parse_eq_of_ne hne).symm.trans h

/-- What few factors inside one another do for is read on every host. -/
theorem parse_of_whole {nesting : Nat} {tree : Expr} (hn : 3 * nesting + 2 ≤ Host.least)
    (h : (Reading.whole nesting (Cursor.start equation)).1 = .ok tree) :
    parse equation = .ok tree := by
  rw [← h]
  exact Reading.wholeWithin_eq_whole (Nat.le_trans hn (Host.least_le_frames equation)) (by simp [h])

theorem fault_of_parse {fault : Fault} (h : parse equation = .error fault) :
    fault.BelongsTo .parsing ∨ fault = .tooDeep ∧ Host.least < 3 * equation.length + 5 := by
  rcases parse_eq_or equation with hp | ⟨hp, hl⟩
  · exact .inl (Expr.belongsTo_of_parse (hp ▸ h))
  · rw [hp] at h
    cases h
    exact .inr ⟨rfl, hl⟩

/-- The tree of an equation is no deeper than the equation is long, and always has a value. -/
theorem depth_le_and_eval_of_parse {tree : Expr} (h : parse equation = .ok tree) :
    tree.depth ≤ equation.length ∧ ∃ x, tree.eval = .ok x := by
  have hd := Reading.derives_of_whole (parse_eq_of_ok h)
  exact ⟨Nat.le_trans hd.depth_le (Token.length_ofText_le equation), Expr.eval_of_sound hd.sound⟩

theorem evaluate_of_validate {fault : Fault} (h : validate equation = .error fault) :
    evaluate equation = .error ⟨fault, some equation⟩ := by
  rw [evaluate, result, h]
  rfl

theorem evaluate_of_parse {fault : Fault} (hv : validate equation = .ok ())
    (h : parse equation = .error fault) : evaluate equation = .error ⟨fault, some equation⟩ := by
  rw [evaluate, result, hv, h]
  rfl

theorem evaluate_of_eval {tree : Expr} {x : Binary64} (hv : validate equation = .ok ())
    (hp : parse equation = .ok tree) (hx : tree.eval = .ok x) :
    evaluate equation =
      if Host.levels tree < tree.depth then .error ⟨.tooDeep, some equation⟩
      else .ok (Decimal.ofBinary64 x) := by
  rw [evaluate, result, hv, hp]
  show (value tree >>= fun y => pure (Decimal.ofBinary64 y)).mapError _ = _
  rw [value, hx]
  split <;> rfl

/-- The host has too few calls to read the equation, or too few levels for its tree. -/
def TooDeep (equation : List Char) : Prop :=
  parse equation = .error .tooDeep ∨
    ∃ tree, parse equation = .ok tree ∧ Host.levels tree < tree.depth

theorem tooDeep_iff_of_parse {tree : Expr} (h : parse equation = .ok tree) :
    TooDeep equation ↔ Host.levels tree < tree.depth := by
  rw [TooDeep, h]
  refine ⟨?_, fun hd => .inr ⟨tree, rfl, hd⟩⟩
  rintro (he | ⟨_, he, hd⟩)
  · cases he
  · exact Except.ok.inj he ▸ hd

theorem evaluate_of_tooDeep (hv : validate equation = .ok ()) (h : TooDeep equation) :
    evaluate equation = .error ⟨.tooDeep, some equation⟩ := by
  rcases h with hp | ⟨tree, hp, hd⟩
  · exact evaluate_of_parse hv hp
  · obtain ⟨-, x, hx⟩ := depth_le_and_eval_of_parse hp
    rw [evaluate_of_eval hv hp hx, if_pos hd]

theorem TooDeep.least_lt (h : TooDeep equation) : Host.least < 3 * equation.length + 5 := by
  rcases h with h | ⟨tree, h, hd⟩
  · exact ((fault_of_parse h).resolve_left (by decide)).2
  · have hl := Host.least_le_levels tree
    have he := (depth_le_and_eval_of_parse h).1
    omega

theorem tooDeep_of_code {failure : Failure} (h : evaluate equation = .error failure)
    (hc : failure.fault.code = Fault.unforeseenCode) : TooDeep equation := by
  cases hv : validate equation with
  | error fault =>
    rw [evaluate_of_validate hv] at h
    cases h
    exact absurd hc (code_ne_of_belongsTo (belongsTo_of_validate hv) (by decide))
  | ok =>
    cases hp : parse equation with
    | error fault =>
      rw [evaluate_of_parse hv hp] at h
      cases h
      rcases fault_of_parse hp with hb | ⟨rfl, -⟩
      · exact absurd hc (code_ne_of_belongsTo hb (by decide))
      · exact .inl hp
    | ok tree =>
      obtain ⟨-, x, hx⟩ := depth_le_and_eval_of_parse hp
      rw [evaluate_of_eval hv hp hx] at h
      split at h
      · exact .inr ⟨tree, hp, ‹_›⟩
      · cases h

theorem calculate_eq_error_iff {failure : Failure} :
    calculate equation = .error failure ↔ evaluate equation = .error failure := by
  rw [calculate_eq_map]
  cases evaluate equation with
  | error other => exact ⟨fun h => by cases h; rfl, fun h => by cases h; rfl⟩
  | ok decimal => exact ⟨nofun, nofun⟩

/-- Every equation evaluates to a decimal or to a failure that names it, and nothing escapes. The
failure is that of validation, else that of parsing; else the tree has a value, and every number
has a decimal. The code of unforeseen faults is seen only where the host has too few calls or
levels, and so only in long equations. Calculating fails exactly as evaluating does. -/
theorem evaluate_total (message : Trap → List Char) (equation : List Char) :
    Guarded.evaluate message equation = .ok (evaluate equation) ∧
    (∀ x, Guarded.ofBinary64 x = .ok (Decimal.ofBinary64 x)) ∧
    (∀ fault, validate equation = .error fault →
      fault.BelongsTo .validation ∧ evaluate equation = .error ⟨fault, some equation⟩) ∧
    (validate equation = .ok () →
      (∀ fault, parse equation = .error fault →
        (fault.BelongsTo .parsing ∨ fault = .tooDeep) ∧
          evaluate equation = .error ⟨fault, some equation⟩) ∧
      ∀ tree, parse equation = .ok tree →
        ∃ x, Guarded.eval tree = .ok x ∧ tree.eval = .ok x ∧
          evaluate equation =
            if Host.levels tree < tree.depth then .error ⟨.tooDeep, some equation⟩
            else .ok (Decimal.ofBinary64 x)) ∧
    (∀ failure, evaluate equation = .error failure →
      failure.equation = some equation ∧
        (failure.fault.code = Fault.unforeseenCode →
          TooDeep equation ∧ Host.least < 3 * equation.length + 5)) ∧
    ∀ failure, calculate equation = .error failure ↔ evaluate equation = .error failure := by
  refine ⟨Guarded.evaluate_eq_ok message equation, Guarded.ofBinary64_eq_ok,
    fun fault h => ⟨belongsTo_of_validate h, evaluate_of_validate h⟩, fun hv => ⟨?_, ?_⟩, ?_,
    fun failure => calculate_eq_error_iff⟩
  · intro fault hp
    exact ⟨(fault_of_parse hp).imp_right And.left, evaluate_of_parse hv hp⟩
  · intro tree hp
    obtain ⟨-, x, hx⟩ := depth_le_and_eval_of_parse hp
    exact ⟨x, by rw [Guarded.eval_eq_mapError, hx]; rfl, hx, evaluate_of_eval hv hp hx⟩
  · intro failure h
    refine ⟨evaluate_equation h, fun hc => ?_⟩
    have hd := tooDeep_of_code h hc
    exact ⟨hd, hd.least_lt⟩

end Equation

end Calculator
