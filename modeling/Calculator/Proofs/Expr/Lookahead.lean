import Calculator.Proofs.Expr.Parse

/-!
# One character ahead

A reading decides by the characters that it passes and by the one where it
stops. What follows this one has not been seen, and makes no difference. So an
equation that fails before its end fails in the same way however it goes on:

* `Reading.IsLocal`: readings that see no further than where they stop;
* `Reading.isLocal_factor`, `Reading.isLocal_whole`: reading a factor, and a
  whole equation;
* `Expr.parse_fails_alike`: no continuation repairs an equation.
-/

namespace Calculator

namespace Reading

open Cursor

variable {α β : Type} {m : Reading α} {f : α → Reading β} {c : Cursor} {nesting : Nat}
  {operators text other : List Char} {operand inner : Reading Expr} {fault : Fault}

/-- The reading only moves on, and the characters after the one where it stops make no
difference. -/
structure IsLocal (m : Reading α) : Prop where
  suffix (c : Cursor) : (m c).2.rest <:+ c.rest
  unseen {position stop : Nat} {passed after : List Char} {x : Char} {outcome : Except Fault α} :
    m ⟨position, passed ++ x :: after⟩ = (outcome, ⟨stop, x :: after⟩) →
      ∀ others, m ⟨position, passed ++ x :: others⟩ = (outcome, ⟨stop, x :: others⟩)

/-! ## One reading after another -/

theorem suffix_bind (hm : ∀ c, (m c).2.rest <:+ c.rest) (hf : ∀ a c, (f a c).2.rest <:+ c.rest)
    (c : Cursor) : ((m >>= f) c).2.rest <:+ c.rest := by
  have hc := hm c
  rcases h : m c with ⟨fault | a, d⟩ <;> rw [h] at hc
  · rw [bind_of_error h]
    exact hc
  · rw [bind_of_ok h]
    exact (hf a d).trans hc

theorem IsLocal.bind (hm : IsLocal m) (hf : ∀ a, IsLocal (f a)) : IsLocal (m >>= f) where
  suffix := suffix_bind hm.suffix fun a => (hf a).suffix
  unseen {position stop passed after x outcome} h others := by
    rcases ho : m ⟨position, passed ++ x :: after⟩ with ⟨fault | a, place, rest⟩
    · rw [bind_of_error ho] at h
      cases h
      exact bind_of_error (hm.unseen ho others)
    · rw [bind_of_ok ho] at h
      obtain ⟨first, hfirst⟩ := hm.suffix ⟨position, passed ++ x :: after⟩
      obtain ⟨second, hsecond⟩ := (hf a).suffix ⟨place, rest⟩
      rw [ho] at hfirst
      rw [h] at hsecond
      subst hsecond
      obtain rfl : first ++ second = passed := by
        rw [← List.append_assoc] at hfirst
        exact List.append_cancel_right hfirst
      -- The first reading stops at a character that the second one passes, or where it stops.
      obtain ⟨y, ys, zs, hys, hzs⟩ : ∃ y ys zs, second ++ x :: others = y :: ys ∧
          second ++ x :: after = y :: zs := by
        cases second with
        | nil => exact ⟨x, others, after, rfl, rfl⟩
        | cons y second => exact ⟨y, second ++ x :: others, second ++ x :: after, rfl, rfl⟩
      rw [List.append_assoc, hzs] at ho
      have hd := hm.unseen ho ys
      rw [← hys] at hd
      rw [List.append_assoc, bind_of_ok hd]
      exact (hf a).unseen h others

theorem IsLocal.ite {m n : Reading α} (hm : IsLocal m) (hn : IsLocal n) (p : Prop) [Decidable p] :
    IsLocal (if p then m else n) := by
  split
  · exact hm
  · exact hn

/-- What does not move sees the character at the cursor at most. -/
theorem isLocal_of_still (o : Option Char → Except Fault α) :
    IsLocal fun c => (o c.current?, c) where
  suffix c := List.suffix_refl c.rest
  unseen {position stop passed after x outcome} h others := by
    rw [Prod.mk.injEq, Cursor.mk.injEq] at h
    obtain ⟨ho, rfl, hr⟩ := h
    obtain rfl : passed = [] := List.append_left_eq_self.mp hr
    exact Prod.ext ho rfl

theorem isLocal_pure (a : α) : IsLocal (pure a : Reading α) := isLocal_of_still fun _ => .ok a

theorem isLocal_fail (fault : Fault) : IsLocal (fail fault : Reading α) :=
  isLocal_of_still fun _ => .error fault

theorem isLocal_current? : IsLocal current? := isLocal_of_still .ok

/-! ## Steps -/

theorem isLocal_takeRun (p : Char → Bool) : IsLocal (takeRun p) where
  suffix c := List.dropWhile_suffix p
  unseen {position stop passed after x outcome} h others := by
    rw [takeRun, skip, run, Prod.mk.injEq, Cursor.mk.injEq] at h
    obtain ⟨rfl, rfl, hr⟩ := h
    dsimp only at hr
    have ht : (passed ++ x :: after).takeWhile p = passed := by
      have happ : _ ++ (passed ++ x :: after).dropWhile p = _ := List.takeWhile_append_dropWhile
      rw [hr] at happ
      exact List.append_cancel_right happ
    have hx := List.head?_dropWhile_not p (passed ++ x :: after)
    rw [hr] at hx
    have hp : ∀ c ∈ passed, p c = true := fun c hc => List.mem_takeWhile_imp (ht ▸ hc)
    have hn : ∀ c ∈ (x :: others).head?, p c = false := by simpa using hx
    obtain ⟨hrun, hskip⟩ := takeWhile_run_append hp hn
    simp only [takeRun, skip, run, hrun, hskip, ht]

theorem isLocal_takeOne : IsLocal takeOne where
  suffix c := List.tail_suffix c.rest
  unseen {position stop passed after x outcome} h others := by
    rw [takeOne, next, Prod.mk.injEq, Cursor.mk.injEq] at h
    obtain ⟨rfl, rfl, hr⟩ := h
    rcases passed with _ | ⟨y, passed⟩
    · exact absurd hr (List.ne_cons_self)
    · obtain rfl : passed = [] := List.append_left_eq_self.mp hr
      rfl

theorem eat_def (expected : Option Char) :
    eat expected = (do
      let _ ← takeRun (· == ' ')
      if (← current?) = expected then
        let _ ← takeOne
        return true
      else return false) := by
  funext c
  show (if c.skipSpaces.current? = expected then _ else _) =
    (if c.skipSpaces.current? = expected then _ else _ : Reading Bool) c.skipSpaces
  split <;> rfl

theorem eatAny_def (expected : List Char) :
    eatAny expected = (do
      let _ ← takeRun (· == ' ')
      match ← current? with
      | some found =>
        if found ∈ expected then
          let _ ← takeOne
          return some found
        else return none
      | none => return none) := by
  funext c
  show (match c.skipSpaces.current? with | some found => _ | none => _) =
    (match c.skipSpaces.current? with | some found => _ | none => _ : Reading (Option Char))
      c.skipSpaces
  cases c.skipSpaces.current? with
  | none => rfl
  | some found =>
    show (if found ∈ expected then _ else _) =
      (if found ∈ expected then _ else _ : Reading (Option Char)) c.skipSpaces
    split <;> rfl

theorem isLocal_eat (expected : Option Char) : IsLocal (eat expected) := by
  rw [eat_def]
  exact (isLocal_takeRun _).bind fun _ => isLocal_current?.bind fun found =>
    .ite (isLocal_takeOne.bind fun _ => isLocal_pure true) (isLocal_pure false) _

theorem isLocal_eatAny (expected : List Char) : IsLocal (eatAny expected) := by
  rw [eatAny_def]
  refine (isLocal_takeRun _).bind fun _ => isLocal_current?.bind fun found => ?_
  cases found with
  | none => exact isLocal_pure none
  | some found =>
    exact .ite (isLocal_takeOne.bind fun _ => isLocal_pure (some found)) (isLocal_pure none) _

theorem isLocal_close (function : Option (List Char)) : IsLocal (close function) :=
  (isLocal_eat _).bind fun _ => .ite (isLocal_pure ()) (isLocal_fail _) _

theorem isLocal_numeral : IsLocal numeral := by
  refine (isLocal_takeRun _).bind fun text => ?_
  cases numeralValue? text with
  | none => exact isLocal_fail _
  | some value => exact isLocal_pure _

/-! ## Chains -/

theorem isLocal_chain (operators : List Char) (hi : IsLocal operand) (count : Nat) (tree : Expr) :
    IsLocal (chain operators operand count tree) := by
  induction count generalizing tree with
  | zero => exact isLocal_pure tree
  | succ count ih =>
    refine (isLocal_eatAny operators).bind fun found => ?_
    cases found with
    | none => exact isLocal_pure tree
    | some operator => exact hi.bind fun r => ih (.binary [operator] tree r)

/-- A count that covers the characters left can as well be one greater. -/
theorem chain_succ (hx : ∀ x ∈ operators, Token.IsSymbol x) (hr : IsRegular 0 operand)
    {count : Nat} (tree : Expr) (hc : c.rest.length ≤ count) :
    chain operators operand (count + 1) tree c = chain operators operand count tree c := by
  induction count generalizing c tree with
  | zero =>
    obtain ⟨position, rest⟩ := c
    obtain rfl : rest = [] := List.eq_nil_of_length_eq_zero (Nat.le_zero.mp hc)
    rfl
  | succ count ih =>
    rcases eatAny_cases hx c with ⟨x, -, d, he, hp, -⟩ | ⟨d, he, -⟩
    · rw [chain, chain, bind_of_ok he, bind_of_ok he]
      show (operand >>= fun r => chain operators operand (count + 1) (.binary [x] tree r)) d =
        (operand >>= fun r => chain operators operand count (.binary [x] tree r)) d
      have hd := (hr d).reaches.length_le
      rcases ho : operand d with ⟨fault | r, e⟩
      · rw [bind_of_error ho, bind_of_error ho]
      · rw [ho] at hd
        rw [bind_of_ok ho, bind_of_ok ho]
        exact ih _ (Nat.le_of_lt_succ (Nat.lt_of_le_of_lt hd (Nat.lt_of_lt_of_le hp.2 hc)))
    · rw [chain, chain, bind_of_ok he, bind_of_ok he]

theorem chain_eq_of_le (hx : ∀ x ∈ operators, Token.IsSymbol x) (hr : IsRegular 0 operand)
    {count : Nat} (tree : Expr) (hc : c.rest.length ≤ count) :
    chain operators operand count tree c = chain operators operand c.rest.length tree c := by
  induction hc with
  | refl => rfl
  | step h ih => rw [chain_succ hx hr tree h, ih]

/-- The count of a chain is taken from the text, of which not all has been seen; but it never ends
the chain. -/
theorem isLocal_joined (hx : ∀ x ∈ operators, Token.IsSymbol x) (hr : IsRegular 0 operand)
    (hi : IsLocal operand) : IsLocal (joined operators operand) := by
  refine hi.bind fun first => ?_
  have hc (count : Nat) := isLocal_chain operators hi count first
  refine ⟨fun c => (hc c.rest.length).suffix c, fun {position _ passed after x _} h others => ?_⟩
  have hn := Nat.le_max_left (passed ++ x :: after).length (passed ++ x :: others).length
  have hn' := Nat.le_max_right (passed ++ x :: after).length (passed ++ x :: others).length
  have he := chain_eq_of_le (c := ⟨position, passed ++ x :: after⟩) hx hr first hn
  have he' := chain_eq_of_le (c := ⟨position, passed ++ x :: others⟩) hx hr first hn'
  exact he'.symm.trans ((hc _).unseen (he.trans h) others)

theorem isLocal_expression (hr : IsRegular 0 inner) (hi : IsLocal inner) :
    IsLocal (expression inner) :=
  isLocal_joined isSymbol_terms (isRegular_joined isSymbol_factors hr)
    (isLocal_joined isSymbol_factors hr hi)

/-! ## Factors -/

theorem isLocal_enclosed (function : Option (List Char)) (hr : IsRegular 0 inner)
    (hi : IsLocal inner) : IsLocal (enclosed function (expression inner)) :=
  (isLocal_expression hr hi).bind fun tree => (isLocal_close function).bind fun _ =>
    isLocal_pure tree

theorem isLocal_applied (name : List Char) (hr : IsRegular 0 inner) (hi : IsLocal inner) :
    IsLocal (applied name (expression inner) inner) := by
  cases hn : Expr.isRootName name with
  | false =>
    rw [applied_of_not_root hn]
    exact isLocal_fail _
  | true =>
    rw [applied_of_root hn, argument_def]
    refine IsLocal.bind ?_ fun tree => isLocal_pure _
    exact (isLocal_eat _).bind fun _ => .ite (isLocal_enclosed _ hr hi) hi _

theorem isLocal_atom (hr : IsRegular 0 inner) (hi : IsLocal inner) :
    IsLocal (atom (expression inner) inner) := by
  refine isLocal_current?.bind fun found => ?_
  cases found with
  | none => exact isLocal_fail _
  | some x =>
    refine .ite isLocal_numeral (.ite ?_ (.ite ?_ (isLocal_fail _) _) _) _
    · exact (isLocal_takeRun _).bind fun name => isLocal_applied name hr hi
    · exact isLocal_takeOne.bind fun name => isLocal_applied name hr hi

theorem isLocal_primary (hr : IsRegular 0 inner) (hi : IsLocal inner) :
    IsLocal (primary (expression inner) inner) := by
  rw [primary_def]
  exact (isLocal_eat _).bind fun _ => .ite (isLocal_enclosed none hr hi) (isLocal_atom hr hi) _

theorem isLocal_powered (hi : IsLocal inner) (base : Expr) : IsLocal (powered inner base) :=
  (isLocal_eat _).bind fun _ => .ite (hi.bind fun _ => isLocal_pure _) (isLocal_pure base) _

theorem isLocal_factor (nesting : Nat) : IsLocal (factor nesting) := by
  induction nesting with
  | zero => exact isLocal_fail .tooDeep
  | succ nesting ih =>
    refine (isLocal_eatAny _).bind fun found => ?_
    cases found with
    | some sign => exact ih.bind fun operand => isLocal_pure _
    | none =>
      exact (isLocal_primary (isRegular_factor_zero nesting) ih).bind fun base =>
        isLocal_powered ih base

theorem isLocal_whole (nesting : Nat) : IsLocal (whole nesting) := by
  refine (isLocal_expression (isRegular_factor_zero nesting) (isLocal_factor nesting)).bind
    fun tree => isLocal_current?.bind fun found => ?_
  cases found with
  | none => exact isLocal_pure tree
  | some x => exact isLocal_fail _

/-! ## Whole equations -/

/-- Reading the equation fails with the fault, and stops after so many characters. -/
def FailsAt (nesting : Nat) (text : List Char) (fault : Fault) (position : Nat) : Prop :=
  ∃ d, whole nesting (Cursor.start text) = (.error fault, d) ∧ d.position = position

variable {position : Nat}

/-- An equation that begins in the same way, up to the character where reading stops, fails in the
same way. -/
theorem FailsAt.of_take (h : FailsAt nesting text fault position) (hp : position < text.length)
    (ho : other.take (position + 1) = text.take (position + 1)) :
    FailsAt nesting other fault position := by
  obtain ⟨⟨stop, rest⟩, hw, rfl⟩ := h
  obtain ⟨passed, ht, hs⟩ := (isRegular_whole nesting (Cursor.start text)).reaches
  rw [hw] at ht hs
  obtain rfl : text = passed ++ rest := ht
  obtain rfl : stop = passed.length := hs.trans (Nat.zero_add _)
  rw [List.length_append] at hp
  obtain ⟨x, after, rfl⟩ := List.exists_cons_of_ne_nil
    (List.ne_nil_of_length_pos (Nat.pos_of_lt_add_right hp))
  have hother : passed ++ x :: other.drop (passed.length + 1) = other := by
    have htake : (passed ++ x :: after).take (passed.length + 1) = passed ++ [x] := by
      rw [List.take_length_add_append, List.take_succ_cons, List.take_zero]
    rw [← List.singleton_append, ← List.append_assoc, ← htake, ← ho, List.take_append_drop]
  refine ⟨⟨passed.length, x :: other.drop (passed.length + 1)⟩, ?_, rfl⟩
  have hu := (isLocal_whole nesting).unseen hw (other.drop (passed.length + 1))
  rwa [hother] at hu

/-- With a greater count of nested factors the equation fails in the same way. -/
theorem FailsAt.of_le {larger : Nat} (h : FailsAt nesting text fault position)
    (hf : fault ≠ .tooDeep) (hn : nesting ≤ larger) : FailsAt larger text fault position := by
  obtain ⟨d, hw, hd⟩ := h
  rcases refines_whole hn (Cursor.start text) with hr | hr
  · rw [hw] at hr
    exact absurd (Except.error.inj hr) hf
  · exact ⟨d, hr.trans hw, hd⟩

/-- A count that no reading of the equation reaches is as good as a greater one. -/
theorem FailsAt.unlimited {larger : Nat} (h : FailsAt larger text fault position)
    (hn : (Cursor.start text).unlimited ≤ larger) :
    FailsAt (Cursor.start text).unlimited text fault position := by
  obtain ⟨d, hw, hd⟩ := h
  rcases refines_whole hn (Cursor.start text) with hr | hr
  · exact absurd (Expr.belongsTo_of_parse hr) (by decide)
  · exact ⟨d, hr.symm.trans hw, hd⟩

end Reading

namespace Expr

open Reading

variable {text other : List Char} {fault : Fault} {position : Nat}

theorem parse_of_failsAt (h : FailsAt (Cursor.start text).unlimited text fault position) :
    parse text = .error fault := by
  obtain ⟨d, hw, -⟩ := h
  exact congrArg Prod.fst hw

/-- An equation that fails before its end fails with the same fault and at the same place however it
goes on after the character where reading stops: no further typing repairs it. A limit to the
nesting of factors changes nothing in this. -/
theorem parse_fails_alike (hp : position < text.length)
    (ho : other.take (position + 1) = text.take (position + 1)) :
    (FailsAt (Cursor.start text).unlimited text fault position →
      FailsAt (Cursor.start other).unlimited other fault position ∧ parse other = .error fault) ∧
    ∀ nesting, FailsAt nesting text fault position → FailsAt nesting other fault position := by
  refine ⟨fun h => ?_, fun nesting h => h.of_take hp ho⟩
  have hf : fault ≠ .tooDeep := by
    rintro rfl
    exact absurd (belongsTo_of_parse (parse_of_failsAt h)) (by decide)
  have hn := Nat.le_max_left (Cursor.start text).unlimited (Cursor.start other).unlimited
  have hn' := Nat.le_max_right (Cursor.start text).unlimited (Cursor.start other).unlimited
  have hother := ((h.of_le hf hn).of_take hp ho).unlimited hn'
  exact ⟨hother, parse_of_failsAt hother⟩

theorem parse_fails_alike_of_open_root :
    3 < ['√', '(', '2', ',', '3'].length ∧
      ['√', '(', '2', ',', '×', ')'].take 4 = ['√', '(', '2', ',', '3'].take 4 ∧
      FailsAt 6 ['√', '(', '2', ',', '3']
        (.missingParenthesis (some Operator.squareRoot.symbol)) 3 ∧
      parse ['√', '(', '2', ',', '×', ')'] =
        .error (.missingParenthesis (some Operator.squareRoot.symbol)) := by
  have hp : 3 < ['√', '(', '2', ',', '3'].length := by decide
  have ho : ['√', '(', '2', ',', '×', ')'].take 4 = ['√', '(', '2', ',', '3'].take 4 := by decide
  have hw : whole 6 (Cursor.start ['√', '(', '2', ',', '3']) =
      (.error (.missingParenthesis (some Operator.squareRoot.symbol)), ⟨3, [',', '3']⟩) := by rfl
  have hu : (Cursor.start ['√', '(', '2', ',', '3']).unlimited = 6 := by decide
  have h : FailsAt 6 ['√', '(', '2', ',', '3']
      (.missingParenthesis (some Operator.squareRoot.symbol)) 3 := ⟨_, hw, rfl⟩
  exact ⟨hp, ho, h, ((parse_fails_alike hp ho).1 (hu ▸ h)).2⟩

end Expr

end Calculator
