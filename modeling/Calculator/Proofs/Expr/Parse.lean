import Calculator.Proofs.Expr.Completeness

/-!
# Parsing is the grammar

Soundness and completeness together: an equation has a tree exactly if its
tokens have a derivation, and the tree is that of the strict one. A count of
nested factors that is too small is the one other thing that parsing depends
on, and `Reading.Refines` compares readings that differ in this count:

* `Reading.refines_factor`: with a greater count, reading does the same unless
  the smaller one ran out;
* `Expr.parse_follows_grammar`: the trees, the faults, and the count.
-/

namespace Calculator

namespace Reading

variable {α β : Type}

/-! ## The count of nested factors -/

/-- The second reading does what the first does, unless the first fails for its depth. -/
def Refines (m m' : Reading α) : Prop := ∀ c, (m c).1 = .error .tooDeep ∨ m' c = m c

theorem Refines.refl (m : Reading α) : Refines m m := fun _ => .inr rfl

theorem Refines.bind {m m' : Reading α} {f f' : α → Reading β} (hm : Refines m m')
    (hf : ∀ a, Refines (f a) (f' a)) : Refines (m >>= f) (m' >>= f') := by
  intro c
  rcases h : m c with ⟨fault | a, d⟩
  · rw [bind_of_error h]
    rcases hm c with hc | hc
    · rw [h] at hc
      exact .inl (congrArg Except.error (Except.error.inj hc))
    · exact .inr (bind_of_error (hc.trans h))
  · rcases hm c with hc | hc
    · rw [h] at hc
      cases hc
    · rw [bind_of_ok h, bind_of_ok (hc.trans h)]
      exact hf a d

theorem Refines.ite {m m' n n' : Reading α} (hm : Refines m m') (hn : Refines n n') (b : Bool) :
    Refines (if b then m else n) (if b then m' else n') := by
  cases b
  · exact hn
  · exact hm

variable {inside inside' inner inner' : Reading Expr}

theorem refines_chain (operators : List Char) (h : Refines inner inner') (count : Nat)
    (tree : Expr) :
    Refines (chain operators inner count tree) (chain operators inner' count tree) := by
  induction count generalizing tree with
  | zero => exact .refl _
  | succ count ih =>
    refine .bind (.refl _) fun found => ?_
    cases found with
    | none => exact .refl _
    | some operator => exact .bind h fun r => ih (.binary [operator] tree r)

theorem refines_joined (operators : List Char) (h : Refines inner inner') :
    Refines (joined operators inner) (joined operators inner') :=
  .bind h fun first => .bind (.refl _) fun count => refines_chain operators h count first

theorem refines_expression (h : Refines inner inner') :
    Refines (expression inner) (expression inner') :=
  refines_joined _ (refines_joined _ h)

theorem refines_enclosed (function : Option (List Char)) (h : Refines inside inside') :
    Refines (enclosed function inside) (enclosed function inside') :=
  .bind h fun _ => .refl _

theorem refines_applied (name : List Char) (hs : Refines inside inside')
    (h : Refines inner inner') :
    Refines (applied name inside inner) (applied name inside' inner') := by
  cases hn : Expr.isRootName name with
  | false =>
    rw [applied_of_not_root hn, applied_of_not_root hn]
    exact .refl _
  | true =>
    rw [applied_of_root hn, applied_of_root hn, argument_def, argument_def]
    exact .bind (.bind (.refl _) fun b => .ite (refines_enclosed _ hs) h b) fun _ => .refl _

theorem refines_atom (hs : Refines inside inside') (h : Refines inner inner') :
    Refines (atom inside inner) (atom inside' inner') := by
  refine .bind (.refl _) fun found => ?_
  cases found with
  | none => exact .refl _
  | some x =>
    refine .ite (.refl _) (.ite (.bind (.refl _) fun name => refines_applied name hs h) ?_ _) _
    by_cases hx : [x] = Operator.squareRoot.glyph
    · rw [if_pos hx, if_pos hx]
      exact .bind (.refl _) fun name => refines_applied name hs h
    · rw [if_neg hx, if_neg hx]
      exact .refl _

theorem refines_primary (hs : Refines inside inside') (h : Refines inner inner') :
    Refines (primary inside inner) (primary inside' inner') := by
  rw [primary_def, primary_def]
  exact .bind (.refl _) fun b => .ite (refines_enclosed none hs) (refines_atom hs h) b

theorem refines_powered (h : Refines inner inner') (base : Expr) :
    Refines (powered inner base) (powered inner' base) :=
  .bind (.refl _) fun b => .ite (.bind h fun _ => .refl _) (.refl _) b

theorem refines_signed (hs : Refines inside inside') (h : Refines inner inner') :
    Refines (signed inside inner) (signed inside' inner') := by
  refine .bind (.refl _) fun found => ?_
  cases found with
  | none => exact .bind (refines_primary hs h) (refines_powered h)
  | some sign => exact .bind h fun _ => .refl _

theorem refines_ended (h : Refines inside inside') : Refines (ended inside) (ended inside') :=
  .bind h fun _ => .refl _

theorem refines_tooDeep (m : Reading α) : Refines (fail .tooDeep) m := fun _ => .inl rfl

theorem refines_factor {nesting larger : Nat} (hn : nesting ≤ larger) :
    Refines (factor nesting) (factor larger) := by
  induction nesting generalizing larger with
  | zero => exact refines_tooDeep _
  | succ nesting ih =>
    obtain ⟨k, rfl⟩ := Nat.exists_eq_add_of_le' (Nat.le_trans (Nat.succ_le_succ (Nat.zero_le _)) hn)
    have h := ih (Nat.le_of_succ_le_succ hn)
    exact refines_signed (refines_expression h) h

theorem refines_whole {nesting larger : Nat} (hn : nesting ≤ larger) :
    Refines (whole nesting) (whole larger) :=
  refines_ended (refines_expression (refines_factor hn))

/-! ## Whole equations -/

/-- Reading a chain ends at a cursor that no space follows, by induction on what is left. -/
theorem current?_of_chain {operators : List Char} (hx : ∀ x ∈ operators, Token.IsSymbol x)
    {inner : Reading Expr} (hr : IsRegular 0 inner) {count : Nat} {tree e : Expr} {c d : Cursor}
    (hn : c.rest.length ≤ count) (h : chain operators inner count tree c = (.ok e, d)) :
    d.current? ≠ some ' ' := by
  induction count using Nat.strongRecOn generalizing c tree with
  | ind count ih =>
    rcases chain_cases hx inner tree hn with ⟨x, -, c₁, k, rfl, hk, -, -, he⟩ |
      ⟨c₁, he, -, hs, -⟩ <;>
      rw [he] at h
    · obtain ⟨r, c₂, hr₂, h⟩ := bind_eq_ok h
      have hle := (hr c₁).reaches.length_le
      rw [hr₂] at hle
      exact ih k (Nat.lt_succ_self k) (Nat.le_trans hle hk) h
    · cases h
      exact hs

theorem current?_of_joined {operators : List Char} (hx : ∀ x ∈ operators, Token.IsSymbol x)
    {inner : Reading Expr} (hr : IsRegular 0 inner) {e : Expr} {c d : Cursor}
    (h : joined operators inner c = (.ok e, d)) : d.current? ≠ some ' ' := by
  obtain ⟨first, c', -, h⟩ := bind_eq_ok h
  exact current?_of_chain hx hr (Nat.le_refl _) h

theorem current?_of_expression {inner : Reading Expr} (hr : IsRegular 0 inner) {e : Expr}
    {c d : Cursor} (h : expression inner c = (.ok e, d)) : d.current? ≠ some ' ' :=
  current?_of_joined isSymbol_terms (isRegular_joined isSymbol_factors hr) h

/-- Reading ends at a cursor that no space and no token follows. -/
theorem current?_of_tokens {d : Cursor} (hs : d.current? ≠ some ' ') (ht : d.tokens = []) :
    d.current? = none := by
  rcases Cursor.tokens_cases hs with ⟨h, -⟩ | ⟨_, -, -, h⟩ | ⟨_, -, -, h⟩ | ⟨_, -, -, h⟩ |
    ⟨_, -, -, h⟩
  · exact h
  all_goals
    rw [ht] at h
    cases h

/-- A chain of terms that nothing follows is the whole equation. -/
theorem whole_of_comesTo {text : List Char} {tree : Expr} {nesting : Nat}
    (h : ComesTo ['+', '-'] (term (factor nesting)) (Token.ofText text) tree []) :
    (whole nesting (Cursor.start text)).1 = .ok tree := by
  have ht : (Cursor.start text).tokens = Token.ofText text := rfl
  obtain ⟨d, hd, hs, hn⟩ := h.ends joins_terms nofun ht
  rw [whole, ended, expression, bind_of_ok hd, bind_current?, current?_of_tokens hs hn]
  rfl

theorem whole_of_derives {text : List Char} {tree : Expr}
    (h : Derives true .expression (Token.ofText text) tree) {nesting : Nat}
    (hn : (Token.ofText text).length ≤ nesting) :
    (whole nesting (Cursor.start text)).1 = .ok tree := by
  have hr := reads_of_derives h hn [] (Part.endsBefore_nil .term)
  rw [List.append_nil] at hr
  exact whole_of_comesTo hr

theorem derives_of_whole {text : List Char} {tree : Expr} {nesting : Nat}
    (h : (whole nesting (Cursor.start text)).1 = .ok tree) :
    Derives true .expression (Token.ofText text) tree := by
  rcases ho : whole nesting (Cursor.start text) with ⟨outcome, d⟩
  rw [ho] at h
  obtain rfl : outcome = .ok tree := h
  obtain ⟨e, d₁, he, h⟩ := bind_eq_ok ho
  obtain ⟨⟨ts, ht, hd⟩, -⟩ := isSound_expression (isRegular_factor_zero nesting)
    (isSound_factor nesting) _ _ _ he
  rw [bind_current?] at h
  cases hc : d₁.current? with
  | none =>
    rw [hc] at h
    cases h
    rw [Cursor.tokens_of_end hc, List.append_nil] at ht
    subst ht
    exact hd
  | some x =>
    rw [hc] at h
    cases h

theorem fault_of_whole {text : List Char} {nesting : Nat} {fault : Fault}
    (h : (whole nesting (Cursor.start text)).1 = .error fault) :
    fault.BelongsTo .parsing ∨ fault = .tooDeep ∧ nesting ≤ text.length :=
  (isRegular_whole nesting (Cursor.start text)).fault fault h

end Reading

namespace Expr

open Reading

variable {text : List Char} {tree : Expr}

theorem parse_eq_ok_iff :
    parse text = .ok tree ↔ Derives true .expression (Token.ofText text) tree :=
  ⟨derives_of_whole, fun h =>
    whole_of_derives h (Nat.le_succ_of_le (Token.length_ofText_le text))⟩

theorem belongsTo_of_parse {fault : Fault} (h : parse text = .error fault) :
    fault.BelongsTo .parsing :=
  (fault_of_whole h).resolve_right fun hd => Nat.not_succ_le_self _ hd.2

/-- A count of nested factors runs out only on texts that are at least as long. -/
theorem whole_eq_parse_or (nesting : Nat) (text : List Char) :
    (whole nesting (Cursor.start text)).1 = parse text ∨
      (whole nesting (Cursor.start text)).1 = .error .tooDeep ∧ nesting ≤ text.length := by
  rcases Nat.le_total nesting (Cursor.start text).unlimited with hn | hn
  · rcases refines_whole hn (Cursor.start text) with h | h
    · exact .inr ⟨h, ((fault_of_whole h).resolve_left (by decide)).2⟩
    · exact .inl (congrArg Prod.fst h).symm
  · rcases refines_whole hn (Cursor.start text) with h | h
    · exact absurd (belongsTo_of_parse h) (by decide)
    · exact .inl (congrArg Prod.fst h)

/-- A count of nested factors greater than the length of the text never runs out. -/
theorem whole_eq_parse {nesting : Nat} (h : text.length < nesting) :
    (whole nesting (Cursor.start text)).1 = parse text :=
  (whole_eq_parse_or nesting text).resolve_right fun hd => Nat.not_le.mpr h hd.2

/-- Parsing succeeds exactly on the texts whose tokens have a derivation, with the tree of the
strict one, and fails on all others with a fault of parsing. A limit to the nesting of factors
changes nothing else: within it the outcome is the same. -/
theorem parse_follows_grammar (text : List Char) :
    (∀ tree, parse text = .ok tree ↔ Derives true .expression (Token.ofText text) tree) ∧
    ((∃ tree, parse text = .ok tree) ↔
      ∃ tree, Derives false .expression (Token.ofText text) tree) ∧
    ((∃ fault, parse text = .error fault ∧ fault.stage = .parsing) ↔
      ¬ ∃ tree, Derives false .expression (Token.ofText text) tree) ∧
    ∀ nesting, (whole nesting (Cursor.start text)).1 = parse text ∨
      (whole nesting (Cursor.start text)).1 = .error .tooDeep ∧ nesting ≤ text.length := by
  have hg : (∃ tree, parse text = .ok tree) ↔
      ∃ tree, Derives false .expression (Token.ofText text) tree := by
    constructor
    · rintro ⟨tree, h⟩
      exact ⟨tree, (parse_eq_ok_iff.mp h).loosen⟩
    · rintro ⟨tree, h⟩
      obtain ⟨f, hf⟩ := h.exists_strict
      exact ⟨f, parse_eq_ok_iff.mpr hf⟩
  refine ⟨fun tree => parse_eq_ok_iff, hg, ?_, fun nesting => whole_eq_parse_or nesting text⟩
  rw [← hg]
  cases h : parse text with
  | ok tree => simp
  | error fault => simp [(belongsTo_of_parse h).1]

end Expr

end Calculator
