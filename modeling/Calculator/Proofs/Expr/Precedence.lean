import Calculator.Proofs.Expr.Composition

/-!
# The ranks of operators

Parsing has a level for sums and one for products, and never looks at the
ranks in the table of operators. On equations of numerals that operators join,
the levels follow the ranks. The tree of such a chain divides it at the
rightmost of the operators of lowest rank, and each side in the same way
(`Chain.Grouped`):

* `Link.rank_cases`: the rank of an operator is that of its level;
* `Chain.exists_grouped`: every chain can be divided so;
* `Chain.comesTo_product`, `Chain.comesTo_sum`: a chain is read as it is divided;
* `Chain.parse_grouped`: this division is the only one, and it is the tree.
-/

namespace Calculator

/-- A numeral that has a value. -/
structure Numeral where
  text : List Char
  isRun : ∀ c ∈ text, isNumeralChar c = true
  isNumeral : IsNumeral text

theorem Numeral.text_ne_nil (n : Numeral) : n.text ≠ [] := by
  intro h
  obtain ⟨⟨c, hc, -⟩, -⟩ := n.isNumeral
  rw [h] at hc
  cases hc

/-- An operator that joins two terms, as a symbol or as a glyph, and the numeral after it. -/
structure Link where
  op : Char
  isBinary : Operator.isBinaryChar op = true
  operand : Numeral

namespace Link

variable (link : Link)

theorem op_cases : link.op ∈ ['+', '-'] ∨ link.op ∈ ['*', '/', '×', '÷'] := by
  have h := link.isBinary
  simp only [Operator.isBinaryChar, Bool.or_eq_true, beq_iff_eq] at h
  simp only [List.mem_cons, List.not_mem_nil, or_false]
  tauto

theorem isSome_precedence? : (Operator.precedence? [link.op]).isSome = true :=
  link.op_cases.elim
    (forall_mem_of_all (p := fun c => (Operator.precedence? [c]).isSome = true) (by decide) _)
    (forall_mem_of_all (p := fun c => (Operator.precedence? [c]).isSome = true) (by decide) _)

/-- The rank of the operator, by the table. -/
def rank : Nat := (Operator.precedence? [link.op]).get link.isSome_precedence?

theorem precedence?_eq : Operator.precedence? [link.op] = some link.rank :=
  (Option.some_get _).symm

/-- The level of parsing at which an operator joins is that of its rank. -/
theorem rank_cases : link.rank = 1 ∧ Operator.canonical link.op ∈ ['+', '-'] ∨
    link.rank = 2 ∧ Operator.canonical link.op ∈ ['*', '/'] := by
  have hr := link.precedence?_eq
  rcases link.op_cases with h | h
  · have ht := forall_mem_of_all (p := fun c => Operator.precedence? [c] = some 1 ∧
      Operator.canonical c ∈ ['+', '-']) (by decide) _ h
    exact .inl ⟨Option.some.inj (hr.symm.trans ht.1), ht.2⟩
  · have ht := forall_mem_of_all (p := fun c => Operator.precedence? [c] = some 2 ∧
      Operator.canonical c ∈ ['*', '/']) (by decide) _ h
    exact .inr ⟨Option.some.inj (hr.symm.trans ht.1), ht.2⟩

theorem rank_eq_two (h : 1 < link.rank) : link.rank = 2 :=
  (link.rank_cases.resolve_left fun hr => absurd h (by rw [hr.1]; decide)).1

theorem isSymbol_canonical : Token.IsSymbol (Operator.canonical link.op) :=
  link.rank_cases.elim (fun h => Reading.isSymbol_terms _ h.2) fun h =>
    Reading.isSymbol_factors _ h.2

theorem not_numeral_op : isNumeralChar link.op = false := by
  rw [← Operator.isNumeralChar_canonical]
  exact link.isSymbol_canonical.2.1

end Link

/-- An equation of numerals and of operators that join them. -/
structure Chain where
  first : Numeral
  links : List Link

namespace Chain

variable {chain : Chain} {tree : Expr} {first : Numeral} {links : List Link} {us : List Token}
  {nesting : Nat}

/-- The equation as it is written. -/
def text (chain : Chain) : List Char :=
  chain.first.text ++ chain.links.flatMap fun link => link.op :: link.operand.text

/-- The tree divides the chain at the rightmost of the operators of lowest rank. Before it no
operator has a lower rank, after it all have higher ones, and both sides are divided in the same
way. -/
inductive Grouped : Chain → Expr → Prop where
  | numeral (n : Numeral) : Grouped ⟨n, []⟩ (.number (numeralValue n.text))
  | split {first before link after l r} (hb : ∀ k ∈ before, link.rank ≤ k.rank)
      (ha : ∀ k ∈ after, link.rank < k.rank) (hl : Grouped ⟨first, before⟩ l)
      (hr : Grouped ⟨link.operand, after⟩ r) :
      Grouped ⟨first, before ++ link :: after⟩ (.binary [Operator.canonical link.op] l r)

/-! ## Every chain can be divided -/

theorem exists_rightmost_lowest (h : links ≠ []) : ∃ before link after,
    links = before ++ link :: after ∧ (∀ k ∈ before, link.rank ≤ k.rank) ∧
      ∀ k ∈ after, link.rank < k.rank := by
  induction links with
  | nil => exact absurd rfl h
  | cons k rest ih =>
    by_cases hr : rest = []
    · exact ⟨[], k, rest, rfl, nofun, hr ▸ nofun⟩
    obtain ⟨before, link, after, rfl, hb, ha⟩ := ih hr
    by_cases hk : link.rank ≤ k.rank
    · exact ⟨k :: before, link, after, rfl, List.forall_mem_cons.mpr ⟨hk, hb⟩, ha⟩
    · have hlt := Nat.lt_of_not_le hk
      refine ⟨[], k, _, rfl, nofun, List.forall_mem_append.mpr ⟨fun m hm => ?_, ?_⟩⟩
      · exact Nat.lt_of_lt_of_le hlt (hb m hm)
      · exact List.forall_mem_cons.mpr ⟨hlt, fun m hm => Nat.lt_trans hlt (ha m hm)⟩

/-- By induction on the count of operators, of which both sides have fewer. -/
theorem exists_grouped (chain : Chain) : ∃ tree, chain.Grouped tree := by
  obtain ⟨first, links⟩ := chain
  induction hn : links.length using Nat.strongRecOn generalizing first links with
  | ind length ih =>
  subst hn
  by_cases h : links = []
  · subst h
    exact ⟨_, .numeral first⟩
  · obtain ⟨before, link, after, rfl, hb, ha⟩ := exists_rightmost_lowest h
    rw [List.length_append, List.length_cons] at ih
    obtain ⟨l, hl⟩ := ih before.length (by omega) first before rfl
    obtain ⟨r, hr⟩ := ih after.length (by omega) link.operand after rfl
    exact ⟨_, .split hb ha hl hr⟩

/-! ## Tokens -/

/-- A numeral, and then an operator and a numeral for each link. -/
def tokens (chain : Chain) : List Token :=
  .numeral chain.first.text :: chain.links.flatMap fun link =>
    [.symbol (Operator.canonical link.op), .numeral link.operand.text]

theorem tokens_split (first : Numeral) (before : List Link) (link : Link) (after : List Link) :
    tokens ⟨first, before ++ link :: after⟩ =
      tokens ⟨first, before⟩ ++ .symbol (Operator.canonical link.op) ::
        tokens ⟨link.operand, after⟩ := by
  simp [tokens]

theorem ofText_text (chain : Chain) : Token.ofText chain.text = chain.tokens := by
  obtain ⟨first, links⟩ := chain
  induction links generalizing first with
  | nil =>
    have ht : Token.ofText (first.text ++ []) = _ :=
      Token.ofText_numeral_append first.text_ne_nil first.isRun fun c hc => by cases hc
    rwa [Token.ofText_nil] at ht
  | cons link links ih =>
    have ha : ∀ c ∈ ((link :: links).flatMap fun k => k.op :: k.operand.text).head?,
        isNumeralChar c = false := by
      intro c hc
      obtain rfl : link.op = c := Option.some.inj hc
      exact link.not_numeral_op
    rw [text, Token.ofText_numeral_append first.text_ne_nil first.isRun ha, List.flatMap_cons,
      List.cons_append, Token.ofText_symbol_cons link.isSymbol_canonical]
    exact congrArg (Token.numeral first.text :: Token.symbol _ :: ·) (ih link.operand)

/-! ## Reading -/

open Reading

theorem yields_numeral_factor (n : Numeral) (hu : Part.factor.EndsBefore us) :
    Yields (factor (nesting + 1)) (.numeral n.text :: us) (.number (numeralValue n.text)) us :=
  yields_factor nofun (yields_numeral n.isNumeral) (yields_no_power _ hu)

theorem Grouped.of_numeral {n : Numeral} (h : Grouped ⟨n, []⟩ tree) :
    tree = .number (numeralValue n.text) := by
  generalize hc : Chain.mk n [] = chain at h
  cases h with
  | numeral m => rw [(Chain.mk.inj hc).1]
  | split => exact absurd (Chain.mk.inj hc).2 (by simp)

/-- Where all operators make products, nothing stands after the one that divides the chain. -/
theorem comesTo_product (h : chain.Grouped tree) (hp : ∀ k ∈ chain.links, k.rank = 2)
    (hu : Part.factor.EndsBefore us) :
    ComesTo ['*', '/'] (factor (nesting + 1)) (chain.tokens ++ us) tree us := by
  induction h generalizing us with
  | numeral n => exact (yields_numeral_factor n hu).comesTo
  | @split first before link after l r hb ha _ hr ihl _ =>
    obtain ⟨hbp, hp⟩ := List.forall_mem_append.mp hp
    obtain ⟨hlink, hap⟩ := List.forall_mem_cons.mp hp
    obtain rfl : after = [] := List.eq_nil_iff_forall_not_mem.mpr fun k hk => by
      have hlt := ha k hk
      rw [hlink, hap k hk] at hlt
      exact absurd hlt (Nat.lt_irrefl 2)
    have ho : Operator.canonical link.op ∈ ['*', '/'] :=
      (link.rank_cases.resolve_left fun h => by rw [hlink] at h; exact absurd h.1 (by decide)).2
    rw [tokens_split, List.append_assoc, hr.of_numeral]
    exact (ihl hbp (Part.endsBefore_symbol (joins_factors.apart _ ho) _)).snoc joins_factors
      (isRegular_factor_zero _) ho (yields_numeral_factor link.operand hu)

theorem yields_product (h : chain.Grouped tree) (hp : ∀ k ∈ chain.links, k.rank = 2)
    (hu : Part.term.EndsBefore us) :
    Yields (term (factor (nesting + 1))) (chain.tokens ++ us) tree us :=
  yields_term hu fun hu => comesTo_product h hp hu

/-- An operator of a sum divides the chain before all of a product, and what stands after it is one
product. -/
theorem comesTo_sum (h : chain.Grouped tree) (hu : Part.term.EndsBefore us) :
    ComesTo ['+', '-'] (term (factor (nesting + 1))) (chain.tokens ++ us) tree us := by
  induction h generalizing us with
  | numeral n => exact (yields_product (.numeral n) nofun hu).comesTo
  | @split first before link after l r hb ha hl hr ihl _ =>
    rcases link.rank_cases with ⟨hlink, ho⟩ | ⟨hlink, -⟩
    · have hap : ∀ k ∈ after, k.rank = 2 := fun k hk => k.rank_eq_two (hlink ▸ ha k hk)
      rw [tokens_split, List.append_assoc]
      exact (ihl (Part.endsBefore_symbol (joins_terms.apart _ ho) _)).snoc joins_terms
        (isRegular_joined isSymbol_factors (isRegular_factor_zero _)) ho (yields_product hr hap hu)
    · have hp : ∀ k ∈ before ++ link :: after, k.rank = 2 := by
        rw [hlink] at hb ha
        refine List.forall_mem_append.mpr ⟨fun k hk => k.rank_eq_two (hb k hk),
          List.forall_mem_cons.mpr ⟨hlink, fun k hk => k.rank_eq_two ?_⟩⟩
        exact Nat.lt_of_succ_lt (ha k hk)
      exact (yields_product (.split hb ha hl hr) hp hu).comesTo

theorem whole_text (h : chain.Grouped tree) (hn : 0 < nesting) :
    (whole nesting (Cursor.start chain.text)).1 = .ok tree := by
  obtain ⟨k, rfl⟩ := Nat.exists_eq_add_of_le' hn
  have hc : ComesTo ['+', '-'] (term (factor (k + 1))) (chain.tokens ++ []) tree [] :=
    comesTo_sum h (Part.endsBefore_nil .term)
  rw [List.append_nil, ← ofText_text] at hc
  exact whole_of_comesTo hc

/-- The tree of a chain is the only one that divides it by the ranks of its operators. No chain is
too long for this: one level of nesting is enough. -/
theorem parse_grouped (chain : Chain) :
    (∃ tree, chain.Grouped tree) ∧
    (∀ tree, Expr.parse chain.text = .ok tree ↔ chain.Grouped tree) ∧
    ∀ nesting, 0 < nesting →
      (whole nesting (Cursor.start chain.text)).1 = Expr.parse chain.text := by
  obtain ⟨tree, h⟩ := chain.exists_grouped
  have hp := Expr.parse_of_whole (whole_text h Nat.one_pos)
  refine ⟨⟨tree, h⟩, fun other => ⟨fun ho => ?_, fun ho => ?_⟩, fun nesting hn => ?_⟩
  · rw [hp] at ho
    rwa [← Except.ok.inj ho]
  · exact Expr.parse_of_whole (whole_text ho Nat.one_pos)
  · rw [hp]
    exact whole_text h hn

def minusTwoAndHalf : Link where
  op := '-'
  isBinary := rfl
  operand := ⟨['2', '.', '5'], forall_mem_of_all rfl, ⟨'2', .head _, rfl⟩, by decide⟩

def timesThree : Link where
  op := '×'
  isBinary := rfl
  operand := ⟨['3'], forall_mem_of_all rfl, ⟨'3', .head _, rfl⟩, by decide⟩

def plusFour : Link where
  op := '+'
  isBinary := rfl
  operand := ⟨['4'], forall_mem_of_all rfl, ⟨'4', .head _, rfl⟩, by decide⟩

/-- The chain of `8-2.5×3+4`. -/
def mixed : Chain where
  first := ⟨['8'], forall_mem_of_all rfl, ⟨'8', .head _, rfl⟩, by decide⟩
  links := [minusTwoAndHalf, timesThree, plusFour]

/-- Of the two operators of lowest rank the second divides the chain, so that the difference is
formed first. -/
def mixedTree : Expr :=
  .binary ['+']
    (.binary ['-'] (.number (numeralValue ['8']))
      (.binary ['*'] (.number (numeralValue ['2', '.', '5'])) (.number (numeralValue ['3']))))
    (.number (numeralValue ['4']))

theorem parse_grouped_of_mixed : mixed.text = ['8', '-', '2', '.', '5', '×', '3', '+', '4'] ∧
    mixed.Grouped mixedTree ∧ Expr.parse mixed.text = .ok mixedTree ∧
    (whole 1 (Cursor.start mixed.text)).1 = .ok mixedTree := by
  obtain ⟨-, hiff, hone⟩ := mixed.parse_grouped
  have hproduct : Grouped ⟨minusTwoAndHalf.operand, [timesThree]⟩ _ :=
    @Grouped.split _ [] timesThree [] _ _ nofun nofun (.numeral _) (.numeral _)
  have hdifference : Grouped ⟨mixed.first, [minusTwoAndHalf, timesThree]⟩ _ :=
    @Grouped.split _ [] minusTwoAndHalf [timesThree] _ _ nofun (by decide) (.numeral _) hproduct
  have hgrouped : mixed.Grouped mixedTree :=
    @Grouped.split _ [minusTwoAndHalf, timesThree] plusFour [] _ _ (by decide) nofun hdifference
      (.numeral _)
  have hparse := (hiff mixedTree).mpr hgrouped
  exact ⟨rfl, hgrouped, hparse, (hone 1 Nat.one_pos).trans hparse⟩

end Chain

end Calculator
