import Calculator.Proofs.Equation.Validation
import Calculator.Proofs.Number.Integer

/-!
# Equations over the integers

`Computes` gives an equation of digits, `+`, `-`, `*` and parentheses its exact
value, together with every number on the way to it. As long as all of these are
within `2 ^ 53`, floating point arithmetic makes no error, and the result of
the equation is the text of its value:

* `Computes.exists_derives`: the value of the tree is that of the equation;
* `Derives.exists_computes`: every equation of these characters has a value;
* `Equation.calculate_integer`: the result, and what the limit to depth changes.
-/

namespace Calculator

/-- A character of an equation over the integers. -/
def IsIntegerChar (c : Char) : Prop :=
  c.isDigit = true ∨ c ∈ ['+', '-', '*', '(', ')', ' ']

instance (c : Char) : Decidable (IsIntegerChar c) := inferInstanceAs (Decidable (_ ∨ _))

/-- The tokens are a part of an equation over the integers, and this is its exact value. The list
holds its numerals and the values of its operations. -/
inductive Computes : Part → List Token → Int → List Int → Prop where
  | term {ts n vs} (h : Computes .term ts n vs) : Computes .expression ts n vs
  | add {ts us m n vs ws} (hl : Computes .expression ts m vs) (hr : Computes .term us n ws) :
      Computes .expression (ts ++ .symbol '+' :: us) (m + n) ((m + n) :: (vs ++ ws))
  | sub {ts us m n vs ws} (hl : Computes .expression ts m vs) (hr : Computes .term us n ws) :
      Computes .expression (ts ++ .symbol '-' :: us) (m - n) ((m - n) :: (vs ++ ws))
  | factor {ts n vs} (h : Computes .factor ts n vs) : Computes .term ts n vs
  | mul {ts us m n vs ws} (hl : Computes .term ts m vs) (hr : Computes .factor us n ws) :
      Computes .term (ts ++ .symbol '*' :: us) (m * n) ((m * n) :: (vs ++ ws))
  | plus {ts n vs} (h : Computes .factor ts n vs) : Computes .factor (.symbol '+' :: ts) n vs
  | minus {ts n vs} (h : Computes .factor ts n vs) :
      Computes .factor (.symbol '-' :: ts) (-n) (-n :: vs)
  | closed {ts n vs} (h : Computes .closed ts n vs) : Computes .factor ts n vs
  | group {ts n vs} (h : Computes .expression ts n vs) :
      Computes .closed (.symbol '(' :: (ts ++ [.symbol ')'])) n vs
  | numeral {text} (hd : ∀ c ∈ text, c.isDigit = true) (hn : text ≠ []) :
      Computes .closed [.numeral text] (Nat.ofDigitChars 10 text 0 : Nat)
        [(Nat.ofDigitChars 10 text 0 : Nat)]

variable {part : Part} {ts : List Token} {n : Int} {vs : List Int} {e tree : Expr} {c : Char}
  {text : List Char}

theorem computes_digit (h : c.isDigit = true) :
    Computes .closed [.numeral [c]] (Nat.ofDigitChars 10 [c] 0 : Nat)
      [(Nat.ofDigitChars 10 [c] 0 : Nat)] :=
  .numeral (List.forall_mem_singleton.mpr h) (List.cons_ne_nil c [])

/-! ## The tree of an equation over the integers -/

/-- Within the limit, the tree has the exact value. -/
theorem Computes.exists_derives (h : Computes part ts n vs)
    (hb : ∀ v ∈ vs, v.natAbs ≤ Binary64.exactLimit) :
    ∃ e x, Derives true part ts e ∧ e.eval = .ok x ∧ x.Is n := by
  induction h with
  | term _ ih =>
    obtain ⟨e, x, hd, hx⟩ := ih hb
    exact ⟨e, x, .term hd, hx⟩
  | add _ _ ihl ihr =>
    obtain ⟨hn, hb⟩ := List.forall_mem_cons.mp hb
    obtain ⟨hbl, hbr⟩ := List.forall_mem_append.mp hb
    obtain ⟨l, x, hdl, hx, hm⟩ := ihl hbl
    obtain ⟨r, y, hdr, hy, hk⟩ := ihr hbr
    exact ⟨_, x.add y, .sum (by decide) hdl hdr, by rw [Expr.eval, hx, hy]; rfl, hm.add hk hn⟩
  | sub _ _ ihl ihr =>
    obtain ⟨hn, hb⟩ := List.forall_mem_cons.mp hb
    obtain ⟨hbl, hbr⟩ := List.forall_mem_append.mp hb
    obtain ⟨l, x, hdl, hx, hm⟩ := ihl hbl
    obtain ⟨r, y, hdr, hy, hk⟩ := ihr hbr
    exact ⟨_, x.sub y, .sum (by decide) hdl hdr, by rw [Expr.eval, hx, hy]; rfl, hm.sub hk hn⟩
  | factor _ ih =>
    obtain ⟨e, x, hd, hx⟩ := ih hb
    exact ⟨e, x, .factor hd, hx⟩
  | mul _ _ ihl ihr =>
    obtain ⟨hn, hb⟩ := List.forall_mem_cons.mp hb
    obtain ⟨hbl, hbr⟩ := List.forall_mem_append.mp hb
    obtain ⟨l, x, hdl, hx, hm⟩ := ihl hbl
    obtain ⟨r, y, hdr, hy, hk⟩ := ihr hbr
    exact ⟨_, x.mul y, .product (by decide) hdl hdr, by rw [Expr.eval, hx, hy]; rfl, hm.mul hk hn⟩
  | plus _ ih =>
    obtain ⟨e, x, hd, hx, hm⟩ := ih hb
    exact ⟨_, x, .sign (by decide) hd, by rw [Expr.eval, hx]; rfl, hm⟩
  | minus _ ih =>
    obtain ⟨e, x, hd, hx, hm⟩ := ih fun v hv => hb v (List.mem_cons_of_mem _ hv)
    exact ⟨_, x.neg, .sign (by decide) hd, by rw [Expr.eval, hx]; rfl, hm.neg⟩
  | closed _ ih =>
    obtain ⟨e, x, hd, hx⟩ := ih hb
    exact ⟨e, x, .closed hd, hx⟩
  | group _ ih =>
    obtain ⟨e, x, hd, hx⟩ := ih hb
    exact ⟨e, x, .group hd, hx⟩
  | numeral hd hn =>
    have hlimit := hb _ (List.mem_singleton.mpr rfl)
    exact ⟨_, _, .numeral ((isNumeral_digits hd).mpr hn), rfl, Binary64.is_numeralValue hd hlimit⟩

/-! ## Every equation of these characters -/

/-- A token of an equation over the integers. -/
def Token.OverIntegers : Token → Prop
  | .numeral text => ∀ c ∈ text, c.isDigit = true
  | .name _ => False
  | .symbol c => c ∈ ['+', '-', '*', '(', ')']

/-- What is neither a digit nor a space is a token by itself. -/
theorem IsIntegerChar.symbol (h : IsIntegerChar c) (hn : isNumeralChar c = false) (hs : c ≠ ' ') :
    c ∈ ['+', '-', '*', '(', ')'] := by
  rcases h with hd | hm
  · rw [Cursor.isNumeralChar_of_isDigit hd] at hn
    cases hn
  · simpa [hs] using hm

theorem IsIntegerChar.isDigit (h : IsIntegerChar c) (hn : isNumeralChar c = true) :
    c.isDigit = true := by
  rcases h with hd | hm
  · exact hd
  · have hf := forall_mem_of_all (p := fun c => isNumeralChar c = false) (by decide) c hm
    rw [hf] at hn
    cases hn

theorem IsIntegerChar.not_name (h : IsIntegerChar c) (hn : isNumeralChar c = false) :
    isNameChar c = false ∧ [c] ≠ Operator.squareRoot.glyph := by
  rcases h with hd | hm
  · rw [Cursor.isNumeralChar_of_isDigit hd] at hn
    cases hn
  · exact forall_mem_of_all (p := fun c => isNameChar c = false ∧ [c] ≠ Operator.squareRoot.glyph)
      (by decide) c hm

theorem IsIntegerChar.canonical (h : IsIntegerChar c) : Operator.canonical c = c := by
  rcases h with hd | hm
  · exact Operator.canonical_of_isNumeralChar (Cursor.isNumeralChar_of_isDigit hd)
  · exact forall_mem_of_all (p := fun c => Operator.canonical c = c) (by decide) c hm

theorem overIntegers_ofCanonical (h : ∀ c ∈ text, IsIntegerChar c) :
    ∀ t ∈ Token.ofCanonical text, t.OverIntegers := by
  fun_induction Token.ofCanonical text with
  | case1 => exact fun t ht => absurd ht List.not_mem_nil
  | case2 rest ih => exact ih (List.forall_mem_cons.mp h).2
  | case3 x rest _ hx ih =>
    obtain ⟨hc, hr⟩ := List.forall_mem_cons.mp h
    refine List.forall_mem_cons.mpr ⟨List.forall_mem_cons.mpr ⟨hc.isDigit hx, fun y hy => ?_⟩,
      ih fun y hy => hr y ((List.dropWhile_suffix _).subset hy)⟩
    exact (hr y ((List.takeWhile_prefix _).subset hy)).isDigit (List.mem_takeWhile_imp hy)
  | case4 x rest _ hx hn =>
    have hf := ((List.forall_mem_cons.mp h).1.not_name (by simpa using hx)).1
    rw [hf] at hn
    cases hn
  | case5 x rest _ hx _ hr =>
    exact absurd hr ((List.forall_mem_cons.mp h).1.not_name (by simpa using hx)).2
  | case6 x rest hs hx _ _ ih =>
    obtain ⟨hc, hr⟩ := List.forall_mem_cons.mp h
    exact List.forall_mem_cons.mpr ⟨hc.symbol (by simpa using hx) hs, ih hr⟩

theorem overIntegers_ofText (h : ∀ c ∈ text, IsIntegerChar c) :
    ∀ t ∈ Token.ofText text, t.OverIntegers := by
  have ht : text.map Operator.canonical = text :=
    (List.map_congr_left fun c hc => (h c hc).canonical).trans (List.map_id _)
  rw [Token.ofText, ht]
  exact overIntegers_ofCanonical h

/-- Tokens of these characters that have a derivation have an exact value. -/
theorem Derives.exists_computes {strict : Bool} (h : Derives strict part ts e)
    (ht : ∀ t ∈ ts, t.OverIntegers) : ∃ n vs, Computes part ts n vs := by
  induction h with
  | term _ ih =>
    obtain ⟨n, vs, hn⟩ := ih ht
    exact ⟨n, vs, .term hn⟩
  | sum ho _ _ ihl ihr =>
    obtain ⟨htl, htr⟩ := List.forall_mem_append.mp ht
    obtain ⟨m, vs, hm⟩ := ihl htl
    obtain ⟨n, ws, hn⟩ := ihr (List.forall_mem_cons.mp htr).2
    rcases List.mem_pair.mp ho with rfl | rfl
    · exact ⟨_, _, .add hm hn⟩
    · exact ⟨_, _, .sub hm hn⟩
  | factor _ ih =>
    obtain ⟨n, vs, hn⟩ := ih ht
    exact ⟨n, vs, .factor hn⟩
  | product ho _ _ ihl ihr =>
    obtain ⟨htl, htr⟩ := List.forall_mem_append.mp ht
    obtain ⟨hop, htr⟩ := List.forall_mem_cons.mp htr
    obtain ⟨m, vs, hm⟩ := ihl htl
    obtain ⟨n, ws, hn⟩ := ihr htr
    rcases List.mem_pair.mp ho with rfl | rfl
    · exact ⟨_, _, .mul hm hn⟩
    · exact absurd hop (by simp [Token.OverIntegers])
  | sign ho _ ih =>
    obtain ⟨n, vs, hn⟩ := ih (List.forall_mem_cons.mp ht).2
    rcases List.mem_pair.mp ho with rfl | rfl
    · exact ⟨_, _, .plus hn⟩
    · exact ⟨_, _, .minus hn⟩
  | closed _ ih =>
    obtain ⟨n, vs, hn⟩ := ih ht
    exact ⟨n, vs, .closed hn⟩
  | bare _ ih =>
    obtain ⟨n, vs, hn⟩ := ih ht
    cases hn
  | power | powerBare =>
    have hop := (List.forall_mem_cons.mp (List.forall_mem_append.mp ht).2).1
    exact absurd hop (by simp [Token.OverIntegers])
  | group _ ih =>
    obtain ⟨n, vs, hn⟩ := ih (List.forall_mem_append.mp (List.forall_mem_cons.mp ht).2).1
    exact ⟨n, vs, .group hn⟩
  | numeral hn =>
    have hd := (List.forall_mem_cons.mp ht).1
    exact ⟨_, _, .numeral hd ((isNumeral_digits hd).mp hn)⟩
  | call | apply => exact absurd (List.forall_mem_cons.mp ht).1 id

namespace Equation

/-! ## Results -/

section

variable [Host]

theorem calculate_of_computes (hp : Expr.parse text = .ok tree)
    (hn : Computes .expression (Token.ofText text) n vs)
    (hb : ∀ v ∈ vs, v.natAbs ≤ Binary64.exactLimit) :
    (TooDeep text → calculate text = .error ⟨.tooDeep, some text⟩) ∧
      (¬TooDeep text → calculate text = .ok (toString n).toList) := by
  obtain ⟨e, x, hd, hx, hi⟩ := hn.exists_derives hb
  obtain rfl : e = tree := Except.ok.inj ((Expr.parse_eq_ok_iff.mpr hd).symm.trans hp)
  have hv := validate_of_isFinite hp hx hi.isFinite
  refine ⟨fun h => calculate_eq_error_iff.mpr (evaluate_of_tooDeep hv h), fun h => ?_⟩
  have hh : parse text = .ok e := (parse_eq_of_ne fun he => h (.inl he)).trans hp
  rw [tooDeep_iff_of_parse hh] at h
  rw [calculate_of_isFinite hh hx hi.isFinite, if_neg h, hi.plain_ofBinary64]

/-- An equation of digits, `+`, `-`, `*`, parentheses and spaces that has a tree has an exact value
over the integers. If no numeral of it and no value on the way exceeds `2 ^ 53`, its result is the
decimal text of this value. Only where the host has too few calls to read the equation, or too few
levels for its tree, it fails for this instead; a short equation never does. -/
theorem calculate_integer (hc : ∀ c ∈ text, IsIntegerChar c) (hp : Expr.parse text = .ok tree) :
    (∃ n vs, Computes .expression (Token.ofText text) n vs) ∧
    (∀ n vs, Computes .expression (Token.ofText text) n vs → (∀ v ∈ vs, v.natAbs ≤ 2 ^ 53) →
      (TooDeep text → calculate text = .error ⟨.tooDeep, some text⟩) ∧
        (¬TooDeep text → calculate text = .ok (toString n).toList)) ∧
    (TooDeep text ↔ parse text = .error .tooDeep ∨
      parse text = .ok tree ∧ Host.levels tree < tree.depth) ∧
    (TooDeep text → Host.least < 3 * text.length + 5) := by
  have hd := Expr.parse_eq_ok_iff.mp hp
  refine ⟨hd.exists_computes (overIntegers_ofText hc), fun n vs hn hb =>
    calculate_of_computes hp hn hb, or_congr_right ?_, TooDeep.least_lt⟩
  refine ⟨fun ⟨e, he, hl⟩ => ?_, fun h => ⟨tree, h⟩⟩
  obtain rfl : e = tree := Except.ok.inj ((parse_eq_of_ok he).symm.trans hp)
  exact ⟨he, hl⟩

end

theorem calculate_two_times_difference :
    (∀ c ∈ "2*(3-5)".toList, IsIntegerChar c) ∧
      (Expr.parse "2*(3-5)".toList).isOk = true ∧
      (∃ vs, Computes .expression (Token.ofText "2*(3-5)".toList) (-4) vs ∧
        ∀ v ∈ vs, v.natAbs ≤ 2 ^ 53) ∧
      calculate "2*(3-5)".toList = .ok "-4".toList := by
  have hc : ∀ c ∈ "2*(3-5)".toList, IsIntegerChar c := forall_mem_of_all (by decide)
  have ht : Token.ofText "2*(3-5)".toList = [.numeral ['2']] ++ .symbol '*' :: .symbol '(' ::
      ([.numeral ['3']] ++ .symbol '-' :: [.numeral ['5']] ++ [.symbol ')']) := by
    simp [Token.ofText, Token.ofCanonical, isNumeralChar, isNameChar, Operator.canonical,
      Operator.glyph]
  have h₂ : Computes .factor [.numeral ['2']] 2 [2] := .closed (computes_digit rfl)
  have h₃ : Computes .factor [.numeral ['3']] 3 [3] := .closed (computes_digit rfl)
  have h₅ : Computes .factor [.numeral ['5']] 5 [5] := .closed (computes_digit rfl)
  have hn : Computes .expression (Token.ofText "2*(3-5)".toList) (-4) [-4, 2, -2, 3, 5] := by
    rw [ht]
    exact .term (.mul (.factor h₂) (.closed (.group (.sub (.term (.factor h₃)) (.factor h₅)))))
  have hb : ∀ v ∈ [-4, 2, -2, 3, (5 : Int)], v.natAbs ≤ 2 ^ 53 := by decide
  have hp : (Expr.parse "2*(3-5)".toList).isOk = true := by rfl
  refine ⟨hc, hp, ⟨_, hn, hb⟩, ?_⟩
  cases h : Expr.parse "2*(3-5)".toList with
  | error fault =>
    rw [h] at hp
    cases hp
  | ok tree =>
    obtain ⟨-, hvalue, -, hlong⟩ := calculate_integer hc h
    exact (hvalue _ _ hn hb).2 fun hd => absurd (hlong hd) (by decide)

/-! ## Long sums -/

/-- The text of a sum of ones, of which there are one more than `k`. -/
def ones : Nat → List Char
  | 0 => ['1']
  | k + 1 => ones k ++ ['+', '1']

/-- The tree of a sum of ones. -/
def onesTree : Nat → Expr
  | 0 => .number (numeralValue ['1'])
  | k + 1 => .binary ['+'] (onesTree k) (.number (numeralValue ['1']))

theorem isIntegerChar_ones (k : Nat) : ∀ c ∈ ones k, IsIntegerChar c := by
  induction k with
  | zero => exact forall_mem_of_all (by decide)
  | succ k ih => exact List.forall_mem_append.mpr ⟨ih, forall_mem_of_all (by decide)⟩

theorem depth_onesTree (k : Nat) : (onesTree k).depth = k + 1 := by
  induction k with
  | zero => rfl
  | succ k ih =>
    rw [onesTree, Expr.depth, ih, Expr.depth]
    omega

theorem ofText_one : Token.ofText ['1'] = [.numeral ['1']] := by
  simp [Token.ofText, Token.ofCanonical, isNumeralChar, Operator.canonical]

theorem ofText_ones_succ (k : Nat) :
    Token.ofText (ones (k + 1)) = Token.ofText (ones k) ++ .symbol '+' :: [.numeral ['1']] := by
  rw [ones, Token.ofText_append_symbol (by decide), ofText_one]
  rfl

open Reading

/-- A term is one factor deep, however many terms there are. -/
theorem comesTo_ones (nesting k : Nat) {us : List Token} (hu : Part.term.EndsBefore us) :
    ComesTo ['+', '-'] (term (factor (nesting + 1))) (Token.ofText (ones k) ++ us) (onesTree k)
      us := by
  have hnumeral : IsNumeral ['1'] :=
    (isNumeral_digits (List.forall_mem_singleton.mpr rfl)).mpr (List.cons_ne_nil _ _)
  have hone (us : List Token) (hu : Part.term.EndsBefore us) :
      Yields (term (factor (nesting + 1))) (.numeral ['1'] :: us)
        (.number (numeralValue ['1'])) us :=
    yields_term hu (reads_of_derives (.factor (.closed (.numeral hnumeral)))
      (Nat.le_add_left 1 nesting) us)
  induction k generalizing us with
  | zero =>
    rw [ones, ofText_one]
    exact (hone us hu).comesTo
  | succ k ih =>
    rw [ofText_ones_succ, List.append_assoc]
    exact (ih (Part.endsBefore_symbol (by decide) _)).snoc joins_terms
      (isRegular_joined isSymbol_factors (isRegular_factor_zero _)) (by decide) (hone us hu)

/-- The few calls that a sum takes are on every host. -/
theorem parse_ones [Host] (k : Nat) : parse (ones k) = .ok (onesTree k) := by
  have hc := comesTo_ones 0 k (Part.endsBefore_nil .term)
  rw [List.append_nil] at hc
  exact parse_of_whole (Nat.le_trans (by decide) Host.enough) (whole_of_comesTo hc)

theorem exists_computes_ones (k : Nat) : ∃ vs,
    Computes .expression (Token.ofText (ones k)) (k + 1) vs ∧ ∀ v ∈ vs, v.natAbs ≤ k + 1 := by
  have hone : Computes .term [.numeral ['1']] 1 [1] := .factor (.closed (computes_digit rfl))
  induction k with
  | zero =>
    rw [ones, ofText_one]
    exact ⟨[1], .term hone, by simp⟩
  | succ k ih =>
    obtain ⟨vs, hvs, hb⟩ := ih
    rw [ofText_ones_succ]
    refine ⟨_, .add hvs hone, fun v hv => ?_⟩
    simp only [List.mem_cons, List.mem_append, List.not_mem_nil, or_false] at hv
    rcases hv with rfl | hv | rfl
    · omega
    · exact Nat.le_succ_of_le (hb v hv)
    · omega

/-- A sum has a level of its tree for each term, and is refused once there are more of them than the
host can walk. -/
theorem calculate_ones [Host] {k : Nat} (hk : k < 2 ^ 53) :
    calculate (ones k) =
      if Host.levels (onesTree k) < k + 1 then .error ⟨.tooDeep, some (ones k)⟩
      else .ok (toString (k + 1)).toList := by
  obtain ⟨vs, hvs, hb⟩ := exists_computes_ones k
  obtain ⟨hdeep, hvalue⟩ := calculate_of_computes (parse_eq_of_ok (parse_ones k)) hvs
    fun v hv => Nat.le_trans (hb v hv) hk
  rw [tooDeep_iff_of_parse (parse_ones k), depth_onesTree] at hdeep hvalue
  split
  · exact hdeep ‹_›
  · exact hvalue ‹_›

theorem calculate_ones_too_deep :
    (∀ c ∈ ones 2499, IsIntegerChar c) ∧ parse (ones 2499) = .ok (onesTree 2499) ∧
      (∃ vs, Computes .expression (Token.ofText (ones 2499)) 2500 vs ∧
        ∀ v ∈ vs, v.natAbs ≤ 2 ^ 53) ∧
      calculate (ones 2499) = .error ⟨.tooDeep, some (ones 2499)⟩ := by
  obtain ⟨vs, hvs, hb⟩ := exists_computes_ones 2499
  refine ⟨isIntegerChar_ones _, parse_ones _, ⟨vs, hvs, fun v hv => ?_⟩, ?_⟩
  · exact Nat.le_trans (hb v hv) (by decide)
  · rw [calculate_ones (by decide), if_pos (by decide)]

end Equation

end Calculator
