import Calculator.Expr.Parser
import Calculator.Proofs.Text.Run

/-!
# The tokens of an equation

An equation is made of numerals, names and single symbols, and spaces only
keep these apart. Glyphs are replaced first; numerals and names are runs of
characters, each as long as possible. `Token.ofText` divides a text into its
tokens, and a cursor stands before those of the text from it on:

* `Cursor.tokens_of_numeral`, `Cursor.tokens_of_name`, `Cursor.tokens_of_root`,
  `Cursor.tokens_of_symbol`: the first token, by the character at the cursor;
* `Cursor.tokens_skipSpaces`: spaces are no tokens;
* `Token.length_ofText_le`: there are at most as many tokens as characters;
* `Token.ofText_append_symbol`: a symbol divides the tokens as it divides the text;
* `Token.text_cases`: how a text begins, with its first token in `ofText_numeral_append` and the
  lemmas beside it.
-/

namespace Calculator

/-- A part of an equation that parsing does not divide. -/
inductive Token where
  /-- Digits and points. -/
  | numeral (text : List Char)
  /-- Lowercase letters, or the glyph of the square root. -/
  | name (text : List Char)
  /-- Any other character but a space. -/
  | symbol (c : Char)
  deriving DecidableEq

namespace Token

/-- The character with which a token begins. -/
def first : Token → Char
  | numeral text | name text => text.headD ' '
  | symbol c => c

/-- The tokens of a text whose glyphs have been replaced. -/
def ofCanonical : List Char → List Token
  | [] => []
  | c :: rest =>
    if c = ' ' then ofCanonical rest
    else if isNumeralChar c then
      .numeral (c :: rest.takeWhile isNumeralChar) :: ofCanonical (rest.dropWhile isNumeralChar)
    else if isNameChar c then
      .name (c :: rest.takeWhile isNameChar) :: ofCanonical (rest.dropWhile isNameChar)
    else if [c] = Operator.squareRoot.glyph then .name [c] :: ofCanonical rest
    else .symbol c :: ofCanonical rest
termination_by text => text.length
decreasing_by
  all_goals simp only [List.length_cons, Nat.lt_succ_iff, Nat.le_refl, List.length_dropWhile_le]

/-- The tokens of a text. -/
def ofText (text : List Char) : List Token := ofCanonical (text.map Operator.canonical)

/-- A character that is a token by itself. -/
def IsSymbol (c : Char) : Prop :=
  c ≠ ' ' ∧ isNumeralChar c = false ∧ isNameChar c = false ∧ [c] ≠ Operator.squareRoot.glyph

instance (c : Char) : Decidable (IsSymbol c) := inferInstanceAs (Decidable (_ ∧ _))

theorem isSymbol_open : IsSymbol '(' := by decide

theorem isSymbol_close : IsSymbol ')' := by decide

theorem isSymbol_power : IsSymbol '^' := by decide

theorem length_ofCanonical_le (text : List Char) : (ofCanonical text).length ≤ text.length := by
  fun_induction ofCanonical text with
  | case1 => exact Nat.le_refl _
  | case2 rest ih => exact Nat.le_succ_of_le ih
  | case3 c rest _ _ ih =>
    exact Nat.succ_le_succ (Nat.le_trans ih (List.length_dropWhile_le _ _))
  | case4 c rest _ _ _ ih =>
    exact Nat.succ_le_succ (Nat.le_trans ih (List.length_dropWhile_le _ _))
  | case5 c rest _ _ _ _ ih => exact Nat.succ_le_succ ih
  | case6 c rest _ _ _ _ ih => exact Nat.succ_le_succ ih

theorem length_ofText_le (text : List Char) : (ofText text).length ≤ text.length := by
  have h := length_ofCanonical_le (text.map Operator.canonical)
  rwa [List.length_map] at h

/-- A run ends before a character that cannot be in it. -/
theorem takeWhile_append_of_not {p : Char → Bool} {c : Char} (h : p c = false)
    (before after : List Char) : (before ++ c :: after).takeWhile p = before.takeWhile p ∧
      (before ++ c :: after).dropWhile p = before.dropWhile p ++ c :: after := by
  induction before with
  | nil => simp [h]
  | cons x before ih =>
    cases hx : p x with
    | false => simp [hx]
    | true => simpa [hx] using ih

theorem ofCanonical_append_symbol {c : Char} (hc : IsSymbol c) (before after : List Char) :
    ofCanonical (before ++ c :: after) =
      ofCanonical before ++ .symbol c :: ofCanonical after := by
  obtain ⟨hs, hd, hn, hr⟩ := hc
  fun_induction ofCanonical before with
  | case1 =>
    rw [List.nil_append, ofCanonical, if_neg hs, if_neg (by rw [hd]; decide),
      if_neg (by rw [hn]; decide), if_neg hr]
    rfl
  | case2 rest ih => rw [List.cons_append, ofCanonical, if_pos rfl, ih]
  | case3 x rest h₁ h₂ ih =>
    obtain ⟨ht, hw⟩ := takeWhile_append_of_not hd rest after
    rw [List.cons_append, ofCanonical, if_neg h₁, if_pos h₂, ht, hw, ih, List.cons_append]
  | case4 x rest h₁ h₂ h₃ ih =>
    obtain ⟨ht, hw⟩ := takeWhile_append_of_not hn rest after
    rw [List.cons_append, ofCanonical, if_neg h₁, if_neg h₂, if_pos h₃, ht, hw, ih,
      List.cons_append]
  | case5 x rest h₁ h₂ h₃ h₄ ih =>
    rw [List.cons_append, ofCanonical, if_neg h₁, if_neg h₂, if_neg h₃, if_pos h₄, ih,
      List.cons_append]
  | case6 x rest h₁ h₂ h₃ h₄ ih =>
    rw [List.cons_append, ofCanonical, if_neg h₁, if_neg h₂, if_neg h₃, if_neg h₄, ih,
      List.cons_append]

theorem ofText_append_symbol {c : Char} (hc : IsSymbol (Operator.canonical c))
    (before after : List Char) :
    ofText (before ++ c :: after) =
      ofText before ++ .symbol (Operator.canonical c) :: ofText after := by
  rw [ofText, List.map_append, List.map_cons, ofCanonical_append_symbol hc]
  rfl

end Token

/-! ## Glyphs -/

namespace Operator

/-- A glyph that is replaced, and its symbol, belong to no run. -/
theorem canonical_eq_or (c : Char) :
    canonical c = c ∨ Token.IsSymbol c ∧ Token.IsSymbol (canonical c) := by
  by_cases h₁ : c = '×'
  · subst h₁; exact .inr (by decide)
  by_cases h₂ : c = '÷'
  · subst h₂; exact .inr (by decide)
  by_cases h₃ : c = '±'
  · subst h₃; exact .inr (by decide)
  exact .inl (by rw [canonical, if_neg h₁, if_neg h₂, if_neg h₃])

theorem isNumeralChar_canonical (c : Char) : isNumeralChar (canonical c) = isNumeralChar c := by
  rcases canonical_eq_or c with h | ⟨h, h'⟩
  · rw [h]
  · rw [h.2.1, h'.2.1]

theorem isNameChar_canonical (c : Char) : isNameChar (canonical c) = isNameChar c := by
  rcases canonical_eq_or c with h | ⟨h, h'⟩
  · rw [h]
  · rw [h.2.2.1, h'.2.2.1]

theorem canonical_eq_self {c : Char} (h : ¬ Token.IsSymbol c) : canonical c = c :=
  (canonical_eq_or c).resolve_right fun h' => h h'.1

theorem canonical_of_isNumeralChar {c : Char} (h : isNumeralChar c = true) : canonical c = c :=
  canonical_eq_self fun hs => by rw [hs.2.1] at h; exact Bool.noConfusion h

theorem canonical_of_isNameChar {c : Char} (h : isNameChar c = true) : canonical c = c :=
  canonical_eq_self fun hs => by rw [hs.2.2.1] at h; exact Bool.noConfusion h

/-- Where no character of a run is a glyph, the run of the replaced text is that of the text. -/
theorem takeWhile_map_canonical {p : Char → Bool} (hp : ∀ c, p (canonical c) = p c)
    (hself : ∀ c, p c = true → canonical c = c) (text : List Char) :
    (text.map canonical).takeWhile p = text.takeWhile p := by
  rw [List.takeWhile_map, show p ∘ canonical = p from funext hp]
  refine (List.map_congr_left fun c hc => ?_).trans (List.map_id _)
  exact hself c (List.mem_takeWhile_imp hc)

theorem dropWhile_map_canonical {p : Char → Bool} (hp : ∀ c, p (canonical c) = p c)
    (text : List Char) : (text.map canonical).dropWhile p = (text.dropWhile p).map canonical := by
  rw [List.dropWhile_map, show p ∘ canonical = p from funext hp]

end Operator

/-! ## The tokens from a cursor on -/

namespace Cursor

variable {c : Cursor} {x : Char}

/-- The tokens from the cursor on. -/
def tokens (c : Cursor) : List Token := Token.ofText c.rest

theorem current?_eq_none : c.current? = none ↔ c.rest = [] := by
  rw [current?, Option.map_eq_none_iff, List.head?_eq_none_iff]

theorem current?_eq_some :
    c.current? = some x ↔ ∃ y rest, c.rest = y :: rest ∧ Operator.canonical y = x := by
  rw [current?, Option.map_eq_some_iff]
  constructor
  · rintro ⟨y, hy, rfl⟩
    obtain ⟨rest, hr⟩ := List.head?_eq_some_iff.mp hy
    exact ⟨y, rest, hr, rfl⟩
  · rintro ⟨y, rest, hr, rfl⟩
    exact ⟨y, by rw [hr, List.head?_cons], rfl⟩

theorem tokens_of_end (h : c.current? = none) : c.tokens = [] := by
  rw [tokens, current?_eq_none.mp h, Token.ofText, List.map_nil, Token.ofCanonical]

theorem not_space_of_numeral (hx : isNumeralChar x = true) : x ≠ ' ' := by
  rintro rfl; exact absurd hx (by decide)

theorem not_space_of_name (hx : isNameChar x = true) : x ≠ ' ' := by
  rintro rfl; exact absurd hx (by decide)

theorem isNumeralChar_of_isDigit (hx : x.isDigit = true) : isNumeralChar x = true := by
  rw [isNumeralChar, hx, Bool.true_or]

theorem not_numeral_of_name (hx : isNameChar x = true) : isNumeralChar x = false := by
  simp only [isNameChar, Bool.and_eq_true, decide_eq_true_eq] at hx
  have h : 'a'.val.toNat ≤ x.val.toNat := hx.1
  rw [isNumeralChar, Bool.or_eq_false_iff, beq_eq_false_iff_ne]
  constructor
  · rw [Char.isDigit, Bool.and_eq_false_imp]
    intro _
    simp only [decide_eq_false_iff_not, UInt32.le_iff_toNat_le, Nat.not_le]
    exact Nat.lt_of_lt_of_le (by decide) h
  · rintro rfl; exact absurd h (by decide)

theorem not_name_of_numeral (hx : isNumeralChar x = true) : isNameChar x = false := by
  rw [Bool.eq_false_iff]
  intro hn
  rw [not_numeral_of_name hn] at hx
  cases hx

theorem tokens_of_numeral (h : c.current? = some x) (hx : isNumeralChar x = true) :
    c.tokens = .numeral (c.run isNumeralChar) :: (c.skip isNumeralChar).tokens := by
  obtain ⟨y, rest, hr, rfl⟩ := current?_eq_some.mp h
  have hy : isNumeralChar y = true := by rwa [← Operator.isNumeralChar_canonical]
  simp only [tokens, run, skip, hr, Token.ofText, List.map_cons, Token.ofCanonical,
    if_neg (not_space_of_numeral hy), if_pos hy, List.takeWhile_cons_of_pos hy,
    List.dropWhile_cons_of_pos hy, Operator.canonical_of_isNumeralChar hy,
    Operator.takeWhile_map_canonical Operator.isNumeralChar_canonical
      fun _ => Operator.canonical_of_isNumeralChar,
    Operator.dropWhile_map_canonical Operator.isNumeralChar_canonical]

theorem tokens_of_name (h : c.current? = some x) (hx : isNameChar x = true) :
    c.tokens = .name (c.run isNameChar) :: (c.skip isNameChar).tokens := by
  obtain ⟨y, rest, hr, rfl⟩ := current?_eq_some.mp h
  have hy : isNameChar y = true := by rwa [← Operator.isNameChar_canonical]
  simp only [tokens, run, skip, hr, Token.ofText, List.map_cons, Token.ofCanonical,
    if_neg (not_space_of_name hy), not_numeral_of_name hy, Bool.false_eq_true, if_false,
    if_pos hy, List.takeWhile_cons_of_pos hy, List.dropWhile_cons_of_pos hy,
    Operator.canonical_of_isNameChar hy,
    Operator.takeWhile_map_canonical Operator.isNameChar_canonical
      fun _ => Operator.canonical_of_isNameChar,
    Operator.dropWhile_map_canonical Operator.isNameChar_canonical]

theorem tokens_of_root (h : c.current? = some x) (hx : [x] = Operator.squareRoot.glyph) :
    c.tokens = .name (c.rest.take 1) :: c.next.tokens := by
  obtain ⟨y, rest, hr, rfl⟩ := current?_eq_some.mp h
  have hy : Operator.canonical y = y := by
    refine (Operator.canonical_eq_or y).resolve_right fun hs => hs.2.2.2.2 hx
  rw [hy, Operator.glyph, List.cons.injEq, and_iff_left rfl] at hx
  subst hx
  simp only [tokens, next, hr, Token.ofText, List.map_cons, Token.ofCanonical, List.tail_cons,
    List.take_succ_cons, List.take_zero]
  rfl

theorem tokens_of_symbol (h : c.current? = some x) (hx : Token.IsSymbol x) :
    c.tokens = .symbol x :: c.next.tokens := by
  obtain ⟨y, rest, hr, rfl⟩ := current?_eq_some.mp h
  simp only [tokens, next, hr, Token.ofText, List.map_cons, Token.ofCanonical, List.tail_cons,
    if_neg hx.1, hx.2.1, hx.2.2.1, Bool.false_eq_true, if_false, if_neg hx.2.2.2]

theorem current?_skipSpaces (c : Cursor) : c.skipSpaces.current? ≠ some ' ' := by
  intro h
  obtain ⟨y, rest, hr, hy⟩ := current?_eq_some.mp h
  have hy' : y = ' ' := by
    rcases Operator.canonical_eq_or y with he | ⟨-, hs⟩
    · rw [← he, hy]
    · exact absurd hy hs.1
  have hn := List.head?_dropWhile_not (· == ' ') c.rest
  rw [show c.rest.dropWhile (· == ' ') = y :: rest from hr, hy'] at hn
  simp at hn

theorem ofText_dropWhile_space (text : List Char) :
    Token.ofText (text.dropWhile (· == ' ')) = Token.ofText text := by
  induction text with
  | nil => rfl
  | cons y rest ih =>
    by_cases hy : y = ' '
    · subst hy
      rw [List.dropWhile_cons_of_pos (by decide), ih]
      simp only [Token.ofText, List.map_cons]
      rw [show Operator.canonical ' ' = ' ' by decide, Token.ofCanonical, if_pos rfl]
    · rw [List.dropWhile_cons_of_neg (by simpa using hy)]

theorem tokens_skipSpaces (c : Cursor) : c.skipSpaces.tokens = c.tokens :=
  ofText_dropWhile_space c.rest

/-- The first token from a cursor on that stands before no space. -/
theorem tokens_cases (h : c.current? ≠ some ' ') :
    c.current? = none ∧ c.tokens = [] ∨
    (∃ x, c.current? = some x ∧ isNumeralChar x = true ∧
      c.tokens = .numeral (c.run isNumeralChar) :: (c.skip isNumeralChar).tokens) ∨
    (∃ x, c.current? = some x ∧ isNameChar x = true ∧
      c.tokens = .name (c.run isNameChar) :: (c.skip isNameChar).tokens) ∨
    (∃ x, c.current? = some x ∧ [x] = Operator.squareRoot.glyph ∧
      c.tokens = .name (c.rest.take 1) :: c.next.tokens) ∨
    ∃ x, c.current? = some x ∧ Token.IsSymbol x ∧ c.tokens = .symbol x :: c.next.tokens := by
  cases hc : c.current? with
  | none => exact .inl ⟨rfl, tokens_of_end hc⟩
  | some x =>
    refine .inr ?_
    have hs : x ≠ ' ' := fun hx => h (hx ▸ hc)
    by_cases h₁ : isNumeralChar x = true
    · exact .inl ⟨x, rfl, h₁, tokens_of_numeral hc h₁⟩
    by_cases h₂ : isNameChar x = true
    · exact .inr (.inl ⟨x, rfl, h₂, tokens_of_name hc h₂⟩)
    by_cases h₃ : [x] = Operator.squareRoot.glyph
    · exact .inr (.inr (.inl ⟨x, rfl, h₃, tokens_of_root hc h₃⟩))
    have hx : Token.IsSymbol x := ⟨hs, by simpa using h₁, by simpa using h₂, h₃⟩
    exact .inr (.inr (.inr ⟨x, rfl, hx, tokens_of_symbol hc hx⟩))

/-- A symbol is the first token exactly where its character comes first. -/
theorem head?_tokens_eq_symbol (h : c.current? ≠ some ' ') (hx : Token.IsSymbol x) :
    c.tokens.head? = some (.symbol x) ↔ c.current? = some x := by
  refine ⟨fun ht => ?_, fun hc => by rw [tokens_of_symbol hc hx, List.head?_cons]⟩
  rcases tokens_cases h with ⟨-, he⟩ | ⟨_, -, -, he⟩ | ⟨_, -, -, he⟩ | ⟨_, -, -, he⟩ |
    ⟨y, hy, -, he⟩ <;> rw [he] at ht
  · exact absurd ht (by simp)
  · exact absurd ht (by simp)
  · exact absurd ht (by simp)
  · exact absurd ht (by simp)
  · rw [hy]
    simpa using ht

/-- The first token begins with the character at the cursor. -/
theorem current?_eq_first {t : Token} {ts : List Token}
    (hs : c.current? ≠ some ' ') (ht : c.tokens = t :: ts) : c.current? = some t.first := by
  have hrun {p : Char → Bool} {x : Char} (hc : c.current? = some x) (hx : p x = true)
      (hp : ∀ y, p (Operator.canonical y) = p y)
      (hself : ∀ y, p y = true → Operator.canonical y = y) : x = (c.run p).headD ' ' := by
    obtain ⟨y, rest, hr, rfl⟩ := current?_eq_some.mp hc
    rw [hp] at hx
    rw [run, hr, List.takeWhile_cons_of_pos hx]
    exact hself y hx
  rcases tokens_cases hs with ⟨-, he⟩ | ⟨x, hc, hx, he⟩ | ⟨x, hc, hx, he⟩ | ⟨x, hc, hx, he⟩ |
    ⟨x, hc, -, he⟩ <;> rw [ht] at he <;> cases he
  · rw [hc, Token.first, ← hrun hc hx Operator.isNumeralChar_canonical
      fun y => Operator.canonical_of_isNumeralChar]
  · rw [hc, Token.first, ← hrun hc hx Operator.isNameChar_canonical
      fun y => Operator.canonical_of_isNameChar]
  · obtain ⟨y, rest, hr, rfl⟩ := current?_eq_some.mp hc
    have hy : Operator.canonical y = y :=
      (Operator.canonical_eq_or y).resolve_right fun h => h.2.2.2.2 hx
    rw [hc, hr, hy]
    rfl
  · rw [hc, Token.first]

end Cursor

/-! ## The first token of a text -/

namespace Token

variable {run rest : List Char} {x : Char}

theorem ofText_nil : ofText [] = [] := by rw [ofText, List.map_nil, ofCanonical]

theorem ofText_space_cons (rest : List Char) : ofText (' ' :: rest) = ofText rest := by
  rw [ofText, List.map_cons, show Operator.canonical ' ' = ' ' by decide, ofCanonical, if_pos rfl]
  rfl

theorem ofText_symbol_cons (hx : IsSymbol (Operator.canonical x)) (rest : List Char) :
    ofText (x :: rest) = .symbol (Operator.canonical x) :: ofText rest :=
  Cursor.tokens_of_symbol (c := ⟨0, x :: rest⟩) rfl hx

theorem ofText_root_cons (rest : List Char) : ofText ('√' :: rest) = .name ['√'] :: ofText rest :=
  Cursor.tokens_of_root (c := ⟨0, '√' :: rest⟩) rfl rfl

theorem ofText_numeral_append (hne : run ≠ []) (hr : ∀ c ∈ run, isNumeralChar c = true)
    (ha : ∀ c ∈ rest.head?, isNumeralChar c = false) :
    ofText (run ++ rest) = .numeral run :: ofText rest := by
  obtain ⟨x, tail, rfl⟩ := List.exists_cons_of_ne_nil hne
  have hx := hr x List.mem_cons_self
  have ht := Cursor.tokens_of_numeral (c := ⟨0, x :: tail ++ rest⟩)
    (congrArg some (Operator.canonical_of_isNumeralChar hx)) hx
  obtain ⟨hrun, hskip⟩ := takeWhile_run_append hr ha
  rwa [Cursor.run, hrun, Cursor.tokens, Cursor.skip, Cursor.tokens, hskip] at ht

theorem ofText_name_append (hne : run ≠ []) (hr : ∀ c ∈ run, isNameChar c = true)
    (ha : ∀ c ∈ rest.head?, isNameChar c = false) :
    ofText (run ++ rest) = .name run :: ofText rest := by
  obtain ⟨x, tail, rfl⟩ := List.exists_cons_of_ne_nil hne
  have hx := hr x List.mem_cons_self
  have ht := Cursor.tokens_of_name (c := ⟨0, x :: tail ++ rest⟩)
    (congrArg some (Operator.canonical_of_isNameChar hx)) hx
  obtain ⟨hrun, hskip⟩ := takeWhile_run_append hr ha
  rwa [Cursor.run, hrun, Cursor.tokens, Cursor.skip, Cursor.tokens, hskip] at ht

/-- How a text begins: with a space, with a run as long as possible, or with a single character that
is a token. -/
theorem text_cases (text : List Char) :
    text = [] ∨ (∃ rest, text = ' ' :: rest) ∨
    (∃ run rest, text = run ++ rest ∧ run ≠ [] ∧ (∀ c ∈ run, isNumeralChar c = true) ∧
      ∀ c ∈ rest.head?, isNumeralChar c = false) ∨
    (∃ run rest, text = run ++ rest ∧ run ≠ [] ∧ (∀ c ∈ run, isNameChar c = true) ∧
      ∀ c ∈ rest.head?, isNameChar c = false) ∨
    (∃ rest, text = '√' :: rest) ∨
    ∃ x rest, text = x :: rest ∧ IsSymbol (Operator.canonical x) := by
  rcases text with _ | ⟨x, rest⟩
  · exact .inl rfl
  have hrun (p : Char → Bool) (hx : p x = true) : ∃ run after, x :: rest = run ++ after ∧
      run ≠ [] ∧ (∀ c ∈ run, p c = true) ∧ ∀ c ∈ after.head?, p c = false := by
    refine ⟨(x :: rest).takeWhile p, (x :: rest).dropWhile p,
      List.takeWhile_append_dropWhile.symm, ?_, fun c hc => List.mem_takeWhile_imp hc, ?_⟩
    · rw [List.takeWhile_cons_of_pos hx]
      exact List.cons_ne_nil _ _
    · intro c hc
      have hn := List.head?_dropWhile_not p (x :: rest)
      rw [Option.mem_def.mp hc] at hn
      exact hn
  refine .inr ?_
  by_cases hs : x = ' '
  · exact .inl ⟨rest, by rw [hs]⟩
  by_cases hd : isNumeralChar x = true
  · exact .inr (.inl (hrun _ hd))
  by_cases hn : isNameChar x = true
  · exact .inr (.inr (.inl (hrun _ hn)))
  by_cases hr : x = '√'
  · exact .inr (.inr (.inr (.inl ⟨rest, by rw [hr]⟩)))
  refine .inr (.inr (.inr (.inr ⟨x, rest, rfl, ?_⟩)))
  rcases Operator.canonical_eq_or x with hc | hc
  · rw [hc]
    exact ⟨hs, by simpa using hd, by simpa using hn, fun he => hr (List.cons.inj he).1⟩
  · exact hc.2

end Token

end Calculator
