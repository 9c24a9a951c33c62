import Calculator.Proofs.Expr.Spacing

/-!
# Symbols for glyphs

An equation may be written with glyphs or with symbols. `Operator.spellOut`
writes symbols for the glyphs; the name of the root, which stands for its
glyph, is kept apart from what is around it, so that no longer name arises.
The tokens stay as they are, but for the names of the root:

* `Operator.spellOut_eq_flatMap`: what becomes of each character;
* `Token.ofText_spellOut`: what becomes of the tokens;
* `Resemblance.spelledOut`: how the tokens are read;
* `Expr.parse_spellOut`: both texts have one tree, or alike faults.
-/

namespace Calculator

namespace Operator

/-- The text with symbols for its glyphs. The name of the root stands between spaces. -/
def spellOut (text : List Char) : List Char :=
  replaceAll squareRoot.glyph (' ' :: squareRoot.symbol ++ [' '])
    (replaceAll plusMinus.glyph ['+']
      (replaceAll divide.glyph divide.symbol (replaceAll multiply.glyph multiply.symbol text)))

/-- What is written for a character. -/
def spelling (c : Char) : List Char :=
  if c = '√' then ' ' :: squareRoot.symbol ++ [' '] else [canonical c]

variable {run rest : List Char} {c : Char} {p : Char → Bool}

theorem spellOut_eq_flatMap (text : List Char) : spellOut text = text.flatMap spelling := by
  simp only [spellOut, glyph, symbol, replaceAll_singleton, List.flatMap_assoc]
  refine congrArg text.flatMap (funext fun c => ?_)
  by_cases hm : c ∈ ['×', '÷', '±', '√']
  · simp only [List.mem_cons, List.not_mem_nil, or_false] at hm
    rcases hm with rfl | rfl | rfl | rfl <;> decide
  · simp only [List.mem_cons, List.not_mem_nil, or_false, not_or] at hm
    obtain ⟨hm, hd, hp, hr⟩ := hm
    simp [spelling, canonical, hm, hd, hp, hr]

theorem spellOut_cons (c : Char) (rest : List Char) :
    spellOut (c :: rest) = spelling c ++ spellOut rest := by
  rw [spellOut_eq_flatMap, spellOut_eq_flatMap, List.flatMap_cons]

theorem spelling_of_ne (h : c ≠ '√') : spelling c = [canonical c] := if_neg h

theorem spellOut_root_cons (rest : List Char) :
    spellOut ('√' :: rest) = ' ' :: (squareRoot.symbol ++ ' ' :: spellOut rest) :=
  spellOut_cons '√' rest

theorem canonical_canonical (c : Char) : canonical (canonical c) = canonical c := by
  unfold canonical
  split_ifs <;> simp_all

/-- Where every character is its own symbol, nothing changes. -/
theorem spellOut_append_of_self (h : ∀ c ∈ run, c ≠ '√' ∧ canonical c = c) (rest : List Char) :
    spellOut (run ++ rest) = run ++ spellOut rest := by
  induction run with
  | nil => rfl
  | cons c run ih =>
    obtain ⟨hc, hr⟩ := List.forall_mem_cons.mp h
    rw [List.cons_append, spellOut_cons, spelling_of_ne hc.1, hc.2, ih hr]
    rfl

/-- What does not go on with a run of characters does not do so with its glyphs spelled out. -/
theorem head?_spellOut (hs : p ' ' = false) (hp : ∀ c, p (canonical c) = p c)
    (h : ∀ c ∈ rest.head?, p c = false) : ∀ c ∈ (spellOut rest).head?, p c = false := by
  rcases rest with _ | ⟨x, rest⟩
  · nofun
  have hx : p x = false := h x rfl
  intro c hc
  rw [spellOut_cons] at hc
  rcases eq_or_ne x '√' with rfl | hr
  · obtain rfl : ' ' = c := Option.some.inj hc
    exact hs
  · rw [spelling_of_ne hr] at hc
    obtain rfl : canonical x = c := Option.some.inj hc
    rw [hp, hx]

end Operator

namespace Token

open Operator

variable {run rest : List Char}

/-- The token that stands for a token when the glyph of the root is spelled out. -/
def spelled : Token → Token
  | name text => if text = squareRoot.glyph then name squareRoot.symbol else name text
  | t => t

theorem spelled_name_of_ne {text : List Char} (h : text ≠ squareRoot.glyph) :
    spelled (name text) = name text := if_neg h

/-- By induction on the text, token by token. -/
theorem ofText_spellOut (text : List Char) :
    ofText (spellOut text) = (ofText text).map spelled := by
  induction hl : text.length using Nat.strongRecOn generalizing text with
  | ind length ih =>
  subst hl
  rcases text_cases text with rfl | ⟨rest, rfl⟩ | ⟨run, rest, rfl, hne, hr, hn⟩ |
    ⟨run, rest, rfl, hne, hr, hn⟩ | ⟨rest, rfl⟩ | ⟨x, rest, rfl, hx⟩
  · rw [show spellOut [] = [] from rfl, ofText_nil, List.map_nil]
  · have hs : spellOut (' ' :: rest) = ' ' :: spellOut rest := spellOut_cons ' ' rest
    rw [hs, ofText_space_cons, ofText_space_cons, ih rest.length (Nat.lt_succ_self _) rest rfl]
  · have hself : ∀ c ∈ run, c ≠ '√' ∧ canonical c = c := fun c hc =>
      ⟨fun he => absurd (hr c hc) (by rw [he]; decide), canonical_of_isNumeralChar (hr c hc)⟩
    rw [spellOut_append_of_self hself, ofText_numeral_append hne hr hn,
      ofText_numeral_append hne hr (head?_spellOut (by decide) isNumeralChar_canonical hn),
      ih rest.length (length_lt_append hne) rest rfl]
    rfl
  · have hself : ∀ c ∈ run, c ≠ '√' ∧ canonical c = c := fun c hc =>
      ⟨fun he => absurd (hr c hc) (by rw [he]; decide), canonical_of_isNameChar (hr c hc)⟩
    have hglyph : run ≠ squareRoot.glyph := fun he =>
      (hself '√' (he ▸ List.mem_singleton_self '√')).1 rfl
    rw [spellOut_append_of_self hself, ofText_name_append hne hr hn,
      ofText_name_append hne hr (head?_spellOut (by decide) isNameChar_canonical hn),
      ih rest.length (length_lt_append hne) rest rfl, List.map_cons, spelled_name_of_ne hglyph]
  · have hsymbol : ∀ c ∈ squareRoot.symbol, isNameChar c = true :=
      forall_mem_of_all (by decide)
    have hspace : ∀ c ∈ (' ' :: spellOut rest).head?, isNameChar c = false := by
      intro c hc
      obtain rfl : ' ' = c := Option.some.inj hc
      rfl
    rw [spellOut_root_cons, ofText_space_cons, ofText_name_append (by decide) hsymbol hspace,
      ofText_space_cons, ofText_root_cons, ih rest.length (Nat.lt_succ_self _) rest rfl]
    rfl
  · have hroot : x ≠ '√' := by
      rintro rfl
      exact absurd hx (by decide)
    have hs : spellOut (x :: rest) = canonical x :: spellOut rest := by
      rw [spellOut_cons, spelling_of_ne hroot]
      rfl
    have hx' : IsSymbol (canonical (canonical x)) := by rwa [canonical_canonical]
    rw [hs, ofText_symbol_cons hx', ofText_symbol_cons hx, canonical_canonical,
      ih rest.length (Nat.lt_succ_self _) rest rfl]
    rfl

end Token

/-- The faults of a text and of the same text spelled out: they agree, but where the glyph of the
root is not expected, its name is not expected instead. -/
def Fault.SpelledOut (f g : Fault) : Prop :=
  f = g ∨ f = .unexpected (some ['√']) ∧ g = .unexpected (some ['s'])

theorem Token.spelledOut_first (t : Token) :
    Fault.SpelledOut (.unexpected (some [t.first])) (.unexpected (some [t.spelled.first])) := by
  rcases t with text | text | c
  · exact .inl rfl
  · by_cases h : text = Operator.squareRoot.glyph
    · subst h
      exact .inr ⟨rfl, rfl⟩
    · rw [spelled_name_of_ne h]
      exact .inl rfl
  · exact .inl rfl

/-- How the tokens of a text are read when the glyph of the root is spelled out. -/
def Resemblance.spelledOut : Resemblance where
  alike ts us := us = ts.map Token.spelled
  same := Fault.SpelledOut
  excused _ := False
  refl _ := .inl rfl
  leftover := by
    intro t u ts us h
    obtain ⟨rfl, -⟩ := List.cons.inj h
    exact t.spelledOut_first
  heads := by
    rintro (_ | ⟨t, ts⟩) _ rfl
    · exact .nil
    rcases t with text | name | c
    · exact .numeral text rfl
    · rw [List.map_cons]
      by_cases hg : name = Operator.squareRoot.glyph
      · subst hg
        exact .root rfl rfl rfl
      rw [Token.spelled_name_of_ne hg]
      cases hn : Expr.isRootName name with
      | true => exact .root hn hn rfl
      | false =>
        exact .unknown hn (.inr ⟨[], name, ⟨nofun, hn, _, rfl⟩, .inl rfl, nofun⟩)
    · exact .symbol c rfl

namespace Expr

open Operator Reading

/-- There is one tree for both, or a fault for each, and the faults are alike. -/
def ParsedAlike (first second : Except Fault Expr) : Prop :=
  (∃ tree, first = .ok tree ∧ second = .ok tree) ∨
    ∃ f g, first = .error f ∧ second = .error g ∧ f.SpelledOut g

theorem parsedAlike_of_respects {reading : Reading Expr}
    (hr : Resemblance.spelledOut.Respects reading) (text : List Char) :
    ParsedAlike (reading (Cursor.start text)).1 (reading (Cursor.start (spellOut text))).1 := by
  rcases hr.cases (Token.ofText_spellOut text) with htree | ⟨f, ht, ⟨⟨⟩⟩ | ⟨g, ho, hs⟩⟩
  · exact .inl htree
  · exact .inr ⟨f, g, ht, ho, hs⟩

/-- A text and the same text with symbols for its glyphs have the same tree, or both have a fault of
the same kind; the faults differ at most in that a name of the root is not expected, of which the
one begins with its glyph and the other with a letter. A limit to the nesting of factors, or to the
calls of a reading, changes nothing in this. -/
theorem parse_spellOut (text : List Char) :
    ParsedAlike (parse text) (parse (spellOut text)) ∧
      (∀ nesting,
        ParsedAlike (whole nesting (Cursor.start text)).1
          (whole nesting (Cursor.start (spellOut text))).1) ∧
      ∀ calls,
        ParsedAlike (wholeWithin calls (Cursor.start text)).1
          (wholeWithin calls (Cursor.start (spellOut text))).1 := by
  refine ⟨?_, fun nesting => parsedAlike_of_respects (Resemblance.respects_whole nesting) text,
    fun calls => parsedAlike_of_respects (Resemblance.respects_wholeWithin calls) text⟩
  have hn := Nat.le_add_right text.length (spellOut text).length
  have hn' := Nat.le_add_left (spellOut text).length text.length
  have h := parsedAlike_of_respects
    (Resemblance.respects_whole (text.length + (spellOut text).length + 1)) text
  rwa [whole_eq_parse (Nat.lt_succ_of_le hn), whole_eq_parse (Nat.lt_succ_of_le hn')] at h

end Expr

end Calculator
