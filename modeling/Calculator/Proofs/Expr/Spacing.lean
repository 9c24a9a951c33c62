import Calculator.Proofs.Expr.Resemblance

/-!
# Spaces between tokens

Spaces may stand wherever they do not divide a numeral or a name. Then they
keep the tokens as they are, and parsing depends on the tokens alone:

* `Token.ofText_append`: a place that is in no run divides the tokens as it
  divides the text;
* `Spaced.ofText_eq`: spaces at such places are no tokens and divide none;
* `Expr.parse_of_ofText_eq`: texts with the same tokens are parsed alike;
* `Expr.parse_spaced`: and so are a text and the same text with spaces.
-/

namespace Calculator

namespace Token

variable {run rest before after text : List Char} {p : Char → Bool}

/-- Next to one another the characters belong to one numeral, or to one name. -/
def SameRun (a b : Char) : Prop :=
  isNumeralChar a = true ∧ isNumeralChar b = true ∨ isNameChar a = true ∧ isNameChar b = true

instance (a b : Char) : Decidable (SameRun a b) := inferInstanceAs (Decidable (_ ∨ _))

/-- No run goes on from the first text to the second. -/
def Parted (before after : List Char) : Prop :=
  ∀ a ∈ before.getLast?, ∀ b ∈ after.head?, ¬ SameRun a b

theorem Parted.of_append (run : List Char) (h : Parted (run ++ rest) after) :
    Parted rest after := by
  intro a ha
  refine h a ?_
  rw [List.getLast?_append, Option.mem_def.mp ha]
  rfl

/-- A run that ends inside the first text ends there in both. -/
theorem Parted.head?_append (h : Parted (run ++ rest) after) (hne : run ≠ [])
    (hp : ∀ a b, p a = true → p b = true → SameRun a b) (hr : ∀ c ∈ run, p c = true)
    (hn : ∀ c ∈ rest.head?, p c = false) : ∀ c ∈ (rest ++ after).head?, p c = false := by
  intro c hc
  cases rest with
  | cons x rest => exact hn c hc
  | nil =>
    rw [List.append_nil] at h
    rw [Bool.eq_false_iff]
    intro hpc
    have hlast := List.getLast?_eq_some_getLast hne
    exact h _ hlast c hc (hp _ c (hr _ (List.getLast_mem hne)) hpc)

theorem length_lt_append (hne : run ≠ []) : rest.length < (run ++ rest).length := by
  rw [List.length_append]
  exact Nat.lt_add_of_pos_left (List.length_pos_of_ne_nil hne)

/-- By induction on the first text, token by token. -/
theorem ofText_append (h : Parted before after) :
    ofText (before ++ after) = ofText before ++ ofText after := by
  induction hl : before.length using Nat.strongRecOn generalizing before with
  | ind length ih =>
  subst hl
  rcases text_cases before with rfl | ⟨rest, rfl⟩ | ⟨run, rest, rfl, hne, hr, hn⟩ |
    ⟨run, rest, rfl, hne, hr, hn⟩ | ⟨rest, rfl⟩ | ⟨x, rest, rfl, hx⟩
  · rw [ofText_nil]
    rfl
  · have hrest := ih rest.length (Nat.lt_succ_self _) (.of_append [' '] h) rfl
    rw [List.cons_append, ofText_space_cons, ofText_space_cons, hrest]
  · have hrest := ih rest.length (length_lt_append hne) (.of_append run h) rfl
    have hn' := h.head?_append hne (fun _ _ ha hb => .inl ⟨ha, hb⟩) hr hn
    rw [List.append_assoc, ofText_numeral_append hne hr hn', ofText_numeral_append hne hr hn,
      hrest, List.cons_append]
  · have hrest := ih rest.length (length_lt_append hne) (.of_append run h) rfl
    have hn' := h.head?_append hne (fun _ _ ha hb => .inr ⟨ha, hb⟩) hr hn
    rw [List.append_assoc, ofText_name_append hne hr hn', ofText_name_append hne hr hn,
      hrest, List.cons_append]
  · have hrest := ih rest.length (Nat.lt_succ_self _) (.of_append ['√'] h) rfl
    rw [List.cons_append, ofText_root_cons, ofText_root_cons, hrest, List.cons_append]
  · have hrest := ih rest.length (Nat.lt_succ_self _) (.of_append [x] h) rfl
    rw [List.cons_append, ofText_symbol_cons hx, ofText_symbol_cons hx, hrest, List.cons_append]

theorem not_sameRun_space (a : Char) : ¬ SameRun a ' ' := by
  rintro (⟨-, h⟩ | ⟨-, h⟩)
  · exact absurd h (by decide)
  · exact absurd h (by decide)

theorem ofText_append_space (before after : List Char) :
    ofText (before ++ ' ' :: after) = ofText before ++ ofText after := by
  have h : Parted before (' ' :: after) := fun a _ b hb => by
    obtain rfl : ' ' = b := Option.some.inj hb
    exact not_sameRun_space a
  rw [ofText_append h, ofText_space_cons]

end Token

/-- The second text is the first one with spaces at places that divide no run. What stands before
both texts, if anything does, ends with the character `last`. -/
inductive Spaced : Option Char → List Char → List Char → Prop where
  | nil {last} : Spaced last [] []
  | keep {last text spaced} (c : Char) (h : Spaced (some c) text spaced) :
      Spaced last (c :: text) (c :: spaced)
  | space {last text spaced} (hp : ∀ a ∈ last, ∀ b ∈ text.head?, ¬ Token.SameRun a b)
      (h : Spaced last text spaced) : Spaced last text (' ' :: spaced)

namespace Spaced

variable {last : Option Char} {before text spaced : List Char}

theorem between {a b : Char} (hn : ¬ Token.SameRun a b) (h : Spaced (some a) (b :: text) spaced) :
    Spaced (some a) (b :: text) (' ' :: spaced) := by
  refine .space (fun x hx y hy => ?_) h
  rw [← Option.mem_some.mp hx, ← Option.mem_some.mp hy]
  exact hn

theorem head?_eq_or (h : Spaced last text spaced) :
    spaced.head? = text.head? ∨ spaced.head? = some ' ' := by
  cases h with
  | nil | keep => exact .inl rfl
  | space => exact .inr rfl

theorem parted (h : Spaced last text spaced) (hp : Token.Parted before text) :
    Token.Parted before spaced := by
  intro a ha b hb
  rcases h.head?_eq_or with he | he <;> rw [he] at hb
  · exact hp a ha b hb
  · obtain rfl : ' ' = b := Option.some.inj hb
    exact Token.not_sameRun_space a

/-- By induction on the second text, whatever stands before it. -/
theorem ofText_append_eq (h : Spaced last text spaced) (hl : before.getLast? = last) :
    Token.ofText (before ++ spaced) = Token.ofText (before ++ text) := by
  induction h generalizing before with
  | nil => rfl
  | @keep last text spaced c _ ih =>
    have hc := @ih (before ++ [c]) List.getLast?_concat
    rwa [List.append_assoc, List.append_assoc] at hc
  | @space last text spaced hp h ih =>
    subst hl
    rw [Token.ofText_append_space, ← Token.ofText_append (h.parted hp), ih rfl]

theorem ofText_eq (h : Spaced none text spaced) : Token.ofText spaced = Token.ofText text :=
  h.ofText_append_eq List.getLast?_nil

end Spaced

/-! ## Texts with the same tokens -/

/-- The same tokens are read alike, with the same faults. -/
def Resemblance.equal : Resemblance where
  alike ts us := ts = us
  same f g := f = g
  excused _ := False
  refl _ := rfl
  leftover h := by rw [(List.cons.inj h).1]
  heads := by
    rintro (_ | ⟨t, ts⟩) _ rfl
    · exact .nil
    cases t with
    | numeral text => exact .numeral text rfl
    | symbol x => exact .symbol x rfl
    | name name =>
      cases hn : Expr.isRootName name with
      | true => exact .root hn hn rfl
      | false => exact .unknown hn (.inr ⟨[], name, ⟨nofun, hn, ts, rfl⟩, rfl, nofun⟩)

open Reading

variable {text other : List Char}

theorem Resemblance.Respects.fst_eq {reading : Reading Expr}
    (hr : Resemblance.equal.Respects reading) (h : Token.ofText text = Token.ofText other) :
    (reading (Cursor.start text)).1 = (reading (Cursor.start other)).1 := by
  rcases hr.cases h with ⟨tree, ht, ho⟩ | ⟨f, ht, ⟨⟨⟩⟩ | ⟨g, ho, hs⟩⟩
  · rw [ht, ho]
  · rw [ht, ho, show f = g from hs]

namespace Expr

/-- Parsing depends on the tokens of a text alone. -/
theorem parse_of_ofText_eq (h : Token.ofText text = Token.ofText other) :
    parse text = parse other := by
  have ht := whole_eq_parse (Nat.lt_succ_of_le (Nat.le_add_right text.length other.length))
  have ho := whole_eq_parse (Nat.lt_succ_of_le (Nat.le_add_left other.length text.length))
  rw [← ht, ← ho, (Resemblance.respects_whole _).fst_eq h]

/-- Spaces at places that are in no numeral and in no name change nothing: the text has the same
tree, or the same fault. A limit to the nesting of factors, or to the calls of a reading, changes
nothing in this. -/
theorem parse_spaced {spaced : List Char} (h : Spaced none text spaced) :
    parse spaced = parse text ∧
      (∀ nesting,
        (whole nesting (Cursor.start spaced)).1 = (whole nesting (Cursor.start text)).1) ∧
      ∀ calls,
        (wholeWithin calls (Cursor.start spaced)).1 = (wholeWithin calls (Cursor.start text)).1 :=
  ⟨parse_of_ofText_eq h.ofText_eq,
    fun nesting => (Resemblance.respects_whole nesting).fst_eq h.ofText_eq,
    fun calls => (Resemblance.respects_wholeWithin calls).fst_eq h.ofText_eq⟩

theorem parse_spaced_of_unknown_name :
    Spaced none ['√', '2', '.', '5', '+', 'x']
        [' ', '√', ' ', ' ', '2', '.', '5', ' ', '+', 'x', ' '] ∧
      parse [' ', '√', ' ', ' ', '2', '.', '5', ' ', '+', 'x', ' '] =
        .error (.unknownFunction ['x']) := by
  have h : Spaced none ['√', '2', '.', '5', '+', 'x']
      [' ', '√', ' ', ' ', '2', '.', '5', ' ', '+', 'x', ' '] :=
    .space nofun <| .keep '√' <| .between (by decide) <| .between (by decide) <| .keep '2' <|
      .keep '.' <| .keep '5' <| .between (by decide) <| .keep '+' <| .keep 'x' <|
      .space (fun _ _ => nofun) .nil
  have hp : parse ['√', '2', '.', '5', '+', 'x'] = .error (.unknownFunction ['x']) := by rfl
  exact ⟨h, (parse_spaced h).1.trans hp⟩

end Expr

end Calculator
