import Calculator.Proofs.Expr.Resemblance
import Calculator.Proofs.Text.Replace

/-!
# The glyph of the root for its name

`Operator.rooted` writes the glyph of the root for its name, wherever the name
stands in a text, also inside a longer run of letters. A run that is the name
becomes the glyph, and is read alike. A longer run is an unknown name; it
becomes glyphs and shorter runs, and the first of these is unknown too, unless
none is left:

* `Operator.exists_repeated`: names of the root at the beginning of a run;
* `Operator.rootsBefore_rooted`: what else becomes of a run;
* `Resemblance.heads_rooted`: the first tokens of both texts;
* `Resemblance.displayed`: how the text with glyphs is read.
-/

namespace Calculator

namespace Operator

/-- The text with the glyph of the root for its name. -/
def rooted (text : List Char) : List Char := replaceAll squareRoot.symbol squareRoot.glyph text

/-- The name of the root, repeated. -/
def repeated (count : Nat) : List Char := (List.replicate count squareRoot.symbol).flatten

variable {text rest name : List Char} {c : Char} {p : Char → Bool}

theorem not_mem_symbol (h : isNameChar c = false) : c ∉ squareRoot.symbol := by
  intro hc
  have hn := forall_mem_of_all (p := fun c => isNameChar c = true)
    (l := squareRoot.symbol) (by decide) c hc
  rw [h] at hn
  cases hn

theorem rooted_append (h : ∀ c ∈ rest.head?, isNameChar c = false) :
    rooted (text ++ rest) = rooted text ++ rooted rest :=
  replaceAll_append fun c hc => not_mem_symbol (h c hc)

theorem rooted_append_of_not_name (h : ∀ c ∈ text, isNameChar c = false) :
    rooted (text ++ rest) = text ++ rooted rest :=
  replaceAll_append_of_not_mem (by decide) fun c hc => not_mem_symbol (h c hc)

theorem rooted_cons (h : isNameChar c = false) (rest : List Char) :
    rooted (c :: rest) = c :: rooted rest := by
  have hc : ∀ d ∈ [c], isNameChar d = false := by simpa using h
  exact rooted_append_of_not_name hc

theorem rooted_symbol_append (rest : List Char) :
    rooted (squareRoot.symbol ++ rest) = '√' :: rooted rest :=
  replaceAll_self_append (by decide) rest

theorem head?_rooted (hp : p '√' = false) (h : ∀ c ∈ rest.head?, p c = false) :
    ∀ c ∈ (rooted rest).head?, p c = false := by
  intro c hc
  rcases head?_replaceAll (by decide) hc with hr | hr
  · exact h c hr
  · cases hr
    exact hp

/-! ## Runs of letters -/

theorem isRootName_of_letters (hn : ∀ c ∈ name, isNameChar c = true)
    (hs : name ≠ squareRoot.symbol) : Expr.isRootName name = false := by
  rw [Expr.isRootName, Bool.or_eq_false_iff, beq_eq_false_iff_ne, beq_eq_false_iff_ne]
  refine ⟨hs, ?_⟩
  rintro rfl
  exact absurd (hn '√' (by decide)) (by decide)

/-- As many names of the root as possible are taken off the beginning of a text. -/
theorem exists_repeated (text : List Char) :
    ∃ count rest, text = repeated count ++ rest ∧ ¬ squareRoot.symbol <+: rest := by
  induction h : text.length using Nat.strongRecOn generalizing text with
  | ind length ih =>
    by_cases hp : squareRoot.symbol <+: text
    · obtain ⟨after, rfl⟩ := hp
      have hl : after.length < length := by
        rw [← h, List.length_append]
        exact Nat.lt_add_of_pos_left (by decide)
      obtain ⟨count, rest, rfl, hn⟩ := ih _ hl after rfl
      refine ⟨count + 1, rest, ?_, hn⟩
      rw [repeated, repeated, List.replicate_succ, List.flatten_cons, List.append_assoc]
    · exact ⟨0, text, rfl, hp⟩

theorem rooted_repeated (count : Nat) (rest : List Char) :
    rooted (repeated count ++ rest) = List.replicate count '√' ++ rooted rest := by
  induction count with
  | zero => rfl
  | succ count ih =>
    rw [repeated, List.replicate_succ, List.flatten_cons, List.append_assoc, rooted_symbol_append]
    exact congrArg ('√' :: ·) ih

theorem ofText_replicate_root (count : Nat) (rest : List Char) :
    Token.ofText (List.replicate count '√' ++ rest) =
      (List.replicate count squareRoot.glyph).map .name ++ Token.ofText rest := by
  induction count with
  | zero => rfl
  | succ count ih =>
    rw [List.replicate_succ, List.cons_append, Token.ofText_root_cons, ih]
    rfl

/-- What stands for a run of letters that does not begin with the name of the root is, first of all,
an unknown name. -/
theorem exists_name_rooted (hne : name ≠ []) (hn : ∀ c ∈ name, isNameChar c = true)
    (hs : ¬ squareRoot.symbol <+: name) (ha : ∀ c ∈ rest.head?, isNameChar c = false) :
    ∃ unknown us, Expr.isRootName unknown = false ∧
      Token.ofText (rooted name ++ rooted rest) = .name unknown :: us := by
  obtain ⟨kept, after, rfl, hr, ho⟩ := exists_kept squareRoot.symbol squareRoot.glyph name
  have hk : kept ≠ [] := by
    rintro rfl
    rcases ho with rfl | ho
    · exact hne rfl
    · exact hs ho
  have hkept : ∀ c ∈ kept, isNameChar c = true := fun c hc => hn c (List.mem_append_left _ hc)
  have hroot : Expr.isRootName kept = false :=
    isRootName_of_letters hkept fun he => hs (he ▸ List.prefix_append kept after)
  have hnext : ∀ c ∈ (rooted after ++ rooted rest).head?, isNameChar c = false := by
    rcases ho with rfl | ⟨z, rfl⟩
    · exact head?_rooted (by decide) ha
    · rw [rooted_symbol_append]
      intro c hc
      cases hc
      decide
  refine ⟨kept, Token.ofText (rooted after ++ rooted rest), hroot, ?_⟩
  rw [rooted, hr, List.append_assoc]
  exact Token.ofText_name_append hk hkept hnext

/-- Whatever stands for a run of letters begins with a name. -/
theorem name_rooted (hne : name ≠ []) (hn : ∀ c ∈ name, isNameChar c = true)
    (ha : ∀ c ∈ rest.head?, isNameChar c = false) :
    ∃ first us, Token.ofText (rooted (name ++ rest)) = .name first :: us := by
  obtain ⟨_ | count, after, rfl, hp⟩ := exists_repeated name
  · obtain ⟨first, us, -, ht⟩ := exists_name_rooted hne hn hp ha
    exact ⟨first, us, by rw [rooted_append ha]; exact ht⟩
  · rw [List.append_assoc, rooted_repeated, ofText_replicate_root, List.replicate_succ,
      List.map_cons, List.cons_append]
    exact ⟨squareRoot.glyph, _, rfl⟩

/-- What stands for a run of letters that is not made of names of the root only. -/
theorem rootsBefore_rooted {count : Nat} (hne : name ≠ []) (hn : ∀ c ∈ name, isNameChar c = true)
    (hs : ¬ squareRoot.symbol <+: name) (ha : ∀ c ∈ rest.head?, isNameChar c = false) :
    ∃ unknown, RootsBefore (List.replicate count squareRoot.glyph) unknown
      (Token.ofText (rooted (repeated count ++ name) ++ rooted rest)) := by
  obtain ⟨unknown, us, hu, ht⟩ := exists_name_rooted hne hn hs ha
  refine ⟨unknown, fun root hr => ?_, hu, us, ?_⟩
  · rw [List.eq_of_mem_replicate hr]
    rfl
  · rw [rooted_repeated, List.append_assoc, ofText_replicate_root, ht]

end Operator

namespace Resemblance

open Operator

variable {text rest name : List Char}

/-- The fault of an equation and that of its text with glyphs: their codes agree, unless an unknown
name has become so many roots that the second is nested too deeply. -/
def SameRooted (f g : Fault) : Prop :=
  f.code = g.code ∨
    (∃ rest, rest ≠ [] ∧ f = .unknownFunction (squareRoot.symbol ++ rest)) ∧ g = .tooDeep

/-- The unknown name is made of names of the root, and they have become roots. -/
def ExcusedRooted (f : Fault) : Prop := ∃ count, f = .unknownFunction (repeated (count + 2))

/-- The tokens that stand for an unknown name and what follows it are refused too. -/
def RefusedRooted (name : List Char) (us : List Token) : Prop :=
  ExcusedRooted (.unknownFunction name) ∨
    ∃ roots unknown, RootsBefore roots unknown us ∧
      SameRooted (.unknownFunction name) (.unknownFunction unknown) ∧
      (roots ≠ [] → SameRooted (.unknownFunction name) .tooDeep)

/-- The tokens of an equation and those of its text with glyphs. -/
def AlikeRooted (ts us : List Token) : Prop :=
  ∃ text, ts = Token.ofText text ∧ us = Token.ofText (rooted text)

/-- What stands for a run of letters that is no name of the root. -/
theorem refused_rooted (hne : name ≠ []) (hn : ∀ c ∈ name, isNameChar c = true)
    (hs : name ≠ squareRoot.symbol) (ha : ∀ c ∈ rest.head?, isNameChar c = false) :
    RefusedRooted name (Token.ofText (rooted (name ++ rest))) := by
  obtain ⟨count, after, rfl, hp⟩ := exists_repeated name
  rcases eq_or_ne after [] with rfl | hafter
  · left
    obtain _ | _ | count := count
    · exact absurd rfl hne
    · exact absurd rfl hs
    · exact ⟨count, by rw [List.append_nil]⟩
  · right
    have hletters : ∀ c ∈ after, isNameChar c = true := fun c hc =>
      hn c (List.mem_append_right _ hc)
    obtain ⟨unknown, hb⟩ := rootsBefore_rooted hafter hletters hp ha
    rw [← rooted_append ha] at hb
    refine ⟨_, unknown, hb, .inl rfl, fun hroots => .inr ⟨?_, rfl⟩⟩
    obtain _ | count := count
    · exact absurd rfl hroots
    · refine ⟨repeated count ++ after, fun he => hafter (List.append_eq_nil_iff.mp he).2, ?_⟩
      rw [← List.append_assoc]
      rfl

/-- How a text and its text with glyphs begin, by their first token; the induction is for the
spaces before it. -/
theorem heads_rooted (text : List Char) :
    Heads AlikeRooted RefusedRooted (Token.ofText text) (Token.ofText (rooted text)) := by
  induction text with
  | nil =>
    rw [rooted, replaceAll, replaceFrom, Token.ofText_nil]
    exact .nil
  | cons x text ih =>
    rcases Token.text_cases (x :: text) with h | ⟨rest, h⟩ | ⟨run, rest, h, hne, hr, ha⟩ |
      ⟨run, rest, h, hne, hr, ha⟩ | ⟨rest, h⟩ | ⟨y, rest, h, hy⟩
    · cases h
    · cases h
      rw [rooted_cons (by decide), Token.ofText_space_cons, Token.ofText_space_cons]
      exact ih
    · have hn : ∀ c ∈ run, isNameChar c = false := fun c hc =>
        Cursor.not_name_of_numeral (hr c hc)
      rw [h, rooted_append_of_not_name hn, Token.ofText_numeral_append hne hr ha,
        Token.ofText_numeral_append hne hr (head?_rooted (by decide) ha)]
      exact .numeral run ⟨rest, rfl, rfl⟩
    · rw [h, Token.ofText_name_append hne hr ha]
      rcases eq_or_ne run squareRoot.symbol with rfl | hs
      · rw [rooted_symbol_append, Token.ofText_root_cons]
        exact .root rfl rfl ⟨rest, rfl, rfl⟩
      · obtain ⟨first, us, ht⟩ := name_rooted hne hr ha
        have hrefused := refused_rooted hne hr hs ha
        rw [ht] at hrefused ⊢
        exact .unknown (isRootName_of_letters hr hs) hrefused
    · rw [h, rooted_cons (by decide), Token.ofText_root_cons, Token.ofText_root_cons]
      exact .root rfl rfl ⟨rest, rfl, rfl⟩
    · rw [h, rooted_cons (by rw [← isNameChar_canonical]; exact hy.2.2.1),
        Token.ofText_symbol_cons hy, Token.ofText_symbol_cons hy]
      exact .symbol _ ⟨rest, rfl, rfl⟩

/-- How an equation and its text with glyphs are read. -/
def displayed : Resemblance where
  alike := AlikeRooted
  same := SameRooted
  excused := ExcusedRooted
  refl _ := .inl rfl
  leftover _ := .inl rfl
  heads := by
    rintro _ _ ⟨text, rfl, rfl⟩
    exact heads_rooted text

end Resemblance

end Calculator
