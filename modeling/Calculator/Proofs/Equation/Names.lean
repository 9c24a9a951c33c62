import Calculator.Proofs.Equation.Failure
import Calculator.Proofs.Equation.Spelling
import Calculator.Proofs.Expr.Glyph
import Calculator.State

/-!
# Names of functions that stay whole

The name of the root is typed with its parenthesis, and without `Del` no letter
is taken from it. Only its parenthesis can be lost: after `√` and `-`, the
equation ends as if a negative group had just been opened, and `+-` takes this
group back. As long as this does not happen, no function is unknown; and if it
does, an unknown function is the name of the root again and again.

* `Equation.Composed.edit`: what one edit preserves, for the name alone and for
  the name with its parenthesis;
* `Equation.Composed.strips`: the parenthesis is kept;
* `Equation.Composed.exists_word`, `Equation.Composed.exists_call`: where the letters of
  such equations stand;
* `Equation.Composed.exists_repeated_of_mem`, `Equation.Composed.eq_symbol_of_mem`:
  the names among their tokens;
* `State.names_intact`: any run of keys without `Del`.
-/

namespace Calculator

namespace Equation

open Operator (repeated)

/-- The text is put together from signs and from one word. -/
inductive Composed (word : List Char) : List Char → Prop where
  | nil : Composed word []
  | sign {c rest} (hc : IsSign c) (h : Composed word rest) : Composed word (c :: rest)
  | word {rest} (h : Composed word rest) : Composed word (word ++ rest)

/-- The name of the root, with or without its parenthesis. -/
def IsRootWord (word : List Char) : Prop :=
  word = Operator.squareRoot.symbol ∨ word = Operator.squareRoot.symbol ++ ['(']

variable {word text kept removed added before after name rest : List Char} {key : Key} {c : Char}

/-! ## What keys other than `Del` keep -/

theorem Composed.append (h : Composed word text) (ha : Composed word added) :
    Composed word (text ++ added) := by
  induction h with
  | nil => exact ha
  | sign hc _ ih => exact ih.sign hc
  | word _ ih =>
    rw [List.append_assoc]
    exact ih.word

theorem composed_of_isSign (h : ∀ c ∈ text, IsSign c) : Composed word text := by
  induction text with
  | nil => exact .nil
  | cons c text ih =>
    obtain ⟨hc, ht⟩ := List.forall_mem_cons.mp h
    exact (ih ht).sign hc

/-- The last character is a sign, or the last one of the word. -/
theorem Composed.concat_cases (h : Composed word text) (he : text = kept ++ [c]) :
    IsSign c ∧ Composed word kept ∨ word <:+ text := by
  induction h generalizing kept with
  | nil => exact absurd he.symm (List.concat_ne_nil c kept)
  | sign hd hr ih =>
    rcases kept with _ | ⟨x, kept⟩
    · cases he
      exact .inl ⟨hd, .nil⟩
    · obtain ⟨rfl, hrest⟩ := List.cons.inj he
      exact (ih hrest).imp (And.imp_right fun hk => hk.sign hd) fun hs =>
        hs.trans (List.suffix_cons _ _)
  | @word rest hr ih =>
    rcases List.eq_nil_or_concat' rest with rfl | ⟨start, x, rfl⟩
    · exact .inr (by rw [List.append_nil])
    · rw [← List.append_assoc] at he
      obtain ⟨rfl, hx⟩ := List.append_inj' he rfl
      rw [List.cons.inj hx |>.1] at ih ⊢
      exact (ih rfl).imp (And.imp_right fun hk => hk.word) fun hs =>
        hs.trans (List.suffix_append _ _)

theorem mem_of_suffix_concat (hne : word ≠ []) (h : word <:+ kept ++ [c]) : c ∈ word := by
  rcases List.suffix_concat_iff.mp h with rfl | ⟨front, rfl, -⟩
  · exact absurd rfl hne
  · exact List.mem_append_right front (List.mem_singleton_self c)

/-- What is not in the word can be taken off the end. -/
theorem Composed.cut (hne : word ≠ []) (h : Composed word (kept ++ removed))
    (hr : ∀ c ∈ removed, c ∉ word) : Composed word kept := by
  induction removed generalizing kept with
  | nil => rwa [List.append_nil] at h
  | cons c removed ih =>
    obtain ⟨hc, hrest⟩ := List.forall_mem_cons.mp hr
    rw [List.append_cons] at h
    rcases (ih h hrest).concat_cases rfl with ⟨-, hk⟩ | hs
    · exact hk
    · exact absurd (mem_of_suffix_concat hne hs) hc

theorem IsRootWord.ne_nil (hw : IsRootWord word) : word ≠ [] := by
  rcases hw with rfl | rfl <;> decide

theorem IsRootWord.not_mem (hw : IsRootWord word) (hn : isNameChar c = false) (hp : c ≠ '(') :
    c ∉ word := by
  have hs := Operator.not_mem_symbol hn
  rcases hw with rfl | rfl
  · exact hs
  · simpa [hs] using hp

theorem composed_root (hw : IsRootWord word) :
    Composed word (Operator.squareRoot.symbol ++ ['(']) := by
  have h : Composed word (word ++ []) := .word .nil
  rw [List.append_nil] at h
  rcases hw with rfl | rfl
  · exact h.append (composed_of_isSign (forall_mem_of_all (by decide)))
  · exact h

theorem IsRootWord.not_mem_of_isDigit (hw : IsRootWord word) (h : c.isDigit = true) :
    c ∉ word := by
  refine hw.not_mem (isNameChar_of_isSign (.inl h)) ?_
  rintro rfl
  cases h

theorem IsRootWord.not_mem_of_replaced (hw : IsRootWord word)
    (h : c = '.' ∨ Operator.isBinaryChar c = true) : c ∉ word := by
  simp only [Operator.isBinaryChar, Bool.or_eq_true, beq_iff_eq, or_assoc] at h
  rcases h with rfl | rfl | rfl | rfl | rfl | rfl | rfl <;> exact hw.not_mem (by decide) (by decide)

/-- What one edit preserves. Where the opening of a negative group is taken back, it must not be
the end of a word. -/
theorem Composed.edit (hw : IsRootWord word) (h : Composed word (kept ++ removed))
    (he : Edit key kept removed added) (hd : key ≠ .delete)
    (hs : key = .plusMinus → removed = negativeGroup → Composed word kept) :
    Composed word (kept ++ added) := by
  have hgroup : ∀ c ∈ negativeGroup, IsSign c := forall_mem_of_all (by decide)
  have hdigit {d : Char} (hd : d.isDigit = true) : ∀ c ∈ [d], IsSign c :=
    List.forall_mem_singleton.mpr (.inl hd)
  cases he with
  | keeps => exact h
  | clears => exact .nil
  | deletes hk => exact absurd hk hd
  | strips hk =>
    rw [List.append_nil]
    exact hs hk rfl
  | unwraps hd => exact composed_of_isSign (hdigit hd)
  | wraps hd =>
    have hk := h.cut hw.ne_nil (List.forall_mem_singleton.mpr (hw.not_mem_of_isDigit hd))
    exact hk.append (composed_of_isSign (List.forall_mem_append.mpr ⟨hgroup, hdigit hd⟩))
  | types hr hz hc =>
    have hk := h.cut hw.ne_nil fun c hc => hw.not_mem_of_replaced (hr c hc)
    refine hk.append (composed_of_isSign (List.forall_mem_append.mpr ⟨?_, ?_⟩))
    · simp only [List.mem_cons, List.not_mem_nil, or_false] at hz
      rcases hz with rfl | rfl | rfl <;> exact forall_mem_of_all (by decide)
    · exact List.forall_mem_singleton.mpr (isSign_of_typable hc)
  | root =>
    rw [List.append_nil] at h
    exact h.append (composed_root hw)
  | power hx =>
    rw [List.append_nil] at h
    rcases hx with rfl | rfl <;> exact h.append (composed_of_isSign (forall_mem_of_all (by decide)))
  | negative | opens | closes =>
    rw [List.append_nil] at h
    exact h.append (composed_of_isSign (forall_mem_of_all (by decide)))

/-- The parenthesis of the name is kept where a group before it is taken back. -/
theorem Composed.strips
    (h : Composed (Operator.squareRoot.symbol ++ ['(']) (kept ++ negativeGroup))
    (hn : ¬ Operator.squareRoot.symbol ++ negativeGroup <:+ kept ++ negativeGroup) :
    Composed (Operator.squareRoot.symbol ++ ['(']) kept := by
  have hopen : Composed (Operator.squareRoot.symbol ++ ['(']) (kept ++ ['(']) := by
    rw [negativeGroup, List.append_cons kept '(' ['-']] at h
    exact h.cut (by decide) (forall_mem_of_all (by decide))
  rcases hopen.concat_cases rfl with ⟨-, hk⟩ | ⟨start, he⟩
  · exact hk
  · refine absurd ⟨start, ?_⟩ hn
    have hm := congrArg (· ++ ['-']) he
    rw [List.append_assoc, List.append_assoc, List.append_assoc] at hm
    exact hm

/-! ## Letters -/

/-- A letter belongs to a word. -/
theorem Composed.exists_word (h : Composed word text) (hc : ¬ IsSign c)
    (he : text = before ++ c :: after) :
    ∃ start first rest tail, Composed word start ∧ before = start ++ first ∧
      after = rest ++ tail ∧ first ++ c :: rest = word := by
  induction h generalizing before with
  | nil => exact absurd he.symm (List.append_ne_nil_of_right_ne_nil _ (List.cons_ne_nil _ _))
  | sign hd _ ih =>
    rcases before with _ | ⟨x, before⟩
    · obtain ⟨rfl, -⟩ := List.cons.inj he
      exact absurd hd hc
    · obtain ⟨rfl, hrest⟩ := List.cons.inj he
      obtain ⟨start, first, rest, tail, hs, rfl, ha, hword⟩ := ih hrest
      exact ⟨_ :: start, first, rest, tail, hs.sign hd, rfl, ha, hword⟩
  | word hr ih =>
    rcases List.append_eq_append_iff.mp he with ⟨more, rfl, hrest⟩ | ⟨more, hword, hrest⟩
    · obtain ⟨start, first, rest, tail, hs, rfl, ha, hf⟩ := ih hrest
      exact ⟨word ++ start, first, rest, tail, hs.word, by rw [List.append_assoc], ha, hf⟩
    · rcases more with _ | ⟨x, more⟩
      · rw [List.append_nil] at hword
        have hrest : _ = [] ++ c :: after := hrest.symm
        obtain ⟨start, first, rest, tail, hs, hnil, ha, hf⟩ := ih hrest
        exact ⟨word ++ start, first, rest, tail, hs.word,
          by rw [List.append_assoc, ← hnil, List.append_nil, hword], ha, hf⟩
      · obtain ⟨rfl, ha⟩ := List.cons.inj hrest
        exact ⟨[], before, more, _, .nil, rfl, ha, hword.symm⟩

theorem Composed.isSign_of_getLast (h : Composed (Operator.squareRoot.symbol ++ ['(']) text) :
    ∀ d ∈ text.getLast?, IsSign d := by
  intro d hd
  obtain ⟨kept, rfl⟩ := List.getLast?_eq_some_iff.mp hd
  rcases h.concat_cases rfl with ⟨hs, -⟩ | hs
  · exact hs
  · rcases List.suffix_concat_iff.mp hs with hnil | ⟨front, he, -⟩
    · cases hnil
    · obtain ⟨-, hl⟩ := List.append_inj' he rfl
      rw [← (List.cons.inj hl).1]
      decide

/-- Where each name of the root has its parenthesis, a letter belongs to a name that has one and
that follows a sign, if anything. -/
theorem Composed.exists_call (h : Composed (Operator.squareRoot.symbol ++ ['(']) text)
    (hc : ¬ IsSign c) (he : text = before ++ c :: after) :
    ∃ start first rest tail, before = start ++ first ∧ after = rest ++ '(' :: tail ∧
      first ++ c :: rest = Operator.squareRoot.symbol ∧ ∀ d ∈ start.getLast?, IsSign d := by
  obtain ⟨start, first, rest, tail, hstart, rfl, rfl, hword⟩ := h.exists_word hc he
  -- The word ends with its parenthesis, which is no letter.
  rcases List.eq_nil_or_concat' rest with rfl | ⟨rest, x, rfl⟩
  · obtain ⟨-, hx⟩ := List.append_inj' hword rfl
    rw [(List.cons.inj hx).1] at hc
    exact absurd (by decide) hc
  · rw [← List.cons_append, ← List.append_assoc] at hword
    obtain ⟨hname, hx⟩ := List.append_inj' hword rfl
    refine ⟨start, first, rest, tail, rfl, ?_, hname, hstart.isSign_of_getLast⟩
    rw [hx, List.append_assoc]
    rfl

/-! ## Names -/

/-- A sign before a text adds no name to it. -/
theorem name_mem_of_sign (hc : IsSign c) (h : .name name ∈ Token.ofText (c :: rest)) :
    .name name ∈ Token.ofText rest := by
  rcases Token.text_cases (c :: rest) with he | ⟨after, he⟩ | ⟨run, after, he, hne, hr, ha⟩ |
    ⟨run, after, he, hne, hr, -⟩ | ⟨after, he⟩ | ⟨x, after, he, hx⟩
  · cases he
  · cases he
    exact absurd hc (by decide)
  · rw [he, Token.ofText_numeral_append hne hr ha] at h
    have hm := (List.mem_cons.mp h).resolve_left nofun
    obtain ⟨x, run, rfl⟩ := List.exists_cons_of_ne_nil hne
    obtain ⟨-, rfl⟩ := List.cons.inj he
    rcases eq_or_ne run [] with rfl | hne
    · exact hm
    · have ht := Token.ofText_numeral_append hne (List.forall_mem_cons.mp hr).2 ha
      exact ht ▸ List.mem_cons_of_mem _ hm
  · obtain ⟨x, run, rfl⟩ := List.exists_cons_of_ne_nil hne
    obtain ⟨rfl, -⟩ := List.cons.inj he
    have hn := hr c List.mem_cons_self
    rw [isNameChar_of_isSign hc] at hn
    cases hn
  · cases he
    exact absurd hc (by decide)
  · obtain ⟨rfl, rfl⟩ := List.cons.inj he
    rw [Token.ofText_symbol_cons hx] at h
    exact (List.mem_cons.mp h).resolve_left nofun

theorem repeated_succ (count : Nat) (rest : List Char) :
    repeated (count + 1) ++ rest = repeated count ++ (Operator.squareRoot.symbol ++ rest) := by
  rw [repeated, repeated, List.replicate_succ', List.flatten_append, List.flatten_singleton,
    List.append_assoc]

/-- Names of the root that no letter follows are one name. -/
theorem name_mem_of_repeated {count : Nat} (ha : ∀ c ∈ rest.head?, isNameChar c = false)
    (h : .name name ∈ Token.ofText (repeated count ++ rest)) :
    (∃ count, name = repeated (count + 1)) ∨ .name name ∈ Token.ofText rest := by
  cases count with
  | zero => exact .inr h
  | succ count =>
    have hne : repeated (count + 1) ≠ [] := List.cons_ne_nil _ _
    have hr : ∀ c ∈ repeated (count + 1), isNameChar c = true := by
      intro c hc
      obtain ⟨piece, hp, hc⟩ := List.mem_flatten.mp hc
      rw [List.eq_of_mem_replicate hp] at hc
      exact forall_mem_of_all (p := fun c => isNameChar c = true) (by decide) c hc
    rw [Token.ofText_name_append hne hr ha] at h
    exact (List.mem_cons.mp h).imp_left fun hn => ⟨count, Token.name.inj hn⟩

/-- The names of a text that is put together from signs and names of the root; the induction is for
names of the root before the text. -/
theorem Composed.exists_repeated_of_mem {count : Nat}
    (h : Composed Operator.squareRoot.symbol text)
    (hm : .name name ∈ Token.ofText (repeated count ++ text)) :
    ∃ count, name = repeated (count + 1) := by
  induction h generalizing count with
  | nil =>
    refine (name_mem_of_repeated (by simp) hm).resolve_right ?_
    rw [Token.ofText_nil]
    exact List.not_mem_nil
  | @sign c rest hc _ ih =>
    have ha : ∀ d ∈ (c :: rest).head?, isNameChar d = false := by
      simpa using isNameChar_of_isSign hc
    rcases name_mem_of_repeated ha hm with hn | hm
    · exact hn
    · have hz : .name name ∈ Token.ofText (repeated 0 ++ rest) := name_mem_of_sign hc hm
      exact ih hz
  | word _ ih =>
    rw [← repeated_succ] at hm
    exact ih hm

/-- Where each name of the root has its parenthesis, it is the only name. -/
theorem Composed.eq_symbol_of_mem (h : Composed (Operator.squareRoot.symbol ++ ['(']) text)
    (hm : .name name ∈ Token.ofText text) : name = Operator.squareRoot.symbol := by
  induction h with
  | nil =>
    rw [Token.ofText_nil] at hm
    exact absurd hm List.not_mem_nil
  | sign hc _ ih => exact ih (name_mem_of_sign hc hm)
  | @word rest _ ih =>
    have hr : ∀ c ∈ Operator.squareRoot.symbol, isNameChar c = true :=
      forall_mem_of_all (by decide)
    have ha : ∀ c ∈ ('(' :: rest).head?, isNameChar c = false := by
      simp only [List.head?_cons, Option.mem_some_iff, forall_eq']
      decide
    rw [List.append_assoc, List.singleton_append,
      Token.ofText_name_append (by decide) hr ha] at hm
    rcases List.mem_cons.mp hm with hn | hm
    · exact Token.name.inj hn
    · exact ih (name_mem_of_sign (by decide) hm)

/-- A function that is unknown is one of the names of the equation. -/
theorem ofText_ofTyped (text : List Char) : Token.ofText (ofTyped text) = Token.ofText text := by
  rcases eq_or_ne text [] with rfl | hne
  · rw [show ofTyped [] = [' '] from rfl, Token.ofText_space_cons]
  · rw [ofTyped_of_ne_nil hne]

theorem eq_of_ofTyped (h : ofTyped text = before ++ c :: after) (hc : c ≠ ' ') :
    text = before ++ c :: after := by
  rcases eq_or_ne text [] with rfl | hne
  · have hm : c ∈ ofTyped [] := h ▸ List.mem_append_cons_self
    exact absurd (List.mem_singleton.mp hm) hc
  · rwa [ofTyped_of_ne_nil hne] at h

variable [Host]

theorem name_mem_of_calculate {equation : List Char} {known : Option (List Char)}
    (h : calculate equation = .error ⟨.unknownFunction name, known⟩) :
    .name name ∈ Token.ofText equation ∧ Expr.isRootName name = false := by
  have he := calculate_eq_error_iff.mp h
  obtain rfl : known = some equation := evaluate_equation he
  obtain ⟨-, -, hf | ⟨us, tree, t, vs, -, -, -, hf⟩⟩ := (evaluate_eq_error_iff ⟨rfl, rfl⟩).mp he
  · exact hf.name_mem rfl
  · cases hf

end Equation

namespace Line

open Equation

variable {keys : List (Option Key)}

theorem ne_delete_of_split {before since : List (Option Key)} {key : Key}
    (hd : some .delete ∉ keys) (hk : keys = before ++ some key :: since) : key ≠ .delete := by
  rintro rfl
  exact hd (hk ▸ List.mem_append_cons_self)

variable [Host]

/-- At some time `+-` is pressed where the equation ends with the name of the root, its parenthesis
and a minus. -/
def StripsRoot (keys : List (Option Key)) : Prop :=
  ∃ before since, keys = before ++ some .plusMinus :: since ∧
    Operator.squareRoot.symbol ++ negativeGroup <:+ (before.foldl apply initial).equation

theorem stripsRoot_iff : StripsRoot keys ↔
    ∃ n, n < keys.length ∧ keys[n]? = some (some .plusMinus) ∧
      Operator.squareRoot.symbol ++ negativeGroup <:+
        ((keys.take n).foldl apply initial).equation := by
  constructor
  · rintro ⟨before, since, rfl, hs⟩
    exact ⟨before.length, by simp, by simp, by simpa using hs⟩
  · rintro ⟨n, hn, hk, hs⟩
    refine ⟨keys.take n, keys.drop (n + 1), ?_, hs⟩
    rw [List.getElem?_eq_getElem hn] at hk
    rw [← Option.some.inj hk, ← List.drop_eq_getElem_cons hn, List.take_append_drop]

instance : DecidablePred StripsRoot := fun _ => decidable_of_iff _ stripsRoot_iff.symm

/-- What a run of keys leaves is put together from names of the root. -/
theorem composed_symbol (hd : some .delete ∉ keys) :
    ∃ text, (keys.foldl apply initial).equation = ofTyped text ∧
      Composed Operator.squareRoot.symbol text := by
  have hl : initial.equation = ofTyped [] := rfl
  have hn : Composed Operator.squareRoot.symbol [] := .nil
  obtain ⟨text, he, -, hc⟩ := exists_typed_of_edits hl List.not_mem_nil hn
    fun before key since kept removed added hk _ h hedit => by
      refine h.edit (.inl rfl) hedit (ne_delete_of_split hd hk) fun _ hr => ?_
      exact h.cut (by decide) (hr ▸ forall_mem_of_all (by decide))
  exact ⟨text, he, hc⟩

/-- What a run of keys leaves is put together from names of the root with their parentheses. -/
theorem composed_call (hd : some .delete ∉ keys) (hs : ¬ StripsRoot keys) :
    ∃ text, (keys.foldl apply initial).equation = ofTyped text ∧
      Composed (Operator.squareRoot.symbol ++ ['(']) text := by
  have hl : initial.equation = ofTyped [] := rfl
  have hn : Composed (Operator.squareRoot.symbol ++ ['(']) [] := .nil
  obtain ⟨text, he, -, hc⟩ := exists_typed_of_edits hl List.not_mem_nil hn
    fun before key since kept removed added hk heq h hedit => by
      refine h.edit (.inr rfl) hedit (ne_delete_of_split hd hk) ?_
      rintro rfl rfl
      refine h.strips fun hsuffix => hs ⟨before, since, hk, ?_⟩
      rwa [heq, ofTyped_of_ne_nil (List.append_ne_nil_of_right_ne_nil _ (by decide))]
  exact ⟨text, he, hc⟩

end Line

namespace State

open Equation

section

variable [Host]

theorem calculate_of_solve {state : State} {failure : Failure} (h : state.solve.2 = some failure) :
    calculate state.equation = .error failure := by
  unfold solve at h
  split at h <;> cases h
  assumption

/-- After a run of keys without `Del`, every letter belongs to a whole name of the root, and a
function that is unknown is this name again and again. Unless `+-` has been pressed where a name
with its parenthesis and a minus ended the equation, each name has its parenthesis and follows no
letter, and no function is unknown. -/
theorem names_intact {keys : List (Option Key)} {state : State} (hd : some .delete ∉ keys)
    (hl : state.line = keys.foldl Line.apply Line.initial) :
    (∀ before c after, state.equation = before ++ c :: after → c ≠ ' ' → ¬ IsSign c →
      ∃ start first rest tail, before = start ++ first ∧ after = rest ++ tail ∧
        first ++ c :: rest = Operator.squareRoot.symbol) ∧
    (∀ name known, state.solve.2 = some ⟨.unknownFunction name, known⟩ →
      ∃ count, name = Operator.repeated (count + 2)) ∧
    (¬ Line.StripsRoot keys →
      (∀ before c after, state.equation = before ++ c :: after → c ≠ ' ' → ¬ IsSign c →
        ∃ start first rest tail, before = start ++ first ∧ after = rest ++ '(' :: tail ∧
          first ++ c :: rest = Operator.squareRoot.symbol ∧ ∀ d ∈ start.getLast?, IsSign d) ∧
      ∀ name known, state.solve.2 ≠ some ⟨.unknownFunction name, known⟩) := by
  have he : state.equation = (keys.foldl Line.apply Line.initial).equation :=
    congrArg Line.equation hl
  refine ⟨fun before c after heq hb hc => ?_, fun name known h => ?_, fun hs => ?_⟩
  · obtain ⟨text, ht, hcomposed⟩ := Line.composed_symbol hd
    rw [he, ht] at heq
    obtain ⟨start, first, rest, tail, -, hword⟩ :=
      hcomposed.exists_word hc (eq_of_ofTyped heq hb)
    exact ⟨start, first, rest, tail, hword⟩
  · obtain ⟨text, ht, hcomposed⟩ := Line.composed_symbol hd
    obtain ⟨hm, hroot⟩ := name_mem_of_calculate (calculate_of_solve h)
    rw [he, ht, ofText_ofTyped] at hm
    have hz : .name name ∈ Token.ofText (Operator.repeated 0 ++ text) := hm
    obtain ⟨_ | count, rfl⟩ := hcomposed.exists_repeated_of_mem hz
    · cases hroot
    · exact ⟨count, rfl⟩
  · obtain ⟨text, ht, hcomposed⟩ := Line.composed_call hd hs
    refine ⟨fun before c after heq hb hc => ?_, fun name known h => ?_⟩
    · rw [he, ht] at heq
      exact hcomposed.exists_call hc (eq_of_ofTyped heq hb)
    · obtain ⟨hm, hroot⟩ := name_mem_of_calculate (calculate_of_solve h)
      rw [he, ht, ofText_ofTyped] at hm
      rw [hcomposed.eq_symbol_of_mem hm] at hroot
      cases hroot

end

/-- The argument of the root in `square(-(-9))` is negated twice, and the name keeps its
parenthesis. -/
theorem names_intact_of_negated_argument :
    let keys := [.squareRoot, .subtract, .nine, .plusMinus, .closeParenthesis,
      .closeParenthesis].map some
    let state : State := ⟨"square(-(-9))".toList, false, ['0']⟩
    some .delete ∉ keys ∧ state.line = keys.foldl Line.apply Line.initial ∧
      ¬ Line.StripsRoot keys ∧
      (∃ start first rest tail, "squar".toList = start ++ first ∧
        "(-(-9))".toList = rest ++ '(' :: tail ∧
        first ++ 'e' :: rest = Operator.squareRoot.symbol ∧ ∀ d ∈ start.getLast?, IsSign d) ∧
      ∀ name known, state.solve.2 ≠ some ⟨.unknownFunction name, known⟩ := by
  intro keys state
  have hd : some .delete ∉ keys := by decide
  have hl : state.line = keys.foldl Line.apply Line.initial := by decide
  have hs : ¬ Line.StripsRoot keys := by decide
  obtain ⟨hletters, hnames⟩ := (names_intact hd hl).2.2 hs
  exact ⟨hd, hl, hs, hletters _ 'e' _ rfl (by decide) (by decide), hnames⟩

/-- Without `Del`, `+-` takes back the parenthesis of the name with the minus after it, and the name
that is typed next is joined to what is left. -/
theorem name_joined_without_delete :
    let keys := [.squareRoot, .subtract, .plusMinus].map some
    let joined := keys ++ [.squareRoot, .nine, .closeParenthesis].map some
    some .delete ∉ joined ∧
      (keys.foldl Line.apply Line.initial).equation = "squar".toList ++ ['e'] ∧
      (¬ ∃ start first rest tail, "squar".toList = start ++ first ∧ [] = rest ++ '(' :: tail ∧
        first ++ 'e' :: rest = Operator.squareRoot.symbol ∧
        ∀ d ∈ start.getLast?, d.isAlpha = false) ∧
      (joined.foldl Line.apply Line.initial).equation = "squaresquare(9)".toList ∧
      (State.solve ⟨"squaresquare(9)".toList, false, ['0']⟩).2 =
        some ⟨.unknownFunction "squaresquare".toList, some "squaresquare(9)".toList⟩ := by
  refine ⟨by decide, by decide, ?_, by decide, by decide +kernel⟩
  rintro ⟨start, first, rest, tail, -, ha, -⟩
  exact absurd ha.symm (List.append_ne_nil_of_right_ne_nil rest (List.cons_ne_nil _ _))

end State

end Calculator
