import Calculator.Proofs.Equation.Typing

/-!
# What a key keeps and what it adds

Every key keeps the beginning of what has been typed, takes away the end, and
adds a text there. `Equation.Edit` lists what each key does, and
`Equation.Change` what can be kept and added, whatever is taken away. Whatever
holds of an empty text and of what an edit leaves holds after any run of keys,
and the rules of typing need not be opened again to show it:

* `Equation.editsTo_toggleSign`, `Equation.editsTo_raise` and their like: one
  rule;
* `Line.editsTo_editTyped`: one key;
* `Line.exists_typed_of_edits`: a run of keys, as an induction over edits;
* `Line.exists_typed_foldl`: the same, as an induction over changes.
-/

namespace Calculator

namespace Equation

/-- The key can keep the first text, take away the second one after it, and add the third one. -/
inductive Edit (key : Key) : List Char → List Char → List Char → Prop where
  | keeps {kept} : Edit key kept [] []
  | clears {removed} : Edit key [] removed []
  | deletes {kept c} (hk : key = .delete) : Edit key kept [c] []
  /-- A negative group is opened. -/
  | negative {kept} : Edit key kept [] negativeGroup
  /-- What opens a negative group is taken back. -/
  | strips {kept} (hk : key = .plusMinus) : Edit key kept negativeGroup []
  /-- The last digit is put into a negative group. -/
  | wraps {kept d} (hd : d.isDigit = true) : Edit key kept [d] (negativeGroup ++ [d])
  /-- The only digit is taken out of its negative group. -/
  | unwraps {d} (hd : d.isDigit = true) : Edit key [] (negativeGroup ++ [d]) [d]
  | power {kept exponent} (h : exponent = ['(', '2', ')'] ∨ exponent = ['(']) :
      Edit key kept [] ('^' :: exponent)
  | root {kept} : Edit key kept [] (Operator.squareRoot.symbol ++ ['('])
  | opens {kept} : Edit key kept [] ['(']
  | closes {kept} (h : kept.count '(' ≠ kept.count ')') : Edit key kept [] [')']
  /-- A character is typed, after what completes a number, or in the place of an operator. -/
  | types {kept removed zero c} (hr : ∀ d ∈ removed, d = '.' ∨ Operator.isBinaryChar d = true)
      (hz : zero ∈ [[], ['0'], ['0', '.']]) (hc : c ∈ Line.typable) (hk : key.token = [c]) :
      Edit key kept removed (zero ++ [c])

/-- From a typed text, the key can keep the first text and add the second one. -/
inductive Change (text : List Char) (key : Key) : List Char → List Char → Prop where
  /-- Characters are removed from the end, or nothing changes. -/
  | cut {kept} (h : kept <+: text) : Change text key kept []
  /-- A negative group is opened. -/
  | negative : Change text key text negativeGroup
  /-- The last digit is put into a negative group, or taken out of it. -/
  | sign {kept group d} (h : kept <+: text) (hg : group = [] ∨ group = negativeGroup)
      (hd : d.isDigit = true) : Change text key kept (group ++ [d])
  | power {exponent} (h : exponent = ['(', '2', ')'] ∨ exponent = ['(']) :
      Change text key text ('^' :: exponent)
  | root : Change text key text (Operator.squareRoot.symbol ++ ['('])
  | opens : Change text key text ['(']
  | closes (h : text.count '(' ≠ text.count ')') : Change text key text [')']
  /-- A character is typed, after what completes a number, or in the place of an operator. -/
  | types {kept zero c} (h : kept <+: text) (hz : zero ∈ [[], ['0'], ['0', '.']])
      (hc : c ∈ Line.typable) (hk : key.token = [c]) : Change text key kept (zero ++ [c])

variable {text kept removed added exponent edited : List Char} {key : Key} {c : Char}

/-- The key edits the text that has been typed. -/
def EditsTo (text : List Char) (key : Key) (edited : List Char) : Prop :=
  ∃ kept removed added, text = kept ++ removed ∧ Edit key kept removed added ∧
    edited = ofTyped (kept ++ added)

theorem Edit.to (h : Edit key kept removed added) (hn : added ≠ []) (ht : kept ++ removed = text)
    (he : kept ++ added = edited) : EditsTo text key edited := by
  have hne : kept ++ added ≠ [] := List.append_ne_nil_of_right_ne_nil kept hn
  exact ⟨kept, removed, added, ht.symm, h, by rw [ofTyped_of_ne_nil hne, he]⟩

theorem editsTo_self (text : List Char) (key : Key) : EditsTo text key (ofTyped text) :=
  ⟨text, [], [], (List.append_nil text).symm, .keeps, by rw [List.append_nil]⟩

theorem editsTo_concat (before : List Char) (c : Char) (key : Key) :
    EditsTo (before ++ [c]) key (before ++ [c]) := by
  have h := editsTo_self (before ++ [c]) key
  rwa [ofTyped_of_ne_nil (List.concat_ne_nil c before)] at h

theorem typed_ofTyped (hb : text ≠ blank) : typed (ofTyped text) = text := by
  rcases eq_or_ne text [] with rfl | hne
  · rfl
  · rw [ofTyped_of_ne_nil hne, typed, if_neg hb]

/-! ## The rules -/

theorem editsTo_deleteLast (hb : text ≠ blank) :
    EditsTo text .delete (deleteLast (ofTyped text)) := by
  rcases List.eq_nil_or_concat' text with rfl | ⟨before, c, rfl⟩
  · exact editsTo_self [] .delete
  · rw [ofTyped_of_ne_nil (List.concat_ne_nil c before), deleteLast, if_neg hb,
      List.dropLast_concat]
    exact ⟨before, [c], [], rfl, .deletes rfl, by rw [List.append_nil]⟩

theorem editsTo_openRoot (hb : text ≠ blank) (key : Key) :
    EditsTo text key (openRoot (ofTyped text)) := by
  rw [openRoot, typed_ofTyped hb, List.append_assoc]
  exact Edit.root.to (List.concat_ne_nil _ _) (List.append_nil text) rfl

theorem editsTo_openOrClose (hb : text ≠ blank) (key : Key) :
    EditsTo text key (openOrClose (ofTyped text)) := by
  unfold openOrClose
  rw [typed_ofTyped hb]
  dsimp only
  split_ifs with ho
  · exact Edit.opens.to (List.cons_ne_nil _ _) (List.append_nil text) rfl
  · have hc : text.count '(' ≠ text.count ')' := by
      intro he
      rw [he, beq_self_eq_true, Bool.true_or] at ho
      exact ho rfl
    exact (Edit.closes hc).to (List.cons_ne_nil _ _) (List.append_nil text) rfl

theorem editsTo_raise (hx : exponent = ['(', '2', ')'] ∨ exponent = ['('])
    (he : raise (ofTyped text) exponent = .ok edited) : EditsTo text key edited := by
  rcases List.eq_nil_or_concat' text with rfl | ⟨before, c, rfl⟩
  · cases he
    exact editsTo_self [] key
  rw [ofTyped_of_ne_nil (List.concat_ne_nil c before), Equation.raise, last_append] at he
  simp only [bind, Except.bind, pure, Except.pure] at he
  split_ifs at he <;> cases he
  · exact (Edit.power hx).to (List.cons_ne_nil _ _) (List.append_nil _) rfl
  · exact editsTo_concat before c key

theorem editsTo_toggleSign (hb : text ≠ blank) (he : toggleSign (ofTyped text) = .ok edited) :
    EditsTo text .plusMinus edited := by
  have hgroup : negativeGroup ≠ [] := List.cons_ne_nil _ _
  rcases List.eq_nil_or_concat' text with rfl | ⟨before, c, rfl⟩
  · cases he
    exact Edit.negative.to hgroup (List.append_nil []) rfl
  rw [ofTyped_of_ne_nil (List.concat_ne_nil c before), Equation.toggleSign, if_neg hb,
    last_append] at he
  simp only [bind, Except.bind, pure, Except.pure] at he
  split_ifs at he with hg ho hd hs <;> cases he
  · obtain ⟨kept, hk⟩ := List.isSuffixOf_iff_suffix.mp hg
    refine ⟨kept, negativeGroup, [], hk.symm, .strips rfl, ?_⟩
    rw [← hk]
    simp [negativeGroup]
  · exact Edit.negative.to hgroup (List.append_nil _) rfl
  · rw [hs]
    exact (Edit.unwraps hd).to (List.cons_ne_nil _ _) rfl rfl
  · rw [List.dropLast_concat, List.append_assoc]
    exact (Edit.wraps hd).to (List.concat_ne_nil _ _) rfl rfl
  · exact editsTo_concat before c .plusMinus

/-- A number that is completed keeps all that was typed, but for a lone point. -/
theorem editsTo_completeNumber (hc : c ∈ Line.typable) (hk : key.token = [c])
    (he : completeNumber text [c] = some edited) : EditsTo text key edited := by
  have append : ∀ zero ∈ [[], ['0'], ['0', '.']], EditsTo text key (text ++ (zero ++ [c])) := by
    intro zero hz
    have h : Edit key text [] (zero ++ [c]) := .types (by simp) hz hc hk
    exact h.to (List.concat_ne_nil _ _) (List.append_nil text) rfl
  unfold completeNumber at he
  split_ifs at he with hp <;> cases he
  · exact append ['0'] (by simp)
  · exact append [] (by simp)
  · obtain ⟨before, rfl⟩ := List.getLast?_eq_some_iff.mp hp
    have h : Edit key before ['.'] (['0', '.'] ++ [c]) := .types (by simp) (by simp) hc hk
    rw [List.dropLast_concat]
    exact h.to (List.concat_ne_nil _ _) rfl rfl

theorem editsTo_swapOperator (hne : text ≠ []) (hc : c ∈ Line.typable) (hk : key.token = [c])
    {replaced : Option (List Char)} (he : swapOperator text [c] = .ok replaced) :
    EditsTo text key (replaced.getD (text ++ [c])) := by
  have types : ∀ {kept removed}, (∀ d ∈ removed, d = '.' ∨ Operator.isBinaryChar d = true) →
      EditsTo (kept ++ removed) key (kept ++ [c]) := by
    intro kept removed hr
    have h : Edit key kept removed ([] ++ [c]) := .types hr (by simp) hc hk
    exact h.to (List.cons_ne_nil _ _) rfl rfl
  obtain ⟨before, a, rfl⟩ := (List.eq_nil_or_concat' text).resolve_left hne
  rw [swapOperator, last_append] at he
  simp only [bind, Except.bind, pure, Except.pure] at he
  split_ifs at he with ho <;> cases he
  · rw [Bool.and_eq_true] at ho
    rw [Option.getD_some, List.dropLast_concat]
    exact types (List.forall_mem_singleton.mpr (.inr ho.1))
  · have h : EditsTo (before ++ [a] ++ []) key (before ++ [a] ++ [c]) := types (by simp)
    rwa [List.append_nil] at h

theorem editsTo_typeToken (hb : text ≠ blank) (hc : c ∈ Line.typable) (hk : key.token = [c])
    (he : typeToken (ofTyped text) [c] = .ok edited) : EditsTo text key edited := by
  rcases eq_or_ne text [] with rfl | hne
  · have h : Edit key [] [] ([] ++ [c]) := .types (by simp) (by simp) hc hk
    rw [show ofTyped [] = blank from rfl, typeToken, if_pos rfl] at he
    split_ifs at he <;> cases he
    · exact editsTo_self [] key
    · exact h.to (List.cons_ne_nil _ _) rfl rfl
  · rw [ofTyped_of_ne_nil hne, typeToken, if_neg hb] at he
    split at he
    · cases he
      exact editsTo_completeNumber hc hk ‹_›
    · cases hs : swapOperator text [c] with
      | error refusal =>
        rw [hs] at he
        cases he
      | ok replaced =>
        have h := editsTo_swapOperator hne hc hk hs
        rw [hs] at he
        cases replaced <;> cases he <;> exact h

/-! ## Changes -/

/-- What an edit keeps and adds. -/
theorem Edit.change (h : Edit key kept removed added) :
    Change (kept ++ removed) key kept added := by
  have hp : kept <+: kept ++ removed := List.prefix_append kept removed
  cases h with
  | keeps | clears | deletes | strips => exact .cut hp
  | wraps hd => exact .sign hp (.inr rfl) hd
  | @unwraps d hd =>
    have h : Change _ key [] ([] ++ [d]) := .sign hp (.inl rfl) hd
    exact h
  | types hr hz hc hk => exact .types hp hz hc hk
  | negative =>
    rw [List.append_nil]
    exact .negative
  | power hx =>
    rw [List.append_nil]
    exact .power hx
  | root =>
    rw [List.append_nil]
    exact .root
  | opens =>
    rw [List.append_nil]
    exact .opens
  | closes hc =>
    rw [List.append_nil]
    exact .closes hc

/-- No change adds a space. -/
theorem Change.space_not_mem (h : Change text key kept added) (hs : ' ' ∉ text) :
    ' ' ∉ kept ++ added := by
  rw [List.mem_append, not_or]
  constructor
  · cases h with
    | cut h | sign h | types h => exact fun hm => hs (h.subset hm)
    | negative | power | root | opens | closes => exact hs
  · cases h with
    | cut => exact List.not_mem_nil
    | negative | root | opens | closes => decide
    | power h => rcases h with rfl | rfl <;> decide
    | sign _ hg hd =>
      have hn : ∀ {d : Char}, d.isDigit = true → ' ' ≠ d := by
        rintro d hd rfl
        exact absurd hd (by decide)
      rcases hg with rfl | rfl <;> simp [negativeGroup, hn hd]
    | types _ hz hc =>
      have hn : ' ' ∉ Line.typable := by decide
      simp only [List.mem_cons, List.not_mem_nil, or_false] at hz
      rcases hz with rfl | rfl | rfl <;> simp <;> rintro rfl <;> exact hn hc

end Equation

namespace Line

open Equation

variable [Host] {text : List Char}

/-- What one key makes of a typed text. -/
theorem editsTo_editTyped (hb : text ≠ blank) {error : Bool} {key : Key} {edited : Line}
    (he : editTyped ⟨ofTyped text, error⟩ key = .ok edited) :
    EditsTo text key edited.equation := by
  cases key with
  | clear | clearEntry =>
    cases he
    exact ⟨[], text, [], rfl, .clears, rfl⟩
  | delete =>
    cases he
    exact editsTo_deleteLast hb
  | equals =>
    cases he
    exact editsTo_self text .equals
  | squareRoot =>
    cases he
    exact editsTo_openRoot hb .squareRoot
  | parentheses =>
    cases he
    exact editsTo_openOrClose hb .parentheses
  | plusMinus =>
    obtain ⟨equation, hr, rfl⟩ := exists_rule_of_ok he
    exact editsTo_toggleSign hb hr
  | powerTwo =>
    obtain ⟨equation, hr, rfl⟩ := exists_rule_of_ok he
    exact editsTo_raise (.inl rfl) hr
  | powerY =>
    obtain ⟨equation, hr, rfl⟩ := exists_rule_of_ok he
    exact editsTo_raise (.inr rfl) hr
  | _ =>
    obtain ⟨equation, hr, rfl⟩ := exists_rule_of_ok he
    exact editsTo_typeToken hb (by decide) rfl hr

/-- What a run of keys leaves: whatever holds of an empty text, and of what an edit leaves of a text
of which it holds. An edit is known with the keys before it. The induction is on the keys. -/
theorem exists_typed_of_edits {P : List Char → Prop} {keys : List (Option Key)} {line : Line}
    (hl : line.equation = ofTyped text) (hs : ' ' ∉ text) (hp : P text)
    (hc : ∀ before key since kept removed added, keys = before ++ some key :: since →
      (before.foldl apply line).equation = ofTyped (kept ++ removed) → P (kept ++ removed) →
      Edit key kept removed added → P (kept ++ added)) :
    ∃ text, (keys.foldl apply line).equation = ofTyped text ∧ ' ' ∉ text ∧ P text := by
  induction keys generalizing line text with
  | nil => exact ⟨text, hl, hs, hp⟩
  | cons key keys ih =>
    have hk : ∀ before other since kept removed added, keys = before ++ some other :: since →
        (before.foldl apply (line.apply key)).equation = ofTyped (kept ++ removed) →
        P (kept ++ removed) → Edit other kept removed added → P (kept ++ added) :=
      fun before other since kept removed added he =>
        hc (key :: before) other since kept removed added (congrArg (key :: ·) he)
    cases key with
    | none => exact ih hl hs hp hk
    | some key =>
      have hb : text ≠ blank := by
        rintro rfl
        exact hs (List.mem_singleton_self ' ')
      have he := edit?_eq_ok line key
      rw [edit?, hl, ofTyped_ofTyped] at he
      obtain ⟨kept, removed, added, rfl, h, heq⟩ := editsTo_editTyped hb he
      exact ih heq (h.change.space_not_mem hs) (hc [] key keys kept removed added rfl hl hp h) hk

/-- What a run of keys leaves: whatever holds of an empty text, and of what a change leaves of a
text of which it holds. -/
theorem exists_typed_foldl {P : List Char → Prop} {keys : List (Option Key)} {line : Line}
    (hl : line.equation = ofTyped text) (hs : ' ' ∉ text) (hp : P text)
    (hc : ∀ text key kept added, some key ∈ keys → P text → Change text key kept added →
      P (kept ++ added)) :
    ∃ text, (keys.foldl apply line).equation = ofTyped text ∧ ' ' ∉ text ∧ P text := by
  refine exists_typed_of_edits hl hs hp fun before key since kept removed added hk _ ht h => ?_
  exact hc (kept ++ removed) key kept added (hk ▸ List.mem_append_cons_self) ht h.change

end Line

end Calculator
