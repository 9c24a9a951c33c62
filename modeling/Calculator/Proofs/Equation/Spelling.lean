import Calculator.Proofs.Equation.Change
import Calculator.Proofs.Expr.Token

/-!
# What a typed equation is written with

A typed equation is made of digits, points, parentheses, operators and powers,
and of beginnings of the name of the root: the name is typed as a whole, but
can be cut off anywhere and typed again. `Equation.Spelled` says that a text is
put together from these pieces. It survives cutting and adding, and from it
follows what a run of letters in an equation can be.

* `Equation.Spelled.change`: what one change preserves;
* `Equation.Spelled.exists_starts`: a run of letters consists of beginnings of the name;
* `Line.equation_spelled`: the equation after any run of keys.
-/

namespace Calculator

namespace Equation

/-- A character of an equation that is no letter. -/
def IsSign (c : Char) : Prop :=
  c.isDigit = true ∨ c ∈ ['.', '(', ')', '+', '-', '*', '/', '^']

instance (c : Char) : Decidable (IsSign c) := inferInstanceAs (Decidable (_ ∨ _))

/-- A beginning of the name of the root. -/
def IsStart (text : List Char) : Prop := text ≠ [] ∧ text <+: Operator.squareRoot.symbol

instance (text : List Char) : Decidable (IsStart text) := inferInstanceAs (Decidable (_ ∧ _))

/-- A sign, or a beginning of the name of the root. -/
def IsPiece (text : List Char) : Prop := (∃ c, IsSign c ∧ text = [c]) ∨ IsStart text

/-- The text is put together from signs and beginnings of the name of the root. -/
def Spelled (text : List Char) : Prop :=
  ∃ pieces : List (List Char), text = pieces.flatten ∧ ∀ piece ∈ pieces, IsPiece piece

variable {text kept added before run after piece : List Char} {key : Key} {c : Char}

/-! ## Signs and letters -/

theorem isNameChar_of_isSign (h : IsSign c) : isNameChar c = false := by
  rcases h with hd | hm
  · exact Cursor.not_name_of_numeral (Cursor.isNumeralChar_of_isDigit hd)
  · exact forall_mem_of_all (p := fun c => isNameChar c = false) (by decide) c hm

theorem isSign_of_typable (h : c ∈ Line.typable) : IsSign c :=
  forall_mem_of_all (by decide) c h

theorem isNameChar_of_isStart (h : IsStart text) : ∀ c ∈ text, isNameChar c = true := by
  intro c hc
  exact forall_mem_of_all (p := fun c => isNameChar c = true) (by decide) c (h.2.subset hc)

theorem isPiece_cut (h : IsPiece text) (hne : kept ≠ []) (hp : kept <+: text) :
    IsPiece kept := by
  rcases h with ⟨c, hc, rfl⟩ | h
  · rcases List.prefix_concat_iff.mp (show kept <+: [] ++ [c] from hp) with rfl | hn
    · exact .inl ⟨c, hc, rfl⟩
    · exact absurd (List.prefix_nil.mp hn) hne
  · exact .inr ⟨hne, hp.trans h.2⟩

/-! ## Cutting and adding -/

theorem spelled_nil : Spelled [] := ⟨[], rfl, by simp⟩

theorem IsPiece.spelled (h : IsPiece text) : Spelled text := ⟨[text], by simp, by simpa using h⟩

theorem Spelled.append (h : Spelled text) (ha : Spelled added) : Spelled (text ++ added) := by
  obtain ⟨pieces, rfl, hp⟩ := h
  obtain ⟨others, rfl, ho⟩ := ha
  refine ⟨pieces ++ others, by rw [List.flatten_append], fun piece hm => ?_⟩
  exact (List.mem_append.mp hm).elim (hp piece) (ho piece)

theorem spelled_of_isSign (h : ∀ c ∈ text, IsSign c) : Spelled text := by
  have hf : text = (text.map fun c => [c]).flatten := by
    rw [← List.flatMap_def, List.flatMap_singleton']
  refine ⟨text.map fun c => [c], hf, fun piece hm => ?_⟩
  obtain ⟨c, hc, rfl⟩ := List.mem_map.mp hm
  exact .inl ⟨c, h c hc, rfl⟩

theorem Spelled.cut (h : Spelled text) (hp : kept <+: text) : Spelled kept := by
  obtain ⟨pieces, rfl, hpieces⟩ := h
  induction pieces generalizing kept with
  | nil =>
    rw [List.prefix_nil.mp hp]
    exact spelled_nil
  | cons piece pieces ih =>
    obtain ⟨hpiece, hrest⟩ := List.forall_mem_cons.mp hpieces
    rw [List.flatten_cons] at hp
    rcases List.prefix_or_prefix_of_prefix hp (List.prefix_append piece _) with hk | ⟨rest, rfl⟩
    · rcases eq_or_ne kept [] with rfl | hne
      · exact spelled_nil
      · exact (isPiece_cut hpiece hne hk).spelled
    · have hr : rest <+: pieces.flatten := (List.prefix_append_right_inj piece).mp hp
      exact hpiece.spelled.append (ih hrest hr)

/-- What one change preserves. -/
theorem Spelled.change (h : Spelled text) (hc : Change text key kept added) :
    Spelled (kept ++ added) := by
  cases hc with
  | cut hp =>
    rw [List.append_nil]
    exact h.cut hp
  | negative | opens | closes => exact h.append (spelled_of_isSign (forall_mem_of_all (by decide)))
  | @sign _ group d hp hg hd =>
    have hgroup : Spelled group := by
      rcases hg with rfl | rfl <;> exact spelled_of_isSign (forall_mem_of_all (by decide))
    have hdigit : Spelled [d] := IsPiece.spelled (.inl ⟨d, .inl hd, rfl⟩)
    exact (h.cut hp).append (hgroup.append hdigit)
  | power hx =>
    rcases hx with rfl | rfl <;> exact h.append (spelled_of_isSign (forall_mem_of_all (by decide)))
  | root =>
    have hroot : Spelled Operator.squareRoot.symbol :=
      IsPiece.spelled (.inr ⟨by decide, List.prefix_rfl⟩)
    exact h.append (hroot.append (spelled_of_isSign (forall_mem_of_all (by decide))))
  | @types _ zero c hp hz hc =>
    have hzero : Spelled zero := by
      simp only [List.mem_cons, List.not_mem_nil, or_false] at hz
      rcases hz with rfl | rfl | rfl <;> exact spelled_of_isSign (forall_mem_of_all (by decide))
    have htyped : Spelled [c] := IsPiece.spelled (.inl ⟨c, isSign_of_typable hc, rfl⟩)
    exact (h.cut hp).append (hzero.append htyped)

/-! ## Runs of letters -/

/-- A run of letters at the beginning of pieces consists of the first of them. -/
theorem exists_starts_of_flatten {pieces : List (List Char)} (hp : ∀ piece ∈ pieces, IsPiece piece)
    (he : pieces.flatten = run ++ after) (hr : ∀ c ∈ run, isNameChar c = true)
    (ha : ∀ c ∈ after.head?, isNameChar c = false) :
    ∃ starts : List (List Char), run = starts.flatten ∧ ∀ start ∈ starts, IsStart start := by
  induction pieces generalizing run with
  | nil =>
    obtain ⟨rfl, -⟩ := List.append_eq_nil_iff.mp he.symm
    exact ⟨[], rfl, by simp⟩
  | cons piece pieces ih =>
    obtain ⟨hpiece, hrest⟩ := List.forall_mem_cons.mp hp
    rcases run with _ | ⟨x, run⟩
    · exact ⟨[], rfl, by simp⟩
    -- The run begins with a letter, so the first piece is no sign.
    have hs : IsStart piece := by
      rcases hpiece with ⟨c, hc, rfl⟩ | hs
      · have hx : c = x := (List.cons.inj he).1
        rw [hx] at hc
        exact absurd (hr x List.mem_cons_self) (by rw [isNameChar_of_isSign hc]; decide)
      · exact hs
    rw [List.flatten_cons] at he
    rcases List.append_eq_append_iff.mp he with ⟨rest, hxr, hpr⟩ | ⟨rest, hpe, har⟩
    · have hrl : ∀ c ∈ rest, isNameChar c = true := fun c hc =>
        hr c (hxr ▸ List.mem_append_right _ hc)
      obtain ⟨starts, rfl, hst⟩ := ih hrest hpr hrl
      exact ⟨piece :: starts, hxr, List.forall_mem_cons.mpr ⟨hs, hst⟩⟩
    · rcases rest with _ | ⟨y, rest⟩
      · rw [List.append_nil] at hpe
        exact ⟨[piece], by simp [hpe], by simpa using hs⟩
      · have hy := isNameChar_of_isStart hs y (by rw [hpe]; simp)
        rw [har] at ha
        exact absurd hy (by rw [ha y rfl]; decide)

/-- A run of letters that no letter precedes or follows consists of beginnings of the name. -/
theorem Spelled.exists_starts (h : Spelled (before ++ (run ++ after)))
    (hb : ∀ c ∈ before.getLast?, isNameChar c = false) (hr : ∀ c ∈ run, isNameChar c = true)
    (ha : ∀ c ∈ after.head?, isNameChar c = false) :
    ∃ starts : List (List Char), run = starts.flatten ∧ ∀ start ∈ starts, IsStart start := by
  obtain ⟨pieces, he, hp⟩ := h
  induction pieces generalizing before with
  | nil =>
    obtain ⟨-, he⟩ := List.append_eq_nil_iff.mp he
    obtain ⟨rfl, -⟩ := List.append_eq_nil_iff.mp he
    exact ⟨[], rfl, by simp⟩
  | cons piece pieces ih =>
    rcases eq_or_ne before [] with rfl | hne
    · exact exists_starts_of_flatten hp he.symm hr ha
    obtain ⟨hpiece, hrest⟩ := List.forall_mem_cons.mp hp
    rw [List.flatten_cons] at he
    rcases List.append_eq_append_iff.mp he with ⟨rest, hpb, hra⟩ | ⟨rest, rfl, hpr⟩
    · obtain ⟨start, x, rfl⟩ := (List.eq_nil_or_concat' before).resolve_left hne
      rcases hpiece with ⟨c, -, rfl⟩ | hs
      · -- A sign is all that stands before the run.
        have hlen := congrArg List.length hpb
        simp only [List.length_singleton, List.length_append] at hlen
        have hnil : rest = [] := List.eq_nil_of_length_eq_zero (by omega)
        rw [hnil, List.nil_append] at hra
        exact exists_starts_of_flatten hrest hra.symm hr ha
      · have hx := isNameChar_of_isStart hs x (by rw [hpb]; simp)
        exact absurd hx (by rw [hb x List.getLast?_concat]; decide)
    · refine ih (fun c hc => hb c ?_) hpr.symm hrest
      rw [Option.mem_def, List.getLast?_append, Option.mem_def.mp hc]
      rfl

end Equation

namespace Line

open Equation

variable [Host]

/-- After any run of keys, the equation is blank, or it is not empty and consists of digits, points,
parentheses, operators, powers and letters, and each run of letters consists of beginnings of the
name of the root. -/
theorem equation_spelled (keys : List (Option Key)) :
    (keys.foldl apply initial).equation = blank ∨
      (keys.foldl apply initial).equation ≠ [] ∧ ' ' ∉ (keys.foldl apply initial).equation ∧
      (∀ c ∈ (keys.foldl apply initial).equation, c.isDigit = true ∨
        c ∈ ['.', '(', ')', '+', '-', '*', '/', '^'] ∨ isNameChar c = true) ∧
      ∀ before run after, (keys.foldl apply initial).equation = before ++ (run ++ after) →
        (∀ c ∈ before.getLast?, isNameChar c = false) → (∀ c ∈ run, isNameChar c = true) →
        (∀ c ∈ after.head?, isNameChar c = false) →
        ∃ starts : List (List Char), run = starts.flatten ∧
          ∀ start ∈ starts, start ≠ [] ∧ start <+: Operator.squareRoot.symbol := by
  have hl : initial.equation = ofTyped [] := rfl
  obtain ⟨text, he, hs, hsp⟩ := exists_typed_foldl hl List.not_mem_nil spelled_nil
    fun text key kept added _ h hc => h.change hc
  rcases eq_or_ne text [] with rfl | hne
  · exact .inl he
  rw [he, ofTyped_of_ne_nil hne]
  refine .inr ⟨hne, hs, fun c hc => ?_, fun before run after heq hb hr ha => ?_⟩
  · obtain ⟨pieces, rfl, hp⟩ := hsp
    obtain ⟨piece, hm, hc⟩ := List.mem_flatten.mp hc
    rcases hp piece hm with ⟨d, hd, rfl⟩ | hstart
    · rw [List.mem_singleton.mp hc]
      exact hd.imp_right .inl
    · exact .inr (.inr (isNameChar_of_isStart hstart c hc))
  · exact Spelled.exists_starts (heq ▸ hsp) hb hr ha

end Line

end Calculator
