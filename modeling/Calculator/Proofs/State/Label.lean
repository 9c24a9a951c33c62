import Calculator.Proofs.Equation.Display
import Calculator.Proofs.Equation.Spelling
import Calculator.Proofs.State.Run

/-!
# The equation behind a label

The label shows glyphs for the symbols of an equation. No key types a glyph, so
each glyph on the label stands for a symbol, and the equation can be read off
the label again:

* `Operator.undisplay_display`: a text without glyphs is what its label stands for;
* `Equation.Spelled.glyph_not_mem`: typed equations have no glyphs;
* `State.undisplay_label`: the label of every state that keys lead to.
-/

namespace Calculator

namespace Operator

variable {equation text new : List Char} {x : Char} {f : Char → Char}

/-- The equation with symbols for the glyphs of a label. -/
def undisplay (label : List Char) : List Char :=
  replaceAll divide.glyph divide.symbol
    (replaceAll multiply.glyph multiply.symbol
      (replaceAll squareRoot.glyph squareRoot.symbol label))

/-- The glyphs that a label has. -/
def labelGlyphs : List Char := squareRoot.glyph ++ multiply.glyph ++ divide.glyph

/-- What other characters become has no effect on what is replaced. -/
theorem replaceAll_map (hx : ∀ c, f c = x ↔ c = x) (hn : new.map f = new) :
    replaceAll [x] new (text.map f) = (replaceAll [x] new text).map f := by
  rw [replaceAll_singleton, replaceAll_singleton, List.flatMap_map, List.map_flatMap]
  refine List.flatMap_congr fun c _ => ?_
  simp only [hx]
  split
  · exact hn.symm
  · rfl

theorem shownChar_eq_root (c : Char) : shownChar c = '√' ↔ c = '√' := by
  unfold shownChar
  split_ifs with hm hd
  · simp [hm]
  · simp [hd]
  · rfl

theorem undisplay_display (h : ∀ c ∈ equation, c ∉ labelGlyphs) :
    undisplay (display equation) = equation := by
  have hroot : '√' ∉ equation := fun hm => h _ hm (by decide)
  have hrooted : replaceAll squareRoot.glyph squareRoot.symbol (display equation) =
      equation.map shownChar := calc
    _ = replaceAll ['√'] squareRoot.symbol ((rooted equation).map shownChar) :=
      congrArg _ (display_eq_map equation)
    _ = (replaceAll ['√'] squareRoot.symbol (rooted equation)).map shownChar :=
      replaceAll_map shownChar_eq_root (by decide)
    _ = equation.map shownChar :=
      congrArg (List.map shownChar) (replaceAll_replaceAll (by decide) hroot)
  rw [undisplay, hrooted]
  simp only [symbol, glyph, replaceAll_char, List.map_map]
  refine (List.map_congr_left fun c hc => ?_).trans (List.map_id _)
  have hne {d : Char} (hd : d ∈ labelGlyphs) : c ≠ d := fun he => h c hc (he ▸ hd)
  have hm : c ≠ '×' := hne (by decide)
  have hd : c ≠ '÷' := hne (by decide)
  by_cases hs : c = '*'
  · rw [hs]
    decide
  by_cases hv : c = '/'
  · rw [hv]
    decide
  simp only [Function.comp_apply, shownChar, if_neg hs, if_neg hv, if_neg hm, if_neg hd, id_eq]

end Operator

namespace Equation

theorem Spelled.glyph_not_mem {text : List Char} (h : Spelled text) :
    ∀ c ∈ text, c ∉ Operator.labelGlyphs := by
  intro c hc hg
  have hn : isNameChar c = false ∧ ¬ IsSign c :=
    forall_mem_of_all (p := fun c => isNameChar c = false ∧ ¬ IsSign c) (by decide) c hg
  obtain ⟨pieces, rfl, hp⟩ := h
  obtain ⟨piece, hm, hc⟩ := List.mem_flatten.mp hc
  rcases hp piece hm with ⟨d, hd, rfl⟩ | hstart
  · rw [← List.mem_singleton.mp hc] at hd
    exact hn.2 hd
  · rw [isNameChar_of_isStart hstart c hc] at hn
    cases hn.1

end Equation

namespace Line

open Equation

variable [Host]

theorem glyph_not_mem (keys : List (Option Key)) :
    ∀ c ∈ (keys.foldl apply initial).equation, c ∉ Operator.labelGlyphs := by
  have hl : initial.equation = ofTyped [] := rfl
  obtain ⟨text, he, -, hs⟩ := exists_typed_foldl hl List.not_mem_nil spelled_nil
    fun text key kept added _ h hc => h.change hc
  rw [he, ofTyped]
  split_ifs
  · exact forall_mem_of_all (by decide)
  · exact hs.glyph_not_mem

end Line

namespace State

variable [Host]

/-- The equation of every state that keys lead to is what its label stands for, so no other equation
has this label. -/
theorem undisplay_label (keys : List (Option Key)) :
    Operator.undisplay (keys.foldl pressAny initial).display =
        (keys.foldl pressAny initial).equation ∧
      ∀ others : List (Option Key),
        (others.foldl pressAny initial).display = (keys.foldl pressAny initial).display →
          (others.foldl pressAny initial).equation = (keys.foldl pressAny initial).equation := by
  have hu (keys : List (Option Key)) : Operator.undisplay (keys.foldl pressAny initial).display =
      (keys.foldl pressAny initial).equation := by
    have hne : initial.equation ≠ [] := List.cons_ne_nil _ _
    have hl := line_foldl hne keys
    have hn := Line.glyph_not_mem keys
    rw [show Line.initial = initial.line from rfl, ← hl] at hn
    exact Operator.undisplay_display hn
  refine ⟨hu keys, fun others h => ?_⟩
  rw [← hu others, h, hu keys]

-- A name that is cut off and typed again is one root and the rest of a name.
example : Operator.display "squarsquare(".toList = "squar√(".toList := by decide

end State

end Calculator
