/-!
# Replacing inside a text

`replaceAll old new text` writes `new` for every occurrence of `old`, from the left and without
overlaps. The recursion passes over the rest of an occurrence by counting its characters down.

* `replaceAll_singleton`: a single character is replaced wherever it stands.
-/

namespace Calculator

/-- Replaces after passing over the first `skipped` characters. -/
def replaceFrom (old new : List Char) : Nat → List Char → List Char
  | _, [] => []
  | skipped + 1, _ :: rest => replaceFrom old new skipped rest
  | 0, c :: rest =>
    if old.isPrefixOf (c :: rest) then new ++ replaceFrom old new (old.length - 1) rest
    else c :: replaceFrom old new 0 rest

/-- Replaces every occurrence of `old`, which is not empty. -/
def replaceAll (old new text : List Char) : List Char := replaceFrom old new 0 text

theorem replaceAll_singleton (c : Char) (new text : List Char) :
    replaceAll [c] new text = text.flatMap fun d => if d = c then new else [d] := by
  unfold replaceAll
  induction text with
  | nil => rfl
  | cons d text ih =>
    by_cases h : d = c
    · simp [replaceFrom, List.isPrefixOf, h, ih]
    · simp [replaceFrom, List.isPrefixOf, h, ih, Ne.symm h]

end Calculator
