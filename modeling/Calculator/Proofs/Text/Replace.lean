import Calculator.Text.Replace
import Mathlib.Data.List.Infix

/-!
# Where replacing divides a text

Replacing goes on independently after a character that is in no occurrence, and
after each occurrence:

* `replaceAll_append`: before a character that `old` does not have;
* `replaceAll_append_of_not_mem`: after characters that `old` does not have;
* `replaceAll_self_append`: after an occurrence;
* `exists_kept`: what stands before the first occurrence is kept;
* `replaceAll_replaceAll`: a character that is written for every occurrence, and
  stood nowhere before, can be replaced back.
-/

namespace Calculator

variable {old new text rest before : List Char} {x : Char} {skipped : Nat}

/-- No occurrence reaches over a character that `old` does not have. -/
theorem isPrefix_append_iff (h : ∀ c ∈ rest.head?, c ∉ old) :
    old <+: text ++ rest ↔ old <+: text := by
  refine ⟨fun hp => ?_, fun hp => hp.trans (List.prefix_append _ _)⟩
  rcases List.prefix_or_prefix_of_prefix hp (List.prefix_append text rest) with ht | ⟨z, rfl⟩
  · exact ht
  · rcases z with _ | ⟨y, z⟩
    · rw [List.append_nil]
    · obtain ⟨w, hw⟩ := (List.prefix_append_right_inj text).mp hp
      exact absurd (by simp) (h y (by rw [← hw]; rfl))

theorem replaceFrom_append (h : ∀ c ∈ rest.head?, c ∉ old) (hs : skipped ≤ text.length) :
    replaceFrom old new skipped (text ++ rest) =
      replaceFrom old new skipped text ++ replaceAll old new rest := by
  induction text generalizing skipped with
  | nil =>
    rw [Nat.le_zero.mp hs]
    cases rest <;> rfl
  | cons c text ih =>
    cases skipped with
    | succ skipped => exact ih (Nat.le_of_succ_le_succ hs)
    | zero =>
      have hp : old.isPrefixOf (c :: (text ++ rest)) = old.isPrefixOf (c :: text) := by
        rw [Bool.eq_iff_iff, List.isPrefixOf_iff_prefix, List.isPrefixOf_iff_prefix,
          ← List.cons_append, isPrefix_append_iff h]
      rw [List.cons_append, replaceFrom, replaceFrom, hp]
      split
      · have hl := (List.isPrefixOf_iff_prefix.mp ‹_›).length_le
        rw [ih (by rw [List.length_cons] at hl; omega), List.append_assoc]
      · rw [ih (Nat.zero_le _), List.cons_append]

theorem replaceAll_append (h : ∀ c ∈ rest.head?, c ∉ old) :
    replaceAll old new (text ++ rest) = replaceAll old new text ++ replaceAll old new rest :=
  replaceFrom_append h (Nat.zero_le _)

theorem replaceAll_append_of_not_mem (hne : old ≠ []) (h : ∀ c ∈ text, c ∉ old) :
    replaceAll old new (text ++ rest) = text ++ replaceAll old new rest := by
  induction text with
  | nil => rfl
  | cons c text ih =>
    obtain ⟨hc, ht⟩ := List.forall_mem_cons.mp h
    have hp : old.isPrefixOf (c :: (text ++ rest)) = false := by
      rw [Bool.eq_false_iff, ne_eq, List.isPrefixOf_iff_prefix]
      intro hp
      obtain ⟨y, ys, rfl⟩ := List.exists_cons_of_ne_nil hne
      exact hc ((List.cons_prefix_cons.mp hp).1 ▸ List.mem_cons_self)
    rw [List.cons_append, replaceAll, replaceFrom, if_neg (by rw [hp]; decide)]
    exact congrArg (c :: ·) (ih ht)

theorem replaceFrom_length (text rest : List Char) :
    replaceFrom old new text.length (text ++ rest) = replaceAll old new rest := by
  induction text with
  | nil => rfl
  | cons c text ih => exact ih

theorem replaceAll_self_append (hne : old ≠ []) (rest : List Char) :
    replaceAll old new (old ++ rest) = new ++ replaceAll old new rest := by
  obtain ⟨c, tail, rfl⟩ := List.exists_cons_of_ne_nil hne
  have hp : (c :: tail).isPrefixOf (c :: (tail ++ rest)) = true :=
    List.isPrefixOf_iff_prefix.mpr (List.prefix_append _ _)
  rw [List.cons_append, replaceAll, replaceFrom, if_pos hp]
  exact congrArg (new ++ ·) (replaceFrom_length tail rest)

/-- What stands before the first occurrence is kept. -/
theorem exists_kept (old new text : List Char) : ∃ kept rest, text = kept ++ rest ∧
    replaceAll old new text = kept ++ replaceAll old new rest ∧ (rest = [] ∨ old <+: rest) := by
  induction text with
  | nil => exact ⟨[], [], rfl, rfl, .inl rfl⟩
  | cons c text ih =>
    by_cases hp : old.isPrefixOf (c :: text) = true
    · exact ⟨[], c :: text, rfl, rfl, .inr (List.isPrefixOf_iff_prefix.mp hp)⟩
    · obtain ⟨kept, rest, rfl, hr, ho⟩ := ih
      refine ⟨c :: kept, rest, rfl, ?_, ho⟩
      rw [replaceAll, replaceFrom, if_neg hp]
      exact congrArg (c :: ·) hr

/-! ## Replacing back -/

/-- What is passed over is not replaced, so neither is it when replacing back; by induction on the
text, with the count of characters that are still passed over. -/
theorem replaceAll_replaceFrom (hne : old ≠ []) (hx : x ∉ text) (skipped : Nat) :
    replaceAll [x] old (replaceFrom old [x] skipped text) = text.drop skipped := by
  induction text generalizing skipped with
  | nil => cases skipped <;> rfl
  | cons c text ih =>
    obtain ⟨hc, ht⟩ := not_or.mp (List.mem_cons.not.mp hx)
    cases skipped with
    | succ skipped => exact ih ht skipped
    | zero =>
      rw [replaceFrom, List.drop_zero]
      split
      · rename_i hp
        obtain ⟨rest, hr⟩ := List.isPrefixOf_iff_prefix.mp hp
        obtain ⟨y, tail, rfl⟩ := List.exists_cons_of_ne_nil hne
        obtain ⟨rfl, rfl⟩ : y = c ∧ tail ++ rest = text := List.cons.inj hr
        rw [replaceAll_self_append (List.cons_ne_nil x []), ih ht, List.length_cons,
          Nat.add_sub_cancel, List.drop_left, List.cons_append]
      · have hn : ∀ d ∈ [c], d ∉ [x] := by simpa using Ne.symm hc
        have hk : replaceAll [x] old ([c] ++ replaceFrom old [x] 0 text) = [c] ++ text.drop 0 := by
          rw [replaceAll_append_of_not_mem (List.cons_ne_nil x []) hn, ih ht]
        exact hk

theorem replaceAll_replaceAll (hne : old ≠ []) (hx : x ∉ text) :
    replaceAll [x] old (replaceAll old [x] text) = text :=
  replaceAll_replaceFrom hne hx 0

/-! ## The first and the last character -/

theorem replaceAll_eq_nil (hn : new ≠ []) : replaceAll old new text = [] ↔ text = [] := by
  cases text with
  | nil => exact ⟨fun _ => rfl, fun _ => rfl⟩
  | cons c text =>
    rw [replaceAll, replaceFrom]
    split <;> simp [hn]

theorem head?_replaceAll (hn : new ≠ []) (h : (replaceAll old new text).head? = some x) :
    text.head? = some x ∨ new.head? = some x := by
  cases text with
  | nil => cases h
  | cons c text =>
    rw [replaceAll, replaceFrom] at h
    split at h
    · rw [List.head?_append_of_ne_nil _ hn] at h
      exact .inr h
    · exact .inl h

theorem getLast?_replaceFrom (hn : new ≠ [])
    (h : (replaceFrom old new skipped text).getLast? = some x) :
    text.getLast? = some x ∨ new.getLast? = some x := by
  induction text generalizing skipped with
  | nil => cases skipped <;> cases h
  | cons c text ih =>
    -- What is written for the rest ends with one of the two characters, if it is not empty.
    have hrest {k : Nat} (hk : (replaceFrom old new k text).getLast? = some x) :
        (c :: text).getLast? = some x ∨ new.getLast? = some x := by
      refine (ih hk).imp_left fun hl => ?_
      rw [List.getLast?_cons_of_ne_nil (by rintro rfl; cases hl), hl]
    cases skipped with
    | succ skipped => exact hrest h
    | zero =>
      rw [replaceFrom] at h
      split at h
      · rcases eq_or_ne (replaceFrom old new (old.length - 1) text) [] with he | he
        · rw [he, List.append_nil] at h
          exact .inr h
        · rw [List.getLast?_append_of_ne_nil _ he] at h
          exact hrest h
      · rcases eq_or_ne (replaceFrom old new 0 text) [] with he | he
        · rw [he] at h
          rw [(replaceAll_eq_nil hn).mp he]
          exact .inl h
        · rw [List.getLast?_cons_of_ne_nil he] at h
          exact hrest h

end Calculator
