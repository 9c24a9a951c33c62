import Calculator.Json.Reader

/-!
# What reading makes of a text

What a reader makes of a text is judged in two ways, and both are put together along its steps:

* `Accounts`: what has been read is a part of the text that may stand there, and a fault about a
  limit has its cause in the text;
* `Yields`: a part that may stand there is read, unless it goes beyond the limits.
-/

namespace Calculator

namespace Json

/-- A run of more digits than the limit stands in the text. -/
def HasLongRun (digits : Nat) (text : List Char) : Prop :=
  ∃ before run after, text = before ++ (run ++ after) ∧ (∀ c ∈ run, c.isDigit = true) ∧
    digits < run.length

/-- The count of brackets and braces that open. -/
def opened (text : List Char) : Nat := text.countP fun c => c == '[' || c == '\x7b'

/-- What has been read is a part of its kind at the start of the text. An integer can be too long
only if there is a run that is too long, and lists and objects can be nested too deeply only if so
many are opened. -/
def Accounts {α : Type} (digits nesting : Nat) (kind : α → List Char → Prop) (text : List Char) :
    Except ReadFault (α × List Char) → Prop
  | .ok (a, rest) => ∃ body, kind a body ∧ text = body ++ rest
  | .error .integerTooLong => HasLongRun digits text
  | .error .nestedTooDeep => nesting < opened text
  | .error .malformed => True

/-- The part is read up to the rest, or, if limits are exceeded, there is a fault about a limit. -/
def Yields {α : Type} (within : Prop) (a : α) (rest : List Char)
    (result : Except ReadFault (α × List Char)) : Prop :=
  result = .ok (a, rest) ∨ ¬ within ∧ ∃ fault, fault ≠ .malformed ∧ result = .error fault

variable {α β : Type} {digits nesting outer : Nat} {text rest left : List Char}
  {within other : Prop} {kind kind' : α → List Char → Prop} {whole : β → List Char → Prop}
  {result : Except ReadFault (α × List Char)} {a : α} {b : β}
  {next : α × List Char → Except ReadFault (β × List Char)}

theorem opened_append (before rest : List Char) :
    opened (before ++ rest) = opened before + opened rest := List.countP_append

theorem HasLongRun.append (h : HasLongRun digits rest) (before : List Char) :
    HasLongRun digits (before ++ rest) := by
  obtain ⟨start, run, after, rfl, hr, hd⟩ := h
  exact ⟨before ++ start, run, after, (List.append_assoc ..).symm, hr, hd⟩

/-! ## What has been read -/

/-- What is made of the rest of a text belongs to the text. -/
theorem Accounts.append (h : Accounts digits nesting kind rest result) (before : List Char)
    (ho : outer ≤ nesting + opened before)
    (hk : ∀ a tail, kind a tail → kind' a (before ++ tail)) :
    Accounts digits outer kind' (before ++ rest) result := by
  match result with
  | .ok (a, left) =>
    obtain ⟨tail, hb, rfl⟩ := h
    exact ⟨before ++ tail, hk a tail hb, (List.append_assoc ..).symm⟩
  | .error .integerTooLong => exact HasLongRun.append h before
  | .error .nestedTooDeep =>
    have hn : nesting < opened rest := h
    show outer < opened (before ++ rest)
    rw [opened_append]
    omega
  | .error .malformed => trivial

theorem Accounts.mono (h : Accounts digits nesting kind text result)
    (hk : ∀ a body, kind a body → kind' a body) : Accounts digits nesting kind' text result :=
  h.append [] (Nat.le_add_right ..) hk

theorem Accounts.bind (h : Accounts digits nesting kind text result)
    (hn : ∀ a body rest, kind a body → text = body ++ rest →
      Accounts digits nesting whole text (next (a, rest))) :
    Accounts digits nesting whole text (result >>= next) := by
  match result with
  | .ok (a, rest) =>
    obtain ⟨body, hk, he⟩ := h
    exact hn a body rest hk he
  | .error .integerTooLong => exact h
  | .error .nestedTooDeep => exact h
  | .error .malformed => trivial

/-- A part that is read behind what has been read already, and made into a greater one. -/
theorem Accounts.behind (h : Accounts digits nesting kind rest result) (before : List Char)
    (f : α → β) (ho : outer ≤ nesting + opened before)
    (hw : ∀ a tail, kind a tail → whole (f a) (before ++ tail)) :
    Accounts digits outer whole (before ++ rest)
      (result >>= fun (a, rest) => .ok (f a, rest)) := by
  have ha : Accounts digits outer (fun a body => whole (f a) body) (before ++ rest) result :=
    h.append before ho hw
  exact ha.bind fun a body rest hb he => ⟨body, hb, he⟩

/-! ## What is there to be read -/

theorem Yields.bind (h : Yields within a rest result)
    (hn : Yields within b left (next (a, rest))) : Yields within b left (result >>= next) := by
  rcases h with rfl | ⟨hw, fault, hf, rfl⟩
  · exact hn
  · exact .inr ⟨hw, fault, hf, rfl⟩

theorem Yields.map (h : Yields within a rest result) (f : α → β) :
    Yields within (f a) rest (result >>= fun (a, rest) => .ok (f a, rest)) :=
  h.bind (.inl rfl)

theorem Yields.mono (h : Yields within a rest result) (hw : other → within) :
    Yields other a rest result :=
  h.imp_right fun ⟨hn, hf⟩ => ⟨fun ho => hn (hw ho), hf⟩

end Json

end Calculator
