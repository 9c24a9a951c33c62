import Calculator.Proofs.Json.Scalar

/-!
# Reading follows the grammar

A whole text is read as a value if it denotes the value within the limits, and a text that denotes a
value only beyond the limits is refused because of them.

* `Reader.accounts_value`: what is read denotes what it is read as, by induction on the nesting;
* `Reader.reads_of_denotes`: what denotes a value is read, by induction on the grammar;
* `read_eq_ok_iff`, `read_of_isText`, `accounts_read`: what is made of a whole text.
-/

namespace Calculator

namespace Json

variable {limit nesting digits n : Nat} {text rest : List Char} {phrase : Phrase} {v : Json}

namespace Reader

/-! ## What is read -/

/-- A part with blanks before it. -/
def Led (kind : List Char → Prop) (body : List Char) : Prop :=
  ∃ blanks inner, Blank blanks ∧ kind inner ∧ body = blanks ++ inner

/-- A part with a closing bracket or brace after it. -/
def Closed (close : Char) (kind : List Char → Prop) (body : List Char) : Prop :=
  ∃ inner, kind inner ∧ body = inner ++ [close]

/-- Reading a value with blanks before it accounts for what it reads. -/
def ReadsValues (limit n : Nat) (value : Step Json) : Prop :=
  ∀ text, Accounts limit n (fun v => Led (Denotes limit n (.value v))) text (value text)

theorem denotes_padded {blanks inner after : List Char} (hb : Blank blanks)
    (h : Denotes digits n (.value v) inner) (ha : Blank after) :
    Denotes digits n (.padded v) (blanks ++ inner ++ after) := by
  rw [List.append_assoc]
  exact .padded hb h ha

/-- What follows a value, up to the sign after it. -/
theorem exists_blank_of_skipBlanks {c : Char} {left : List Char} (h : skipBlanks text = c :: left) :
    ∃ blanks, Blank blanks ∧ text = blanks ++ c :: left := by
  obtain ⟨blanks, hb, ht⟩ := exists_blank text
  exact ⟨blanks, hb, h ▸ ht⟩

theorem accounts_items {reader : Step Json} (hv : ReadsValues limit n reader) (count : Nat)
    (text : List Char) :
    Accounts limit n (fun list => Closed ']' (Denotes limit n (.items list))) text
      (items reader count text) := by
  induction count generalizing text with
  | zero => trivial
  | succ count ih =>
    refine (hv text).bind fun item body rest hbody ht => ?_
    obtain ⟨before, inner, hb, hd, rfl⟩ := hbody
    subst ht
    dsimp only
    split
    · rename_i left hs
      obtain ⟨after, ha, rfl⟩ := exists_blank_of_skipBlanks hs
      have hp := denotes_padded hb hd ha
      have he : before ++ inner ++ (after ++ ',' :: left) =
          before ++ inner ++ after ++ [','] ++ left := by simp
      rw [he]
      refine (ih left).behind _ (item :: ·) (Nat.le_add_right ..) ?_
      rintro list _ ⟨tail, hl, rfl⟩
      exact ⟨_, .items hp hl, by simp⟩
    · rename_i left hs
      obtain ⟨after, ha, rfl⟩ := exists_blank_of_skipBlanks hs
      exact ⟨_, ⟨_, .item (denotes_padded hb hd ha), rfl⟩, by simp⟩
    · trivial

theorem exists_nameText {name : Units} (h : memberName text = some (name, rest)) :
    ∃ start, NameText name start ∧ text = start ++ rest := by
  simp only [memberName, bind, Option.bind_eq_some_iff, after?_eq_some] at h
  obtain ⟨left, hq, ⟨found, left⟩, hs, _, hc, he⟩ := h
  obtain ⟨body, hb, rfl⟩ := exists_spells hs
  cases he
  obtain ⟨before, hbefore, rfl⟩ := exists_blank_of_skipBlanks hq
  obtain ⟨after, hafter, rfl⟩ := exists_blank_of_skipBlanks hc
  exact ⟨_, .intro hbefore hb hafter, by simp⟩

theorem accounts_members {reader : Step Json} (hv : ReadsValues limit n reader) (count : Nat)
    (text : List Char) :
    Accounts limit n (fun list => Closed '\x7d' (Denotes limit n (.members list))) text
      (members reader count text) := by
  induction count generalizing text with
  | zero => trivial
  | succ count ih =>
    rw [members]
    cases hname : memberName text with
    | none => trivial
    | some result =>
      obtain ⟨name, rest⟩ := result
      obtain ⟨start, hn, rfl⟩ := exists_nameText hname
      have hcontent : Accounts limit n (fun content body => ∃ tail,
          Led (Denotes limit n (.value content)) tail ∧ body = start ++ tail) (start ++ rest)
          (reader rest) :=
        (hv rest).append start (Nat.le_add_right ..) fun content tail hc => ⟨tail, hc, rfl⟩
      refine hcontent.bind fun content body rest hbody ht => ?_
      obtain ⟨_, ⟨before, inner, hb, hd, rfl⟩, rfl⟩ := hbody
      rw [ht]
      dsimp only
      split
      · rename_i left hs
        obtain ⟨after, ha, rfl⟩ := exists_blank_of_skipBlanks hs
        have hp := denotes_padded hb hd ha
        have he : start ++ (before ++ inner) ++ (after ++ ',' :: left) =
            start ++ (before ++ inner ++ after) ++ [','] ++ left := by simp
        rw [he]
        refine (ih left).behind _ ((name, content) :: ·) (Nat.le_add_right ..) ?_
        rintro list _ ⟨tail, hl, rfl⟩
        exact ⟨_, .members hn hp hl, by simp⟩
      · rename_i left hs
        obtain ⟨after, ha, rfl⟩ := exists_blank_of_skipBlanks hs
        exact ⟨_, ⟨_, .member hn (denotes_padded hb hd ha), rfl⟩, by simp⟩
      · trivial

theorem accounts_listItems {reader : Step Json} (hv : ReadsValues limit n reader)
    (text : List Char) :
    Accounts limit n (fun list body => Denotes limit (n + 1) (.value (array list)) ('[' :: body))
      text (listItems reader text) := by
  unfold listItems
  split
  · rename_i left hs
    obtain ⟨blanks, hb, rfl⟩ := exists_blank_of_skipBlanks hs
    exact ⟨_, .emptyArray hb, by simp⟩
  · refine (accounts_items hv _ text).mono ?_
    rintro list _ ⟨inner, hl, rfl⟩
    exact .array hl

theorem accounts_objectMembers {reader : Step Json} (hv : ReadsValues limit n reader)
    (text : List Char) :
    Accounts limit n
      (fun list body => Denotes limit (n + 1) (.value (object (overlay [] list))) ('\x7b' :: body))
      text (objectMembers reader text) := by
  unfold objectMembers
  split
  · rename_i left hs
    obtain ⟨blanks, hb, rfl⟩ := exists_blank_of_skipBlanks hs
    exact ⟨_, .emptyObject hb, by simp⟩
  · refine (accounts_members hv _ text).mono ?_
    rintro list _ ⟨inner, hl, rfl⟩
    exact .object hl

theorem accounts_led_scalar (limit n : Nat) {blanks : List Char} (hb : Blank blanks)
    (text : List Char) :
    Accounts limit n (fun v => Led (Denotes limit n (.value v))) (blanks ++ text)
      (scalar limit text) :=
  (accounts_scalar limit n text).append blanks (Nat.le_add_right ..) fun _ inner hs =>
    ⟨blanks, inner, hb, .scalar hs, rfl⟩

theorem opened_pos (blanks left : List Char) {c : Char} (h : c ∈ ['[', '\x7b']) :
    0 < opened (blanks ++ c :: left) := by
  have hc : 0 < opened [c] := forall_mem_of_all (p := fun c => 0 < opened [c]) (by decide) c h
  rw [← List.singleton_append, opened_append, opened_append]
  omega

/-- What is read denotes what it is read as. Where lists and objects are nested too deeply, so many
of them are opened. -/
theorem accounts_value (limit nesting : Nat) : ReadsValues limit nesting (value limit nesting) := by
  induction nesting with
  | zero =>
    intro text
    obtain ⟨blanks, hb, ht⟩ := exists_blank text
    rw [value]
    split
    · rename_i left hs
      obtain ⟨before, -, rfl⟩ := exists_blank_of_skipBlanks hs
      exact opened_pos before left (by simp)
    · rename_i left hs
      obtain ⟨before, -, rfl⟩ := exists_blank_of_skipBlanks hs
      exact opened_pos before left (by simp)
    · have hs := accounts_led_scalar limit 0 hb (skipBlanks text)
      rwa [← ht] at hs
  | succ nesting ih =>
    intro text
    obtain ⟨blanks, hb, ht⟩ := exists_blank text
    rw [value]
    split
    · rename_i left hs
      rw [ht, hs, List.append_cons]
      refine (accounts_listItems ih left).behind _ array ?_ fun list tail hl => ?_
      · have := opened_pos blanks [] (c := '[') (by simp)
        omega
      · exact ⟨blanks, _, hb, hl, (List.append_cons ..).symm⟩
    · rename_i left hs
      rw [ht, hs, List.append_cons]
      refine (accounts_objectMembers ih left).behind _ (fun list => object (overlay [] list)) ?_
        fun list tail hl => ?_
      · have := opened_pos blanks [] (c := '\x7b') (by simp)
        omega
      · exact ⟨blanks, _, hb, hl, (List.append_cons ..).symm⟩
    · have hs := accounts_led_scalar limit (nesting + 1) hb (skipBlanks text)
      rwa [← ht] at hs

/-! ## How a text begins -/

/-- The characters with which no scalar begins. -/
def enclosers : List Char := [' ', '\t', '\n', '\r', '[', ']', '\x7b', '\x7d']

theorem not_mem_enclosers {c : Char} (h : c.isDigit = true) : c ∉ enclosers := fun hc =>
  forall_mem_of_all (p := fun c => ¬ c.isDigit = true) (by decide) c hc h

theorem exists_cons_of_scalarText (h : ScalarText digits v text) :
    ∃ c tail, text = c :: tail ∧ c ∉ enclosers := by
  have hsigned (negative : Bool) {whole : List Char} (hw : IsWhole whole) (more : List Char) :
      ∃ c tail, signText negative ++ (whole ++ more) = c :: tail ∧ c ∉ enclosers := by
    obtain ⟨c, tail, rfl⟩ := List.exists_cons_of_ne_nil hw.ne_nil
    cases negative with
    | true => exact ⟨'-', _, rfl, by decide⟩
    | false => exact ⟨c, _, rfl, not_mem_enclosers (hw.isDigit c List.mem_cons_self)⟩
  cases h with
  | null | true | false | nan => exact ⟨_, _, rfl, by decide⟩
  | infinity negative => cases negative <;> exact ⟨_, _, rfl, by decide⟩
  | string => exact ⟨'"', _, rfl, by decide⟩
  | integer negative hw =>
    have hs := hsigned negative hw []
    rwa [List.append_nil] at hs
  | number negative hw => exact hsigned negative hw _

theorem skipBlanks_cons {c : Char} (hc : c ∉ [' ', '\t', '\n', '\r']) (tail : List Char) :
    skipBlanks (c :: tail) = c :: tail :=
  skipBlanks_eq_self fun d hd => by
    obtain rfl := Option.some.inj hd
    rwa [← Bool.not_eq_true, isBlank_iff]

theorem skipBlanks_append_cons {blanks : List Char} (hb : Blank blanks) {c : Char}
    (hc : c ∉ [' ', '\t', '\n', '\r']) (tail : List Char) :
    skipBlanks (blanks ++ c :: tail) = c :: tail := by
  rw [skipBlanks_append hb, skipBlanks_cons hc]

theorem exists_cons_of_denotes (h : Denotes digits n (.value v) text) :
    ∃ c tail, text = c :: tail ∧ c ∉ [' ', '\t', '\n', '\r', ']'] := by
  cases h with
  | scalar h =>
    obtain ⟨c, tail, rfl, hc⟩ := exists_cons_of_scalarText h
    refine ⟨c, tail, rfl, ?_⟩
    simp only [enclosers, List.mem_cons, List.not_mem_nil, or_false, not_or] at hc
    simp [hc]
  | emptyArray | array | emptyObject | object => exact ⟨_, _, rfl, by decide⟩

/-- A value does not begin with the bracket that closes a list. -/
theorem exists_cons_of_padded (h : Denotes digits n (.padded v) text) (rest : List Char) :
    ∃ c tail, skipBlanks (text ++ rest) = c :: tail ∧ c ≠ ']' := by
  cases h with
  | padded hb h ha =>
    obtain ⟨c, tail, rfl, hc⟩ := exists_cons_of_denotes h
    simp only [List.mem_cons, List.not_mem_nil, or_false, not_or] at hc
    rw [List.append_assoc, List.cons_append, List.cons_append,
      skipBlanks_append_cons hb (by simp [hc])]
    exact ⟨c, _, rfl, hc.2.2.2.2⟩

theorem exists_cons_of_items {list : List Json} (h : Denotes digits n (.items list) text)
    (rest : List Char) : ∃ c tail, skipBlanks (text ++ rest) = c :: tail ∧ c ≠ ']' := by
  cases h with
  | item h => exact exists_cons_of_padded h rest
  | items h hs =>
    rw [List.append_assoc]
    exact exists_cons_of_padded h _

theorem exists_cons_of_nameText {name : Units} (h : NameText name text) (rest : List Char) :
    ∃ tail, skipBlanks (text ++ rest) = '"' :: tail := by
  obtain ⟨hb, hs, ha⟩ := h
  rw [List.append_assoc, List.cons_append, skipBlanks_append_cons hb (by decide)]
  exact ⟨_, rfl⟩

theorem exists_cons_of_members {list : Members} (h : Denotes digits n (.members list) text)
    (rest : List Char) : ∃ tail, skipBlanks (text ++ rest) = '"' :: tail := by
  cases h with
  | member hn =>
    rw [List.append_assoc]
    exact exists_cons_of_nameText hn _
  | members hn =>
    rw [List.append_assoc]
    exact exists_cons_of_nameText hn _

/-! ## What a value is read as -/

theorem value_append_blank {blanks : List Char} (hb : Blank blanks) (text : List Char) :
    value limit nesting (blanks ++ text) = value limit nesting text := by
  cases nesting <;> simp only [value, skipBlanks_append hb]

theorem value_scalar {c : Char} (hc : c ∉ enclosers) (tail : List Char) :
    value limit nesting (c :: tail) = scalar limit (c :: tail) := by
  simp only [enclosers, List.mem_cons, List.not_mem_nil, or_false, not_or] at hc
  have hs : skipBlanks (c :: tail) = c :: tail := skipBlanks_cons (by simp [hc]) tail
  cases nesting <;> simp [value, hs, hc]

theorem value_array (tail : List Char) :
    value limit (nesting + 1) ('[' :: tail) =
      (listItems (value limit nesting) tail >>= fun (list, rest) => .ok (array list, rest)) := by
  rw [value, skipBlanks_cons (by decide)]
  rfl

theorem value_object (tail : List Char) :
    value limit (nesting + 1) ('\x7b' :: tail) =
      (objectMembers (value limit nesting) tail >>=
        fun (list, rest) => .ok (object (overlay [] list), rest)) := by
  rw [value, skipBlanks_cons (by decide)]
  rfl

theorem value_nested {c : Char} (hc : c ∈ ['[', '\x7b']) (tail : List Char) :
    value limit 0 (c :: tail) = .error .nestedTooDeep := by
  have hb : c ∉ [' ', '\t', '\n', '\r'] :=
    forall_mem_of_all (p := fun c => c ∉ [' ', '\t', '\n', '\r']) (by decide) c hc
  rw [value, skipBlanks_cons hb]
  simp only [List.mem_cons, List.not_mem_nil, or_false] at hc
  rcases hc with rfl | rfl <;> rfl

theorem listItems_eq_items {list : List Json} {reader : Step Json}
    (h : Denotes digits n (.items list) text) (rest : List Char) :
    listItems reader (text ++ rest) = items reader ((text ++ rest).length + 1) (text ++ rest) := by
  obtain ⟨c, tail, hs, hc⟩ := exists_cons_of_items h rest
  unfold listItems
  rw [hs]
  split
  · rename_i he
    exact absurd (List.cons.inj he).1 hc
  · rfl

theorem objectMembers_eq_members {list : Members} {reader : Step Json}
    (h : Denotes digits n (.members list) text) (rest : List Char) :
    objectMembers reader (text ++ rest) =
      members reader ((text ++ rest).length + 1) (text ++ rest) := by
  obtain ⟨tail, hs⟩ := exists_cons_of_members h rest
  unfold objectMembers
  rw [hs]
  rfl

theorem memberName_append {name : Units} {start : List Char} (h : NameText name start)
    (rest : List Char) : memberName (start ++ rest) = some (name, rest) := by
  obtain ⟨hb, hs, ha⟩ := h
  simp only [List.append_assoc, List.cons_append, List.nil_append, memberName,
    skipBlanks_append_cons hb (c := '"') (by decide), after?_cons, string_of_spells hs,
    skipBlanks_append_cons ha (c := ':') (by decide), bind, Option.bind_some]
  rfl

/-! ## What is there to be read -/

/-- At the end of a text, or where an item or a member ends. -/
def Ends (rest : List Char) : Prop := ∀ c ∈ rest.head?, c ∈ [',', ']', '\x7d']

theorem delimited_append {after : List Char} (ha : Blank after) (hr : Ends rest) :
    Delimited (after ++ rest) := by
  intro c hc
  cases after with
  | nil =>
    have hm := hr c hc
    simp only [List.mem_cons, List.not_mem_nil, or_false] at hm ⊢
    tauto
  | cons blank after =>
    obtain rfl := Option.some.inj hc
    have hm := ha blank List.mem_cons_self
    simp only [List.mem_cons, List.not_mem_nil, or_false] at hm ⊢
    tauto

/-- A part is read as what it denotes, whatever follows it, unless it goes beyond the limits. -/
def Reads (digits n : Nat) : Phrase → List Char → Prop
  | .value v, text => ∀ limit nesting rest, Delimited rest →
    Yields (digits ≤ limit ∧ n ≤ nesting) v rest (value limit nesting (text ++ rest))
  | .padded v, text => ∀ limit nesting rest, Ends rest → ∃ after, Blank after ∧
    Yields (digits ≤ limit ∧ n ≤ nesting) v (after ++ rest) (value limit nesting (text ++ rest))
  | .items list, text => ∀ limit nesting count rest, text.length < count →
    Yields (digits ≤ limit ∧ n ≤ nesting) list rest
      (items (value limit nesting) count (text ++ ']' :: rest))
  | .members list, text => ∀ limit nesting count rest, text.length < count →
    Yields (digits ≤ limit ∧ n ≤ nesting) list rest
      (members (value limit nesting) count (text ++ '\x7d' :: rest))

theorem within_succ (h : digits ≤ limit ∧ n + 1 ≤ nesting + 1) : digits ≤ limit ∧ n ≤ nesting :=
  ⟨h.1, Nat.le_of_succ_le_succ h.2⟩

theorem yields_nested {c : Char} (hc : c ∈ ['[', '\x7b']) (tail : List Char) :
    Yields (digits ≤ limit ∧ n + 1 ≤ 0) v rest (value limit 0 (c :: tail)) :=
  .inr ⟨fun h => Nat.not_succ_le_zero n h.2, .nestedTooDeep, by simp, value_nested hc tail⟩

theorem reads_array {list : List Json} (h : Denotes digits n (.items list) text)
    (hr : Reads digits n (.items list) text) :
    Reads digits (n + 1) (.value (array list)) ('[' :: (text ++ [']'])) := by
  intro limit nesting rest _
  cases nesting with
  | zero => exact yields_nested (by simp) _
  | succ nesting =>
    simp only [List.cons_append, List.append_assoc, List.nil_append]
    rw [value_array, listItems_eq_items h]
    refine ((hr limit nesting _ rest ?_).mono within_succ).map array
    simp only [List.length_append, List.length_cons]
    omega

theorem reads_object {list : Members} (h : Denotes digits n (.members list) text)
    (hr : Reads digits n (.members list) text) :
    Reads digits (n + 1) (.value (object (overlay [] list))) ('\x7b' :: (text ++ ['\x7d'])) := by
  intro limit nesting rest _
  cases nesting with
  | zero => exact yields_nested (by simp) _
  | succ nesting =>
    simp only [List.cons_append, List.append_assoc, List.nil_append]
    rw [value_object, objectMembers_eq_members h]
    refine ((hr limit nesting _ rest ?_).mono within_succ).map fun list =>
      object (overlay [] list)
    simp only [List.length_append, List.length_cons]
    omega

/-- A part of a text is read as what it denotes. -/
theorem reads_of_denotes (h : Denotes digits n phrase text) : Reads digits n phrase text := by
  induction h with
  | scalar h =>
    intro limit nesting rest hr
    obtain ⟨c, tail, rfl, hc⟩ := exists_cons_of_scalarText h
    have hs : value limit nesting (c :: tail ++ rest) = scalar limit (c :: tail ++ rest) :=
      value_scalar hc _
    rw [hs]
    exact (yields_scalar h hr).mono And.left
  | emptyArray hb =>
    intro limit nesting rest _
    cases nesting with
    | zero => exact yields_nested (by simp) _
    | succ nesting =>
      simp only [List.cons_append, List.append_assoc, List.nil_append]
      rw [value_array, listItems, skipBlanks_append_cons hb (by decide)]
      exact .inl rfl
  | array h ih => exact reads_array h ih
  | emptyObject hb =>
    intro limit nesting rest _
    cases nesting with
    | zero => exact yields_nested (by simp) _
    | succ nesting =>
      simp only [List.cons_append, List.append_assoc, List.nil_append]
      rw [value_object, objectMembers, skipBlanks_append_cons hb (by decide)]
      exact .inl rfl
  | object h ih => exact reads_object h ih
  | @padded n v before text after hb h ha ih =>
    intro limit nesting rest hr
    refine ⟨after, ha, ?_⟩
    rw [List.append_assoc, List.append_assoc, value_append_blank hb]
    exact ih limit nesting _ (delimited_append ha hr)
  | item h ih =>
    intro limit nesting count rest hc
    obtain ⟨count, rfl⟩ := Nat.exists_eq_add_one_of_ne_zero (Nat.ne_zero_of_lt hc)
    obtain ⟨after, ha, hy⟩ := ih limit nesting (']' :: rest) (by simp [Ends])
    refine hy.bind ?_
    dsimp only
    rw [skipBlanks_append_cons ha (by decide)]
    exact .inl rfl
  | @items n v list text more h hs ih ihs =>
    intro limit nesting count rest hc
    obtain ⟨count, rfl⟩ := Nat.exists_eq_add_one_of_ne_zero (Nat.ne_zero_of_lt hc)
    obtain ⟨after, ha, hy⟩ := ih limit nesting (',' :: (more ++ ']' :: rest)) (by simp [Ends])
    rw [List.append_assoc, List.cons_append]
    refine hy.bind ?_
    dsimp only
    rw [skipBlanks_append_cons ha (by decide)]
    refine (ihs limit nesting count rest ?_).map (v :: ·)
    simp only [List.length_append, List.length_cons] at hc
    omega
  | @member n name v start text hn h ih =>
    intro limit nesting count rest hc
    obtain ⟨count, rfl⟩ := Nat.exists_eq_add_one_of_ne_zero (Nat.ne_zero_of_lt hc)
    obtain ⟨after, ha, hy⟩ := ih limit nesting ('\x7d' :: rest) (by simp [Ends])
    rw [List.append_assoc, members, memberName_append hn]
    refine hy.bind ?_
    dsimp only
    rw [skipBlanks_append_cons ha (by decide)]
    exact .inl rfl
  | @members n name v list start text more hn h hs ih ihs =>
    intro limit nesting count rest hc
    obtain ⟨count, rfl⟩ := Nat.exists_eq_add_one_of_ne_zero (Nat.ne_zero_of_lt hc)
    obtain ⟨after, ha, hy⟩ := ih limit nesting (',' :: (more ++ '\x7d' :: rest)) (by simp [Ends])
    rw [List.append_assoc, List.append_assoc, List.cons_append, members, memberName_append hn]
    refine hy.bind ?_
    dsimp only
    rw [skipBlanks_append_cons ha (by decide)]
    refine (ihs limit nesting count rest ?_).map ((name, v) :: ·)
    simp only [List.length_append, List.length_cons] at hc
    omega

end Reader

/-! ## Whole texts -/

open Reader

theorem blank_of_skipBlanks (h : skipBlanks text = []) : Blank text := by
  obtain ⟨blanks, hb, ht⟩ := exists_blank text
  rw [h, List.append_nil] at ht
  exact ht ▸ hb

theorem skipBlanks_blank (h : Blank text) : skipBlanks text = [] := by
  rw [← List.append_nil text, skipBlanks_append h]
  rfl

/-- What is made of a whole text: what it is read as is what it denotes, and a fault about a limit
has its cause in the text. -/
theorem accounts_read (limits : Limits) (text : List Char) :
    match read limits text with
    | .ok v => IsText limits v text
    | .error .integerTooLong => HasLongRun limits.digits text
    | .error .nestedTooDeep => limits.nesting < opened text
    | .error .malformed => True := by
  have h := accounts_value limits.digits limits.nesting text
  unfold read
  cases hv : value limits.digits limits.nesting text with
  | error fault =>
    rw [hv] at h
    cases fault <;> exact h
  | ok result =>
    rw [hv] at h
    obtain ⟨body, ⟨blanks, inner, hb, hd, rfl⟩, rfl⟩ := h
    by_cases hs : skipBlanks result.2 = []
    · simp only [bind, Except.bind, hs, if_true]
      exact denotes_padded hb hd (blank_of_skipBlanks hs)
    · simp only [bind, Except.bind, hs, if_false]
      trivial

/-- A text that denotes a value within some limits is read as it, or it goes beyond the limits of
reading and is refused because of them. -/
theorem read_of_isText (limits : Limits) {others : Limits} (h : IsText others v text) :
    read limits text = .ok v ∨
      ¬ (others.digits ≤ limits.digits ∧ others.nesting ≤ limits.nesting) ∧
        ∃ fault, fault ≠ .malformed ∧ read limits text = .error fault := by
  obtain ⟨after, ha, hy⟩ := reads_of_denotes h limits.digits limits.nesting [] (by simp [Ends])
  rw [List.append_nil, List.append_nil] at hy
  unfold read
  rcases hy with hy | ⟨hn, fault, hf, hy⟩
  · rw [hy]
    exact .inl (if_pos (skipBlanks_blank ha))
  · rw [hy]
    exact .inr ⟨hn, fault, hf, rfl⟩

/-- Reading follows the grammar. -/
theorem read_eq_ok_iff {limits : Limits} : read limits text = .ok v ↔ IsText limits v text := by
  constructor
  · intro h
    have ha := accounts_read limits text
    rwa [h] at ha
  · intro h
    exact (read_of_isText limits h).resolve_right fun hn => hn.1 ⟨Nat.le_refl _, Nat.le_refl _⟩

end Json

end Calculator
