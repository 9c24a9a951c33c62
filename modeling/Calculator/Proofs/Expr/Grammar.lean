import Calculator.Proofs.Expr.Token
import Calculator.Proofs.Number.Numeral
import Mathlib.Data.List.Basic

/-!
# The grammar of equations

    expression := term (('+' | '-') term)*
    term       := factor (('*' | '/') factor)*
    factor     := ('+' | '-') factor
                | ('(' expression ')' | numeral | function) ['^' factor]
    function   := name '(' expression ')' | name factor

`Derives` is this grammar as a relation between tokens and trees. It has two
ambiguities, both at a function whose argument is not in parentheses, and its
strict form resolves them:

* `Derives.loosen`: a strict derivation is a derivation;
* `Derives.exists_strict`: tokens that have a derivation have a strict one;
* `Derives.sound`: every operator and function of a derived tree is known.
-/

namespace Calculator

/-- The parts of an equation. -/
inductive Part where
  | expression
  | term
  | factor
  /-- A group, a numeral, or a function whose argument is in parentheses. -/
  | closed
  /-- A function whose argument is a factor. -/
  | bare

/-- The tokens are a part of an equation, and this is its tree. In a strict derivation a
parenthesis after a name opens the argument of the function, and a power belongs to the innermost
factor that can take it: the argument of a function takes it before the function does. -/
inductive Derives (strict : Bool) : Part → List Token → Expr → Prop where
  | term {ts e} (h : Derives strict .term ts e) : Derives strict .expression ts e
  | sum {ts us l r op} (ho : op ∈ ['+', '-']) (hl : Derives strict .expression ts l)
      (hr : Derives strict .term us r) :
      Derives strict .expression (ts ++ .symbol op :: us) (.binary [op] l r)
  | factor {ts e} (h : Derives strict .factor ts e) : Derives strict .term ts e
  | product {ts us l r op} (ho : op ∈ ['*', '/']) (hl : Derives strict .term ts l)
      (hr : Derives strict .factor us r) :
      Derives strict .term (ts ++ .symbol op :: us) (.binary [op] l r)
  | sign {ts e op} (ho : op ∈ ['+', '-']) (h : Derives strict .factor ts e) :
      Derives strict .factor (.symbol op :: ts) (.unary [op] e)
  | closed {ts e} (h : Derives strict .closed ts e) : Derives strict .factor ts e
  | bare {ts e} (h : Derives strict .bare ts e) : Derives strict .factor ts e
  | power {ts us b e} (hb : Derives strict .closed ts b) (he : Derives strict .factor us e) :
      Derives strict .factor (ts ++ .symbol '^' :: us) (.binary ['^'] b e)
  | powerBare {ts us b e} (hs : strict = false) (hb : Derives strict .bare ts b)
      (he : Derives strict .factor us e) :
      Derives strict .factor (ts ++ .symbol '^' :: us) (.binary ['^'] b e)
  | group {ts e} (h : Derives strict .expression ts e) :
      Derives strict .closed (.symbol '(' :: (ts ++ [.symbol ')'])) e
  | numeral {text} (h : IsNumeral text) :
      Derives strict .closed [.numeral text] (.number (numeralValue text))
  | call {name ts e} (hn : Expr.isRootName name = true) (h : Derives strict .expression ts e) :
      Derives strict .closed (.name name :: .symbol '(' :: (ts ++ [.symbol ')']))
        (.call Operator.squareRoot.symbol e)
  | apply {name ts e} (hn : Expr.isRootName name = true)
      (hs : strict = true → ts.head? ≠ some (.symbol '(')) (h : Derives strict .factor ts e) :
      Derives strict .bare (.name name :: ts) (.call Operator.squareRoot.symbol e)

namespace Derives

variable {strict : Bool} {part : Part} {ts us : List Token} {e f : Expr}

theorem loosen (h : Derives strict part ts e) : Derives false part ts e := by
  induction h with
  | term _ ih => exact .term ih
  | sum ho _ _ ihl ihr => exact .sum ho ihl ihr
  | factor _ ih => exact .factor ih
  | product ho _ _ ihl ihr => exact .product ho ihl ihr
  | sign ho _ ih => exact .sign ho ih
  | closed _ ih => exact .closed ih
  | bare _ ih => exact .bare ih
  | power _ _ ihb ihe => exact .power ihb ihe
  | powerBare _ _ _ ihb ihe => exact .powerBare rfl ihb ihe
  | group _ ih => exact .group ih
  | numeral h => exact .numeral h
  | call hn _ ih => exact .call hn ih
  | apply hn _ _ ih => exact .apply hn nofun ih

theorem ne_nil (h : Derives strict part ts e) : ts ≠ [] := by
  induction h with
  | term _ ih | factor _ ih | closed _ ih | bare _ ih => exact ih
  | sum | product | power | powerBare =>
    exact List.append_ne_nil_of_right_ne_nil _ (List.cons_ne_nil _ _)
  | sign | group | numeral | call | apply => exact List.cons_ne_nil _ _

theorem isBinary_terms : ∀ op ∈ ['+', '-'], [op] ∈ Expr.binarySymbols :=
  forall_mem_of_all (by decide)

theorem isBinary_factors : ∀ op ∈ ['*', '/'], [op] ∈ Expr.binarySymbols :=
  forall_mem_of_all (by decide)

theorem sound (h : Derives strict part ts e) : e.Sound := by
  induction h with
  | term _ ih | factor _ ih | closed _ ih | bare _ ih | group _ ih | sign _ _ ih => exact ih
  | sum ho _ _ ihl ihr =>
    exact ⟨isBinary_terms _ ho, ihl, ihr⟩
  | product ho _ _ ihl ihr =>
    exact ⟨isBinary_factors _ ho, ihl, ihr⟩
  | power _ _ ihb ihe | powerBare _ _ _ ihb ihe => exact ⟨by decide, ihb, ihe⟩
  | numeral => trivial
  | call _ _ ih | apply _ _ _ ih => exact ⟨rfl, ih⟩

/-- Every level of the tree takes a token. -/
theorem depth_le (h : Derives strict part ts e) : e.depth ≤ ts.length := by
  induction h with
  | term _ ih | factor _ ih | closed _ ih | bare _ ih => exact ih
  | sum _ _ _ ihl ihr | product _ _ _ ihl ihr | power _ _ ihl ihr | powerBare _ _ _ ihl ihr =>
    rw [Expr.depth, List.length_append, List.length_cons]
    omega
  | sign _ _ ih | apply _ _ _ ih => exact Nat.succ_le_succ ih
  | numeral => exact Nat.le_refl 1
  | group _ ih | call _ _ ih =>
    simp only [Expr.depth, List.length_cons, List.length_append]
    omega

/-- What a power may follow begins with no symbol but a parenthesis. -/
theorem head?_of_primary (h : Derives strict part ts e) (hp : part = .closed ∨ part = .bare)
    {x : Char} (hx : ts.head? = some (.symbol x)) : x = '(' := by
  cases h with
  | term | sum | factor | product | sign | closed | bare | power | powerBare =>
    exact absurd hp (by simp)
  | group => simpa using hx.symm
  | numeral | call | apply => exact absurd hx (by simp)

/-! ## Resolving the ambiguities -/

/-- Any strict factor can take a power, at its innermost factor that can. -/
theorem exists_power (h : Derives true part ts e) (hp : part = .factor ∨ part = .bare)
    (hu : Derives true .factor us f) : ∃ g, Derives true part (ts ++ .symbol '^' :: us) g := by
  induction h with
  | term | sum | factor | product | group | numeral | call => exact absurd hp (by simp)
  | sign ho _ ih =>
    obtain ⟨g, hg⟩ := ih (.inl rfl)
    exact ⟨_, .sign ho hg⟩
  | closed h => exact ⟨_, .power h hu⟩
  | bare _ ih =>
    obtain ⟨g, hg⟩ := ih (.inr rfl)
    exact ⟨_, .bare hg⟩
  | power hb _ _ ihe =>
    obtain ⟨g, hg⟩ := ihe (.inl rfl)
    rw [List.append_assoc]
    exact ⟨_, .power hb hg⟩
  | powerBare hs => exact absurd hs (by decide)
  | @apply _ ts _ hn hs h ih =>
    obtain ⟨g, hg⟩ := ih (.inl rfl)
    have ho : (ts ++ .symbol '^' :: us).head? ≠ some (.symbol '(') := by
      rw [List.head?_append_of_ne_nil _ h.ne_nil]
      exact hs rfl
    exact ⟨_, .apply hn (fun _ => ho) hg⟩

theorem group_of_closed (h : Derives strict .closed ts e)
    (ho : ts.head? = some (.symbol '(')) :
    ∃ us, Derives strict .expression us e ∧ ts = .symbol '(' :: (us ++ [.symbol ')']) := by
  cases h with
  | group h => exact ⟨_, h, rfl⟩
  | numeral | call => exact absurd ho (by simp)

/-- A strict factor that begins with a parenthesis is a group, or a power of one. -/
theorem group_of_factor (h : Derives true .factor ts e) (ho : ts.head? = some (.symbol '(')) :
    ∃ us g, Derives true .expression us g ∧
      (ts = .symbol '(' :: (us ++ [.symbol ')']) ∨
        ∃ vs f, Derives true .factor vs f ∧
          ts = .symbol '(' :: (us ++ [.symbol ')']) ++ .symbol '^' :: vs) := by
  cases h with
  | sign hm =>
    rw [List.head?_cons, Option.some.injEq, Token.symbol.injEq] at ho
    exact absurd hm (by rw [ho]; decide)
  | closed h =>
    obtain ⟨us, hg, rfl⟩ := group_of_closed h ho
    exact ⟨us, _, hg, .inl rfl⟩
  | bare h =>
    cases h with
    | apply => exact absurd ho (by simp)
  | power hb he =>
    rw [List.head?_append_of_ne_nil _ hb.ne_nil] at ho
    obtain ⟨us, hg, rfl⟩ := group_of_closed hb ho
    exact ⟨us, _, hg, .inr ⟨_, _, he, rfl⟩⟩
  | powerBare hs => exact absurd hs (by decide)

end Derives

/-- The part as which a part of a factor has a strict derivation. -/
def Part.widen : Part → Part
  | .closed | .bare => .factor
  | part => part

theorem Derives.exists_strict {part : Part} {ts : List Token} {e : Expr}
    (h : Derives false part ts e) : ∃ f, Derives true part.widen ts f := by
  induction h with
  | term _ ih =>
    obtain ⟨f, hf⟩ := ih
    exact ⟨f, .term hf⟩
  | sum ho _ _ ihl ihr =>
    obtain ⟨⟨l, hl⟩, ⟨r, hr⟩⟩ := And.intro ihl ihr
    exact ⟨_, .sum ho hl hr⟩
  | factor _ ih =>
    obtain ⟨f, hf⟩ := ih
    exact ⟨f, .factor hf⟩
  | product ho _ _ ihl ihr =>
    obtain ⟨⟨l, hl⟩, ⟨r, hr⟩⟩ := And.intro ihl ihr
    exact ⟨_, .product ho hl hr⟩
  | sign ho _ ih =>
    obtain ⟨f, hf⟩ := ih
    exact ⟨_, .sign ho hf⟩
  | closed _ ih | bare _ ih => exact ih
  | power _ _ ihb ihe | powerBare _ _ _ ihb ihe =>
    obtain ⟨⟨b, hb⟩, ⟨f, hf⟩⟩ := And.intro ihb ihe
    exact hb.exists_power (.inl rfl) hf
  | group _ ih =>
    obtain ⟨f, hf⟩ := ih
    exact ⟨f, .closed (.group hf)⟩
  | numeral h => exact ⟨_, .closed (.numeral h)⟩
  | call hn _ ih =>
    obtain ⟨f, hf⟩ := ih
    exact ⟨_, .closed (.call hn hf)⟩
  | @apply name ts e hn _ _ ih =>
    obtain ⟨f, hf⟩ := ih
    by_cases ho : ts.head? = some (.symbol '(')
    · -- The parenthesis that opened the factor now opens the argument.
      obtain ⟨us, g, hg, rfl | ⟨vs, k, hk, rfl⟩⟩ := Derives.group_of_factor hf ho
      · exact ⟨_, .closed (.call hn hg)⟩
      · exact ⟨_, .power (.call hn hg) hk⟩
    · exact ⟨_, .bare (.apply hn (fun _ => ho) hf)⟩

end Calculator
