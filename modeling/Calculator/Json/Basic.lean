import Calculator.Number.Binary64
import Calculator.Text.Units

/-!
# Values of a settings file

A value is null, true or false, an integer of any size, a floating point number, a string, a list,
or an object. An object keeps its members in order, and a name stands in it once: writing a name
anew keeps its place.

* `Json.lookup_put`: a member that has been written is found;
* `Json.names_put`: and the order of the names is kept.
-/

namespace Calculator

/-- A value of a settings file. -/
inductive Json where
  | null
  | bool (value : Bool)
  | integer (value : Int)
  | number (value : Binary64)
  | string (units : Units)
  | array (items : List Json)
  | object (members : List (Units × Json))
  deriving Inhabited

namespace Json

/-- The members of an object, in order. -/
abbrev Members := List (Units × Json)

/-- The members with a value written under a name: in its place if the name is there, else at the
end. -/
def put (name : Units) (value : Json) : Members → Members
  | [] => [(name, value)]
  | (other, old) :: rest =>
    if other = name then (name, value) :: rest else (other, old) :: put name value rest

/-- The members with other members written over them, one after the other. -/
def overlay (members changes : Members) : Members :=
  changes.foldl (fun members change => put change.1 change.2 members) members

/-- The value is `true`, or a number that is equal to one. -/
def isTrue : Json → Bool
  | bool value => value
  | integer value => value == 1
  | number value => value == .one
  | _ => false

theorem lookup_put (name : Units) (value : Json) (members : Members) :
    (put name value members).lookup name = some value := by
  induction members with
  | nil => rw [put, List.lookup_cons_self]
  | cons member rest ih =>
    obtain ⟨other, old⟩ := member
    by_cases h : other = name
    · rw [put, if_pos h, List.lookup_cons_self]
    · rw [put, if_neg h, List.lookup_cons, beq_eq_false_iff_ne.2 (Ne.symm h)]
      exact ih

theorem lookup_put_of_ne {name other : Units} (h : other ≠ name) (value : Json)
    (members : Members) : (put name value members).lookup other = members.lookup other := by
  induction members with
  | nil => rw [put, List.lookup_cons, beq_eq_false_iff_ne.2 h]
  | cons member rest ih =>
    obtain ⟨held, old⟩ := member
    by_cases hm : held = name
    · rw [put, if_pos hm, hm, List.lookup_cons, List.lookup_cons, beq_eq_false_iff_ne.2 h]
    · rw [put, if_neg hm, List.lookup_cons, List.lookup_cons, ih]

theorem names_put (name : Units) (value : Json) (members : Members) :
    (put name value members).map Prod.fst =
      if name ∈ members.map Prod.fst then members.map Prod.fst
      else members.map Prod.fst ++ [name] := by
  induction members with
  | nil => simp [put]
  | cons member rest ih =>
    unfold put
    split
    · rename_i hm
      simp [hm]
    · rename_i hm
      rw [List.map_cons, ih, List.map_cons]
      by_cases hr : name ∈ rest.map Prod.fst
      · rw [if_pos hr, if_pos (List.mem_cons_of_mem _ hr)]
      · rw [if_neg hr, if_neg, List.cons_append]
        rw [List.mem_cons, not_or]
        exact ⟨Ne.symm hm, hr⟩

end Json

end Calculator
