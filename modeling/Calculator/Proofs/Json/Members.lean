import Calculator.Json.Basic
import Mathlib.Data.List.Nodup

/-!
# Members of an object

Members are determined by the order of their names and by the value under each of them. For what is
written over members both are known, so members that are reached in different ways can be compared.

* `Json.ext_names_lookup`: members with the same names and the same values are the same;
* `Json.names_overlay`: the names of what is written over stand first, and then the new ones;
* `Json.lookup_overlay`: the last value that was written under a name counts;
* `Json.overlay_filterMap`: members that are written anew are changed in their places.
-/

namespace Calculator

namespace Json

variable {members changes : Members} {name : Units} {value : Json}

/-! ## Names and values -/

theorem lookup_eq_some_iff_mem {α β : Type} [BEq α] [LawfulBEq α] {pairs : List (α × β)}
    (h : (pairs.map Prod.fst).Nodup) {a : α} {b : β} :
    pairs.lookup a = some b ↔ (a, b) ∈ pairs := by
  induction pairs with
  | nil => simp
  | cons pair rest ih =>
    obtain ⟨other, held⟩ := pair
    obtain ⟨hn, hr⟩ := List.nodup_cons.mp h
    by_cases ha : a = other
    · subst ha
      have hm : (a, b) ∉ rest := fun hm => hn (List.mem_map.mpr ⟨(a, b), hm, rfl⟩)
      simp [hm, eq_comm]
    · rw [List.lookup_cons, beq_eq_false_iff_ne.mpr ha, ih hr, List.mem_cons]
      simp [ha]

theorem lookup_eq_none_iff_not_mem {α β : Type} [BEq α] [LawfulBEq α] {pairs : List (α × β)}
    {a : α} : pairs.lookup a = none ↔ a ∉ pairs.map Prod.fst := by
  induction pairs with
  | nil => simp
  | cons pair rest ih =>
    obtain ⟨other, held⟩ := pair
    by_cases ha : a = other
    · simp [ha]
    · rw [List.lookup_cons, beq_eq_false_iff_ne.mpr ha, ih]
      simp [ha]

theorem lookup_reverse {α β : Type} [BEq α] [LawfulBEq α] {pairs : List (α × β)}
    (h : (pairs.map Prod.fst).Nodup) (a : α) : pairs.reverse.lookup a = pairs.lookup a := by
  have hr : (pairs.reverse.map Prod.fst).Nodup := by
    rwa [List.map_reverse, List.nodup_reverse]
  refine Option.ext fun b => ?_
  rw [lookup_eq_some_iff_mem hr, lookup_eq_some_iff_mem h, List.mem_reverse]

/-- Members with the same names in the same order, and the same value under each, are the same. -/
theorem ext_names_lookup {others : Members} (hn : (members.map Prod.fst).Nodup)
    (he : others.map Prod.fst = members.map Prod.fst)
    (hl : ∀ name ∈ members.map Prod.fst, others.lookup name = members.lookup name) :
    others = members := by
  induction members generalizing others with
  | nil => exact List.map_eq_nil_iff.mp he
  | cons member rest ih =>
    obtain ⟨name, value⟩ := member
    cases others with
    | nil => cases he
    | cons other more =>
      obtain ⟨held, kept⟩ := other
      obtain ⟨rfl, hm⟩ := List.cons.inj he
      obtain ⟨hnot, hr⟩ := List.nodup_cons.mp hn
      have hv := hl held (List.mem_cons_self)
      rw [List.lookup_cons_self, List.lookup_cons_self] at hv
      rw [Option.some.inj hv, ih hr hm fun name hin => ?_]
      have hne : (name == held) = false := beq_eq_false_iff_ne.mpr fun h => hnot (h ▸ hin)
      have hc := hl name (List.mem_cons_of_mem _ hin)
      rwa [List.lookup_cons, List.lookup_cons, hne] at hc

/-! ## Writing one member -/

theorem mem_of_mem_put {member : Units × Json} (h : member ∈ put name value members) :
    member = (name, value) ∨ member ∈ members := by
  induction members with
  | nil => exact .inl (List.mem_singleton.mp h)
  | cons other rest ih =>
    rw [put] at h
    split at h
    · exact (List.mem_cons.mp h).imp_right (List.mem_cons_of_mem _)
    · rcases List.mem_cons.mp h with rfl | h
      · exact .inr List.mem_cons_self
      · exact (ih h).imp_right (List.mem_cons_of_mem _)

theorem nodup_put (h : (members.map Prod.fst).Nodup) :
    ((put name value members).map Prod.fst).Nodup := by
  rw [names_put]
  split_ifs with hm
  · exact h
  · rw [← List.concat_eq_append]
    exact h.concat hm

/-! ## Writing over members -/

theorem overlay_cons (members : Members) (name : Units) (value : Json) (changes : Members) :
    overlay members ((name, value) :: changes) = overlay (put name value members) changes := rfl

theorem mem_of_mem_overlay {member : Units × Json} (h : member ∈ overlay members changes) :
    member ∈ members ∨ member ∈ changes := by
  induction changes generalizing members with
  | nil => exact .inl h
  | cons change changes ih =>
    rcases ih h with h | h
    · rcases mem_of_mem_put h with rfl | h
      · exact .inr List.mem_cons_self
      · exact .inl h
    · exact .inr (List.mem_cons_of_mem _ h)

theorem nodup_overlay (changes : Members) (h : (members.map Prod.fst).Nodup) :
    ((overlay members changes).map Prod.fst).Nodup := by
  induction changes generalizing members with
  | nil => exact h
  | cons change changes ih => exact ih (nodup_put h)

/-- The names of what is written over keep their places; the new names follow. -/
theorem names_overlay (members : Members) (h : (changes.map Prod.fst).Nodup) :
    (overlay members changes).map Prod.fst =
      members.map Prod.fst ++
        (changes.map Prod.fst).filter fun name => name ∉ members.map Prod.fst := by
  induction changes generalizing members with
  | nil => exact (List.append_nil _).symm
  | cons change changes ih =>
    obtain ⟨name, value⟩ := change
    obtain ⟨hn, hr⟩ := List.nodup_cons.mp h
    rw [overlay_cons, ih _ hr, names_put, List.map_cons, List.filter_cons]
    by_cases hm : name ∈ members.map Prod.fst
    · simp only [hm, not_true_eq_false, decide_false, if_true, Bool.false_eq_true, if_false]
    · simp only [hm, not_false_eq_true, decide_true, if_true, if_false, List.append_assoc,
        List.singleton_append]
      congr 2
      refine List.filter_congr fun other ho => ?_
      have hne : other ≠ name := fun he => hn (he ▸ ho)
      simp [hne]

/-- The last value that is written under a name counts. -/
theorem lookup_overlay (members changes : Members) (name : Units) :
    (overlay members changes).lookup name =
      (changes.reverse.lookup name).or (members.lookup name) := by
  induction changes generalizing members with
  | nil => rfl
  | cons change changes ih =>
    obtain ⟨other, value⟩ := change
    rw [overlay_cons, ih, List.reverse_cons, List.lookup_append, Option.or_assoc]
    congr 1
    by_cases hn : name = other
    · subst hn
      rw [lookup_put, List.lookup_cons_self]
      rfl
    · rw [lookup_put_of_ne hn, List.lookup_cons, beq_eq_false_iff_ne.mpr hn, List.lookup_nil]
      rfl

/-- Members stay as they are when they are written over others whose names are their first ones. -/
theorem overlay_of_names {names : List Units} (h : (changes.map Prod.fst).Nodup)
    (hn : changes.map Prod.fst = members.map Prod.fst ++ names) :
    overlay members changes = changes := by
  refine ext_names_lookup h ?_ fun name hm => ?_
  · rw [names_overlay _ h, hn, List.filter_append]
    rw [hn, List.nodup_append] at h
    have hfirst : (members.map Prod.fst).filter (fun name => name ∉ members.map Prod.fst) = [] :=
      List.filter_eq_nil_iff.mpr fun name hm => by simpa using hm
    have hrest : names.filter (fun name => name ∉ members.map Prod.fst) = names :=
      List.filter_eq_self.mpr fun name hm =>
        decide_eq_true fun hin => h.2.2 name hin name hm rfl
    rw [hfirst, hrest, List.nil_append]
  · rw [lookup_overlay, lookup_reverse h]
    cases hl : changes.lookup name with
    | none => exact absurd hm (lookup_eq_none_iff_not_mem.mp hl)
    | some value => rfl

/-- Members with distinct names, written over none, stay as they are. -/
theorem overlay_nil (h : (members.map Prod.fst).Nodup) : overlay [] members = members :=
  overlay_of_names h (List.nil_append _).symm

/-- A member that is not written over stays where it is. -/
theorem overlay_cons_of_not_mem (h : name ∉ changes.map Prod.fst) (value : Json)
    (members : Members) :
    overlay ((name, value) :: members) changes = (name, value) :: overlay members changes := by
  induction changes generalizing members with
  | nil => rfl
  | cons change changes ih =>
    obtain ⟨other, new⟩ := change
    rw [List.map_cons, List.mem_cons, not_or] at h
    rw [overlay_cons, put, if_neg h.1, ih h.2, overlay_cons]

/-- Some of the members, written anew, are changed in their places. -/
theorem overlay_filterMap (h : (members.map Prod.fst).Nodup) (new? : Units × Json → Option Json) :
    overlay members (members.filterMap fun member => (new? member).map fun new => (member.1, new)) =
      members.map fun member => (member.1, (new? member).getD member.2) := by
  induction members with
  | nil => rfl
  | cons member rest ih =>
    obtain ⟨name, value⟩ := member
    obtain ⟨hn, hr⟩ := List.nodup_cons.mp h
    have hnot : name ∉ (rest.filterMap fun member =>
        (new? member).map fun new => (member.1, new)).map Prod.fst := by
      intro hm
      obtain ⟨_, hc, rfl⟩ := List.mem_map.mp hm
      obtain ⟨member, hin, he⟩ := List.mem_filterMap.mp hc
      obtain ⟨new, -, rfl⟩ := Option.map_eq_some_iff.mp he
      exact hn (List.mem_map.mpr ⟨member, hin, rfl⟩)
    cases hnew : new? (name, value) with
    | none =>
      rw [List.filterMap_cons_none (by rw [hnew]; rfl), overlay_cons_of_not_mem hnot, ih hr,
        List.map_cons, hnew]
      rfl
    | some new =>
      rw [List.filterMap_cons_some (by rw [hnew]; rfl), overlay_cons, put, if_pos rfl,
        overlay_cons_of_not_mem hnot, ih hr, List.map_cons, hnew]
      rfl

end Json

end Calculator
