import Calculator.Proofs.Json.Reading
import Calculator.Settings.Basic

/-!
# Loading what stands in a file

What a file gives is decided by its text. An object within the limits of reading gives its members;
what is no object gives none. The text of a value beyond the limits, an integer that is too long or
a list that is nested too deeply in what is otherwise broken, and bytes that are no text at all give
an error.

* `Place.text?_utf8Encode`, `Place.text?_of_not_valid`: the text of a file;
* `Place.membersOf?_of_object`, `Place.membersOf?_of_beyond`, `Place.membersOf?_of_no_object`: what
  a text gives;
* `Settings.isOverDefaults_overlay`: which settings are in force;
* `Settings.load_file`: what a file of settings and a file of descriptions give.
-/

namespace Calculator

open Json

/-! ## The text of a file -/

namespace Place

variable {text : List Char} {bytes : ByteArray} {v : Json}

theorem text?_utf8Encode (text : List Char) : (file text.utf8Encode).text? = .ok (some text) := by
  rw [text?, List.utf8Decode?_utf8Encode]

theorem text?_of_not_valid (h : ¬ bytes.IsValidUTF8) : (file bytes).text? = .error .notUtf8 := by
  cases hb : bytes.utf8Decode? with
  | none => rw [text?, hb]
  | some chars => exact absurd (ByteArray.isSome_utf8Decode?_iff.mp (by rw [hb]; rfl)) h

/-- An error because of a limit of reading. -/
def IsLimitError (error : ReadError) : Prop := error = .integerTooLong ∨ error = .nestedTooDeep

variable [Host]

theorem members?_utf8Encode (text : List Char) :
    (file text.utf8Encode).members? = membersOf? text := by
  rw [members?, text?_utf8Encode]
  rfl

theorem members?_of_not_valid (h : ¬ bytes.IsValidUTF8) :
    (file bytes).members? = .error .notUtf8 := by
  rw [members?, text?_of_not_valid h]
  rfl

/-! ## What a text gives -/

/-- The text exceeds a limit of reading that the error names: it has a run of digits that is too
long, or so many brackets and braces that open. -/
def Exceeds (text : List Char) (error : ReadError) : Prop :=
  error = .integerTooLong ∧ HasLongRun limits.digits text ∨
    error = .nestedTooDeep ∧ limits.nesting < opened text

theorem membersOf?_of_object {members : Json.Members} (h : IsText limits (.object members) text) :
    membersOf? text = .ok (some members) := by
  rw [membersOf?, read_eq_ok_iff.mpr h]

/-- The text of a value that is beyond the limits gives an error. -/
theorem membersOf?_of_beyond {others : Limits} (h : IsText others v text)
    (hn : ¬ IsText limits v text) :
    ∃ error, IsLimitError error ∧ membersOf? text = .error error := by
  rcases read_of_isText limits h with hr | ⟨-, fault, hf, hr⟩
  · exact absurd (read_eq_ok_iff.mp hr) hn
  · rw [membersOf?, hr]
    cases fault with
    | malformed => exact absurd rfl hf
    | integerTooLong => exact ⟨_, .inl rfl, rfl⟩
    | nestedTooDeep => exact ⟨_, .inr rfl, rfl⟩

/-- The text of no object gives no members, or an error that has its cause in the text. -/
theorem membersOf?_of_no_object (h : ∀ members, ¬ IsText limits (.object members) text) :
    membersOf? text = .ok none ∨ ∃ error, Exceeds text error ∧ membersOf? text = .error error := by
  have ha := accounts_read limits text
  unfold membersOf?
  split at ha
  · rename_i v hr
    rw [hr]
    cases v with
    | object members => exact absurd ha (h members)
    | _ => exact .inl rfl
  · rename_i hr
    rw [hr]
    exact .inr ⟨_, .inl ⟨rfl, ha⟩, rfl⟩
  · rename_i hr
    rw [hr]
    exact .inr ⟨_, .inr ⟨rfl, ha⟩, rfl⟩
  · rename_i hr
    rw [hr]
    exact .inl rfl

end Place

/-! ## Settings -/

namespace Settings

variable {place : Place} {loaded members : Json.Members}

/-- The defaults with other members over them: their names stand first, and then the other names;
under each name stands the value among the members, or else the default. -/
def IsOverDefaults (loaded members : Json.Members) : Prop :=
  loaded.map Prod.fst =
      defaults.map Prod.fst ++
        (members.map Prod.fst).filter (fun name => name ∉ defaults.map Prod.fst) ∧
    ∀ name, loaded.lookup name = (members.lookup name).or (defaults.lookup name)

theorem isOverDefaults_overlay (h : (members.map Prod.fst).Nodup) :
    IsOverDefaults (overlay defaults members) members := by
  refine ⟨names_overlay defaults h, fun name => ?_⟩
  rw [lookup_overlay, lookup_reverse h]

section

variable [Host]

theorem load_of_members? {held : Option Json.Members} (h : place.members? = .ok held) :
    load place = .ok (overlay defaults (held.getD [])) := by
  rw [load, h]
  rfl

theorem value_everything (place : Place) :
    value place everything = (load place).map Json.object := by
  unfold value select
  congr 1

theorem value_of_error {error : ReadError} (h : place.members? = .error error) (name : Units) :
    value place name = .error error ∧ description place name = .error error := by
  rw [value, load, description, h]
  exact ⟨rfl, rfl⟩

theorem value_of_none (h : place.members? = .ok none) :
    value place everything = .ok (.object defaults) ∧
      description place everything = .ok (.object []) := by
  rw [value_everything, load_of_members? h, description, h]
  exact ⟨rfl, rfl⟩

theorem value_of_some (h : place.members? = .ok (some members)) :
    value place everything = .ok (.object (overlay defaults members)) ∧
      description place everything = .ok (.object members) := by
  rw [value_everything, load_of_members? h, description, h]
  exact ⟨rfl, rfl⟩

/-- What a file gives when it is read as settings and when it is read as descriptions, whatever its
bytes are. The text of an object within the limits of reading gives its members, over the defaults
or alone. The text of no object gives the defaults or nothing, unless a limit of reading is exceeded
in it. The text of a value beyond the limits and bytes that are no text give an error. -/
theorem load_file (bytes : ByteArray) :
    (¬ bytes.IsValidUTF8 →
      value (.file bytes) everything = .error .notUtf8 ∧
        description (.file bytes) everything = .error .notUtf8) ∧
    ∀ text, bytes = text.utf8Encode →
      (∀ members, IsText Place.limits (.object members) text →
        description (.file bytes) everything = .ok (.object members) ∧
          ∃ loaded, value (.file bytes) everything = .ok (.object loaded) ∧
            IsOverDefaults loaded members) ∧
      (∀ others v, IsText others v text → ¬ IsText Place.limits v text →
        ∃ error, Place.IsLimitError error ∧ value (.file bytes) everything = .error error ∧
          description (.file bytes) everything = .error error) ∧
      ((∀ others members, ¬ IsText others (.object members) text) →
        value (.file bytes) everything = .ok (.object defaults) ∧
            description (.file bytes) everything = .ok (.object []) ∨
          ∃ error, Place.Exceeds text error ∧ value (.file bytes) everything = .error error ∧
            description (.file bytes) everything = .error error) := by
  refine ⟨fun h => value_of_error (Place.members?_of_not_valid h) _, ?_⟩
  rintro text rfl
  have hm := Place.members?_utf8Encode text
  refine ⟨fun members h => ?_, fun others v h hn => ?_, fun h => ?_⟩
  · rw [Place.membersOf?_of_object h] at hm
    obtain ⟨hv, hd⟩ := value_of_some hm
    cases Denotes.within h with
    | object hnodup _ => exact ⟨hd, _, hv, isOverDefaults_overlay hnodup⟩
  · obtain ⟨error, he, hr⟩ := Place.membersOf?_of_beyond h hn
    exact ⟨error, he, value_of_error (hm.trans hr) _⟩
  · rcases Place.membersOf?_of_no_object (h Place.limits) with hr | ⟨error, he, hr⟩
    · exact .inl (value_of_none (hm.trans hr))
    · exact .inr ⟨error, he, value_of_error (hm.trans hr) _⟩

end

/-- A byte that is no text stops loading, so there are not even the defaults. -/
theorem value_not_utf8 : value (.file ⟨#[0xff]⟩) everything = .error .notUtf8 := by cbv

end Settings

end Calculator
