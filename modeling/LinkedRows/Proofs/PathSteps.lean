/-
# One character of a path

What a character can do to what has been read of a path: it is part of a name, a blank, or one of
`.`, `[`, `]` and `=` where that can follow (`Reading.Takes`).  What is said of everything that has
been read is proved by these cases, and does not look into the reader.
-/

import LinkedRows.Path.Reader

namespace LinkedRows
namespace Path
namespace Reading

/-- The ways in which a character is taken. -/
inductive Takes (naming : Naming) : Reading → Char → Reading → Prop
  | blankBefore {context : Context} {c : Char} : Text.isBlank c = true →
      Takes naming (.wantsName context) c (.wantsName context)
  | nameStarts {context : Context} {c : Char} : isNameChar c = true →
      Takes naming (.wantsName context) c (.named context (String.singleton c) true)
  | nameGrows {context : Context} {name : String} {c : Char} : isNameChar c = true →
      Takes naming (.named context name true) c (.named context (name.push c) true)
  | blankAfter {context : Context} {name : String} {growing : Bool} {c : Char} :
      Text.isBlank c = true →
      Takes naming (.named context name growing) c (.named context name false)
  /-- The name is a segment without brackets. -/
  | dotAfter {context : Context} {name : String} {growing : Bool} :
      Takes naming (.named context name growing) '.' (.wantsName (context.push ⟨name, none⟩))
  | opens {context : Context} {name : String} {growing : Bool} :
      Takes naming (.named context name growing) '[' (.wantsName (.brackets context name none []))
  /-- The name is the column that ends the path in the brackets. -/
  | closes {outer : Context} {entered : String} {key : Option String} {before : List Segment}
      {name : String} {growing : Bool} :
      Takes naming (.named (.brackets outer entered key before) name growing) ']'
        (.closed outer ⟨entered, some (key, through naming before (.column name))⟩)
  /-- The name is the key of the table. -/
  | keys {outer : Context} {entered name : String} {growing : Bool} :
      Takes naming (.named (.brackets outer entered none []) name growing) '='
        (.wantsName (.brackets outer entered (some name) []))
  | blankClosed {context : Context} {segment : Segment} {c : Char} : Text.isBlank c = true →
      Takes naming (.closed context segment) c (.closed context segment)
  | dotClosed {context : Context} {segment : Segment} :
      Takes naming (.closed context segment) '.' (.wantsName (context.push segment))

variable {naming : Naming} {target : Target} {reading next : Reading} {c : Char}

theorem takes_of_afterName {context : Context} {name : String} {growing : Bool}
    (h : afterName naming context name c = .ok next) :
    Takes naming (.named context name growing) c next := by
  unfold afterName at h
  split at h
  · rename_i hc
    obtain rfl := Except.ok.inj h
    exact hc ▸ .opens
  split at h
  · rename_i hc
    obtain rfl := Except.ok.inj h
    exact hc ▸ .dotAfter
  cases context with
  | top before => cases h
  | brackets outer entered key before =>
    dsimp only at h
    split at h
    · rename_i hc
      obtain rfl := Except.ok.inj h
      exact hc ▸ .closes
    split at h
    · rename_i hc
      obtain rfl := Except.ok.inj h
      obtain ⟨rfl, rfl, rfl⟩ := hc
      exact .keys
    · cases h

/-- A character that is read is taken in one of the ways. -/
theorem takes_of_step (h : reading.step naming target c = .ok next) :
    Takes naming reading c next := by
  cases reading with
  | wantsName context =>
    unfold Reading.step at h
    dsimp only at h
    split at h
    · obtain rfl := Except.ok.inj h
      exact .nameStarts ‹_›
    split at h
    · obtain rfl := Except.ok.inj h
      exact .blankBefore ‹_›
    · cases h
  | named context name growing =>
    unfold Reading.step at h
    dsimp only at h
    split at h
    · rename_i hc
      obtain rfl := Except.ok.inj h
      obtain ⟨rfl, hc⟩ := (Bool.and_eq_true _ _).mp hc
      exact .nameGrows hc
    split at h
    · obtain rfl := Except.ok.inj h
      exact .blankAfter ‹_›
    · exact takes_of_afterName h
  | closed context segment =>
    unfold Reading.step at h
    dsimp only at h
    split at h
    · obtain rfl := Except.ok.inj h
      exact .blankClosed ‹_›
    split at h
    · rename_i hc
      obtain rfl := Except.ok.inj h
      exact hc ▸ .dotClosed
    · split at h <;> cases h

end Reading
end Path
end LinkedRows
