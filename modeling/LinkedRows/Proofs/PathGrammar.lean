/-
# The grammar of paths

The texts of paths as a grammar, apart from the reader that goes through them:

```
path    := segment ("." segment)*          PathText
segment := name ("[" spec "]")?            SegmentText
spec    := (name "=")? path                SpecText
```

Every token may have blanks around it (`Spells`).  What the segments of a path mean together is
`Denotes`: every segment but the last enters the table of its name, and the last one is a column
without brackets or, if a table is asked for, any segment.  A path in brackets has to end in a
column.
-/

import LinkedRows.Path.Reader

namespace LinkedRows
namespace Path

/-! ## Texts -/

/-- A name is one or more characters of names. -/
def IsName (name : String) : Prop :=
  name.toList ≠ [] ∧ ∀ c ∈ name.toList, isNameChar c = true

instance (name : String) : Decidable (IsName name) :=
  decidable_of_iff (name.toList ≠ [] ∧ name.toList.all isNameChar = true)
    (and_congr_right fun _ => List.all_eq_true)

/-- Nothing but blanks. -/
def Blanks (cs : List Char) : Prop := ∀ c ∈ cs, Text.isBlank c = true

/-- A token with blanks around it. -/
inductive Spells (token : List Char) : List Char → Prop
  | intro {before after : List Char} : Blanks before → Blanks after →
      Spells token (before ++ token ++ after)

/-- The path that segments denote together. -/
inductive Denotes (naming : Naming) : Target → List Segment → Path → Prop
  | column {name : String} : Denotes naming .column [⟨name, none⟩] (.column name)
  | table {s : Segment} : Denotes naming .table [s] (.table s.name (s.key naming) (s.link naming))
  | join {target : Target} {s : Segment} {later : List Segment} {inner : Path} :
      Denotes naming target later inner →
      Denotes naming target (s :: later) (.join s.name (s.key naming) (s.link naming) inner)

mutual

/-- A path: segments with a point between any two. -/
inductive PathText (naming : Naming) : List Char → List Segment → Prop
  | last {cs : List Char} {s : Segment} : SegmentText naming cs s → PathText naming cs [s]
  | more {cs point rest : List Char} {s : Segment} {later : List Segment} :
      SegmentText naming cs s → Spells ['.'] point → PathText naming rest later →
      PathText naming (cs ++ point ++ rest) (s :: later)

/-- A segment: a name, perhaps with brackets. -/
inductive SegmentText (naming : Naming) : List Char → Segment → Prop
  | bare {name : String} {cs : List Char} : IsName name → Spells name.toList cs →
      SegmentText naming cs ⟨name, none⟩
  | brackets {name : String} {cs left spec right : List Char} {inside : Option String × Path} :
      IsName name → Spells name.toList cs → Spells ['['] left → SpecText naming spec inside →
      Spells [']'] right → SegmentText naming (cs ++ left ++ spec ++ right) ⟨name, some inside⟩

/-- What stands in brackets: the link, perhaps after the key. -/
inductive SpecText (naming : Naming) : List Char → Option String × Path → Prop
  | link {cs : List Char} {segments : List Segment} {link : Path} :
      PathText naming cs segments → Denotes naming .column segments link →
      SpecText naming cs (none, link)
  | keyed {key : String} {ks equals cs : List Char} {segments : List Segment} {link : Path} :
      IsName key → Spells key.toList ks → Spells ['='] equals → PathText naming cs segments →
      Denotes naming .column segments link →
      SpecText naming (ks ++ equals ++ cs) (some key, link)

end

variable {naming : Naming} {target : Target}

theorem Blanks.append {as bs : List Char} (has : Blanks as) (hbs : Blanks bs) :
    Blanks (as ++ bs) := fun c hc => (List.mem_append.1 hc).elim (has c) (hbs c)

theorem blanks_nil : Blanks [] := fun _ h => absurd h List.not_mem_nil

theorem Spells.self (token : List Char) : Spells token token := by
  have h : Spells token ([] ++ token ++ []) := .intro blanks_nil blanks_nil
  rwa [List.nil_append, List.append_nil] at h

theorem Spells.append_blanks {token cs bs : List Char} (h : Spells token cs) (hbs : Blanks bs) :
    Spells token (cs ++ bs) := by
  obtain ⟨hbefore, hafter⟩ := h
  rw [List.append_assoc]
  exact .intro hbefore (hafter.append hbs)

/-- Blanks after a segment are part of its text. -/
theorem SegmentText.append_blanks {cs bs : List Char} {s : Segment} (h : SegmentText naming cs s)
    (hbs : Blanks bs) : SegmentText naming (cs ++ bs) s := by
  cases h with
  | bare hname hcs => exact .bare hname (hcs.append_blanks hbs)
  | brackets hname hcs hleft hspec hright =>
    rw [List.append_assoc _ _ bs]
    exact .brackets hname hcs hleft hspec (hright.append_blanks hbs)

/-! ## What segments denote -/

/-- Segments that are read with the last of them first denote the path through them. -/
theorem denotes_through {before later : List Segment} {p : Path}
    (h : Denotes naming target later p) :
    Denotes naming target (before.reverse ++ later) (through naming before p) := by
  induction before generalizing later p with
  | nil => exact h
  | cons s before ih =>
    rw [List.reverse_cons, List.append_assoc]
    exact ih (.join h)

theorem through_concat (naming : Naming) (before : List Segment) (s : Segment) (p : Path) :
    through naming (before ++ [s]) p = s.enter naming (through naming before p) :=
  List.foldl_append

/-- What segments denote is the path through all but the last of them. -/
theorem Denotes.eq_through {segments : List Segment} {p : Path}
    (h : Denotes naming target segments p) : ∃ later s, segments = later ++ [s] ∧
      (target = .column → s.brackets = none ∧ p = through naming later.reverse (.column s.name)) ∧
      (target = .table → p = through naming later.reverse (s.stop naming)) := by
  induction h with
  | column => exact ⟨[], _, rfl, fun _ => ⟨rfl, rfl⟩, nofun⟩
  | table => exact ⟨[], _, rfl, nofun, fun _ => rfl⟩
  | @join target s _ _ _ ih =>
    obtain ⟨later, last, rfl, hcolumn, htable⟩ := ih
    refine ⟨s :: later, last, rfl, fun h => ?_, fun h => ?_⟩
    · obtain ⟨hlast, rfl⟩ := hcolumn h
      refine ⟨hlast, ?_⟩
      rw [List.reverse_cons, through_concat]
      rfl
    · obtain rfl := htable h
      rw [List.reverse_cons, through_concat]
      rfl

/-- Segments denote a path unless the last of them is a table where a column has to be. -/
theorem exists_denotes {segments : List Segment} (h : segments ≠ []) :
    (∃ p, Denotes naming target segments p) ↔
      (target = .column → ∀ s ∈ segments.getLast?, s.brackets = none) := by
  constructor
  · rintro ⟨p, hp⟩ htarget s hs
    obtain ⟨later, last, rfl, hcolumn, -⟩ := hp.eq_through
    rw [List.getLast?_concat] at hs
    obtain rfl := Option.some.inj hs
    exact (hcolumn htarget).1
  · intro hlast
    induction segments with
    | nil => exact absurd rfl h
    | cons s later ih =>
      cases later with
      | nil =>
        cases target with
        | column =>
          obtain ⟨name, brackets⟩ := s
          obtain rfl : brackets = none := hlast rfl _ rfl
          exact ⟨_, .column⟩
        | table => exact ⟨_, .table⟩
      | cons t later =>
        obtain ⟨p, hp⟩ := ih (List.cons_ne_nil _ _) (by rwa [List.getLast?_cons_cons] at hlast)
        exact ⟨_, .join hp⟩

theorem PathText.ne_nil {cs : List Char} {segments : List Segment}
    (h : PathText naming cs segments) : segments ≠ [] := by
  cases h <;> exact List.cons_ne_nil _ _

end Path
end LinkedRows
