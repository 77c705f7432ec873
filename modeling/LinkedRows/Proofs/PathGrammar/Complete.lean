/-
# What derives from the grammar is read

Each production of the grammar takes the reader from where it begins to where it ends
(`Reading.Advances`): tokens first, then by induction on the derivation segments, paths and what
stands in brackets.  Together with the other direction, the reader accepts exactly its grammar
(`reads_exactly_grammar`).
-/

import LinkedRows.Proofs.PathGrammar.Sound

namespace LinkedRows
namespace Path

variable {naming : Naming} {target : Target}

/-! ## The reader -/

/-- No blank is a character of names. -/
theorem isNameChar_of_isBlank {c : Char} (h : Text.isBlank c = true) :
    isNameChar c = false := by
  have hnone : ∀ n ∈ [9, 10, 11, 12, 13, 32, 0x85, 0xA0, 0x1680, 0x2000, 0x2001, 0x2002, 0x2003,
      0x2004, 0x2005, 0x2006, 0x2007, 0x2008, 0x2009, 0x200A, 0x2028, 0x2029, 0x202F, 0x205F,
      0x3000], isNameChar (Char.ofNat n) = false := by
    decide +kernel
  rw [← Char.ofNat_toNat c]
  refine hnone _ ?_
  simp only [Text.isBlank, Bool.or_eq_true, Bool.and_eq_true, decide_eq_true_eq, beq_iff_eq] at h
  generalize c.toNat = n at h
  simp only [List.mem_cons, List.not_mem_nil, or_false]
  omega

theorem not_isNameChar_mark {c : Char} (h : c ∈ ['.', '[', ']', '=']) : isNameChar c = false := by
  simp only [List.mem_cons, List.not_mem_nil, or_false] at h
  rcases h with rfl | rfl | rfl | rfl <;> rfl

theorem not_isBlank_mark {c : Char} (h : c ∈ ['.', '[', ']', '=']) : Text.isBlank c = false := by
  simp only [List.mem_cons, List.not_mem_nil, or_false] at h
  rcases h with rfl | rfl | rfl | rfl <;> rfl

/-- The context after some more segments. -/
def Context.pushAll (context : Context) (segments : List Segment) : Context :=
  segments.foldl (fun context s => context.push s) context

theorem Context.pushAll_top (before segments : List Segment) :
    (Context.top before).pushAll segments = .top (segments.reverse ++ before) := by
  induction segments generalizing before with
  | nil => rfl
  | cons s segments ih =>
    rw [List.reverse_cons, List.append_assoc]
    exact ih (s :: before)

theorem Context.pushAll_brackets (outer : Context) (name : String) (key : Option String)
    (before segments : List Segment) : (Context.brackets outer name key before).pushAll segments =
      .brackets outer name key (segments.reverse ++ before) := by
  induction segments generalizing before with
  | nil => rfl
  | cons s segments ih =>
    rw [List.reverse_cons, List.append_assoc]
    exact ih (s :: before)

namespace Reading

/-- Characters take one reading to another. -/
inductive Advances (naming : Naming) (target : Target) : Reading → List Char → Reading → Prop
  | nil {reading : Reading} : Advances naming target reading [] reading
  | cons {reading next last : Reading} {c : Char} {cs : List Char} :
      reading.step naming target c = .ok next → Advances naming target next cs last →
      Advances naming target reading (c :: cs) last

/-- A segment has been read in a context, and perhaps blanks after it. -/
def Ends (context : Context) (s : Segment) : Reading → Prop
  | .wantsName _ => False
  | .named context' name _ => context' = context ∧ s = ⟨name, none⟩
  | .closed context' segment => context' = context ∧ s = segment ∧ segment.brackets ≠ none

variable {context inner : Context} {reading next last : Reading} {s : Segment} {c : Char}
  {cs ds bs : List Char}

theorem Advances.append (h : Advances naming target reading cs next)
    (h' : Advances naming target next ds last) :
    Advances naming target reading (cs ++ ds) last := by
  induction h with
  | nil => exact h'
  | cons hstep _ ih => exact .cons hstep (ih h')

theorem Advances.single {c : Char} (h : reading.step naming target c = .ok next) :
    Advances naming target reading [c] next := .cons h .nil

/-- Reading is deterministic. -/
theorem Advances.unique (h : Advances naming target reading cs next)
    (h' : Advances naming target reading cs last) : next = last := by
  induction h with
  | nil =>
    cases h'
    rfl
  | cons hstep _ ih =>
    cases h' with
    | cons hstep' hlater =>
      obtain rfl := Except.ok.inj (hstep.symm.trans hstep')
      exact ih hlater

theorem Advances.run {p : Path} (h : Advances naming target reading cs last)
    (hfinish : last.finish naming target = .ok p) (position : Nat) :
    Reading.run naming target reading position cs = .ok p := by
  induction h generalizing position with
  | nil =>
    rw [Reading.run, hfinish]
    rfl
  | cons hstep _ ih =>
    rw [Reading.run, hstep]
    exact ih hfinish _

/-! ### Single characters -/

theorem step_wantsName_blank (hc : Text.isBlank c = true) :
    (wantsName context).step naming target c = .ok (.wantsName context) := by
  unfold step
  dsimp only
  rw [isNameChar_of_isBlank hc, hc, if_neg Bool.false_ne_true, if_pos rfl]

theorem step_wantsName_name (hc : isNameChar c = true) :
    (wantsName context).step naming target c = .ok (.named context (String.singleton c) true) := by
  unfold step
  dsimp only
  rw [hc, if_pos rfl]

theorem step_named_blank {name : String} {growing : Bool} (hc : Text.isBlank c = true) :
    (named context name growing).step naming target c = .ok (.named context name false) := by
  unfold step
  dsimp only
  rw [isNameChar_of_isBlank hc, hc, Bool.and_false, if_neg Bool.false_ne_true, if_pos rfl]

theorem step_named_name {name : String} (hc : isNameChar c = true) :
    (named context name true).step naming target c = .ok (.named context (name.push c) true) := by
  unfold step
  dsimp only
  rw [hc, Bool.and_self, if_pos rfl]

/-- After a name, a mark is never part of it. -/
theorem step_named_mark {name : String} {growing : Bool} (hc : c ∈ ['.', '[', ']', '=']) :
    (named context name growing).step naming target c = afterName naming context name c := by
  unfold step
  dsimp only
  rw [not_isNameChar_mark hc, not_isBlank_mark hc, Bool.and_false, if_neg Bool.false_ne_true,
    if_neg Bool.false_ne_true]

theorem step_closed_blank (hc : Text.isBlank c = true) :
    (closed context s).step naming target c = .ok (.closed context s) := by
  unfold step
  dsimp only
  rw [hc, if_pos rfl]

theorem step_closed_point :
    (closed context s).step naming target '.' = .ok (.wantsName (context.push s)) := by
  unfold step
  dsimp only
  rw [not_isBlank_mark (List.mem_cons_self ..), if_neg Bool.false_ne_true, if_pos rfl]

/-! ### Tokens -/

theorem advances_blanks (context : Context) (hbs : Blanks bs) :
    Advances naming target (.wantsName context) bs (.wantsName context) := by
  induction bs with
  | nil => exact .nil
  | cons c bs ih =>
    exact .cons (step_wantsName_blank (hbs c (List.mem_cons_self ..)))
      (ih fun d hd => hbs d (List.mem_cons_of_mem _ hd))

/-- Blanks after a name change nothing but that it cannot grow any more. -/
theorem advances_named_blanks (context : Context) (name : String) (growing : Bool)
    (hbs : Blanks bs) : ∃ growing',
      Advances naming target (.named context name growing) bs (.named context name growing') := by
  induction bs generalizing growing with
  | nil => exact ⟨growing, .nil⟩
  | cons c bs ih =>
    obtain ⟨growing', h⟩ := ih false fun d hd => hbs d (List.mem_cons_of_mem _ hd)
    exact ⟨growing', .cons (step_named_blank (hbs c (List.mem_cons_self ..))) h⟩

theorem advances_closed_blanks (context : Context) (s : Segment) (hbs : Blanks bs) :
    Advances naming target (.closed context s) bs (.closed context s) := by
  induction bs with
  | nil => exact .nil
  | cons c bs ih =>
    exact .cons (step_closed_blank (hbs c (List.mem_cons_self ..)))
      (ih fun d hd => hbs d (List.mem_cons_of_mem _ hd))

theorem advances_grow (context : Context) (name : String)
    (hcs : ∀ c ∈ cs, isNameChar c = true) : Advances naming target (.named context name true) cs
      (.named context (name ++ String.ofList cs) true) := by
  induction cs generalizing name with
  | nil =>
    rw [String.ofList_nil, String.append_empty]
    exact .nil
  | cons c cs ih =>
    have hgrown : name ++ String.ofList (c :: cs) = name.push c ++ String.ofList cs := by
      apply String.toList_injective
      simp
    rw [hgrown]
    exact .cons (step_named_name (hcs c (List.mem_cons_self ..)))
      (ih _ fun d hd => hcs d (List.mem_cons_of_mem _ hd))

/-- A name takes the reader from where a segment begins to its end. -/
theorem exists_advances_name (context : Context) {name : String} (hname : IsName name)
    (hcs : Spells name.toList cs) : ∃ growing,
      Advances naming target (.wantsName context) cs (.named context name growing) := by
  obtain ⟨hbefore, hafter⟩ := hcs
  have hread : Advances naming target (.wantsName context) name.toList
      (.named context name true) := by
    obtain ⟨hne, hchars⟩ := hname
    cases hcs : name.toList with
    | nil => exact absurd hcs hne
    | cons c cs =>
      rw [hcs] at hchars
      have hgrown : name = String.singleton c ++ String.ofList cs := by
        apply String.toList_injective
        simp [hcs]
      rw [hgrown]
      exact .cons (step_wantsName_name (hchars c (List.mem_cons_self ..)))
        (advances_grow context _ fun d hd => hchars d (List.mem_cons_of_mem _ hd))
  obtain ⟨growing, hlast⟩ := advances_named_blanks context name true hafter
  exact ⟨growing, ((advances_blanks context hbefore).append hread).append hlast⟩

/-- A mark after a name. -/
theorem advances_mark {name : String} (growing : Bool) {mark : Char}
    (hmark : mark ∈ ['.', '[', ']', '=']) (hcs : Spells [mark] cs)
    (h : afterName naming context name mark = .ok (.wantsName inner)) :
    Advances naming target (.named context name growing) cs (.wantsName inner) := by
  obtain ⟨hbefore, hafter⟩ := hcs
  obtain ⟨growing', hblanks⟩ := advances_named_blanks context name growing hbefore
  exact (hblanks.append (.single ((step_named_mark hmark).trans h))).append
    (advances_blanks _ hafter)

/-- Brackets that are closed after a name. -/
theorem advances_right {outer : Context} {entered name : String} {key : Option String}
    {before : List Segment} (growing : Bool) (hcs : Spells [']'] cs) :
    Advances naming target (.named (.brackets outer entered key before) name growing) cs
      (.closed outer ⟨entered, some (key, through naming before (.column name))⟩) := by
  obtain ⟨hbefore, hafter⟩ := hcs
  obtain ⟨growing', hblanks⟩ := advances_named_blanks _ name growing hbefore
  exact (hblanks.append (.single (step_named_mark (by decide)))).append
    (advances_closed_blanks _ _ hafter)

/-- A point after a segment. -/
theorem Ends.point (h : reading.Ends context s) (hcs : Spells ['.'] cs) :
    Advances naming target reading cs (.wantsName (context.push s)) := by
  cases reading with
  | wantsName => exact h.elim
  | named context' name growing =>
    obtain ⟨rfl, rfl⟩ := h
    exact advances_mark growing (List.mem_cons_self ..) hcs rfl
  | closed context' segment =>
    obtain ⟨rfl, rfl, -⟩ := h
    obtain ⟨hbefore, hafter⟩ := hcs
    exact ((advances_closed_blanks _ _ hbefore).append (.single step_closed_point)).append
      (advances_blanks _ hafter)

/-- A segment without brackets ends at its name. -/
theorem Ends.named (h : reading.Ends context s) (hs : s.brackets = none) :
    ∃ growing, reading = .named context s.name growing := by
  cases reading with
  | wantsName => exact h.elim
  | named context' name growing =>
    obtain ⟨rfl, rfl⟩ := h
    exact ⟨growing, rfl⟩
  | closed context' segment => exact absurd hs (h.2.1 ▸ h.2.2)

theorem Ends.unique {context' : Context} {s' : Segment} (h : reading.Ends context s)
    (h' : reading.Ends context' s') : context = context' ∧ s = s' := by
  cases reading with
  | wantsName => exact h.elim
  | named => exact ⟨h.1.symm.trans h'.1, h.2.trans h'.2.symm⟩
  | closed => exact ⟨h.1.symm.trans h'.1, h.2.1.trans h'.2.1.symm⟩

/-! ### Productions -/

/-- The segments of a path have been read. -/
def EndsPath (context : Context) (segments : List Segment) (reading : Reading) : Prop :=
  ∃ later s, segments = later ++ [s] ∧ reading.Ends (context.pushAll later) s

theorem EndsPath.unique {segments segments' : List Segment}
    (h : reading.EndsPath (.top []) segments) (h' : reading.EndsPath (.top []) segments') :
    segments = segments' := by
  obtain ⟨later, s, rfl, hends⟩ := h
  obtain ⟨later', s', rfl, hends'⟩ := h'
  obtain ⟨hcontext, rfl⟩ := hends.unique hends'
  rw [Context.pushAll_top, Context.pushAll_top, List.append_nil, List.append_nil] at hcontext
  rw [List.reverse_inj.1 (Context.top.inj hcontext)]

/-- In brackets, a path to a column ends at its last name. -/
theorem EndsPath.named {outer : Context} {entered : String} {key : Option String}
    {segments : List Segment} {link : Path}
    (h : reading.EndsPath (.brackets outer entered key []) segments)
    (hlink : Denotes naming .column segments link) : ∃ before name growing,
      reading = .named (.brackets outer entered key before) name growing ∧
      link = through naming before (.column name) := by
  obtain ⟨later, s, rfl, hends⟩ := h
  obtain ⟨later', s', heq, hcolumn, -⟩ := hlink.eq_through
  obtain ⟨rfl, hs⟩ := List.append_inj' heq rfl
  obtain rfl := List.head_eq_of_cons_eq hs
  obtain ⟨hbare, hthrough⟩ := hcolumn rfl
  obtain ⟨growing, rfl⟩ := hends.named hbare
  rw [Context.pushAll_brackets, List.append_nil]
  exact ⟨_, _, growing, rfl, hthrough⟩

mutual

theorem exists_advances_path {cs : List Char} {segments : List Segment} :
    PathText naming cs segments → ∀ context, ∃ last,
      Advances naming target (.wantsName context) cs last ∧ last.EndsPath context segments
  | .last hs, context => by
    obtain ⟨last, hadvances, hends⟩ := exists_advances_segment hs context
    exact ⟨last, hadvances, [], _, rfl, hends⟩
  | .more hs hpoint hrest, context => by
    obtain ⟨next, hadvances, hends⟩ := exists_advances_segment hs context
    obtain ⟨last, hrest, later, s, rfl, hlast⟩ := exists_advances_path hrest _
    exact ⟨last, (hadvances.append (hends.point hpoint)).append hrest, _ :: later, s, rfl, hlast⟩

theorem exists_advances_segment {cs : List Char} {s : Segment} :
    SegmentText naming cs s → ∀ context, ∃ last,
      Advances naming target (.wantsName context) cs last ∧ last.Ends context s
  | .bare hname hcs, context => by
    obtain ⟨growing, hadvances⟩ := exists_advances_name context hname hcs
    exact ⟨_, hadvances, rfl, rfl⟩
  | .brackets hname hcs hleft hspec hright, context => by
    obtain ⟨growing, hname⟩ := exists_advances_name context hname hcs
    obtain ⟨key, before, name, growing', hspec, rfl⟩ := exists_advances_spec hspec context _
    have hopened := hname.append (advances_mark growing (by decide) hleft rfl)
    exact ⟨_, (hopened.append hspec).append (advances_right growing' hright), rfl, rfl, nofun⟩

theorem exists_advances_spec {cs : List Char} {inside : Option String × Path} :
    SpecText naming cs inside → ∀ outer entered, ∃ key before name growing,
      Advances naming target (.wantsName (.brackets outer entered none [])) cs
        (.named (.brackets outer entered key before) name growing) ∧
      inside = (key, through naming before (.column name))
  | .link hpath hlink, outer, entered => by
    obtain ⟨last, hadvances, hends⟩ := exists_advances_path hpath (.brackets outer entered none [])
    obtain ⟨before, name, growing, rfl, rfl⟩ := hends.named hlink
    exact ⟨none, before, name, growing, hadvances, rfl⟩
  | .keyed hkey hks hequals hpath hlink, outer, entered => by
    obtain ⟨growing, hkey⟩ := exists_advances_name (.brackets outer entered none []) hkey hks
    obtain ⟨last, hadvances, hends⟩ :=
      exists_advances_path hpath (.brackets outer entered (some _) [])
    obtain ⟨before, name, growing', rfl, rfl⟩ := hends.named hlink
    have hopened := hkey.append (advances_mark growing (by decide) hequals rfl)
    exact ⟨_, before, name, growing', hopened.append hadvances, rfl⟩

end

/-- At the end of a path, what its segments denote comes out. -/
theorem EndsPath.finish {segments : List Segment} {p : Path}
    (h : reading.EndsPath (.top []) segments) (hp : Denotes naming target segments p) :
    reading.finish naming target = .ok p := by
  obtain ⟨later, s, rfl, hends⟩ := h
  obtain ⟨later', s', heq, hcolumn, htable⟩ := hp.eq_through
  obtain ⟨rfl, hs⟩ := List.append_inj' heq rfl
  obtain rfl := List.head_eq_of_cons_eq hs
  rw [Context.pushAll_top, List.append_nil] at hends
  cases target with
  | column =>
    obtain ⟨hbare, rfl⟩ := hcolumn rfl
    obtain ⟨growing, rfl⟩ := hends.named hbare
    rfl
  | table =>
    obtain rfl := htable rfl
    cases reading with
    | wantsName => exact hends.elim
    | named context' name growing =>
      obtain ⟨rfl, rfl⟩ := hends
      rfl
    | closed context' segment =>
      obtain ⟨rfl, rfl, -⟩ := hends
      rfl

end Reading

/-- The reader gives exactly what the grammar says. -/
theorem read_eq_ok {input : String} {p : Path} : read target naming input = .ok p ↔
    ∃ segments, PathText naming input.toList segments ∧ Denotes naming target segments p := by
  constructor
  · intro h
    unfold read at h
    split at h
    · rename_i q hrun
      obtain rfl : q = p := Except.ok.inj h
      have hinitial : Reading.initial.Text naming [] := ⟨[], [], rfl, blanks_nil, rfl⟩
      exact hinitial.run hrun
    · cases h
  · rintro ⟨segments, hpath, hp⟩
    obtain ⟨last, hadvances, hends⟩ := Reading.exists_advances_path hpath (.top [])
    unfold read
    rw [Reading.initial, hadvances.run (hends.finish hp) 0]

/-- The grammar is unambiguous. -/
theorem PathText.unique {cs : List Char} {segments segments' : List Segment}
    (h : PathText naming cs segments) (h' : PathText naming cs segments') :
    segments = segments' := by
  obtain ⟨last, hadvances, hends⟩ :=
    @Reading.exists_advances_path naming .table cs segments h (.top [])
  obtain ⟨last', hadvances', hends'⟩ := Reading.exists_advances_path h' (.top [])
  obtain rfl := hadvances.unique hadvances'
  exact hends.unique hends'

/-- **The reader accepts exactly its grammar.**  A text is read if and only if it derives from the
grammar, with a column as the last segment if a column is asked for; its segments are then unique,
and what is read is the one path that they denote. -/
theorem reads_exactly_grammar (target : Target) (naming : Naming) (input : String) :
    ((∃ p, read target naming input = .ok p) ↔
      ∃ segments, PathText naming input.toList segments ∧
        (target = .column → ∀ s ∈ segments.getLast?, s.brackets = none)) ∧
    (∀ segments segments', PathText naming input.toList segments →
      PathText naming input.toList segments' → segments = segments') ∧
    ∀ p, read target naming input = .ok p ↔
      ∃ segments, PathText naming input.toList segments ∧ Denotes naming target segments p := by
  refine ⟨⟨?_, ?_⟩, fun _ _ => PathText.unique, fun _ => read_eq_ok⟩
  · rintro ⟨p, hp⟩
    obtain ⟨segments, hpath, hdenotes⟩ := read_eq_ok.1 hp
    exact ⟨segments, hpath, (exists_denotes hpath.ne_nil).1 ⟨p, hdenotes⟩⟩
  · rintro ⟨segments, hpath, hlast⟩
    obtain ⟨p, hdenotes⟩ := (exists_denotes hpath.ne_nil).2 hlast
    exact ⟨p, read_eq_ok.2 ⟨segments, hpath, hdenotes⟩⟩

/-- A link through a table of its own, with blanks, has one derivation.  There is none, not even of
a table, where the path in brackets ends in brackets. -/
theorem reads_exactly_grammar_brackets :
    (∃ segments, PathText .standard " a[k = b . x ].title".toList segments ∧
      (∀ others, PathText .standard " a[k = b . x ].title".toList others → others = segments) ∧
      Denotes .standard .column segments
        (.join "a" "k" (.join "b" "id" (.column "b_id") (.column "x")) (.column "title"))) ∧
    ∀ segments, ¬ PathText .standard "a[b[c]]".toList segments := by
  constructor
  · obtain ⟨-, hunique, hread⟩ :=
      reads_exactly_grammar .column .standard " a[k = b . x ].title"
    obtain ⟨segments, hpath, hdenotes⟩ := (hread _).1 rfl
    exact ⟨segments, hpath, fun _ h => hunique _ _ h hpath, hdenotes⟩
  · intro segments hpath
    obtain ⟨p, hp⟩ :=
      (reads_exactly_grammar .table .standard "a[b[c]]").1.2 ⟨segments, hpath, nofun⟩
    cases hp

end Path
end LinkedRows
