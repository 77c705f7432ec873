/-
# What is read derives from the grammar

The state of the reader says what has been read (`Reading.Text`): whole segments with the points
after them, for brackets that are still open the name before them and perhaps the key, and then
blanks, a name or a whole segment.  Every character it takes is one more character of that text, and
at the end the text is a path.
-/

import LinkedRows.Proofs.PathGrammar
import LinkedRows.Proofs.PathSteps

namespace LinkedRows
namespace Path

variable {naming : Naming} {target : Target}

/-- The text of segments, the last of them first, each with the point after it. -/
def BeforeText (naming : Naming) : List Segment → List Char → Prop
  | [], cs => cs = []
  | s :: before, cs => ∃ bs ss point, BeforeText naming before bs ∧ SegmentText naming ss s ∧
      Spells ['.'] point ∧ cs = bs ++ ss ++ point

/-- The text of a key with the sign after it, if there is a key. -/
def KeyText : Option String → List Char → Prop
  | none, cs => cs = []
  | some key, cs => ∃ ks equals, IsName key ∧ Spells key.toList ks ∧ Spells ['='] equals ∧
      cs = ks ++ equals

/-- The text up to where a segment begins. -/
def Context.Text (naming : Naming) : Context → List Char → Prop
  | .top before, cs => BeforeText naming before cs
  | .brackets outer name key before, cs => ∃ os ns left ks bs, outer.Text naming os ∧ IsName name ∧
      Spells name.toList ns ∧ Spells ['['] left ∧ KeyText key ks ∧ BeforeText naming before bs ∧
      cs = os ++ (ns ++ left ++ (ks ++ bs))

/-- The text that has been read. -/
def Reading.Text (naming : Naming) : Reading → List Char → Prop
  | .wantsName context, cs => ∃ xs bs, context.Text naming xs ∧ Blanks bs ∧ cs = xs ++ bs
  | .named context name growing, cs => ∃ xs bs after, context.Text naming xs ∧ Blanks bs ∧
      Blanks after ∧ IsName name ∧ (growing = true → after = []) ∧
      cs = xs ++ (bs ++ name.toList ++ after)
  | .closed context segment, cs => ∃ xs ss, context.Text naming xs ∧
      SegmentText naming ss segment ∧ cs = xs ++ ss

theorem Context.Text.push {context : Context} {s : Segment} {xs ss point : List Char}
    (hx : context.Text naming xs) (hs : SegmentText naming ss s) (hp : Spells ['.'] point) :
    (context.push s).Text naming (xs ++ ss ++ point) := by
  cases context with
  | top before => exact ⟨xs, ss, point, hx, hs, hp, rfl⟩
  | brackets outer name key before =>
    obtain ⟨os, ns, left, ks, bs, ho, hname, hns, hleft, hks, hbs, rfl⟩ := hx
    refine ⟨os, ns, left, ks, bs ++ ss ++ point, ho, hname, hns, hleft, hks, ?_, ?_⟩
    · exact ⟨bs, ss, point, hbs, hs, hp, rfl⟩
    · simp only [List.append_assoc]

/-- Segments with points after them, and a path that goes on there. -/
theorem BeforeText.pathText {before later : List Segment} {bs cs : List Char}
    (hbs : BeforeText naming before bs) (hcs : PathText naming cs later) :
    PathText naming (bs ++ cs) (before.reverse ++ later) := by
  induction before generalizing later bs cs with
  | nil =>
    obtain rfl : bs = [] := hbs
    exact hcs
  | cons s before ih =>
    obtain ⟨bs, ss, point, hbs, hs, hp, rfl⟩ := hbs
    rw [List.reverse_cons, List.append_assoc, List.append_assoc, ← List.append_assoc ss,
      List.append_assoc before.reverse]
    exact ih hbs (.more hs hp hcs)

/-- What stands in brackets when they are closed after a name. -/
theorem specText_of_closed {key : Option String} {before : List Segment} {name : String}
    {ks bs cs : List Char} (hks : KeyText key ks) (hbs : BeforeText naming before bs)
    (hname : IsName name) (hcs : Spells name.toList cs) :
    SpecText naming (ks ++ (bs ++ cs)) (key, through naming before (.column name)) := by
  have hpath := hbs.pathText (.last (.bare hname hcs))
  have hdenotes : Denotes naming .column (before.reverse ++ [⟨name, none⟩])
      (through naming before (.column name)) := denotes_through .column
  cases key with
  | none =>
    obtain rfl : ks = [] := hks
    exact .link hpath hdenotes
  | some key =>
    obtain ⟨ks, equals, hkey, hks, hequals, rfl⟩ := hks
    exact .keyed hkey hks hequals hpath hdenotes

namespace Reading

variable {reading next : Reading} {c : Char} {cs : List Char}

/-- A name that has been read, with the blanks around it, comes after the text up to the segment. -/
theorem text_named {context : Context} {name : String} {growing : Bool}
    (hr : (named context name growing).Text naming cs) : ∃ xs ns, context.Text naming xs ∧
      IsName name ∧ Spells name.toList ns ∧ cs = xs ++ ns := by
  obtain ⟨xs, bs, after, hx, hbs, hafter, hname, -, rfl⟩ := hr
  exact ⟨xs, _, hx, hname, .intro hbs hafter, rfl⟩

/-- One more character has been read. -/
theorem Text.step (hr : reading.Text naming cs) (h : reading.step naming target c = .ok next) :
    next.Text naming (cs ++ [c]) := by
  cases takes_of_step h with
  | blankBefore hc =>
    obtain ⟨xs, bs, hx, hbs, rfl⟩ := hr
    exact ⟨xs, bs ++ [c], hx, hbs.append (by simpa [Blanks] using hc), List.append_assoc ..⟩
  | nameStarts hc =>
    obtain ⟨xs, bs, hx, hbs, rfl⟩ := hr
    refine ⟨xs, bs, [], hx, hbs, blanks_nil, ?_, fun _ => rfl, ?_⟩
    · simpa [IsName] using hc
    · simp
  | nameGrows hc =>
    obtain ⟨xs, bs, after, hx, hbs, -, hname, hgrowing, rfl⟩ := hr
    obtain rfl := hgrowing rfl
    refine ⟨xs, bs, [], hx, hbs, blanks_nil, ⟨by simp, fun d hd => ?_⟩, fun _ => rfl, ?_⟩
    · rw [String.toList_push, List.mem_append, List.mem_singleton] at hd
      rcases hd with hd | rfl
      · exact hname.2 d hd
      · exact hc
    · simp only [String.toList_push, List.append_assoc, List.append_nil]
  | blankAfter hc =>
    obtain ⟨xs, bs, after, hx, hbs, hafter, hname, -, rfl⟩ := hr
    refine ⟨xs, bs, after ++ [c], hx, hbs, hafter.append (by simpa [Blanks] using hc), hname,
      fun h => absurd h Bool.false_ne_true, ?_⟩
    simp only [List.append_assoc]
  | dotAfter =>
    obtain ⟨xs, ns, hx, hname, hns, rfl⟩ := text_named hr
    exact ⟨_, [], hx.push (.bare hname hns) (.self _), blanks_nil, (List.append_nil _).symm⟩
  | opens =>
    obtain ⟨xs, ns, hx, hname, hns, rfl⟩ := text_named hr
    refine ⟨xs ++ ns ++ ['['], [], ?_, blanks_nil, (List.append_nil _).symm⟩
    refine ⟨xs, ns, ['['], [], [], hx, hname, hns, .self _, rfl, rfl, ?_⟩
    rw [List.append_nil, List.append_nil, List.append_assoc]
  | closes =>
    obtain ⟨_, ns, hx, hname, hns, rfl⟩ := text_named hr
    obtain ⟨os, es, left, ks, bs, ho, hentered, hes, hleft, hks, hbs, rfl⟩ := hx
    have hspec := specText_of_closed hks hbs hname hns
    refine ⟨os, _, ho, .brackets hentered hes hleft hspec (.self _), ?_⟩
    simp only [List.append_assoc]
  | keys =>
    obtain ⟨_, ns, hx, hname, hns, rfl⟩ := text_named hr
    obtain ⟨os, es, left, ks, bs, ho, hentered, hes, hleft, hks, hbs, rfl⟩ := hx
    obtain rfl : ks = [] := hks
    obtain rfl : bs = [] := hbs
    refine ⟨_, [], ⟨os, es, left, ns ++ ['='], [], ho, hentered, hes, hleft, ?_, rfl, ?_⟩,
      blanks_nil, (List.append_nil _).symm⟩
    · exact ⟨ns, ['='], hname, hns, .self _, rfl⟩
    · simp only [List.append_assoc, List.append_nil]
  | blankClosed hc =>
    obtain ⟨xs, ss, hx, hs, rfl⟩ := hr
    exact ⟨xs, ss ++ [c], hx, hs.append_blanks (by simpa [Blanks] using hc),
      List.append_assoc ..⟩
  | dotClosed =>
    obtain ⟨xs, ss, hx, hs, rfl⟩ := hr
    exact ⟨_, [], hx.push hs (.self _), blanks_nil, (List.append_nil _).symm⟩

/-- At the end of the text the segments denote the path. -/
theorem Text.finish (hr : reading.Text naming cs) {p : Path}
    (h : reading.finish naming target = .ok p) :
    ∃ segments, PathText naming cs segments ∧ Denotes naming target segments p := by
  unfold Reading.finish at h
  split at h
  · cases h
  · cases h
  · rename_i before name growing
    obtain ⟨xs, bs, after, hx, hbs, hafter, hname, -, rfl⟩ := hr
    have hpath := BeforeText.pathText hx (.last (.bare hname (.intro hbs hafter)))
    refine ⟨_, hpath, ?_⟩
    cases target with
    | column =>
      obtain rfl := Except.ok.inj h
      exact denotes_through .column
    | table =>
      obtain rfl := Except.ok.inj h
      exact denotes_through .table
  · cases h
  · rename_i context segment
    obtain ⟨xs, ss, hx, hs, rfl⟩ := hr
    split at h
    · obtain rfl := Except.ok.inj h
      exact ⟨_, BeforeText.pathText hx (.last hs), denotes_through .table⟩
    · cases h

theorem Text.run (hr : reading.Text naming cs) {position : Nat} {rest : List Char} {p : Path}
    (h : Reading.run naming target reading position rest = .ok p) :
    ∃ segments, PathText naming (cs ++ rest) segments ∧ Denotes naming target segments p := by
  induction rest generalizing reading position cs with
  | nil =>
    rw [Reading.run] at h
    cases hfinish : reading.finish naming target with
    | error issue =>
      rw [hfinish] at h
      cases h
    | ok q =>
      rw [hfinish] at h
      obtain rfl : q = p := Except.ok.inj h
      rw [List.append_nil]
      exact hr.finish hfinish
  | cons c rest ih =>
    rw [Reading.run] at h
    cases hstep : reading.step naming target c with
    | error issue =>
      rw [hstep] at h
      cases h
    | ok next =>
      rw [hstep] at h
      have hrun := ih (hr.step hstep) h
      rwa [List.append_assoc] at hrun

end Reading

end Path
end LinkedRows
