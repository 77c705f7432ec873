/-
# Where a path is at fault

Whatever the reader has accepted of a text can be read on to a path (`Reading.goesOn`): every open
bracket is closed and left through a point and a name, from the innermost outwards.  So where the
reader stops, the text before that byte is the beginning of some path, and since reading is
deterministic no path begins with the next character added.

The byte is counted in the encoding of the text, so it has to fall between two characters.  That is
an invariant of the steps (`Reading.Passes`), with the text before it as a witness.
-/

import LinkedRows.Proofs.PathGrammar.Complete

namespace LinkedRows
namespace Path

variable {naming : Naming} {target : Target} {input : String}

namespace Reading

variable {reading next last : Reading} {context : Context} {cs rest : List Char}
  {position byte : Nat} {issue : Issue}

/-! ## Every reading goes on -/

/-- Some characters take the reader from here to the end of a path. -/
def GoesOn (naming : Naming) (target : Target) (reading : Reading) : Prop :=
  ∃ cs last p, Advances naming target reading cs last ∧ last.finish naming target = .ok p

theorem GoesOn.of_step {c : Char} (hstep : reading.step naming target c = .ok next)
    (h : next.GoesOn naming target) : reading.GoesOn naming target := by
  obtain ⟨cs, last, p, hadvances, hfinish⟩ := h
  exact ⟨c :: cs, last, p, .cons hstep hadvances, hfinish⟩

/-- A name can be the end of a path. -/
theorem goesOn_named_top (before : List Segment) (name : String) (growing : Bool) :
    (named (.top before) name growing).GoesOn naming target := by
  cases target with
  | column => exact ⟨[], _, _, .nil, rfl⟩
  | table => exact ⟨[], _, _, .nil, rfl⟩

/-- After brackets a point and a name can follow. -/
theorem GoesOn.closed {s : Segment} (h : ∀ name growing,
    (named (context.push s) name growing).GoesOn naming target) :
    (closed context s).GoesOn naming target :=
  .of_step step_closed_point (.of_step (step_wantsName_name (c := 'a') rfl) (h _ _))

/-- A name in brackets can be the end of what stands in them. -/
theorem GoesOn.brackets {outer : Context} (h : ∀ s name growing,
    (named (outer.push s) name growing).GoesOn naming target) (entered : String)
    (key : Option String) (before : List Segment) (name : String) (growing : Bool) :
    (named (.brackets outer entered key before) name growing).GoesOn naming target :=
  .of_step ((step_named_mark (c := ']') (by decide)).trans rfl) (.closed (h _))

/-- One more segment leaves the brackets around it as they are, so the brackets are closed by
induction on the context that it was put in. -/
theorem goesOn_named_push (context : Context) (s : Segment) (name : String) (growing : Bool) :
    (named (context.push s) name growing).GoesOn naming target := by
  induction context generalizing s name growing with
  | top before => exact goesOn_named_top _ name growing
  | brackets outer entered key before ih => exact .brackets ih entered key _ name growing

theorem goesOn_named (context : Context) (name : String) (growing : Bool) :
    (named context name growing).GoesOn naming target := by
  cases context with
  | top before => exact goesOn_named_top before name growing
  | brackets outer entered key before =>
    exact .brackets (goesOn_named_push outer) entered key before name growing

theorem goesOn (reading : Reading) : reading.GoesOn naming target := by
  cases reading with
  | wantsName context =>
    exact .of_step (step_wantsName_name (c := 'a') rfl) (goesOn_named context _ _)
  | named context name growing => exact goesOn_named context name growing
  | closed context s => exact .closed (goesOn_named_push context s)

/-! ## What the reader goes through -/

/-- The reader stands at a byte, with characters left. -/
inductive Passes (naming : Naming) (target : Target) (input : String) :
    Reading → (position : Nat) → (rest : List Char) → Prop
  | start : Passes naming target input initial 0 input.toList
  | step {reading next : Reading} {position : Nat} {c : Char} {rest : List Char} :
      Passes naming target input reading position (c :: rest) →
      reading.step naming target c = .ok next →
      Passes naming target input next (position + c.utf8Size) rest

/-- The characters before the byte are those that have been read. -/
theorem Passes.exists_append (h : Passes naming target input reading position rest) :
    ∃ before, input = before ++ String.ofList rest ∧ position = before.utf8ByteSize ∧
      Advances naming target initial before.toList reading := by
  induction h with
  | start => exact ⟨"", by simp, rfl, .nil⟩
  | @step reading next position c rest _ hstep ih =>
    obtain ⟨before, hinput, rfl, hadvances⟩ := ih
    refine ⟨before ++ String.singleton c, ?_, ?_, ?_⟩
    · rw [hinput, String.append_assoc]
      congr 1
      apply String.toList_injective
      simp
    · rw [String.utf8ByteSize_append, String.utf8ByteSize_singleton]
    · rw [String.toList_append, String.toList_singleton]
      exact hadvances.append (.single hstep)

theorem Passes.isValid (h : Passes naming target input reading position rest) :
    (⟨position⟩ : String.Pos.Raw).IsValid input := by
  obtain ⟨before, hinput, rfl, -⟩ := h.exists_append
  exact String.Pos.Raw.isValid_iff_exists_append.2 ⟨before, _, hinput, rfl⟩

/-- The outcome of reading on is the outcome for the whole text. -/
theorem Passes.run (h : Passes naming target input reading position rest) :
    Reading.run naming target reading position rest =
      Reading.run naming target initial 0 input.toList := by
  induction h with
  | start => rfl
  | step _ hstep ih =>
    rw [← ih, Reading.run, hstep]

/-- The characters of a name have been read from one byte to another: at the first one the reader
wanted a name, and at the other one it had this name.  While the name can grow, it stands there. -/
structure Spans (naming : Naming) (target : Target) (input : String) (context : Context)
    (name : String) (start : Nat) (after : List Char) : Prop where
  wanted : Passes naming target input (.wantsName context) start (name.toList ++ after)
  taken : Passes naming target input (.named context name true) (start + name.utf8ByteSize) after

/-- A name that has been read spans the characters from the byte where it began. -/
theorem Passes.exists_spans (h : Passes naming target input reading position rest) {name : String}
    {growing : Bool} (hname : reading = .named context name growing) :
    ∃ start after, Spans naming target input context name start after ∧
      start + name.utf8ByteSize ≤ position ∧
      (growing = true → start + name.utf8ByteSize = position ∧ after = rest) := by
  induction h generalizing name growing with
  | start => cases hname
  | @step reading next position c rest hpasses hstep ih =>
    have htaken := hpasses.step hstep
    cases takes_of_step hstep with
    | nameStarts =>
      cases hname
      have hsize : position + c.utf8Size = position + (String.singleton c).utf8ByteSize := by
        rw [String.utf8ByteSize_singleton]
      rw [hsize] at htaken ⊢
      refine ⟨position, rest, ⟨?_, htaken⟩, Nat.le_refl _, fun _ => ⟨rfl, rfl⟩⟩
      rwa [String.toList_singleton]
    | @nameGrows _ name =>
      cases hname
      obtain ⟨start, after, hspans, -, hend⟩ := ih rfl
      obtain ⟨rfl, rfl⟩ := hend rfl
      have hsize : start + name.utf8ByteSize + c.utf8Size =
          start + (name.push c).utf8ByteSize := by
        rw [String.utf8ByteSize_push, Nat.add_assoc]
      have hwanted := hspans.wanted
      rw [hsize] at htaken ⊢
      refine ⟨start, rest, ⟨?_, htaken⟩, Nat.le_refl _, fun _ => ⟨rfl, rfl⟩⟩
      simpa using hwanted
    | blankAfter =>
      cases hname
      obtain ⟨start, after, hspans, hle, -⟩ := ih rfl
      exact ⟨start, after, hspans, Nat.le_add_right_of_le hle, nofun⟩
    | _ => cases hname

/-- The characters that a name spans are a slice of the text. -/
theorem Spans.slice {name : String} {start : Nat} {after : List Char}
    (h : Spans naming target input context name start after) :
    ∃ before, input = before ++ name ++ String.ofList after ∧ before.utf8ByteSize = start := by
  obtain ⟨before, hinput, hstart, -⟩ := h.wanted.exists_append
  refine ⟨before, ?_, hstart.symm⟩
  rw [hinput, String.ofList_append, String.ofList_toList, String.append_assoc]

/-- Nothing comes of what is left. -/
def Stops (naming : Naming) (target : Target) (reading : Reading) (issue : Issue) :
    List Char → Prop
  | [] => reading.finish naming target = .error issue
  | c :: _ => reading.step naming target c = .error issue

/-- The byte of an issue is one where the reader stood and could not go on. -/
theorem Passes.exists_stops (h : Passes naming target input reading position rest)
    (hrun : Reading.run naming target reading position rest = .error (byte, issue)) :
    ∃ last left, Passes naming target input last byte left ∧
      last.Stops naming target issue left := by
  induction rest generalizing reading position with
  | nil =>
    rw [Reading.run] at hrun
    cases hfinish : reading.finish naming target with
    | ok p =>
      rw [hfinish] at hrun
      cases hrun
    | error issue' =>
      rw [hfinish] at hrun
      cases hrun
      exact ⟨reading, [], h, hfinish⟩
  | cons c rest ih =>
    rw [Reading.run] at hrun
    cases hstep : reading.step naming target c with
    | error issue' =>
      rw [hstep] at hrun
      cases hrun
      exact ⟨reading, c :: rest, h, hstep⟩
    | ok next =>
      rw [hstep] at hrun
      exact ih (h.step hstep) hrun

theorem Advances.run_append (h : Advances naming target reading cs last) (position : Nat)
    (rest : List Char) : ∃ byte, Reading.run naming target reading position (cs ++ rest) =
      Reading.run naming target last byte rest := by
  induction h generalizing position with
  | nil => exact ⟨position, rfl⟩
  | cons hstep _ ih =>
    rw [List.cons_append, Reading.run, hstep]
    exact ih _

end Reading

theorem read_eq_error {fault : Fault} (h : read target naming input = .error fault) :
    ∃ position issue,
      Reading.run naming target .initial 0 input.toList = .error (position, issue) ∧
      fault = .malformedPath input position issue.message := by
  unfold read at h
  split at h
  · cases h
  · rename_i position issue hrun
    exact ⟨position, issue, hrun, (Except.error.inj h).symm⟩

/-- What the reader has gone through is the beginning of a path. -/
theorem exists_read_append {reading : Reading} {before : String}
    (h : Reading.Advances naming target .initial before.toList reading) :
    ∃ more p, read target naming (before ++ more) = .ok p := by
  have hgoes : reading.GoesOn naming target := reading.goesOn
  obtain ⟨cs, last, p, hadvances, hfinish⟩ := hgoes
  refine ⟨String.ofList cs, p, ?_⟩
  unfold read
  rw [String.toList_append, String.toList_ofList, (h.append hadvances).run hfinish 0]

/-- No path begins with a text that the reader stops in. -/
theorem read_append_ne_ok {reading : Reading} {issue : Issue} {before : String} {c : Char}
    (h : Reading.Advances naming target .initial before.toList reading)
    (hstep : reading.step naming target c = .error issue) (more : String) (p : Path) :
    read target naming (before ++ String.singleton c ++ more) ≠ .ok p := by
  obtain ⟨position, hrun⟩ := h.run_append 0 (c :: more.toList)
  rw [Reading.run, hstep] at hrun
  unfold read
  rw [String.toList_append, String.toList_append, String.toList_singleton, List.append_assoc,
    List.singleton_append, hrun]
  intro h
  cases h

/-- A text is cut in one way at a byte. -/
theorem eq_of_append_eq {before after before' after' : String}
    (h : before ++ after = before' ++ after')
    (hsize : before.utf8ByteSize = before'.utf8ByteSize) : before = before' ∧ after = after' := by
  have hbytes := congrArg String.toByteArray h
  rw [String.toByteArray_append, String.toByteArray_append] at hbytes
  have hbefore : before.toByteArray = before'.toByteArray := by
    rw [← ByteArray.extract_append_eq_left (b := after.toByteArray) hsize.symm, hbytes]
    exact ByteArray.extract_append_eq_left rfl
  obtain rfl := String.toByteArray_inj.1 hbefore
  exact ⟨rfl, (String.append_right_inj before).1 h⟩

/-- **A fault is at the first character that no path goes on with.**  The fault has the text as it
was given, and a byte of it between two characters.  What stands before that byte is the beginning
of a path, with the character there added it is not.  On the way every byte that the reader stands
at is between two characters, and every name that it takes is the slice of the text from the byte
where the name began. -/
theorem fault_at_first_offender (target : Target) (naming : Naming) (input : String) :
    (∀ fault, read target naming input = .error fault → ∃ position message,
      fault = .malformedPath input position message ∧ position ≤ input.utf8ByteSize ∧
      (⟨position⟩ : String.Pos.Raw).IsValid input ∧
      ∀ before after, input = before ++ after → before.utf8ByteSize = position →
        (∃ more p, read target naming (before ++ more) = .ok p) ∧
        ∀ c rest, after = String.singleton c ++ rest →
          ∀ more p, read target naming (before ++ String.singleton c ++ more) ≠ .ok p) ∧
    ∀ reading position rest, Reading.Passes naming target input reading position rest →
      (⟨position⟩ : String.Pos.Raw).IsValid input ∧
      (∃ before, input = before ++ String.ofList rest ∧ before.utf8ByteSize = position) ∧
      Reading.run naming target reading position rest =
        Reading.run naming target .initial 0 input.toList ∧
      ∀ context name growing, reading = .named context name growing →
        ∃ before after, input = before ++ name ++ String.ofList after ∧
          before.utf8ByteSize + name.utf8ByteSize ≤ position ∧
          (growing = true → before.utf8ByteSize + name.utf8ByteSize = position) ∧
          Reading.Spans naming target input context name before.utf8ByteSize after := by
  constructor
  · intro fault h
    obtain ⟨position, issue, hrun, rfl⟩ := read_eq_error h
    obtain ⟨last, left, hpasses, hstops⟩ := Reading.Passes.start.exists_stops hrun
    obtain ⟨before, hinput, rfl, hadvances⟩ := hpasses.exists_append
    refine ⟨_, issue.message, rfl, ?_, hpasses.isValid, ?_⟩
    · rw [hinput, String.utf8ByteSize_append]
      exact Nat.le_add_right _ _
    · intro before' after' hinput' hsize
      obtain ⟨rfl, rfl⟩ := eq_of_append_eq (hinput'.symm.trans hinput) hsize
      refine ⟨exists_read_append hadvances, fun c rest hleft => ?_⟩
      obtain rfl : left = c :: rest.toList := by
        simpa using congrArg String.toList hleft
      exact read_append_ne_ok hadvances hstops
  · intro reading position rest h
    refine ⟨h.isValid, ?_, h.run, ?_⟩
    · obtain ⟨before, hinput, hposition, -⟩ := h.exists_append
      exact ⟨before, hinput, hposition.symm⟩
    · intro context name growing hname
      obtain ⟨start, after, hspans, hle, hend⟩ := h.exists_spans hname
      obtain ⟨before, hinput, rfl⟩ := hspans.slice
      exact ⟨before, after, hinput, hle, fun hgrowing => (hend hgrowing).1, hspans⟩

/-- In a text with a letter of two bytes the fault is at the byte of the character that stands where
the closing bracket is missing. -/
theorem fault_at_first_offender_brackets :
    read .column .standard "é[b c]" = .error (.malformedPath "é[b c]" 5 "expected ']', found 'c'") ∧
    (∃ more p, read .column .standard ("é[b " ++ more) = .ok p) ∧
    ∀ more p, read .column .standard ("é[b " ++ "c" ++ more) ≠ .ok p := by
  have hread : read .column .standard "é[b c]" =
      .error (.malformedPath "é[b c]" 5 "expected ']', found 'c'") := by rfl
  obtain ⟨position, message, hfault, -, -, hcut⟩ :=
    (fault_at_first_offender .column .standard "é[b c]").1 _ hread
  obtain rfl : 5 = position := congrArg PathFault.position (Fault.path.inj hfault)
  obtain ⟨hgoes, hstuck⟩ := hcut "é[b " "c]" rfl rfl
  exact ⟨hread, hgoes, hstuck 'c' "]" rfl⟩

end Path
end LinkedRows
