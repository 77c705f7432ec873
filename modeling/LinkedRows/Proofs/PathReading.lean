/-
# What the reader of paths gives

A path that is read from a text fits: the links of all its joins end in columns, and the path itself
ends in a column exactly if it was read as one.  The reader only ever collects segments whose
brackets hold a link that does (`Reading.Fits`), and every character it takes keeps that.
-/

import LinkedRows.Proofs.PathSteps

namespace LinkedRows
namespace Path

/-- All links of a path, and theirs, end in a column. -/
def LinksFit : Path → Prop
  | .column _ => True
  | .table _ _ link => link.LinksFit ∧ link.endsInColumn = true
  | .join _ _ link inner => link.LinksFit ∧ link.endsInColumn = true ∧ inner.LinksFit

/-- The link in the brackets of a segment fits, if there are brackets. -/
def Segment.Fits (s : Segment) : Prop :=
  ∀ key link, s.brackets = some (key, link) → link.LinksFit ∧ link.endsInColumn = true

def Context.Fits : Context → Prop
  | .top before => ∀ s ∈ before, s.Fits
  | .brackets outer _ _ before => outer.Fits ∧ ∀ s ∈ before, s.Fits

/-- All segments that have been read fit. -/
def Reading.Fits : Reading → Prop
  | .wantsName context => context.Fits
  | .named context _ _ => context.Fits
  | .closed context segment => context.Fits ∧ segment.Fits

variable {naming : Naming} {target : Target}

namespace Segment

variable {s : Segment}

theorem fits_bare (name : String) : Fits ⟨name, none⟩ := fun _ _ h => nomatch h

theorem fits_brackets {name : String} {key : Option String} {link : Path} (hlink : link.LinksFit)
    (hend : link.endsInColumn = true) : Fits ⟨name, some (key, link)⟩ := by
  intro key' link' h
  obtain ⟨-, rfl⟩ := Prod.mk.inj (Option.some.inj h)
  exact ⟨hlink, hend⟩

theorem Fits.link (hs : s.Fits) (naming : Naming) :
    (s.link naming).LinksFit ∧ (s.link naming).endsInColumn = true := by
  rcases s with ⟨name, _ | ⟨key, link⟩⟩
  · exact ⟨trivial, rfl⟩
  · exact hs key link rfl

theorem Fits.stop (hs : s.Fits) (naming : Naming) : (s.stop naming).LinksFit := hs.link naming

end Segment

/-- A path through fitting segments fits and ends where its last part does. -/
theorem linksFit_through (naming : Naming) {before : List Segment}
    (hbefore : ∀ s ∈ before, s.Fits) {last : Path} (hlast : last.LinksFit) :
    (through naming before last).LinksFit ∧
      (through naming before last).endsInColumn = last.endsInColumn := by
  induction before generalizing last with
  | nil => exact ⟨hlast, rfl⟩
  | cons s before ih =>
    obtain ⟨hlink, hend⟩ := (hbefore s (List.mem_cons_self ..)).link naming
    have hlater : (s.enter naming last).LinksFit := ⟨hlink, hend, hlast⟩
    exact ih (fun t ht => hbefore t (List.mem_cons_of_mem _ ht)) hlater

theorem Context.Fits.push {context : Context} (hcontext : context.Fits) {s : Segment}
    (hs : s.Fits) : (context.push s).Fits := by
  cases context with
  | top before => exact List.forall_mem_cons.2 ⟨hs, hcontext⟩
  | brackets outer name key before =>
    exact ⟨hcontext.1, List.forall_mem_cons.2 ⟨hs, hcontext.2⟩⟩

namespace Reading

variable {reading next : Reading} {c : Char}

/-- One more character keeps the segments fitting. -/
theorem Fits.step (hr : reading.Fits) (h : reading.step naming target c = .ok next) :
    next.Fits := by
  cases takes_of_step h with
  | blankBefore | nameStarts | nameGrows | blankAfter | blankClosed => exact hr
  | dotAfter => exact Context.Fits.push hr (Segment.fits_bare _)
  | opens => exact ⟨hr, fun s hs => absurd hs List.not_mem_nil⟩
  | keys => exact ⟨hr.1, fun s hs => absurd hs List.not_mem_nil⟩
  | closes =>
    -- What stands in the brackets ends in the column that was read last.
    obtain ⟨houter, hbefore⟩ := hr
    obtain ⟨hlink, hend⟩ := linksFit_through naming hbefore
      (show (Path.column _).LinksFit from trivial)
    exact ⟨houter, Segment.fits_brackets hlink hend⟩
  | dotClosed => exact hr.1.push hr.2

/-- At the end of the text a fitting path comes out, with the end that was asked for. -/
theorem Fits.finish (hr : reading.Fits) {p : Path} (h : reading.finish naming target = .ok p) :
    p.LinksFit ∧ (p.endsInColumn = true ↔ target = .column) := by
  unfold Reading.finish at h
  split at h
  · cases h
  · cases h
  · rename_i before name growing
    cases target with
    | column =>
      obtain rfl := Except.ok.inj h
      obtain ⟨hfits, hend⟩ := linksFit_through naming hr
        (show (Path.column name).LinksFit from trivial)
      exact ⟨hfits, iff_of_true hend rfl⟩
    | table =>
      obtain rfl := Except.ok.inj h
      obtain ⟨hfits, hend⟩ := linksFit_through naming hr
        ((Segment.fits_bare name).stop naming)
      exact ⟨hfits, iff_of_false (by rw [hend]; exact Bool.false_ne_true) nofun⟩
  · cases h
  · rename_i context segment
    split at h
    · obtain rfl := Except.ok.inj h
      obtain ⟨hfits, hend⟩ := linksFit_through naming hr.1 (hr.2.stop naming)
      exact ⟨hfits, iff_of_false (by rw [hend]; exact Bool.false_ne_true) nofun⟩
    · cases h

theorem Fits.run (hr : reading.Fits) {position : Nat} {cs : List Char} {p : Path}
    (h : Reading.run naming target reading position cs = .ok p) :
    p.LinksFit ∧ (p.endsInColumn = true ↔ target = .column) := by
  induction cs generalizing reading position with
  | nil =>
    rw [Reading.run] at h
    cases hfinish : reading.finish naming target with
    | error issue =>
      rw [hfinish] at h
      cases h
    | ok q =>
      rw [hfinish] at h
      obtain rfl : q = p := Except.ok.inj h
      exact hr.finish hfinish
  | cons c cs ih =>
    rw [Reading.run] at h
    cases hstep : reading.step naming target c with
    | error issue =>
      rw [hstep] at h
      cases h
    | ok next =>
      rw [hstep] at h
      exact ih (hr.step hstep) h

end Reading

/-- **A path that was read fits.**  All its links end in columns, and it ends in a column itself
exactly if it was read as a path to one. -/
theorem linksFit_read {input : String} {p : Path} (h : read target naming input = .ok p) :
    p.LinksFit ∧ (p.endsInColumn = true ↔ target = .column) := by
  unfold read at h
  split at h
  · rename_i q hrun
    obtain rfl : q = p := Except.ok.inj h
    have hinitial : Reading.initial.Fits := fun s hs => absurd hs List.not_mem_nil
    exact hinitial.run hrun
  · cases h

end Path
end LinkedRows
