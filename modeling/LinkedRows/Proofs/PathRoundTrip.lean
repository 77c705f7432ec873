/-
# Printed paths are read back

`Path.text` writes a path with every key and link, so its text derives from the grammar with the
segments that the path is made of (`Path.segments`), and these denote the path again under every
naming.  No two paths are made of the same segments, and no text has two derivations; so a path is
known by its text.

What is read from a text has names for its tables, keys and columns, as long as those that the
naming puts in are names too.  Hence all of this holds for every path that was read.
-/

import LinkedRows.Proofs.PathGrammar.Complete
import LinkedRows.Proofs.PathReading

namespace LinkedRows

/-- The key is a name, and the suffix keeps names names. -/
def Naming.IsNamed (naming : Naming) : Prop :=
  Path.IsName naming.key ∧ ∀ c ∈ naming.linkSuffix.toList, Path.isNameChar c = true

instance (naming : Naming) : Decidable naming.IsNamed :=
  decidable_of_iff (Path.IsName naming.key ∧ naming.linkSuffix.toList.all Path.isNameChar = true)
    (and_congr_right fun _ => List.all_eq_true)

namespace Path

/-- The tables, keys and columns of a path have names. -/
def Named : Path → Prop
  | .column name => IsName name
  | .table name key link => IsName name ∧ IsName key ∧ link.Named
  | .join name key link inner => IsName name ∧ IsName key ∧ link.Named ∧ inner.Named

/-- The segments that the text of a path is made of. -/
def segments : Path → List Segment
  | .column name => [⟨name, none⟩]
  | .table name key link => [⟨name, some (some key, link)⟩]
  | .join name key link inner => ⟨name, some (some key, link)⟩ :: inner.segments

variable {naming : Naming} {target : Target} {p q : Path}

/-- No two paths are made of the same segments. -/
theorem segments_inj (h : p.segments = q.segments) : p = q := by
  induction p generalizing q with
  | column name =>
    cases q with
    | column => cases h; rfl
    | table | join => cases h
  | table name key link =>
    cases q with
    | table => cases h; rfl
    | column => cases h
    | join _ _ _ inner => cases inner <;> cases h
  | join name key link inner _ ih =>
    cases q with
    | join =>
      obtain ⟨hhead, htail⟩ := List.cons.inj h
      obtain rfl := ih htail
      cases hhead
      rfl
    | column => cases h
    | table => cases inner <;> cases h

/-- Under every naming the segments of a path denote it. -/
theorem denotes_segments (h : p.endsInColumn = true ↔ target = .column) :
    Denotes naming target p.segments p := by
  induction p with
  | column name =>
    obtain rfl := h.1 rfl
    exact .column
  | table name key link =>
    cases target with
    | column => exact absurd (h.2 rfl) Bool.false_ne_true
    | table => exact .table
  | join name key link inner _ ih => exact .join (ih h)

/-- A segment with its key and link written out. -/
theorem segmentText_written {name key : String} {link : Path} (hname : IsName name)
    (hkey : IsName key) (hlink : PathText naming link.text.toList link.segments)
    (hend : link.endsInColumn = true) :
    SegmentText naming (name ++ "[" ++ key ++ "=" ++ link.text ++ "]").toList
      ⟨name, some (some key, link)⟩ := by
  have hspec := SpecText.keyed hkey (.self _) (.self _) hlink
    (denotes_segments (iff_of_true hend rfl))
  have hsegment := SegmentText.brackets hname (.self _) (.self _) hspec (.self _)
  simpa using hsegment

/-- The text of a path derives from the grammar. -/
theorem pathText_text (hp : p.Named) (hlinks : p.LinksFit) :
    PathText naming p.text.toList p.segments := by
  induction p with
  | column name => exact .last (.bare hp (.self _))
  | table name key link ih =>
    obtain ⟨hname, hkey, hlink⟩ := hp
    exact .last (segmentText_written hname hkey (ih hlink hlinks.1) hlinks.2)
  | join name key link inner ihlink ihinner =>
    obtain ⟨hname, hkey, hlink, hinner⟩ := hp
    obtain ⟨hfits, hend, hinnerFits⟩ := hlinks
    have hsegment := segmentText_written hname hkey (ihlink hlink hfits) hend
    have hpath := PathText.more hsegment (.self _) (ihinner hinner hinnerFits)
    have htext : (Path.join name key link inner).text =
        name ++ "[" ++ key ++ "=" ++ link.text ++ "]" ++ "." ++ inner.text := by
      simp [text, String.append_assoc]
    rw [htext, String.toList_append, String.toList_append]
    exact hpath

theorem read_text (hp : p.Named) (hlinks : p.LinksFit)
    (hend : p.endsInColumn = true ↔ target = .column) : read target naming p.text = .ok p :=
  read_eq_ok.2 ⟨p.segments, pathText_text hp hlinks, denotes_segments hend⟩

/-- A path is known by its text. -/
theorem text_inj (hp : p.Named) (hq : q.Named) (hplinks : p.LinksFit) (hqlinks : q.LinksFit)
    (h : p.text = q.text) : p = q := by
  have hptext : PathText .standard p.text.toList p.segments := pathText_text hp hplinks
  have hqtext : PathText .standard q.text.toList q.segments := pathText_text hq hqlinks
  rw [h] at hptext
  exact segments_inj (hptext.unique hqtext)

/-! ## What is read has names -/

/-- The name of a segment is one, and what stands in its brackets has names. -/
def Segment.Named (s : Segment) : Prop :=
  IsName s.name ∧ ∀ key link, s.brackets = some (key, link) → (∀ k ∈ key, IsName k) ∧ link.Named

theorem Segment.Named.key {s : Segment} (hs : s.Named) (hnaming : naming.IsNamed) :
    IsName (s.key naming) := by
  obtain ⟨name, brackets⟩ := s
  match brackets, hs.2 with
  | none, _ => exact hnaming.1
  | some (none, link), _ => exact hnaming.1
  | some (some key, link), h => exact (h _ _ rfl).1 key rfl

theorem Segment.Named.link {s : Segment} (hs : s.Named) (hnaming : naming.IsNamed) :
    (s.link naming).Named := by
  obtain ⟨name, brackets⟩ := s
  match brackets, hs.1, hs.2 with
  | none, hname, _ =>
    refine ⟨fun h => hname.1 ?_, fun c hc => ?_⟩
    · rw [Naming.link, String.toList_append] at h
      exact (List.append_eq_nil_iff.1 h).1
    · rw [Naming.link, String.toList_append, List.mem_append] at hc
      exact hc.elim (hname.2 c) (hnaming.2 c)
  | some (key, link), _, h => exact (h _ _ rfl).2

/-- Named segments denote a path with names. -/
theorem Denotes.named {segments : List Segment} (h : Denotes naming target segments p)
    (hnaming : naming.IsNamed) (hsegments : ∀ s ∈ segments, s.Named) : p.Named := by
  induction h with
  | column => exact (hsegments _ (List.mem_cons_self ..)).1
  | table =>
    have hs := hsegments _ (List.mem_cons_self ..)
    exact ⟨hs.1, hs.key hnaming, hs.link hnaming⟩
  | join _ ih =>
    have hs := hsegments _ (List.mem_cons_self ..)
    exact ⟨hs.1, hs.key hnaming, hs.link hnaming,
      ih fun t ht => hsegments t (List.mem_cons_of_mem _ ht)⟩

mutual

theorem PathText.named {cs : List Char} {segments : List Segment} (hnaming : naming.IsNamed) :
    PathText naming cs segments → ∀ s ∈ segments, s.Named
  | .last hs => List.forall_mem_singleton.2 (SegmentText.named hnaming hs)
  | .more hs _ hrest =>
    List.forall_mem_cons.2 ⟨SegmentText.named hnaming hs, PathText.named hnaming hrest⟩

theorem SegmentText.named {cs : List Char} {s : Segment} (hnaming : naming.IsNamed) :
    SegmentText naming cs s → s.Named
  | .bare hname _ => ⟨hname, nofun⟩
  | .brackets hname _ _ hspec _ => by
    have hinside := SpecText.named hnaming hspec
    refine ⟨hname, fun key link h => ?_⟩
    obtain rfl := Option.some.inj h
    exact hinside

theorem SpecText.named {cs : List Char} {inside : Option String × Path}
    (hnaming : naming.IsNamed) :
    SpecText naming cs inside → (∀ k ∈ inside.1, IsName k) ∧ inside.2.Named
  | .link hpath hlink => ⟨nofun, hlink.named hnaming (PathText.named hnaming hpath)⟩
  | .keyed hkey _ _ hpath hlink =>
    ⟨fun _ hk => Option.some.inj hk ▸ hkey, hlink.named hnaming (PathText.named hnaming hpath)⟩

end

/-- What is read has names. -/
theorem named_of_read {input : String} (hnaming : naming.IsNamed)
    (h : read target naming input = .ok p) : p.Named := by
  obtain ⟨segments, hpath, hdenotes⟩ := read_eq_ok.1 h
  exact hdenotes.named hnaming (hpath.named hnaming)

/-- **Printing and reading are inverse.**  The text of a path with names and links to columns is
read back as that path, with whatever naming.  So is, then, the text of every path that was read,
and two of these have the same text exactly if they are the same path. -/
theorem reads_printed :
    (∀ (p : Path) (naming : Naming), p.Named → p.LinksFit →
      (p.endsInColumn = true → readColumn naming p.text = .ok p) ∧
      (p.endsInColumn = false → readTable naming p.text = .ok p)) ∧
    (∀ (target : Target) (naming : Naming) (input : String) (p : Path), naming.IsNamed →
      read target naming input = .ok p → ∀ naming', read target naming' p.text = .ok p) ∧
    ∀ (target target' : Target) (naming naming' : Naming) (input input' : String) (p q : Path),
      naming.IsNamed → naming'.IsNamed →
      read target naming input = .ok p → read target' naming' input' = .ok q →
      (p.text = q.text ↔ p = q) := by
  refine ⟨fun p naming hp hlinks => ⟨fun hend => ?_, fun hend => ?_⟩, ?_, ?_⟩
  · exact read_text hp hlinks (iff_of_true hend rfl)
  · exact read_text hp hlinks (iff_of_false (by rw [hend]; exact Bool.false_ne_true) nofun)
  · intro target naming input p hnaming h naming'
    obtain ⟨hlinks, hend⟩ := linksFit_read h
    exact read_text (named_of_read hnaming h) hlinks hend
  · intro target target' naming naming' input input' p q hnaming hnaming' hp hq
    exact ⟨text_inj (named_of_read hnaming hp) (named_of_read hnaming' hq) (linksFit_read hp).1
      (linksFit_read hq).1, congrArg _⟩

/-- A link through a table of its own, with blanks and without the keys that the naming gives. -/
theorem reads_printed_nested :
    let naming : Naming := ⟨"uid", ""⟩
    let p := Path.join "a" "k" (.join "b" "uid" (.column "b") (.column "x")) (.column "title")
    naming.IsNamed ∧ read .column naming " a[k = b . x ].title" = .ok p ∧
      readColumn .standard p.text = .ok p ∧
      ∀ q, read .table naming "a[ k=b[uid=b].x]" = .ok q → p.text ≠ q.text := by
  intro naming p
  have hnaming : naming.IsNamed := by decide +kernel
  have hp : read .column naming " a[k = b . x ].title" = .ok p := by rfl
  refine ⟨hnaming, hp, reads_printed.2.1 _ _ _ _ hnaming hp _, fun q hq htext => ?_⟩
  obtain rfl := (reads_printed.2.2 _ _ _ _ _ _ p q hnaming hnaming hp hq).1 htext
  exact absurd ((linksFit_read hq).2.1 rfl) nofun

end Path
end LinkedRows
