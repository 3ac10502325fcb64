import Docsmith.Proofs.Generation.Undisturbed
import Docsmith.Proofs.Generation.Paths
/-!
# Generation — what stands on the disk

Where nothing fails and no stage is given up, a run writes one document for each
of its paths (`Job.written_log_perm`). If its paths are apart, spell their places
out and nothing on the disk is in the way, each document stands at its place in
the end, with the text that was handed over (`written_nodup_iff`). Classes of one
name in different packages have one path, so the document of one of them is lost
(`homonyms_share_paths`).
-/

namespace Docsmith

/-! ## Paths that spell their places out -/

namespace FileTree

open Disk (key)
open Docsmith.Path (Component components_eq leading ofPiece?)
open Text (splitBy splitChar splitChar_append_cons splitChar_ne_nil)

variable {here : Place} {path other : String}

/-- The name that a component is, if it is one. -/
def nameOf? : Component → Option String
  | .name s => some (String.ofList s)
  | _ => none

theorem filterMap_leading (pieces : List (List Char)) :
    (leading pieces).filterMap nameOf? = [] := by
  unfold leading
  split <;> rfl

theorem parent_not_mem (h : .parent ∉ key path) :
    .parent ∉ (splitChar '/' path.toList).filterMap ofPiece? := by
  rw [key, components_eq] at h
  exact fun hmem => h (List.mem_append_right _ hmem)

/-- What a piece that does not climb stands for. -/
theorem ofPiece?_cases (piece : List Char) : (piece = [] ∨ piece = ['.']) ∧ ofPiece? piece = none ∨
    ofPiece? piece = some .parent ∨ ofPiece? piece = some (.name piece) ∧
      piece ≠ [] ∧ piece ≠ ['.'] ∧ piece ≠ ['.', '.'] := by
  unfold ofPiece?
  split <;> simp_all

/-- Components that do not climb are told by their names. -/
theorem eq_map_name {pieces : List (List Char)} (h : .parent ∉ pieces.filterMap ofPiece?) :
    pieces.filterMap ofPiece? =
      ((pieces.filterMap ofPiece?).filterMap nameOf?).map fun s => .name s.toList := by
  rw [List.map_filterMap]
  refine List.filterMap_some.symm.trans (List.filterMap_congr fun c hc => ?_)
  obtain ⟨piece, -, hpiece⟩ := List.mem_filterMap.1 hc
  rcases ofPiece?_cases piece with ⟨-, hnone⟩ | hparent | ⟨hname, -⟩
  · cases hnone.symm.trans hpiece
  · exact absurd (Option.some.inj (hpiece.symm.trans hparent) ▸ hc) h
  · obtain rfl := Option.some.inj (hpiece.symm.trans hname)
    simp [nameOf?]

/-- Pieces that do not climb go down through their names. -/
theorem byName_eq {pieces : List (List Char)} (h : .parent ∉ pieces.filterMap ofPiece?)
    (directory : Place) (behind : List String) :
    byName directory ((pieces.map String.ofList).filter (!·.isEmpty) ++ behind) =
      byName (directory ++ (pieces.filterMap ofPiece?).filterMap nameOf?) behind := by
  induction pieces generalizing directory with
  | nil => simp
  | cons piece pieces ih =>
    rcases ofPiece?_cases piece with ⟨hsilent, hnone⟩ | hparent | ⟨hname, hne, hdot, hdots⟩
    · rw [List.filterMap_cons_none hnone] at h ⊢
      rcases hsilent with rfl | rfl
      · exact ih h directory
      · exact (byName_dot _ _).trans (ih h directory)
    · exact absurd (List.mem_filterMap.2 ⟨piece, List.mem_cons_self, hparent⟩) h
    · rw [List.filterMap_cons_some hname] at h ⊢
      have hrest : .parent ∉ pieces.filterMap ofPiece? := fun hmem => h (List.mem_cons_of_mem _ hmem)
      have hplain : String.ofList piece ≠ "." ∧ String.ofList piece ≠ ".." :=
        ⟨fun heq => hdot (by simpa using congrArg String.toList heq),
          fun heq => hdots (by simpa using congrArg String.toList heq)⟩
      have hnames : (Component.name piece :: pieces.filterMap ofPiece?).filterMap nameOf? =
          String.ofList piece :: (pieces.filterMap ofPiece?).filterMap nameOf? := rfl
      rw [hnames, List.map_cons, List.filter_cons_of_pos (by simpa using hne), List.cons_append,
        byName, if_neg hplain.1, if_neg hplain.2, ih hrest, List.append_assoc,
        List.singleton_append]

/-- A path starts at the root if its first pieces stand for the root. -/
theorem head?_eq_slash_iff (text : List Char) :
    text.head? = some '/' ↔ leading (splitChar '/' text) = [.root] := by
  cases text with
  | nil => simp [splitChar, splitBy, leading]
  | cons c text =>
    obtain ⟨piece, pieces, hsplit⟩ := List.exists_cons_of_ne_nil (splitChar_ne_nil '/' text)
    by_cases hc : c = '/'
    · subst hc
      have happend := splitChar_append_cons '/' [] text
      rw [List.nil_append] at happend
      rw [happend, hsplit]
      exact ⟨fun _ => rfl, fun _ => rfl⟩
    · have hfirst : splitChar '/' (c :: text) = (c :: piece) :: pieces := by
        unfold splitChar splitBy at hsplit ⊢
        rw [List.foldr_cons, hsplit]
        simp [hc]
      rw [hfirst]
      unfold leading
      split <;> simp_all

/-- **A path that does not climb spells its names out.** -/
theorem spelt_eq (h : .parent ∉ key path) :
    spelt here path = start here path ++ (key path).filterMap nameOf? := by
  have hlast : ∀ directory : Place, byName directory
      (if ((splitChar '/' path.toList).map String.ofList).getLast? == some "" then ["."] else []) =
        directory := by
    intro directory
    split_ifs
    · exact byName_dot directory []
    · rfl
  rw [spelt, FileTree.pieces, byName_eq (parent_not_mem h), hlast, key, components_eq,
    List.filterMap_append, filterMap_leading, List.nil_append]

/-- Where paths begin alike and do not climb, they lead to one place only if they have the same
components. -/
theorem spelt_inj_iff (h : .parent ∉ key path) (h' : .parent ∉ key other)
    (hstart : leading (splitChar '/' path.toList) = leading (splitChar '/' other.toList)) :
    spelt here path = spelt here other ↔ key path = key other := by
  have hsame : start here path = start here other := by
    have hiff := (head?_eq_slash_iff path.toList).trans
      (hstart ▸ (head?_eq_slash_iff other.toList).symm)
    simp only [start, beq_iff_eq, hiff]
  rw [spelt_eq h, spelt_eq h', hsame, List.append_cancel_left_eq]
  refine ⟨fun heq => ?_, fun heq => by rw [heq]⟩
  replace h := parent_not_mem h
  replace h' := parent_not_mem h'
  rw [key, key, components_eq, components_eq, List.filterMap_append, List.filterMap_append, hstart,
    filterMap_leading, List.nil_append, List.nil_append] at heq
  rw [key, key, components_eq, components_eq, hstart, eq_map_name h, eq_map_name h', heq]

end FileTree

/-! ## What was written -/

namespace Sink

variable {σ : Type} {sink : Sink σ} {s u : σ} {deeds : List Deed}

/-- A sink that answers with the paths that it is asked for has written what it was handed, if
nothing failed. -/
theorem AnswersAsked.written_eq (h : sink.AnswersAsked) (hdoes : sink.Does s deeds u)
    (hok : ∀ deed ∈ deeds, deed.act.Succeeded) :
    written (deeds.map Deed.act) = (handed deeds).map (·.path) := by
  induction hdoes with
  | nil => rfl
  | @wrote _ _ _ d result deeds hw _ ih =>
    rw [List.forall_mem_cons] at hok
    obtain ⟨p, rfl⟩ := hok.1
    obtain rfl : p = d.path := h d.path d.content _ p (congrArg Prod.fst hw)
    exact congrArg (d.path :: ·) (ih hok.2)
  | made _ _ ih =>
    rw [List.forall_mem_cons] at hok
    exact ih hok.2

end Sink

namespace Generation

open Diagram Document FileTree Sink
open Disk (key)

variable {j : Job} {here : Place} {d : Disk}

namespace Job

variable {deeds pages tests diagrams : List Deed} {outcome : Outcome}

/-- Where the stage of the pages is not given up every page is handed over. -/
theorem PagesDone.paths_of_finishes (h : j.PagesDone deeds outcome) (hfinishes : j.Finishes) :
    (handed deeds).map (·.path) = j.pagePaths := by
  rw [h.handed_eq]
  split_ifs with hnone
  · rw [pagePaths_of_isEmpty (List.isEmpty_iff.2 hnone)]
    rfl
  · rw [timelyPages, Pace.reach_of_not_late (hfinishes.pages hnone), List.take_length]
    exact ElementPages.paths_drafts _ _ _

theorem TestsDone.paths_of_finishes (h : j.TestsDone deeds outcome) (hfinishes : j.Finishes) :
    (handed deeds).map (·.path) = j.testPaths := by
  rw [h.handed_eq, testPaths]
  split_ifs with hsome
  · rw [timelyTests, Pace.reach_of_not_late (hfinishes.tests hsome)]
    rfl
  · rfl

theorem FormatDone.paths_of_made {f : Format} {result : Except Failure (List String)}
    (h : j.FormatDone f deeds result) (hmade : ∀ deed ∈ deeds, ¬ deed.Refused) :
    (handed deeds).map (·.path) =
      f.paths (f.naming j.output) (f.directory j.output) j.analysis := by
  cases h with
  | unusable hv => rw [Format.paths, Diagram.drawn, hv]; rfl
  | idle hv => rw [Format.paths, Diagram.drawn, hv]; rfl
  | refused => exact absurd ⟨_, _, rfl⟩ (hmade _ List.mem_cons_self)
  | @drawn views results hv hne hlength =>
    have hhanded : handed (.made (f.directory j.output) (.ok ()) ::
        List.zipWith .wrote (j.drawings f views) results) = j.drawings f views :=
      handed_zipWith hlength
    rw [hhanded, drawings, Format.paths_drafts, Format.paths, Diagram.drawn, hv]

theorem FormatsDone.paths_of_made {formats : List Format} {out : Nat × List String}
    (h : j.FormatsDone formats deeds out) (hmade : ∀ deed ∈ deeds, ¬ deed.Refused) :
    (handed deeds).map (·.path) =
      formats.flatMap fun f => f.paths (f.naming j.output) (f.directory j.output) j.analysis := by
  induction h with
  | nil => rfl
  | cons hfirst _ ih =>
    rw [List.forall_mem_append] at hmade
    rw [handed_append, List.map_append, List.flatMap_cons, hfirst.paths_of_made hmade.1,
      ih hmade.2]

theorem DiagramsDone.paths_of_finishes (h : j.DiagramsDone deeds outcome) (hfinishes : j.Finishes)
    (hmade : ∀ deed ∈ deeds, ¬ deed.Refused) : (handed deeds).map (·.path) = j.diagramPaths := by
  cases h with
  | idle hnone =>
    rw [diagramPaths, hnone]
    rfl
  | late _ hformats hlate =>
    exact absurd ((hformats.late_iff.1 hlate).of_sublist (List.nil_sublist _)) hfinishes.diagrams
  | drew _ hformats => exact hformats.paths_of_made hmade

theorem not_refused_of_succeeded {deed : Deed} (h : deed.act.Succeeded) : ¬ deed.Refused := by
  rintro ⟨directory, failure, rfl⟩
  cases h

/-- **A run in which nothing fails and no stage is given up** writes a document for each of its
paths. -/
theorem written_log_perm {σ : Type} {sink : Sink σ} {s : σ} (hs : sink.AnswersAsked)
    (hfinishes : j.Finishes) (hok : ∀ act ∈ j.log sink s, act.Succeeded) :
    (written (j.log sink s)).Perm j.paths := by
  obtain ⟨-, -, hdoes, hcourse⟩ := j.course_transcript sink s
  rw [Job.log, List.forall_mem_map] at hok
  rw [Job.log, hs.written_eq hdoes hok]
  generalize j.transcript sink s = deeds at hok hcourse
  generalize (j.run sink s).result = result at hcourse
  cases hcourse with
  | refused => cases hok _ (List.mem_singleton_self _)
  | @ended deeds pages tests diagrams outcomes answer hperm hdone =>
    have hhanded : handed (.made j.output.directory (.ok ()) :: (deeds ++ [.wrote ⟨j.overviewPath,
        Overview.compose j.overview outcomes⟩ answer])) =
          handed deeds ++ [⟨j.overviewPath, Overview.compose j.overview outcomes⟩] :=
      handed_append _ _
    rw [hhanded, List.map_append]
    rw [List.forall_mem_cons, List.forall_mem_append] at hok
    obtain ⟨hpages, htests, hdiagrams⟩ := hdone
    have hmade : ∀ deed ∈ diagrams, ¬ deed.Refused := fun deed hdeed =>
      not_refused_of_succeeded (hok.2.1 deed (hperm.mem_iff.2 (List.mem_append_right _ hdeed)))
    have hstages : ((handed deeds).map (·.path)).Perm
        (j.pagePaths ++ j.testPaths ++ j.diagramPaths) := by
      rw [← hpages.paths_of_finishes hfinishes, ← htests.paths_of_finishes hfinishes,
        ← hdiagrams.paths_of_finishes hfinishes hmade, ← List.map_append, ← List.map_append,
        ← handed_append, ← handed_append]
      exact (hperm.filterMap _).map _
    exact hstages.append_right _

/-! ## What stands in the end -/

/-- The paths of a run spell their places out: none of them climbs, and all begin alike, be it at
the root or at the current directory. On the disk nothing is in the way of the documents: no link,
no document where a directory is needed, and no temporary file. -/
structure LiesOpen (j : Job) (here : Place) (d : Disk) : Prop where
  level : ∀ path ∈ j.paths, .parent ∉ key path
  alike : ∀ path ∈ j.paths, Path.leading (Text.splitChar '/' path.toList) =
    Path.leading (Text.splitChar '/' j.overviewPath.toList)
  closed : d.tree.IsClosed
  base : d.tree.get? here = some .directory
  ground : Disk.Ground here j.homes j.paths d
  found : ∀ directory ∈ j.formatDirectories, EndsInDot directory →
    d.tree.get? (spelt here directory) = some .directory

/-- Where paths spell their places out, documents that are apart have places of their own. -/
theorem LiesOpen.keptApart (h : j.LiesOpen here d) (hcheck : j.config.check = .ok ())
    (hapart : j.Apart) : j.KeptApart here d := by
  refine ⟨(nodup_map_iff fun path hpath other hother => ?_).2 ((nodup_paths_iff hcheck).2 hapart),
    h.ground, h.found⟩
  exact spelt_inj_iff (h.level path hpath) (h.level other hother)
    ((h.alike path hpath).trans (h.alike other hother).symm)

/-- **Documents that are kept apart stand in the end**, if nothing failed. -/
theorem stands_of_succeeded (hcheck : j.config.check = .ok ()) (hc : d.tree.IsClosed)
    (hb : d.tree.get? here = some .directory) (hapart : j.KeptApart here d)
    (hok : ∀ act ∈ j.log (Sink.disk .overwrite here) d, act.Succeeded) {x : Draft}
    (hx : x ∈ handed (j.transcript (Sink.disk .overwrite here) d)) :
    (j.run (Sink.disk .overwrite here) d).state.tree.get? (spelt here x.path) =
      some (.file x.content.toUTF8) := by
  obtain ⟨hsep, hstart⟩ := hapart.separates hcheck hc hb
  rw [Job.log, List.forall_mem_map] at hok
  rcases run_follows hsep (fun hmade => (hstart hmade).1) hapart.distinct with
    ⟨failure, hrefused, -, -⟩ | ⟨t, rest, htranscript, -, -, hfollows, hplaces⟩
  · rw [hrefused] at hok
    cases hok _ (List.mem_singleton_self _)
  · rw [htranscript] at hok hx
    obtain ⟨result, hdeed⟩ := mem_handed.1 hx
    have hmem := (List.mem_cons.1 hdeed).resolve_left nofun
    have hwritable := (hfollows.wrote hmem).1 (hok _ hdeed)
    exact Disk.entry_eq_file_iff.1 (hfollows.stored hplaces x hx hwritable)

end Job

/-- **The documents that an overwriting run has written**, where nothing
failed and no stage was given up: one for each path of the run, and no two at one
path exactly if they are apart. Then, with nothing in the way on the disk, each
of them stands there in the end with its text. -/
theorem written_nodup_iff (hcheck : j.config.check = .ok ())
    (hpolicy : j.output.collision = .overwrite) (hfinishes : j.Finishes)
    (hok : ∀ act ∈ j.log (Sink.disk j.output.collision here) d, act.Succeeded) :
    (written (j.log (Sink.disk j.output.collision here) d)).Perm j.paths ∧
      (((written (j.log (Sink.disk j.output.collision here) d)).map key).Nodup ↔ j.Apart) ∧
      (j.Apart → j.LiesOpen here d →
        ∀ x ∈ handed (j.transcript (Sink.disk j.output.collision here) d),
          (j.run (Sink.disk j.output.collision here) d).state.tree.get? (spelt here x.path) =
            some (.file x.content.toUTF8)) := by
  rw [hpolicy] at hok ⊢
  have hperm := Job.written_log_perm (Disk.answersAsked_disk here) hfinishes hok
  refine ⟨hperm, ((hperm.map key).nodup_iff).trans (nodup_paths_iff hcheck),
    fun hapart hopen x hx => ?_⟩
  exact Job.stands_of_succeeded hcheck hopen.closed hopen.base (hopen.keptApart hcheck hapart)
    hok hx

/-- Two classes of one name in different packages; their diagrams go beside
the overview. -/
def homonyms : Job where
  config :=
    { output :=
        { directory := "d", unitTests := false, mermaid := true, mermaidPath := some "d" } }
  analysis := ⟨"shop", [⟨.type, "A", "a.A", "a/A.java", 1, "class A", "", [], []⟩,
    ⟨.type, "A", "b.A", "b/A.java", 1, "class A", "", [], []⟩]⟩
  limits := .ofBase ⟨1⟩
  backends _ := ⟨⟨0⟩, .ok ""⟩
  generatedOn := ""

/-- The same with a name of its own for each of them. -/
def neighbours : Job :=
  { homonyms with
    analysis := ⟨"shop", [⟨.type, "A", "a.A", "a/A.java", 1, "class A", "", [], []⟩,
      ⟨.type, "B", "b.B", "b/B.java", 1, "class B", "", [], []⟩]⟩ }

theorem log_of_ready {σ : Type} {sink : Sink σ} {s : σ}
    (h : (j.stages sink.recorded).Pairwise fun a b => a.timeline.finish ≤ b.timeline.finish) :
    j.log sink s = (sink.recorded.afterDirectory j.output.directory Except.error (fun s =>
      ((j.writeInOrder sink.recorded (j.stages sink.recorded) s).1.map fun _ => j.output.directory,
        (j.writeInOrder sink.recorded (j.stages sink.recorded) s).2)) ([], s)).2.1.map Deed.act := by
  rw [← Job.outcome_of_ready (Stage.mergeSort_of_ready h)]
  rfl

theorem homonyms_finishes : homonyms.Finishes :=
  ⟨by decide +kernel, by decide +kernel, by decide +kernel⟩

theorem neighbours_finishes : neighbours.Finishes :=
  ⟨by decide +kernel, by decide +kernel, by decide +kernel⟩

theorem homonyms_succeed :
    ∀ act ∈ homonyms.log (Sink.disk homonyms.output.collision []) ⟨⟨[]⟩, [], 0⟩, act.Succeeded := by
  have hready : (homonyms.stages (Sink.disk homonyms.output.collision []).recorded).Pairwise
      fun a b => a.timeline.finish ≤ b.timeline.finish := by
    decide +kernel
  rw [log_of_ready hready]
  decide +kernel

theorem neighbours_succeed :
    ∀ act ∈ neighbours.log (Sink.disk neighbours.output.collision []) ⟨⟨[]⟩, [], 0⟩,
      act.Succeeded := by
  have hready : (neighbours.stages (Sink.disk neighbours.output.collision []).recorded).Pairwise
      fun a b => a.timeline.finish ≤ b.timeline.finish := by
    decide +kernel
  rw [log_of_ready hready]
  decide +kernel

theorem neighbours_liesOpen : neighbours.LiesOpen [] ⟨⟨[]⟩, [], 0⟩ := by
  refine ⟨by decide +kernel, by decide +kernel, .of_nodes nofun, rfl, ⟨by decide +kernel,
    fun _ _ place _ target => FileTree.HasNoLinks.of_nodes (by simp) place target,
    Disk.scratch_of_short nofun (by decide +kernel) (by decide +kernel)⟩, by decide +kernel⟩

/-- What the theorem says of them: the homonyms' pages are one, and so are their
diagrams; of the neighbours each keeps its own. -/
theorem written_nodup_iff_homonyms :
    (written (homonyms.log (Sink.disk homonyms.output.collision []) ⟨⟨[]⟩, [], 0⟩)).Perm
        ["d/elements/class-A.md", "d/elements/class-A.md", "d/A_diagram.md", "d/A_diagram.md",
          "d/README.md"] ∧
      (((written (homonyms.log (Sink.disk homonyms.output.collision [])
        ⟨⟨[]⟩, [], 0⟩)).map key).Nodup ↔ homonyms.Apart) ∧
      neighbours.Apart ∧ neighbours.LiesOpen [] ⟨⟨[]⟩, [], 0⟩ ∧
      ∀ x ∈ handed (neighbours.transcript (Sink.disk neighbours.output.collision [])
          ⟨⟨[]⟩, [], 0⟩),
        (neighbours.run (Sink.disk neighbours.output.collision []) ⟨⟨[]⟩, [], 0⟩).state.tree.get?
          (spelt [] x.path) = some (.file x.content.toUTF8) := by
  obtain ⟨hperm, hiff, -⟩ := written_nodup_iff (by rfl) rfl homonyms_finishes homonyms_succeed
  obtain ⟨-, -, hstands⟩ :=
    written_nodup_iff (by rfl) rfl neighbours_finishes neighbours_succeed
  have hpaths : homonyms.paths = ["d/elements/class-A.md", "d/elements/class-A.md",
      "d/A_diagram.md", "d/A_diagram.md", "d/README.md"] := by
    decide +kernel
  have hapart : neighbours.Apart := (nodup_paths_iff (by rfl)).1 (by decide +kernel)
  rw [hpaths] at hperm
  exact ⟨hperm, hiff, hapart, neighbours_liesOpen, hstands hapart neighbours_liesOpen⟩

/-- **Documents of one run share a path**, although the elements have
different ids, the configuration is accepted, and neither a limit nor the disk
is in the way. -/
theorem homonyms_share_paths :
    (homonyms.analysis.elements.map (·.id)).Nodup ∧
      homonyms.config.check = .ok () ∧
      homonyms.output.collision = .overwrite ∧
      homonyms.Finishes ∧
      (∀ act ∈ homonyms.log (Sink.disk homonyms.output.collision []) ⟨⟨[]⟩, [], 0⟩,
        act.Succeeded) ∧
      ¬ ((written (homonyms.log (Sink.disk homonyms.output.collision [])
        ⟨⟨[]⟩, [], 0⟩)).map key).Nodup := by
  refine ⟨by decide +kernel, by rfl, rfl, homonyms_finishes, homonyms_succeed, fun hnodup => ?_⟩
  have hperm := Job.written_log_perm (Disk.answersAsked_disk []) homonyms_finishes homonyms_succeed
  have hpaths : ¬ (homonyms.paths.map key).Nodup := by decide +kernel
  exact hpaths ((hperm.map key).nodup_iff.1 hnodup)

end Generation

end Docsmith
