import Docsmith.Proofs.Generation.Course
import Docsmith.Proofs.Sink.Beside
import Docsmith.Sink.Memory
/-!
# Generation — where a run writes

A run with an accepted configuration writes into four kinds of directories:
the output directory, those of the pages and of the unit tests in it, and
those of the diagram formats that are switched on. Every document is handed
to the sink as a file name in one of them, whatever the elements are called,
and every file that a sink on disk touches for it stands in that directory,
with a name that leads nowhere else (`Job.output_confined`).
-/


namespace Docsmith

open Sink

namespace Generation

open Document Model
open Docsmith.Path (IsFileName IsChild)

variable {σ : Type} {sink : Sink σ} {j : Job} {deeds : List Deed} {deed : Deed}

/-- A document that was handed over is one of those there were. -/
theorem mem_zipWith_wrote {drafts : List Draft} {results : List (Except Failure String)}
    (h : deed ∈ List.zipWith Deed.wrote drafts results) :
    ∃ d ∈ drafts, ∃ result, deed = .wrote d result := by
  rw [← List.map_uncurry_zip_eq_zipWith] at h
  obtain ⟨⟨d, result⟩, hpair, rfl⟩ := List.mem_map.1 h
  exact ⟨d, (List.of_mem_zip hpair).1, result, rfl⟩

namespace Job

/-- The directories that a run writes into. -/
def homes (j : Job) : List String :=
  [j.output.directory, Path.join j.output.directory elementsDirectory,
    Path.join j.output.directory "tests"] ++
    (Diagram.Format.enabled j.output).map fun f => f.directory j.output

/-- What is done stays in the run's directories: a directory that is made is one of
them, and a document is a file name in one of them. -/
inductive Stays (j : Job) : Deed → Prop
  | made {directory : String} {result : Except Failure Unit} : directory ∈ j.homes →
      Stays j (.made directory result)
  | wrote {directory name content : String} {result : Except Failure String} :
      directory ∈ j.homes → IsFileName name →
      Stays j (.wrote ⟨Path.join directory name, content⟩ result)

theorem stays_wrote {d : Draft} {directory name : String} {result : Except Failure String}
    (hdirectory : directory ∈ j.homes) (hname : IsFileName name)
    (hpath : d.path = Path.join directory name) : j.Stays (.wrote d result) := by
  obtain ⟨path, content⟩ := d
  obtain rfl : path = Path.join directory name := hpath
  exact .wrote hdirectory hname

/-! ## The stages -/

theorem PagesDone.stays {outcome : Outcome} (h : j.PagesDone deeds outcome) (hdeed : deed ∈ deeds) :
    j.Stays deed := by
  have hpages : ∀ {results : List (Except Failure String)},
      deed ∈ List.zipWith Deed.wrote j.pages results → j.Stays deed := by
    intro results hmem
    obtain ⟨d, hd, result, rfl⟩ := mem_zipWith_wrote hmem
    have hpath : d.path ∈ j.pages.map (·.path) := List.mem_map_of_mem hd
    rw [pages, ElementPages.paths_drafts] at hpath
    obtain ⟨g, hg, hpath⟩ := List.mem_map.1 hpath
    exact stays_wrote (by simp [homes]) (isFileName_group hg) hpath.symm
  cases h with
  | idle => cases hdeed
  | late => exact hpages (List.mem_of_mem_take hdeed)
  | wrote => exact hpages hdeed

theorem TestsDone.stays {outcome : Outcome} (h : j.TestsDone deeds outcome) (hdeed : deed ∈ deeds) :
    j.Stays deed := by
  have hpage : ∀ {result : Except Failure String},
      deed ∈ [Deed.wrote j.testPage result] → j.Stays deed := by
    intro result hmem
    rw [List.mem_singleton.1 hmem]
    exact stays_wrote (by simp [homes]) (by decide : IsFileName "unit-tests.md") rfl
  cases h with
  | idle => cases hdeed
  | late => exact hpage (List.mem_of_mem_take hdeed)
  | wrote => exact hpage hdeed

theorem FormatDone.stays (hcheck : j.config.check = .ok ()) {f : Diagram.Format}
    (hf : f ∈ Diagram.Format.enabled j.output) {result : Except Failure (List String)}
    (h : j.FormatDone f deeds result) (hdeed : deed ∈ deeds) : j.Stays deed := by
  have hhome : f.directory j.output ∈ j.homes :=
    List.mem_append_right _ (List.mem_map_of_mem (f := fun f => f.directory j.output) hf)
  cases h with
  | unusable => cases hdeed
  | idle => cases hdeed
  | refused =>
    rw [List.mem_singleton.1 hdeed]
    exact .made hhome
  | drawn =>
    rcases List.mem_cons.1 hdeed with rfl | hdeed
    · exact .made hhome
    · obtain ⟨d, hd, result, rfl⟩ := mem_zipWith_wrote hdeed
      unfold drawings Diagram.Format.drafts at hd
      obtain ⟨v, -, rfl⟩ := List.mem_map.1 hd
      exact stays_wrote hhome (isFileName_diagramName hcheck f v.type) rfl

theorem FormatsDone.stays (hcheck : j.config.check = .ok ()) {formats : List Diagram.Format}
    (hf : ∀ f ∈ formats, f ∈ Diagram.Format.enabled j.output) {out : Nat × List String}
    (h : j.FormatsDone formats deeds out) (hdeed : deed ∈ deeds) : j.Stays deed := by
  induction h with
  | nil => cases hdeed
  | cons hfirst _ ih =>
    rcases List.mem_append.1 hdeed with hdeed | hdeed
    · exact hfirst.stays hcheck (hf _ List.mem_cons_self) hdeed
    · exact ih (fun f hmem => hf f (List.mem_cons_of_mem _ hmem)) hdeed

theorem DiagramsDone.stays (hcheck : j.config.check = .ok ()) {outcome : Outcome}
    (h : j.DiagramsDone deeds outcome) (hdeed : deed ∈ deeds) : j.Stays deed := by
  cases h with
  | idle => cases hdeed
  | late _ hformats =>
    exact hformats.stays hcheck (fun f hf => hf) (List.mem_of_mem_take hdeed)
  | drew _ hformats => exact hformats.stays hcheck (fun f hf => hf) hdeed

/-! ## The run -/

/-- **Whatever a run does stays in its directories.** -/
theorem Course.stays (hcheck : j.config.check = .ok ()) {result : Except Failure String}
    (h : j.Course deeds result) (hdeed : deed ∈ deeds) : j.Stays deed := by
  have hhome : j.output.directory ∈ j.homes := by simp [homes]
  cases h with
  | refused =>
    rw [List.mem_singleton.1 hdeed]
    exact .made hhome
  | ended hperm hdone =>
    rw [List.mem_cons, List.mem_append, List.mem_singleton, hperm.mem_iff, List.mem_append,
      List.mem_append] at hdeed
    obtain ⟨hpages, htests, hdiagrams⟩ := hdone
    rcases hdeed with rfl | ((hmem | hmem) | hmem) | rfl
    · exact .made hhome
    · exact hpages.stays hmem
    · exact htests.stays hmem
    · exact hdiagrams.stays hcheck hmem
    · exact stays_wrote hhome (by decide : IsFileName "README.md") rfl

/-- What is done is confined: the document is a file name in one of the run's
directories, and so is every file that a writer touches for it, under any policy, with
any token and whatever happens on the way. -/
inductive Confined (j : Job) : Deed → Prop
  | made {directory : String} {result : Except Failure Unit} : directory ∈ j.homes →
      Confined j (.made directory result)
  | wrote {directory name content : String} {result : Except Failure String} :
      directory ∈ j.homes → IsFileName name →
      (∀ policy here token w, Disk.IsToken token →
        Disk.Writer.Becomes policy here
          (.start policy (Path.join directory name) content token) w →
        ∀ file ∈ w.files, IsChild directory file) →
      Confined j (.wrote ⟨Path.join directory name, content⟩ result)

theorem Stays.confined (h : j.Stays deed) : j.Confined deed := by
  cases h with
  | made hhome => exact .made hhome
  | @wrote directory name content result hhome hname =>
    refine .wrote hhome hname fun policy here token w ht hbecomes => ?_
    exact hbecomes.isChild (Path.isChild_join hname directory) ht

/-- **The output is confined.** Whatever the sink answers, what a run hands to it lies
right in the run's directories, and so do the files that a sink on disk touches; the
paths that it answers with do so too. -/
theorem output_confined (hcheck : j.config.check = .ok ()) (sink : Sink σ) (s : σ) :
    (∀ deed ∈ j.transcript sink s, j.Confined deed) ∧
    ∀ policy here disk, ∀ draft path,
      .wrote draft (.ok path) ∈ j.transcript (Sink.disk policy here) disk →
      ∃ directory ∈ j.homes, IsChild directory path := by
  have hstays : ∀ {τ : Type} (tool : Sink τ) (t : τ), ∀ deed ∈ j.transcript tool t,
      j.Stays deed := fun tool t deed hdeed =>
    (j.course_transcript tool t).2.2.2.stays hcheck hdeed
  refine ⟨fun deed hdeed => (hstays sink s deed hdeed).confined, ?_⟩
  intro policy here disk draft path hdeed
  obtain ⟨-, -, hdoes, -⟩ := j.course_transcript (Sink.disk policy here) disk
  obtain ⟨d, hanswer⟩ := hdoes.exists_write hdeed
  have hwrite : (Sink.disk policy here).write = Disk.write policy here := rfl
  rw [hwrite] at hanswer
  have hstayed := hstays (Sink.disk policy here) disk _ hdeed
  cases hstayed with
  | wrote hhome hname =>
    exact ⟨_, hhome, Disk.isChild_of_write (Path.isChild_join hname _) hanswer⟩

end Job

/-- A class whose name would lead out of the output directory, and diagrams of it. -/
def unruly : Job where
  config := { output := { mermaid := true, mermaidPath := some "../shared" } }
  analysis := ⟨"/work/shop", [⟨.type, "../../etc/passwd", "a/..", "/work/shop/A.java", 1,
    "class A", "", [], []⟩]⟩
  limits := .ofBase ⟨1⟩
  backends _ := ⟨⟨0⟩, .ok ""⟩
  generatedOn := ""

/-- Its documents stay where they belong, also in a sink that refuses some. -/
theorem output_confined_unruly : unruly.config.check = .ok () ∧
    (∀ deed ∈ unruly.transcript (Sink.memory ["README.md"] []) {}, unruly.Confined deed) ∧
    unruly.homes = ["docs", "docs/elements", "docs/tests", "../shared"] :=
  ⟨by rfl, (Job.output_confined (by rfl) (Sink.memory ["README.md"] []) {}).1, by decide +kernel⟩

end Generation

end Docsmith
