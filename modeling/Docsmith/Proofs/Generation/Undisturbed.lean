import Docsmith.Proofs.Generation.Isolation
import Docsmith.Proofs.Sink.Ground
/-!
# Generation — the files of two runs

Two runs that differ only in what the backends reply to the calls of one stage
leave the same files, but for those of that stage and for the end of the
overview, which tells of failures (`stages_isolated`). It makes no difference
what the replies say, whether there are any, and how long they take. This is so
on every disk on which the documents of the run have places of their own that
are not in each other's way (`Job.KeptApart`); which of them can be written there
does not matter. It is not enough that the places differ: a directory that only
another stage makes may come too late (`Job.stages_meet_dottedParcel`).
-/


namespace Docsmith.Generation

open Document Model Sink FileTree
open Docsmith.Path (IsFileName)

variable {j : Job} {here : Place} {d : Disk} {purposes : List Purpose} {backends : Backends}

namespace Job

/-- The paths that a run targets are distinct, as far as paths on a disk can be: no two
documents have one place, none of them stands on the way to a directory that the run writes
into, and no link on such a way turns one path into another. Temporary files have names of
their own, and a directory for diagrams whose path ends in a dot is there already, since such
a directory is never made. -/
structure KeptApart (j : Job) (here : Place) (d : Disk) : Prop where
  distinct : (j.paths.map (spelt here)).Nodup
  ground : Disk.Ground here j.homes j.paths d
  found : ∀ directory ∈ j.formatDirectories, EndsInDot directory →
    d.tree.get? (spelt here directory) = some .directory

/-- Every document of a run is a file name in one of its directories. -/
theorem exists_home_of_mem_paths (hcheck : j.config.check = .ok ()) :
    ∀ path ∈ j.paths, ∃ home ∈ j.homes, ∃ name, IsFileName name ∧ path = Path.join home name := by
  intro path hpath
  simp only [paths, List.mem_append, List.mem_singleton] at hpath
  rcases hpath with ((hpage | htest) | hdrawing) | rfl
  · obtain ⟨g, hg, rfl⟩ := List.mem_map.1 hpage
    exact ⟨_, by simp [homes], _, isFileName_group hg, rfl⟩
  · unfold testPaths at htest
    split_ifs at htest
    · rw [List.mem_singleton.1 htest]
      exact ⟨_, by simp [homes], _, (by decide : IsFileName "unit-tests.md"), rfl⟩
    · cases htest
  · obtain ⟨f, hf, hpath⟩ := List.mem_flatMap.1 hdrawing
    obtain ⟨c, -, rfl⟩ := List.mem_map.1 hpath
    have hhome : f.directory j.output ∈ j.homes :=
      List.mem_append_right _ (List.mem_map_of_mem (f := fun f => f.directory j.output) hf)
    exact ⟨_, hhome, _, isFileName_diagramName hcheck f c, rfl⟩
  · exact ⟨_, by simp [homes], _, (by decide : IsFileName "README.md"), rfl⟩

/-- On a disk on which the documents are kept apart a sink that overwrites keeps them so. -/
theorem KeptApart.separates (h : j.KeptApart here d) (hcheck : j.config.check = .ok ())
    (hc : d.tree.IsClosed) (hb : d.tree.get? here = some .directory) :
    (Sink.disk .overwrite here).Separates (Disk.layout here d.tree)
        (Disk.Known here j.homes j.paths d) j.paths j.formatDirectories ∧
      ∀ {result : Except Failure Unit} {e : Disk},
        (Sink.disk .overwrite here).ensureDirectory j.output.directory d = (result, e) →
          Disk.Known here j.homes j.paths d e ∧ ∀ place, e.entry place = d.entry place := by
  refine ⟨Disk.separates_disk h.ground hb (exists_home_of_mem_paths hcheck)
    fun directory hmem => ⟨List.mem_append_right _ hmem, h.found directory hmem⟩,
    fun hmade => ?_⟩
  have hfirst : Disk.Known here j.homes j.paths d d := ⟨.refl _ _ _ _, hc, Nat.le_refl _⟩
  have hhome : j.output.directory ∈ j.homes := List.mem_append_left _ List.mem_cons_self
  obtain ⟨hnext, hkept, -⟩ := hfirst.make h.ground hb hhome hmade
  exact ⟨hnext, hkept⟩

end Job

end Docsmith.Generation
