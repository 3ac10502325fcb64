import Docsmith.Config.Check
import Docsmith.Proofs.Diagram.FileName
import Docsmith.Proofs.Generation.Record
import Mathlib.Data.List.Nodup
import Mathlib.Data.List.Pairwise
/-!
# Generation — which documents share a path

The names of classes are part of the names of files, with some characters
replaced, and diagrams may be put into any directory. All documents of a run
have different paths exactly if classes differ in what is left of their names
and no diagram is put in another document's place (`nodup_paths_iff`).
-/


namespace Docsmith.Generation

open Diagram Document Sink
open Disk (key)

variable {j : Job} {f f' : Format} {directory directory' name other : String}

/-! ## Names that are accepted -/

/-- A configuration that is accepted names diagrams in an allowed way. -/
theorem isAllowed_of_check (h : j.config.check = .ok ()) (f : Format) :
    (f.naming j.output).IsAllowed := by
  unfold Config.check at h
  obtain ⟨_, -, h⟩ := bind_eq_ok.1 h
  obtain ⟨_, h, -⟩ := bind_eq_ok.1 h
  unfold Config.Output.check at h
  split_ifs at h
  · cases h
  · cases h
  · cases h
  · obtain ⟨_, hmermaid, hplantUml⟩ := bind_eq_ok.1 h
    cases f with
    | mermaid => exact Naming.check_eq_ok hmermaid
    | plantUml => exact Naming.check_eq_ok hplantUml

/-- The name of a class's diagram. -/
def Job.diagramName (j : Job) (f : Format) (c : Element) : String :=
  (f.naming j.output).fileName c.name f.extension

theorem isFileName_diagramName (h : j.config.check = .ok ()) (f : Format) (c : Element) :
    Path.IsFileName (j.diagramName f c) := by
  have hextension : f.extension ≠ "" ∧ f.extension.toList.all isPlain = true := by
    cases f <;> decide
  exact isFileName_fileName (isAllowed_of_check h f) hextension.1
    (List.all_eq_true.1 hextension.2) c.name

/-- The names of the documents that belong to no class. -/
def standaloneNames : List String :=
  ["standalone-methods.md", "standalone-fields.md"]

/-- The names of the groups' documents: those of the classes, then some of
the others. -/
theorem exists_fileNames (a : Analysis) : ∃ others, others.Sublist standaloneNames ∧
    (Group.ofAnalysis a).map (·.fileName) =
      (a.classes.map fun c => classFileName c.name) ++ others := by
  unfold Group.ofAnalysis
  dsimp only
  rw [List.map_append, List.map_append, List.map_map, List.append_assoc]
  refine ⟨_, ?_, rfl⟩
  split_ifs
  · exact List.nil_sublist _
  · exact List.sublist_cons_self _ _
  · exact List.Sublist.cons_cons _ (List.nil_sublist _)
  · exact List.Sublist.refl _

/-- Whatever a group is of, its document has the name of a file. -/
theorem isFileName_group {a : Analysis} {g : Group} (hg : g ∈ Group.ofAnalysis a) :
    Path.IsFileName g.fileName := by
  obtain ⟨others, hsub, hnames⟩ := exists_fileNames a
  have hmem : g.fileName ∈ (Group.ofAnalysis a).map (·.fileName) := List.mem_map_of_mem hg
  rw [hnames, List.mem_append, List.mem_map] at hmem
  rcases hmem with ⟨c, -, hc⟩ | hother
  · rw [← hc]
    exact isFileName_classFileName c.name
  · have hall : ∀ name ∈ standaloneNames, Path.IsFileName name := by decide
    exact hall _ (hsub.subset hother)

/-! ## Paths that are apart -/

/-- The format has a diagram of this name in this directory. -/
def Job.Draws (j : Job) (f : Format) (directory name : String) : Prop :=
  key (f.directory j.output) = key directory ∧ ∃ c ∈ drawn j.analysis, j.diagramName f c = name

instance (j : Job) (f : Format) (directory name : String) : Decidable (j.Draws f directory name) :=
  inferInstanceAs (Decidable (_ ∧ _))

/-- **No two documents of a run share a path**: classes differ in what is
left of their names, formats do not meet, and no diagram is put in the place
of a page or of the overview. -/
structure Job.Apart (j : Job) : Prop where
  classes : (j.analysis.classes.map fun c => identifier c.name).Nodup
  diagrams : ∀ f ∈ Format.enabled j.output, ((drawn j.analysis).map fun c => fileStem c.name).Nodup
  formats : ∀ f ∈ Format.enabled j.output, ∀ f' ∈ Format.enabled j.output, f ≠ f' →
    ∀ c ∈ drawn j.analysis, ¬ j.Draws f' (f.directory j.output) (j.diagramName f c)
  pages : ∀ f ∈ Format.enabled j.output, ∀ g ∈ Group.ofAnalysis j.analysis,
    ¬ j.Draws f (Path.join j.output.directory elementsDirectory) g.fileName
  tests : j.output.unitTests = true → ∀ f ∈ Format.enabled j.output,
    ¬ j.Draws f (Path.join j.output.directory "tests") "unit-tests.md"
  overview : ∀ f ∈ Format.enabled j.output, ¬ j.Draws f j.output.directory "README.md"

/-- What the path of a named document tells: its directory and its name. -/
theorem key_join_inj (h : Path.IsFileName name) (h' : Path.IsFileName other) :
    key (Path.join directory name) = key (Path.join directory' other) ↔
      key directory = key directory' ∧ name = other :=
  Path.components_join_inj h h'

/-- Two lists of values that tell the same apart are without repetition
together. -/
theorem nodup_map_iff {α β γ : Type} {l : List α} {u : α → β} {v : α → γ}
    (h : ∀ a ∈ l, ∀ b ∈ l, u a = u b ↔ v a = v b) : (l.map u).Nodup ↔ (l.map v).Nodup := by
  unfold List.Nodup
  rw [List.pairwise_map, List.pairwise_map]
  exact List.Pairwise.iff_of_mem fun ha hb => not_congr (h _ ha _ hb)

/-- Documents in one directory have different paths exactly if they have
different names. -/
theorem nodup_join_iff {α : Type} {l : List α} {names : α → String}
    (h : ∀ a ∈ l, Path.IsFileName (names a)) (directory : String) :
    ((l.map fun a => Path.join directory (names a)).map key).Nodup ↔ (l.map names).Nodup := by
  rw [List.map_map]
  refine nodup_map_iff fun a ha b hb => ?_
  exact (key_join_inj (h a ha) (h b hb)).trans (and_iff_right rfl)

/-- The names of the groups' documents differ exactly if the classes'
identifiers do. -/
theorem nodup_groups_iff (a : Analysis) :
    ((Group.ofAnalysis a).map (·.fileName)).Nodup ↔
      (a.classes.map fun c => identifier c.name).Nodup := by
  have hclasses : (a.classes.map fun c => classFileName c.name).Nodup ↔
      (a.classes.map fun c => identifier c.name).Nodup :=
    nodup_map_iff fun _ _ _ _ => classFileName_inj
  -- the names of the other documents do not begin like those of classes
  have hapart : ∀ c : Element, ∀ name ∈ standaloneNames, classFileName c.name ≠ name := by
    intro c name hn he
    have hhead : (classFileName c.name).toList.head? = some 'c' := by
      rw [classFileName, String.toList_append, String.toList_append]
      rfl
    have hothers : ∀ name ∈ standaloneNames, name.toList.head? ≠ some 'c' := by decide
    exact hothers name hn (he ▸ hhead)
  obtain ⟨others, hsub, hnames⟩ := exists_fileNames a
  rw [hnames, List.nodup_append, hclasses]
  refine and_iff_left ⟨hsub.nodup (by decide), ?_⟩
  intro x hx y hy he
  obtain ⟨c, -, rfl⟩ := List.mem_map.1 hx
  exact hapart c y (hsub.subset hy) he

/-- The paths of a format's diagrams in a run. -/
theorem Job.paths_format (j : Job) (f : Format) :
    f.paths (f.naming j.output) (f.directory j.output) j.analysis =
      (drawn j.analysis).map fun c => Path.join (f.directory j.output) (j.diagramName f c) :=
  rfl

/-- A document in the place of a format's diagram. -/
theorem mem_paths_iff (h : j.config.check = .ok ()) (hname : Path.IsFileName name) :
    key (Path.join directory name) ∈
        (f.paths (f.naming j.output) (f.directory j.output) j.analysis).map key ↔
      j.Draws f directory name := by
  rw [j.paths_format, List.mem_map]
  constructor
  · rintro ⟨path, hpath, he⟩
    obtain ⟨c, hc, rfl⟩ := List.mem_map.1 hpath
    obtain ⟨hd, hn⟩ := (key_join_inj (isFileName_diagramName h f c) hname).1 he
    exact ⟨hd, c, hc, hn⟩
  · rintro ⟨hd, c, hc, hn⟩
    refine ⟨_, List.mem_map_of_mem hc, ?_⟩
    exact (key_join_inj (isFileName_diagramName h f c) hname).2 ⟨hd, hn⟩

/-- The diagrams of one format differ exactly if the classes differ in what
is left of their names. -/
theorem nodup_format_iff (h : j.config.check = .ok ()) (f : Format) :
    ((f.paths (f.naming j.output) (f.directory j.output) j.analysis).map key).Nodup ↔
      ((drawn j.analysis).map fun c => fileStem c.name).Nodup := by
  rw [j.paths_format]
  refine (nodup_join_iff (fun c _ => isFileName_diagramName h f c) _).trans ?_
  exact nodup_map_iff fun _ _ _ _ => fileName_inj

/-- The diagrams of all formats. -/
theorem nodup_diagrams_iff (h : j.config.check = .ok ()) :
    (j.diagramPaths.map key).Nodup ↔
      (∀ f ∈ Format.enabled j.output, ((drawn j.analysis).map fun c => fileStem c.name).Nodup) ∧
      ∀ f ∈ Format.enabled j.output, ∀ f' ∈ Format.enabled j.output, f ≠ f' →
        ∀ c ∈ drawn j.analysis, ¬ j.Draws f' (f.directory j.output) (j.diagramName f c) := by
  -- each format is switched on at most once, so two entries of the list are two formats
  have hformats : (Format.enabled j.output).Nodup := List.Nodup.filter _ (by decide)
  have hdisjoint : ∀ f f' : Format,
      ((f.paths (f.naming j.output) (f.directory j.output) j.analysis).map key).Disjoint
          ((f'.paths (f'.naming j.output) (f'.directory j.output) j.analysis).map key) ↔
        ∀ c ∈ drawn j.analysis, ¬ j.Draws f' (f.directory j.output) (j.diagramName f c) := by
    intro f f'
    unfold List.Disjoint
    constructor
    · intro hd c hc hdraws
      refine hd ?_ ((mem_paths_iff h (isFileName_diagramName h f c)).2 hdraws)
      exact (mem_paths_iff h (isFileName_diagramName h f c)).2 ⟨rfl, c, hc, rfl⟩
    · intro hall k hk hk'
      obtain ⟨path, hpath, rfl⟩ := List.mem_map.1 hk
      obtain ⟨c, hc, rfl⟩ := List.mem_map.1 hpath
      exact hall c hc ((mem_paths_iff h (isFileName_diagramName h f c)).1 hk')
  unfold Job.diagramPaths
  rw [List.map_flatMap, List.nodup_flatMap]
  refine and_congr (forall₂_congr fun f _ => nodup_format_iff h f) ?_
  constructor
  · intro hp f hf f' hf' hne
    have hsymm : Std.Symm (Function.onFun List.Disjoint fun f : Format =>
        (f.paths (f.naming j.output) (f.directory j.output) j.analysis).map key) :=
      ⟨fun _ _ hd _ hk hk' => hd hk' hk⟩
    exact (hdisjoint f f').1 (hp.forall hf hf' hne)
  · intro hall
    exact hformats.pairwise_of_forall_ne fun f hf f' hf' hne =>
      (hdisjoint f f').2 (hall f hf f' hf' hne)

/-! ## Documents beside diagrams -/

/-- The documents that are no diagrams: their directories and names. -/
def Job.texts (j : Job) : List (String × String) :=
  ((Group.ofAnalysis j.analysis).map fun g =>
      (Path.join j.output.directory elementsDirectory, g.fileName)) ++
    (if j.output.unitTests then [(Path.join j.output.directory "tests", "unit-tests.md")] else []) ++
    [(j.output.directory, "README.md")]

theorem paths_perm (j : Job) :
    j.paths.Perm (j.texts.map (fun d => Path.join d.1 d.2) ++ j.diagramPaths) := by
  have htexts : j.texts.map (fun d => Path.join d.1 d.2) =
      j.pagePaths ++ j.testPaths ++ [j.overviewPath] := by
    unfold Job.texts Job.pagePaths Job.testPaths
    rw [List.map_append, List.map_append, List.map_map]
    congr 2
    split_ifs <;> rfl
  rw [htexts, Job.paths, List.append_assoc, List.append_assoc _ [_] _]
  exact List.Perm.append_left _ List.perm_append_comm

theorem isFileName_text {d : String × String} (hd : d ∈ j.texts) : Path.IsFileName d.2 := by
  unfold Job.texts at hd
  simp only [List.mem_append, List.mem_map, List.mem_singleton] at hd
  rcases hd with (⟨g, hg, rfl⟩ | hd) | rfl
  · exact isFileName_group hg
  · split_ifs at hd
    · obtain rfl := List.mem_singleton.1 hd
      exact (by decide : Path.IsFileName "unit-tests.md")
    · cases hd
  · exact (by decide : Path.IsFileName "README.md")

theorem forall_texts_iff {P : String × String → Prop} : (∀ d ∈ j.texts, P d) ↔
    (∀ g ∈ Group.ofAnalysis j.analysis,
        P (Path.join j.output.directory elementsDirectory, g.fileName)) ∧
      (j.output.unitTests = true → P (Path.join j.output.directory "tests", "unit-tests.md")) ∧
      P (j.output.directory, "README.md") := by
  unfold Job.texts
  rw [List.forall_mem_append, List.forall_mem_append, List.forall_mem_map, List.forall_mem_singleton,
    and_assoc]
  refine and_congr_right fun _ => and_congr_left fun _ => ?_
  split_ifs with h
  · simp [h]
  · simp [h]

/-- A directory in another one is not the other one. -/
theorem key_join_ne (hname : Path.IsFileName name) (directory : String) :
    key (Path.join directory name) ≠ key directory := by
  intro h
  have hlen := congrArg List.length h
  rw [key, Path.components_join hname, key, List.length_append, List.length_singleton] at hlen
  omega

/-- Pages, the page of unit tests and the overview meet only where pages
do. -/
theorem nodup_texts_iff (j : Job) : (j.texts.map fun d => key (Path.join d.1 d.2)).Nodup ↔
    (j.analysis.classes.map fun c => identifier c.name).Nodup := by
  have helements : Path.IsFileName elementsDirectory := by decide
  have htests : Path.IsFileName "tests" := by decide
  have hpage : Path.IsFileName "unit-tests.md" := by decide
  have hoverview : Path.IsFileName "README.md" := by decide
  rw [← nodup_groups_iff, ← nodup_join_iff (fun g hg => isFileName_group hg)
    (Path.join j.output.directory elementsDirectory)]
  unfold Job.texts
  rw [List.map_append, List.map_append, List.map_map, List.map_map, List.nodup_append,
    List.nodup_append]
  constructor
  · rintro ⟨⟨hpages, -⟩, -⟩
    exact hpages
  · intro hpages
    -- the other documents are in other directories: beside the pages, or one level up
    refine ⟨⟨hpages, ?_, ?_⟩, List.nodup_singleton _, ?_⟩
    · split_ifs
      · exact List.nodup_singleton _
      · exact List.nodup_nil
    · intro k hk k' hk' he
      obtain ⟨g, hg, rfl⟩ := List.mem_map.1 hk
      split_ifs at hk'
      · obtain rfl := List.mem_singleton.1 hk'
        obtain ⟨hd, -⟩ := (key_join_inj (isFileName_group hg) hpage).1 he
        obtain ⟨-, hn⟩ := (key_join_inj helements htests).1 hd
        exact absurd hn (by decide)
      · cases hk'
    · intro k hk k' hk' he
      obtain rfl := List.mem_singleton.1 hk'
      rcases List.mem_append.1 hk with hk | hk
      · obtain ⟨g, hg, rfl⟩ := List.mem_map.1 hk
        obtain ⟨hd, -⟩ := (key_join_inj (isFileName_group hg) hoverview).1 he
        exact key_join_ne helements _ hd
      · split_ifs at hk
        · obtain rfl := List.mem_singleton.1 hk
          obtain ⟨hd, -⟩ := (key_join_inj hpage hoverview).1 he
          exact key_join_ne htests _ hd
        · cases hk

/-- **The documents of a run have different paths** exactly if they are
apart. -/
theorem nodup_paths_iff (h : j.config.check = .ok ()) : (j.paths.map key).Nodup ↔ j.Apart := by
  have hcross : (∀ k ∈ (j.texts.map fun d => Path.join d.1 d.2).map key,
      ∀ k' ∈ j.diagramPaths.map key, k ≠ k') ↔
      ∀ d ∈ j.texts, ∀ f ∈ Format.enabled j.output, ¬ j.Draws f d.1 d.2 := by
    rw [List.map_map, List.forall_mem_map]
    refine forall₂_congr fun d hd => ?_
    unfold Job.diagramPaths
    rw [List.map_flatMap]
    constructor
    · intro hne f hf hdraws
      refine hne _ (List.mem_flatMap.2 ⟨f, hf, ?_⟩) rfl
      exact (mem_paths_iff h (isFileName_text hd)).2 hdraws
    · rintro hall k hk rfl
      obtain ⟨f, hf, hk⟩ := List.mem_flatMap.1 hk
      exact hall f hf ((mem_paths_iff h (isFileName_text hd)).1 hk)
  rw [((paths_perm j).map key).nodup_iff, List.map_append, List.nodup_append, hcross,
    nodup_diagrams_iff h, forall_texts_iff, List.map_map]
  constructor
  · rintro ⟨htexts, ⟨hformat, hformats⟩, hpages, htests, hoverview⟩
    exact ⟨(nodup_texts_iff j).1 htexts, hformat, hformats, fun f hf g hg => hpages g hg f hf,
      htests, hoverview⟩
  · rintro ⟨hclasses, hformat, hformats, hpages, htests, hoverview⟩
    exact ⟨(nodup_texts_iff j).2 hclasses, ⟨hformat, hformats⟩, fun g hg f hf => hpages f hf g hg,
      htests, hoverview⟩

end Docsmith.Generation
