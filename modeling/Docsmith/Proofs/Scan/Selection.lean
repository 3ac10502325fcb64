import Docsmith.Config.Check
import Docsmith.Failure
import Docsmith.Proofs.Scan.Links
/-!
# Scans — which files are selected

Of the files that a walk comes upon a scan gives those that its settings select, in the
order of the walk: what matches no pattern of exclusion, matches a pattern of inclusion if
there are any, is in one of the languages and not too big (`Selects`,
`sourceFiles_eq_filter`). Settings that are narrower in any of these (`IsNarrower`) select
less, so they leave files out and do nothing else. All of this needs settings that are
accepted: a text that is no pattern is passed over, and if all patterns of inclusion are
such texts there is none that a file has to match.
-/


namespace Docsmith.Scan

open FileTree

variable {t : FileTree} {here : Place} {root path : String} {texts : List String}
variable {s narrow wide : Config.Sources} {file : SourceFile} {size : Nat}

/-! ## What settings say -/

/-- The pattern matches the path of a file, or the part of it below the root. -/
def Matches (root path pattern : String) : Prop :=
  ∃ glob, Glob.parse pattern = .ok glob ∧
    (Glob.isMatch glob ((Path.below? root path).getD path).toList = true ∨
      Glob.isMatch glob path.toList = true)

instance (root path pattern : String) : Decidable (Matches root path pattern) :=
  match hglob : Glob.parse pattern with
  | .ok glob => decidable_of_iff
      (Glob.isMatch glob ((Path.below? root path).getD path).toList = true ∨
        Glob.isMatch glob path.toList = true) (by simp [Matches, hglob])
  | .error e => isFalse (by simp [Matches, hglob])

/-- The settings select a file below a root. -/
structure Selects (s : Config.Sources) (root : String) (file : SourceFile) : Prop where
  excluded : ∀ pattern ∈ s.excludePatterns, ¬ Matches root file.path pattern
  included : s.includePatterns ≠ [] → ∃ pattern ∈ s.includePatterns, Matches root file.path pattern
  language : ∃ name ∈ s.languages, Language.ofName name = .ok file.language
  size : file.size ≤ s.maxFileSize

instance (s : Config.Sources) (root : String) (file : SourceFile) :
    Decidable (Selects s root file) :=
  decidable_of_iff
    ((∀ pattern ∈ s.excludePatterns, ¬ Matches root file.path pattern) ∧
      (s.includePatterns ≠ [] → ∃ pattern ∈ s.includePatterns, Matches root file.path pattern) ∧
      (∃ name ∈ s.languages, Language.ofName name = .ok file.language) ∧
      file.size ≤ s.maxFileSize)
    ⟨fun ⟨excluded, included, language, size⟩ => ⟨excluded, included, language, size⟩,
      fun h => ⟨h.excluded, h.included, h.language, h.size⟩⟩

/-- The files that a walk comes upon. -/
def walkedFiles (t : FileTree) (here : Place) (root : String) : List SourceFile :=
  (t.walk here root).filterMap fun path =>
    (t.read? here path).map fun content => ⟨path, .ofPath path, content.size⟩

/-- What a walk below a directory comes upon, entry by entry. -/
theorem exists_entry_of_mem_walk {base : Place}
    (hroot : t.resolve here root = .ok (.directory base)) (hpath : path ∈ t.walk here root) :
    ∃ entry ∈ t.nodes, isListed t base entry = true ∧
      path = pathBelow root (entry.1.drop base.length) := by
  simp only [walk, hroot] at hpath
  obtain ⟨entry, he, hsome⟩ := List.mem_filterMap.1 hpath
  split_ifs at hsome with hlisted
  exact ⟨entry, he, hlisted, (Option.some.inj hsome).symm⟩

/-- In a tree without links what a walk comes upon are files. -/
theorem exists_read_of_mem_walk (h : t.IsProper) (hhere : t.get? here = some .directory)
    (hlinks : ∀ entry ∈ t.nodes, entry.2.isLink = false) (hpath : path ∈ t.walk here root) :
    ∃ content, t.read? here path = some content := by
  cases hroot : t.resolve here root with
  | error e =>
    simp only [walk, hroot] at hpath
    cases hpath
  | ok spot =>
    cases spot with
    | directory base =>
      obtain ⟨⟨place, node⟩, he, hlisted, rfl⟩ := exists_entry_of_mem_walk hroot hpath
      obtain ⟨hbelow, hnot⟩ := prefix_of_isListed hlisted
      obtain ⟨rest, hr, rfl, hg, -⟩ := exists_rest h (get?_of_resolve h hhere hroot) he hbelow hnot
      cases node with
      | directory => cases hnot
      | link target => cases hlinks _ he
      | file content =>
        rw [List.drop_left, read?, resolve, h.trace_file hroot hr hg]
        exact ⟨content, rfl⟩
    | file place content =>
      simp only [walk, hroot, List.mem_singleton] at hpath
      rw [hpath, read?, hroot]
      exact ⟨content, rfl⟩
    | link place target =>
      simp only [walk, hroot] at hpath
      cases hpath
    | missing place =>
      simp only [walk, hroot] at hpath
      cases hpath

/-- **All of it are files in a tree without links**, in the order of the walk. -/
theorem walkedFiles_path (h : t.IsProper) (hhere : t.get? here = some .directory)
    (hlinks : ∀ entry ∈ t.nodes, entry.2.isLink = false) :
    (walkedFiles t here root).map (·.path) = t.walk here root := by
  have hpaths : (t.walk here root).filterMap (fun path => (t.read? here path).map fun _ => path) =
      (t.walk here root).filterMap some := by
    refine List.filterMap_congr fun path hpath => ?_
    obtain ⟨content, hread⟩ := exists_read_of_mem_walk h hhere hlinks hpath
    rw [hread, Option.map_some]
  rw [walkedFiles, List.map_filterMap]
  simp only [Option.map_map]
  exact hpaths.trans List.filterMap_some

/-! ## Settings that are accepted -/

theorem forM_eq_ok_iff {α : Type} {check : α → Except Failure Unit} {items : List α} :
    items.forM check = .ok () ↔ ∀ item ∈ items, check item = .ok () := by
  induction items with
  | nil => exact iff_of_true rfl (List.forall_mem_nil _)
  | cons item items ih =>
    rw [List.forM_eq_forM] at ih ⊢
    rw [List.forM_cons, bind_eq_ok, List.forall_mem_cons, ← ih]
    exact ⟨fun ⟨_, hitem, hitems⟩ => ⟨hitem, hitems⟩, fun ⟨hitem, hitems⟩ => ⟨(), hitem, hitems⟩⟩

theorem checkPattern_eq_ok_iff {text : String} :
    Config.checkPattern text = .ok () ↔ ∃ glob, Glob.parse text = .ok glob := by
  unfold Config.checkPattern
  cases Glob.parse text with
  | error e => exact ⟨nofun, nofun⟩
  | ok glob => exact iff_of_true rfl ⟨glob, rfl⟩

/-- **Settings are accepted** if there is a thread, the languages are known and the
patterns are patterns. -/
theorem check_eq_ok_iff : s.check = .ok () ↔
    s.maxThreads ≠ some 0 ∧ (∀ name ∈ s.languages, Config.checkLanguage name = .ok ()) ∧
      ∀ text ∈ s.includePatterns ++ s.excludePatterns, ∃ glob, Glob.parse text = .ok glob := by
  unfold Config.Sources.check
  split_ifs with hthreads
  · exact ⟨nofun, fun h => absurd hthreads h.1⟩
  · rw [bind_eq_ok]
    constructor
    · rintro ⟨⟨⟩, hlanguages, hpatterns⟩
      exact ⟨hthreads, forM_eq_ok_iff.1 hlanguages, fun text htext =>
        checkPattern_eq_ok_iff.1 (forM_eq_ok_iff.1 hpatterns text htext)⟩
    · rintro ⟨-, hlanguages, hpatterns⟩
      exact ⟨(), forM_eq_ok_iff.2 hlanguages, forM_eq_ok_iff.2 fun text htext =>
        checkPattern_eq_ok_iff.2 (hpatterns text htext)⟩

/-- So none of them is passed over. -/
theorem isEmpty_patterns (h : ∀ text ∈ texts, ∃ glob, Glob.parse text = .ok glob) :
    (patterns texts).isEmpty = true ↔ texts = [] := by
  cases texts with
  | nil => exact iff_of_true rfl rfl
  | cons text texts =>
    obtain ⟨glob, hglob⟩ := h text List.mem_cons_self
    simp [patterns, hglob, Except.toOption]

/-- A pattern among some texts matches exactly if one of the texts does. -/
theorem matchesAny_patterns :
    Filter.matchesAny (patterns texts) ((Path.below? root path).getD path) path = true ↔
      ∃ text ∈ texts, Matches root path text := by
  rw [Filter.matchesAny, patterns, List.any_filterMap, List.any_eq_true]
  refine exists_congr fun text => and_congr_right fun _ => ?_
  cases hglob : Glob.parse text with
  | error e => simp [Matches, hglob, Except.toOption]
  | ok glob => simp [Matches, hglob, Except.toOption]

/-- A language with a name is known. -/
theorem isKnown_of_ofName {name : String} {language : Language}
    (h : Language.ofName name = .ok language) : language.isKnown = true := by
  unfold Language.ofName at h
  dsimp only at h
  split at h
  · next found hfound =>
    cases h
    have hknown : ∀ l ∈ Language.known, l.isKnown = true := by decide
    exact hknown _ (List.mem_of_find?_eq_some hfound)
  · cases h

/-- A file is in a language with a name exactly if a reader of its language is asked
for. -/
theorem language_iff {language : Language} :
    (language.isKnown = true ∧ (Filter.ofSources s).languages.contains language = true) ↔
      ∃ name ∈ s.languages, Language.ofName name = .ok language := by
  have hnamed : (Filter.ofSources s).languages.contains language = true ↔
      ∃ name ∈ s.languages, Language.ofName name = .ok language := by
    simp only [Filter.ofSources, List.contains_iff_mem, List.mem_filterMap]
    refine exists_congr fun name => and_congr_right fun _ => ⟨eq_ok_of_toOption, fun h => ?_⟩
    rw [h]
    rfl
  rw [hnamed, and_iff_right_iff_imp]
  rintro ⟨name, -, hname⟩
  exact isKnown_of_ofName hname

/-- **What is admitted is what is selected**, if the settings are accepted. -/
theorem admits_iff (h : s.check = .ok ()) :
    (Filter.ofSources s).admits root path size = true ↔
      Selects s root ⟨path, .ofPath path, size⟩ := by
  have hempty := isEmpty_patterns fun text htext =>
    (check_eq_ok_iff.1 h).2.2 text (List.mem_append_left s.excludePatterns htext)
  have hadmits : (Filter.ofSources s).admits root path size = true ↔
      ¬ (∃ pattern ∈ s.excludePatterns, Matches root path pattern) ∧
      (s.includePatterns = [] ∨ ∃ pattern ∈ s.includePatterns, Matches root path pattern) ∧
      (∃ name ∈ s.languages, Language.ofName name = .ok (.ofPath path)) ∧
      size ≤ s.maxFileSize := by
    rw [← matchesAny_patterns, ← matchesAny_patterns, ← hempty, ← language_iff]
    simp only [Filter.admits, Bool.and_eq_true, Bool.or_eq_true, Bool.not_eq_true',
      Bool.not_eq_true, decide_eq_true_iff, and_assoc]
    exact Iff.rfl
  rw [hadmits]
  constructor
  · rintro ⟨hexcluded, hincluded, hlanguage, hsize⟩
    exact ⟨fun pattern hmem hmatch => hexcluded ⟨pattern, hmem, hmatch⟩,
      hincluded.resolve_left, hlanguage, hsize⟩
  · rintro ⟨hexcluded, hincluded, hlanguage, hsize⟩
    exact ⟨fun ⟨pattern, hmem, hmatch⟩ => hexcluded pattern hmem hmatch,
      or_iff_not_imp_left.2 hincluded, hlanguage, hsize⟩

/-- **A scan gives the walked files that are selected**, in the order of the walk. -/
theorem sourceFiles_eq_filter (h : s.check = .ok ()) :
    sourceFiles t here root (.ofSources s) =
      (walkedFiles t here root).filter fun file => Selects s root file := by
  rw [walkedFiles, List.filter_filterMap]
  refine List.filterMap_congr fun path _ => ?_
  cases t.read? here path with
  | none => rfl
  | some content =>
    simp only [Option.bind_some, Option.map_some, Option.filter_some, decide_eq_true_iff,
      admits_iff h]

/-! ## Narrower settings -/

/-- Settings that ask for less: they exclude what is excluded already, ask for none but
the languages, allow no greater files, and include no more patterns. Without a pattern of
inclusion everything is included, so there has to be one where there was one. -/
structure IsNarrower (narrow wide : Config.Sources) : Prop where
  excluded : wide.excludePatterns ⊆ narrow.excludePatterns
  included : wide.includePatterns = [] ∨
    narrow.includePatterns ≠ [] ∧ narrow.includePatterns ⊆ wide.includePatterns
  languages : narrow.languages ⊆ wide.languages
  size : narrow.maxFileSize ≤ wide.maxFileSize

/-- **Narrower settings select less.** -/
theorem IsNarrower.selects (h : IsNarrower narrow wide) (hfile : Selects narrow root file) :
    Selects wide root file where
  excluded pattern hmem := hfile.excluded pattern (h.excluded hmem)
  included hne := by
    obtain ⟨hsome, hsub⟩ := h.included.resolve_left hne
    obtain ⟨pattern, hmem, hmatch⟩ := hfile.included hsome
    exact ⟨pattern, hsub hmem, hmatch⟩
  language := by
    obtain ⟨name, hmem, hname⟩ := hfile.language
    exact ⟨name, h.languages hmem, hname⟩
  size := Nat.le_trans hfile.size h.size

/-- **So they leave files out and do nothing else.** -/
theorem sourceFiles_of_isNarrower (hnarrow : narrow.check = .ok ()) (hwide : wide.check = .ok ())
    (h : IsNarrower narrow wide) :
    sourceFiles t here root (.ofSources narrow) =
      (sourceFiles t here root (.ofSources wide)).filter fun file => Selects narrow root file := by
  rw [sourceFiles_eq_filter hnarrow, sourceFiles_eq_filter hwide, List.filter_filter]
  refine List.filter_congr fun file _ => ?_
  rw [Bool.eq_iff_iff, Bool.and_eq_true, decide_eq_true_iff, decide_eq_true_iff]
  exact ⟨fun hfile => ⟨hfile, h.selects hfile⟩, And.left⟩

/-- **Selection is an exact and monotone filter of the walk.** A walk of a tree without
links comes upon files alone, and of these a scan gives the ones that the settings select,
in the order of the walk. Of narrower settings it gives what they select of the same
files: some may be missing, none is new and none has another place. It gives most where
there is no pattern of inclusion. -/
theorem selection_exact (h : t.IsProper) (hhere : t.get? here = some .directory)
    (hlinks : ∀ entry ∈ t.nodes, entry.2.isLink = false) (hs : s.check = .ok ()) (root : String) :
    (walkedFiles t here root).map (·.path) = t.walk here root ∧
    sourceFiles t here root (.ofSources s) =
      (walkedFiles t here root).filter (fun file => Selects s root file) ∧
    (∀ narrow : Config.Sources, narrow.check = .ok () → IsNarrower narrow s →
      sourceFiles t here root (.ofSources narrow) =
        (sourceFiles t here root (.ofSources s)).filter (fun file => Selects narrow root file) ∧
      (sourceFiles t here root (.ofSources narrow)).Sublist
        (sourceFiles t here root (.ofSources s))) ∧
    (sourceFiles t here root (.ofSources s)).Sublist
      (sourceFiles t here root (.ofSources { s with includePatterns := [] })) := by
  have hsublist : ∀ narrow wide : Config.Sources, narrow.check = .ok () → wide.check = .ok () →
      IsNarrower narrow wide → (sourceFiles t here root (.ofSources narrow)).Sublist
        (sourceFiles t here root (.ofSources wide)) := by
    intro narrow wide hnarrow hwide hless
    rw [sourceFiles_of_isNarrower hnarrow hwide hless]
    exact List.filter_sublist
  refine ⟨walkedFiles_path h hhere hlinks, sourceFiles_eq_filter hs, fun narrow hnarrow hless =>
    ⟨sourceFiles_of_isNarrower hnarrow hs hless, hsublist _ _ hnarrow hs hless⟩, ?_⟩
  obtain ⟨hthreads, hlanguages, hpatterns⟩ := check_eq_ok_iff.1 hs
  refine hsublist _ _ hs (check_eq_ok_iff.2 ⟨hthreads, hlanguages, fun text htext => ?_⟩)
    ⟨List.Subset.refl _, .inl rfl, List.Subset.refl _, Nat.le_refl _⟩
  exact hpatterns text (List.mem_append_right _ htext)

/-- A directory with an ignored source, one among tests, and sources of two languages. -/
def mixedTree : FileTree :=
  ⟨[(["p"], .directory), (["p", ".gitignore"], .file "out/\n".toUTF8),
    (["p", "A.java"], .file "class A \x7b\x7d".toUTF8), (["p", "b.py"], .file "x = 1\n".toUTF8),
    (["p", "out"], .directory), (["p", "out", "O.java"], .file "class O \x7b\x7d".toUTF8),
    (["p", "test"], .directory), (["p", "test", "T.java"], .file "class T \x7b\x7d".toUTF8)]⟩

/-- With one of two patterns of inclusion and one more of exclusion one source is left of
three. -/
theorem selection_exact_mixed :
    let wide : Config.Sources := { excludePatterns := [] }
    let narrow : Config.Sources :=
      { includePatterns := ["**/*.java"], excludePatterns := ["**/test/**"] }
    IsNarrower narrow wide ∧
    (walkedFiles mixedTree [] "p").map (·.path) = mixedTree.walk [] "p" ∧
    (sourceFiles mixedTree [] "p" (.ofSources wide)).map (·.path) =
      ["p/A.java", "p/b.py", "p/test/T.java"] ∧
    (sourceFiles mixedTree [] "p" (.ofSources narrow)).map (·.path) = ["p/A.java"] ∧
    (sourceFiles mixedTree [] "p" (.ofSources narrow)).Sublist
      (sourceFiles mixedTree [] "p" (.ofSources wide)) := by
  have hproper : mixedTree.IsProper :=
    ⟨.of_nodes (by decide), by decide, by decide, by decide +kernel⟩
  have hhere : mixedTree.get? [] = some .directory := rfl
  have hlinks : ∀ entry ∈ mixedTree.nodes, entry.2.isLink = false := by decide
  have hwide : Config.Sources.check { excludePatterns := [] } = .ok () := by decide +kernel
  have hnarrow : Config.Sources.check
      { includePatterns := ["**/*.java"], excludePatterns := ["**/test/**"] } = .ok () := by
    decide +kernel
  have hless : IsNarrower { includePatterns := ["**/*.java"], excludePatterns := ["**/test/**"] }
      { excludePatterns := [] } :=
    ⟨by decide, .inr ⟨by decide, by decide⟩, by decide, by decide⟩
  obtain ⟨hwalk, -, hsublist, -⟩ := selection_exact hproper hhere hlinks hwide "p"
  exact ⟨hless, hwalk, by decide +kernel, by decide +kernel, (hsublist _ hnarrow hless).2⟩

end Docsmith.Scan
