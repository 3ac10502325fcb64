import Docsmith.Proofs.FileTree.Entries
import Docsmith.Scan.Project
import Mathlib.Tactic.ByContra
/-!
# Scans — links

A walk lists links and goes through none, but what it lists is read, and
reading goes through links: a link to a file counts as a source, wherever
the file is. Scanning a tree and the tree without its links gives the same
sources exactly if no source is a link, and the ignore files, which are
read through links too, say the same of the other entries
(`sourceFiles_unlinked_iff`). A source that is read outside the root is
a link; there is one in `linkedTree`, a scan of which leaves the root
(`scan_follows_links`).
-/


namespace Docsmith

open FileTree

/-- Lists picked from one list by two functions are the same exactly if the
functions pick the same, where what they pick tells the elements apart. -/
theorem filterMap_eq_filterMap_iff {α β : Type} {f g : α → Option β} {l : List α}
    (hapart : ∀ x ∈ l, ∀ y ∈ l, ∀ a, f x = some a → g y = some a → x = y) :
    l.filterMap f = l.filterMap g ↔ ∀ x ∈ l, f x = g x := by
  refine ⟨fun heq x hx => ?_, List.filterMap_congr⟩
  cases hf : f x with
  | some a =>
    have hmem : a ∈ l.filterMap g := heq ▸ List.mem_filterMap.2 ⟨x, hx, hf⟩
    obtain ⟨y, hy, hg⟩ := List.mem_filterMap.1 hmem
    rw [hapart x hx y hy a hf hg, hg]
  | none =>
    cases hg : g x with
    | none => rfl
    | some b =>
      have hmem : b ∈ l.filterMap f := heq ▸ List.mem_filterMap.2 ⟨x, hx, hg⟩
      obtain ⟨y, hy, hf'⟩ := List.mem_filterMap.1 hmem
      rw [hapart y hy x hx b hf' hg, hf] at hf'
      cases hf'

namespace Scan

variable {t : FileTree} {here base top : Place} {root : String} {filter : Filter}
variable {entry other : Place × Node} {file : SourceFile} {place rest : Place}
variable {content : ByteArray}

/-- An entry below a directory is looked at: it is no directory and no
ignore file rules it out. -/
def isListed (t : FileTree) (base : Place) (entry : Place × Node) : Bool :=
  base.isPrefixOf entry.1 && !entry.2.isDirectory &&
    t.isOpen (ignoreFiles.map t.rulesOf) base (entry.1.drop base.length)

/-- The source at an entry, if it is one. -/
def source? (t : FileTree) (here : Place) (root : String) (filter : Filter) (base : Place)
    (entry : Place × Node) : Option SourceFile :=
  let path := pathBelow root (entry.1.drop base.length)
  if isListed t base entry then
    (t.read? here path).bind fun content =>
      if filter.admits root path content.size then some ⟨path, .ofPath path, content.size⟩ else none
  else none

/-- **The sources below a directory**, entry by entry. -/
theorem sourceFiles_eq (hroot : t.resolve here root = .ok (.directory base)) :
    sourceFiles t here root filter = t.nodes.filterMap (source? t here root filter base) := by
  unfold sourceFiles walk
  simp only [hroot, List.filterMap_filterMap]
  congr 1
  funext entry
  unfold source? isListed pathBelow
  split_ifs <;> rfl

/-- A source has the path of its entry, and the size that is read there. -/
theorem source?_eq_some (h : source? t here root filter base entry = some file) :
    isListed t base entry = true ∧ ∃ content,
      t.read? here (pathBelow root (entry.1.drop base.length)) = some content ∧
      file = ⟨pathBelow root (entry.1.drop base.length),
        .ofPath (pathBelow root (entry.1.drop base.length)), content.size⟩ := by
  unfold source? at h
  split_ifs at h with hlisted
  obtain ⟨content, hread, hadmits⟩ := Option.bind_eq_some_iff.1 h
  split_ifs at hadmits
  exact ⟨hlisted, content, hread, (Option.some.inj hadmits).symm⟩

theorem prefix_of_isListed (h : isListed t base entry = true) :
    base <+: entry.1 ∧ entry.2.isDirectory = false := by
  simp only [isListed, Bool.and_eq_true, List.isPrefixOf_iff_prefix, Bool.not_eq_true'] at h
  exact h.1

/-- A directory that the root leads to is one. -/
theorem get?_of_resolve (h : t.IsProper) (hhere : t.get? here = some .directory)
    (hroot : t.resolve here root = .ok (.directory base)) : t.get? base = some .directory :=
  (trace_eq_ok_iff.1 hroot).2.get?_directory h.closed (get?_start hhere _)

/-- What is below a directory and no directory is below it by some names. -/
theorem exists_rest (h : t.IsProper) (hbase : t.get? base = some .directory)
    (he : entry ∈ t.nodes) (hbelow : base <+: entry.1) (hnot : entry.2.isDirectory = false) :
    ∃ rest ≠ [], entry.1 = base ++ rest ∧ t.get? (base ++ rest) = some entry.2 ∧
      ∀ name ∈ rest, Path.IsFileName name := by
  obtain ⟨rest, hrest⟩ := hbelow
  have hg : t.get? entry.1 = some entry.2 := (get?_eq_some_iff h.distinct (h.placed _ he)).2 he
  have hne : rest ≠ [] := by
    rintro rfl
    rw [← hrest, List.append_nil, hbase] at hg
    rw [← Option.some.inj hg] at hnot
    cases hnot
  refine ⟨rest, hne, hrest.symm, hrest ▸ hg, fun name hname => ?_⟩
  exact (h.names _ he name (hrest ▸ List.mem_append_right _ hname)).1

/-- **Sources tell their entries apart**, also those of two scans. -/
theorem entry_eq_of_source? {u v : FileTree} (h : t.IsProper)
    (hbase : t.get? base = some .directory) (he : entry ∈ t.nodes) (ho : other ∈ t.nodes)
    (hs : source? u here root filter base entry = some file)
    (hs' : source? v here root filter base other = some file) : entry = other := by
  obtain ⟨hlisted, _, -, rfl⟩ := source?_eq_some hs
  obtain ⟨hlisted', _, -, heq⟩ := source?_eq_some hs'
  have hpaths := congrArg SourceFile.path heq
  obtain ⟨hbelow, hnot⟩ := prefix_of_isListed hlisted
  obtain ⟨hbelow', hnot'⟩ := prefix_of_isListed hlisted'
  obtain ⟨rest, hr, hplace, -, hnames⟩ := exists_rest h hbase he hbelow hnot
  obtain ⟨rest', hr', hplace', -, hnames'⟩ := exists_rest h hbase ho hbelow' hnot'
  rw [hplace, hplace', List.drop_left, List.drop_left] at hpaths
  have hrest := pathBelow_inj hr hr' hnames hnames' hpaths
  exact List.inj_on_of_nodup_map h.distinct he ho (by rw [hplace, hplace', hrest])

/-- The source at a file: it is read as it stands there. -/
theorem source?_file (h : t.IsProper)
    (hroot : t.resolve here root = .ok (.directory base)) (hplace : place = base ++ rest)
    (hr : rest ≠ []) (hg : t.get? (base ++ rest) = some (.file content)) :
    source? t here root filter base (place, .file content) =
      if t.isOpen (ignoreFiles.map t.rulesOf) base rest = true ∧
          filter.admits root (pathBelow root rest) content.size = true then
        some ⟨pathBelow root rest, .ofPath (pathBelow root rest), content.size⟩
      else none := by
  have hread : t.read? here (pathBelow root rest) = some content := by
    rw [read?, resolve, h.trace_file hroot hr hg]
  subst hplace
  simp only [source?, isListed, List.drop_left, hread, Option.bind_some, Node.isDirectory,
    Bool.not_false, Bool.and_true, List.isPrefixOf_iff_prefix.2 (List.prefix_append base rest),
    Bool.true_and]
  split_ifs <;> simp_all

/-- **A source that is read outside the root is a link.** What is read for
a source is a file, the entry itself or what the link there leads to. -/
theorem read_of_mem_sourceFiles (h : t.IsProper) (hhere : t.get? here = some .directory)
    (hroot : t.resolve here root = .ok (.directory base))
    (hfile : file ∈ sourceFiles t here root filter) :
    ∃ place content, t.resolve here file.path = .ok (.file place content) ∧
      (base <+: place ∨
        ∃ link target, base <+: link ∧ t.locate here file.path = .ok (.link link target)) := by
  have hbase := get?_of_resolve h hhere hroot
  rw [sourceFiles_eq hroot] at hfile
  obtain ⟨⟨place, node⟩, he, hs⟩ := List.mem_filterMap.1 hfile
  obtain ⟨hlisted, content, hread, rfl⟩ := source?_eq_some hs
  obtain ⟨hbelow, hnot⟩ := prefix_of_isListed hlisted
  obtain ⟨rest, hr, rfl, hg, -⟩ := exists_rest h hbase he hbelow hnot
  rw [List.drop_left] at hread ⊢
  cases node with
  | directory => cases hnot
  | file content =>
    exact ⟨_, content, h.trace_file hroot hr hg true, .inl (List.prefix_append _ _)⟩
  | link target =>
    have hlocate := h.locate_link hroot hr hg
    unfold read? at hread
    split at hread
    · next other _ hresolve =>
      exact ⟨_, _, hresolve, .inr ⟨_, target, List.prefix_append _ _, hlocate⟩⟩
    · cases hread

/-! ## Without the links -/

/-- The sources of the tree without its links, entry by entry of the tree
with them. -/
theorem sourceFiles_unlinked_eq
    (hroot : (t.unlinked top).resolve here root = .ok (.directory base)) :
    sourceFiles (t.unlinked top) here root filter = t.nodes.filterMap fun entry =>
      if isLinkBelow top entry then none
      else source? (t.unlinked top) here root filter base entry := by
  rw [sourceFiles_eq hroot, unlinked, List.filterMap_filter]
  congr 1
  funext entry
  cases isLinkBelow top entry <;> rfl

/-- At a link nothing is left to be a source. -/
theorem isLinkBelow_of_isListed {target : String} (htop : top <+: base) (hbelow : base <+: place) :
    isLinkBelow top (place, .link target) = true := by
  simp only [isLinkBelow, Node.isLink, Bool.and_true, List.isPrefixOf_iff_prefix]
  exact htop.trans hbelow

/-- A file stays where it is. -/
theorem get?_unlinked_file (h : t.IsProper) (hr : rest ≠ [])
    (hg : t.get? (base ++ rest) = some (.file content)) :
    (t.unlinked top).get? (base ++ rest) = some (.file content) := by
  have hne : base ++ rest ≠ [] := List.append_ne_nil_of_right_ne_nil _ hr
  exact (get?_eq_some_iff (h.unlinked top).distinct hne).2
    (mem_nodes_unlinked.2 ⟨mem_nodes_of_get? hne hg, isLinkBelow_file⟩)

/-- **Entry by entry**: a scan of the tree without its links finds the same
exactly if the entry is no link that is a source, and the ignore files say
the same of it if it is a file that the filter admits. -/
theorem source?_unlinked_iff (h : t.IsProper) (hbase : t.get? base = some .directory)
    (htop : top <+: base) (hroot : t.resolve here root = .ok (.directory base))
    (hroot' : (t.unlinked top).resolve here root = .ok (.directory base)) (he : entry ∈ t.nodes) :
    (if isLinkBelow top entry then none
      else source? (t.unlinked top) here root filter base entry) =
        source? t here root filter base entry ↔
      (entry.2.isLink = true → source? t here root filter base entry = none) ∧
      ∀ rest content, rest ≠ [] → entry.1 = base ++ rest → entry.2 = .file content →
        filter.admits root (pathBelow root rest) content.size = true →
        (t.unlinked top).isOpen (ignoreFiles.map (t.unlinked top).rulesOf) base rest =
          t.isOpen (ignoreFiles.map t.rulesOf) base rest := by
  obtain ⟨p, node⟩ := entry
  by_cases hbelow : base <+: p ∧ node.isDirectory = false
  · obtain ⟨rest, hr, rfl, hg, -⟩ := exists_rest h hbase he hbelow.1 hbelow.2
    cases node with
    | directory => cases hbelow.2
    | link target =>
      rw [if_pos (isLinkBelow_of_isListed htop hbelow.1)]
      constructor
      · intro hnone
        exact ⟨fun _ => hnone.symm, fun _ _ _ _ => nofun⟩
      · intro ⟨hnone, _⟩
        exact (hnone rfl).symm
    | file content =>
      rw [isLinkBelow_file, if_neg Bool.false_ne_true,
        source?_file (h.unlinked top) hroot' rfl hr (get?_unlinked_file h hr hg),
        source?_file h hroot rfl hr hg]
      constructor
      · intro hsame
        refine ⟨nofun, fun rest' content' _ hplace hnode hadmits => ?_⟩
        obtain rfl := List.append_cancel_left hplace
        cases hnode
        simp only [hadmits, and_true] at hsame
        by_contra hother
        cases hopen : t.isOpen (ignoreFiles.map t.rulesOf) base rest with
        | true => simp [hopen, hopen ▸ hother] at hsame
        | false => simp [hopen, hopen ▸ hother] at hsame
      · rintro ⟨-, hrules⟩
        by_cases hadmits : filter.admits root (pathBelow root rest) content.size = true
        · rw [hrules rest content hr rfl rfl hadmits]
        · simp [hadmits]
  · have hnone : ∀ u : FileTree, source? u here root filter base (p, node) = none := by
      intro u
      cases hs : source? u here root filter base (p, node) with
      | none => rfl
      | some file => exact absurd (prefix_of_isListed (source?_eq_some hs).1) hbelow
    simp only [hnone, ite_self, implies_true, true_and, true_iff]
    rintro rest content _ rfl rfl
    exact absurd ⟨List.prefix_append _ _, rfl⟩ hbelow

/-- **Deleting the links leaves the sources as they are exactly if none of
them is a link** and the ignore files say the same of every file that the
filter admits. Whatever the links are and wherever they lead, a source that
is read outside the root is a link. -/
theorem sourceFiles_unlinked_iff (h : t.IsProper) (hhere : t.get? here = some .directory)
    (htop : top <+: base) (hroot : t.resolve here root = .ok (.directory base))
    (hroot' : (t.unlinked top).resolve here root = .ok (.directory base)) (filter : Filter) :
    (sourceFiles (t.unlinked top) here root filter = sourceFiles t here root filter ↔
      (∀ file ∈ sourceFiles t here root filter, ∀ place target,
        t.locate here file.path ≠ .ok (.link place target)) ∧
      ∀ rest content, rest ≠ [] → t.get? (base ++ rest) = some (.file content) →
        filter.admits root (pathBelow root rest) content.size = true →
        (t.unlinked top).isOpen (ignoreFiles.map (t.unlinked top).rulesOf) base rest =
          t.isOpen (ignoreFiles.map t.rulesOf) base rest) ∧
    ∀ file ∈ sourceFiles t here root filter, ∃ place content,
      t.resolve here file.path = .ok (.file place content) ∧
      (base <+: place ∨
        ∃ link target, base <+: link ∧ t.locate here file.path = .ok (.link link target)) := by
  refine ⟨?_, fun file => read_of_mem_sourceFiles h hhere hroot⟩
  have hbase := get?_of_resolve h hhere hroot
  rw [sourceFiles_unlinked_eq hroot', sourceFiles_eq hroot, filterMap_eq_filterMap_iff]
  · constructor
    · intro hsame
      constructor
      · intro file hfile p target hlocate
        obtain ⟨⟨place, node⟩, he, hs⟩ := List.mem_filterMap.1 hfile
        obtain ⟨hlisted, _, -, rfl⟩ := source?_eq_some hs
        obtain ⟨hbelow, hnot⟩ := prefix_of_isListed hlisted
        obtain ⟨rest, hr, rfl, hg, -⟩ := exists_rest h hbase he hbelow hnot
        rw [List.drop_left] at hlocate
        cases node with
        | directory => cases hnot
        | file content => cases (h.trace_file hroot hr hg false).symm.trans hlocate
        | link target =>
          have hnone := ((source?_unlinked_iff h hbase htop hroot hroot' he).1 (hsame _ he)).1 rfl
          cases hnone.symm.trans hs
      · intro rest content hr hg
        have he := mem_nodes_of_get? (List.append_ne_nil_of_right_ne_nil _ hr) hg
        exact ((source?_unlinked_iff h hbase htop hroot hroot' he).1 (hsame _ he)).2
          rest content hr rfl rfl
    · rintro ⟨hlinks, hrules⟩ ⟨place, node⟩ he
      refine (source?_unlinked_iff h hbase htop hroot hroot' he).2 ⟨fun hlink => ?_, ?_⟩
      · by_contra hsome
        obtain ⟨file, hs⟩ := Option.ne_none_iff_exists'.1 hsome
        obtain ⟨hlisted, _, -, hfile⟩ := source?_eq_some hs
        obtain ⟨hbelow, hnot⟩ := prefix_of_isListed hlisted
        obtain ⟨rest, hr, rfl, hg, -⟩ := exists_rest h hbase he hbelow hnot
        rw [List.drop_left] at hfile
        cases node with
        | link target =>
          refine hlinks file (List.mem_filterMap.2 ⟨_, he, hs⟩) (base ++ rest) target ?_
          rw [hfile]
          exact h.locate_link hroot hr hg
        | _ => cases hlink
      · rintro rest content hr rfl rfl
        exact hrules rest content hr
          ((get?_eq_some_iff h.distinct (List.append_ne_nil_of_right_ne_nil _ hr)).2 he)
  · intro entry he other ho file hs hs'
    split_ifs at hs
    exact entry_eq_of_source? h hbase he ho hs hs'

/-! ## A link that is followed -/

/-- A directory with a source and with a link to a source outside of it. -/
def linkedTree : FileTree :=
  ⟨[(["p"], .directory), (["p", "A.java"], .file "class A \x7b\x7d".toUTF8),
    (["p", "L.java"], .link "../q/B.java"), (["q"], .directory),
    (["q", "B.java"], .file "class B \x7b\x7d".toUTF8)]⟩

theorem linkedTree_isProper : linkedTree.IsProper where
  closed := .of_nodes (by decide)
  distinct := by decide
  placed := by decide
  names := by decide +kernel

/-- The root is no link and leads to its directory, with the links and
without them. -/
theorem linkedTree_root : linkedTree.locate [] "p" = .ok (.directory ["p"]) ∧
    linkedTree.resolve [] "p" = .ok (.directory ["p"]) ∧
    (linkedTree.unlinked ["p"]).resolve [] "p" = .ok (.directory ["p"]) :=
  ⟨rfl, rfl, rfl⟩

/-- Deleting its link leaves a scan of the directory with one source less. -/
theorem sourceFiles_unlinked_iff_linked :
    linkedTree.IsProper ∧ linkedTree.get? [] = some .directory ∧ ["p"] <+: ["p"] ∧
    linkedTree.resolve [] "p" = .ok (.directory ["p"]) ∧
    (linkedTree.unlinked ["p"]).resolve [] "p" = .ok (.directory ["p"]) ∧
    sourceFiles (linkedTree.unlinked ["p"]) [] "p" (.ofSources {}) ≠
      sourceFiles linkedTree [] "p" (.ofSources {}) := by
  obtain ⟨-, hroot, hroot'⟩ := linkedTree_root
  refine ⟨linkedTree_isProper, rfl, List.prefix_rfl, hroot, hroot', fun hsame => ?_⟩
  obtain ⟨hiff, -⟩ := sourceFiles_unlinked_iff linkedTree_isProper rfl List.prefix_rfl hroot hroot'
    (.ofSources {})
  have hlink : (⟨"p/L.java", .java, 10⟩ : SourceFile) ∈
      sourceFiles linkedTree [] "p" (.ofSources {}) := by
    decide +kernel
  exact (hiff.1 hsame).1 _ hlink ["p", "L.java"] "../q/B.java" rfl

/-- **A scan follows links.** It does not give the same sources on every tree
as on the tree without its links, and it reads files outside its root, though
the root is no link. -/
theorem scan_follows_links :
    (¬ ∀ (t : FileTree) (here base : Place) (root : String) (s : Config.Sources), t.IsProper →
      t.get? here = some .directory → t.locate here root = .ok (.directory base) →
      sourceFiles (t.unlinked base) here root (.ofSources s) =
        sourceFiles t here root (.ofSources s)) ∧
    ¬ ∀ (t : FileTree) (here base : Place) (root : String) (s : Config.Sources), t.IsProper →
      t.get? here = some .directory → t.locate here root = .ok (.directory base) →
      ∀ file ∈ sourceFiles t here root (.ofSources s), ∀ place content,
        t.resolve here file.path = .ok (.file place content) → base <+: place := by
  obtain ⟨hlocate, -⟩ := linkedTree_root
  constructor
  · intro hall
    have hsame := hall linkedTree [] ["p"] "p" {} linkedTree_isProper rfl hlocate
    revert hsame
    decide +kernel
  · intro hall
    have hlink : (⟨"p/L.java", .java, 10⟩ : SourceFile) ∈
        sourceFiles linkedTree [] "p" (.ofSources {}) := by
      decide +kernel
    have hinside := hall linkedTree [] ["p"] "p" {} linkedTree_isProper rfl hlocate _ hlink
      ["q", "B.java"] _ rfl
    revert hinside
    decide

end Scan

end Docsmith
