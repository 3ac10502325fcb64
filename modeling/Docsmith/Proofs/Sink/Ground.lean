import Docsmith.Proofs.Sink.Alone
import Docsmith.Proofs.Sink.Separate
/-!
# Sinks — documents kept apart on disk

A sink on disk that overwrites keeps documents apart if they do not get in
each other's way (`Ground`): no document stands where another one needs a
directory, no link leads elsewhere, and the names of temporary files are not in
use. Then whether a document can be written is settled before anything is
written, and so is whether a directory can be made: what happens in between
makes directories where they are needed and changes documents at their places,
and neither makes a difference (`separates_disk`).
-/


namespace Docsmith.Disk

open FileTree Sink
open Docsmith.Path

variable {here place : Place} {homes paths directories : List String} {path home name : String}
variable {t u v : FileTree} {d e : Disk}

/-- What stands at a place, unless it is a directory. -/
def entry (d : Disk) (place : Place) : Option Node :=
  (d.tree.get? place).filter (!·.isDirectory)

theorem entry_eq_some_iff {node : Node} :
    d.entry place = some node ↔ d.tree.get? place = some node ∧ node ≠ .directory := by
  rw [entry, Option.filter_eq_some_iff]
  refine and_congr_right fun _ => ?_
  cases node <;> simp [Node.isDirectory]

theorem entry_eq_file_iff {content : ByteArray} :
    d.entry place = some (.file content) ↔ d.tree.get? place = some (.file content) :=
  entry_eq_some_iff.trans (and_iff_left (by simp))

/-- Where documents stand on a disk, and what can be done on a tree. -/
def layout (here : Place) (t : FileTree) : Layout Disk Place Node where
  place := spelt here
  entry := entry
  stored content := .file content.toUTF8
  writable path := Accepts here path t
  makable directory := ∀ place ∈ way here directory, t.Admits place

/-- A later write may have its temporary file at the place. -/
def IsScratch (d : Disk) (place : Place) : Prop :=
  ∃ n ≥ d.begun, ∃ name ∈ place.getLast?, Carries (nextToken { d with begun := n }) name

/-- Nothing is in the way of documents with these paths in these directories. -/
structure Ground (here : Place) (homes paths : List String) (d : Disk) : Prop where
  /-- No document stands on the way to a directory, … -/
  clear : ∀ path ∈ paths, ∀ home ∈ homes, spelt here path ∉ way here home
  /-- no link does, … -/
  unlinked : ∀ home ∈ homes, ∀ place ∈ way here home, ∀ target,
    d.tree.get? place ≠ some (.link target)
  /-- and temporary files are out of everyone's way. -/
  scratch : ∀ place, d.IsScratch place → d.tree.get? place = none ∧
    (∀ path ∈ paths, spelt here path ≠ place) ∧ ∀ home ∈ homes, place ∉ way here home

/-- No place is one of a temporary file where all names are short. -/
theorem scratch_of_short
    (htree : ∀ entry ∈ d.tree.nodes, ∀ name ∈ entry.1.getLast?, name.toList.length ≤ 41)
    (hpaths : ∀ path ∈ paths, ∀ name ∈ (spelt here path).getLast?, name.toList.length ≤ 41)
    (hways : ∀ home ∈ homes, ∀ place ∈ way here home, ∀ name ∈ place.getLast?,
      name.toList.length ≤ 41) (place : Place) (h : d.IsScratch place) :
    d.tree.get? place = none ∧ (∀ path ∈ paths, spelt here path ≠ place) ∧
      ∀ home ∈ homes, place ∉ way here home := by
  obtain ⟨n, -, name, hname, hcarries⟩ := h
  have hlong := hcarries.length_lt (isToken_nextToken _)
  refine ⟨?_, ?_, fun home hhome hon => ?_⟩
  · have hne : place ≠ [] := by
      rintro rfl
      cases hname
    rw [get?_of_ne_nil hne, Option.map_eq_none_iff, List.find?_eq_none]
    intro entry hentry heq
    obtain rfl : entry.1 = place := by simpa using heq
    have hshort := htree entry hentry name hname
    omega
  · rintro path hpath rfl
    have hshort := hpaths path hpath name hname
    omega
  · have hshort := hways home hhome place hon name hname
    omega

/-! ## What changes -/

/-- Documents may have changed, and directories may have been made on the ways; else
everything is as it was. -/
structure Since (here : Place) (homes paths : List String) (t u : FileTree) : Prop where
  elsewhere : ∀ place, (∀ path ∈ paths, spelt here path ≠ place) → u.get? place = t.get? place ∨
    t.get? place = none ∧ u.get? place = some .directory ∧ ∃ home ∈ homes, place ∈ way here home
  targets : ∀ path ∈ paths, u.get? (spelt here path) = some .directory ↔
    t.get? (spelt here path) = some .directory

namespace Since

theorem refl (here : Place) (homes paths : List String) (t : FileTree) :
    Since here homes paths t t :=
  ⟨fun _ _ => .inl rfl, fun _ _ => .rfl⟩

/-- A directory stays one. -/
theorem directory (h : Since here homes paths t u) (hthere : t.get? place = some .directory) :
    u.get? place = some .directory := by
  by_cases htarget : ∃ path ∈ paths, spelt here path = place
  · obtain ⟨path, hpath, rfl⟩ := htarget
    exact (h.targets path hpath).2 hthere
  · have hother : ∀ path ∈ paths, spelt here path ≠ place := fun path hpath heq =>
      htarget ⟨path, hpath, heq⟩
    rcases h.elsewhere place hother with hsame | ⟨-, hdirectory, -⟩
    · rw [hsame, hthere]
    · exact hdirectory

/-- More directories on the ways are nothing new. -/
theorem grow (h : Since here homes paths t u)
    (hclear : ∀ path ∈ paths, ∀ home ∈ homes, spelt here path ∉ way here home)
    (hhome : home ∈ homes) (hgains : Gains (way here home) u v) : Since here homes paths t v := by
  refine ⟨fun place hplace => ?_, fun path hpath => ?_⟩
  · rcases hgains place with hsame | ⟨hnone, hdirectory, hon⟩
    · rw [hsame]
      exact h.elsewhere place hplace
    · rcases h.elsewhere place hplace with hsame | ⟨-, hthere, -⟩
      · exact .inr ⟨hsame.symm.trans hnone, hdirectory, home, hhome, hon⟩
      · rw [hnone] at hthere
        cases hthere
  · rcases hgains (spelt here path) with hsame | ⟨-, -, hon⟩
    · rw [hsame]
      exact h.targets path hpath
    · exact absurd hon (hclear path hpath home hhome)

/-- Neither is a document in its place, unless a directory stood there. -/
theorem write (h : Since here homes paths t u) (hpath : path ∈ paths)
    (hfree : t.get? (spelt here path) ≠ some .directory) {content : ByteArray}
    (hv : ∀ place, v.get? place =
      if place = spelt here path then some (.file content) else u.get? place) :
    Since here homes paths t v := by
  refine ⟨fun place hplace => ?_, fun other hother => ?_⟩
  · rw [hv, if_neg (hplace path hpath).symm]
    exact h.elsewhere place hplace
  · rw [hv]
    split_ifs with heq
    · rw [heq]
      exact ⟨fun hfile => (by cases hfile), fun hdirectory => absurd hdirectory hfree⟩
    · exact h.targets other hother

section

variable (h : Since here homes paths t u)
variable (hclear : ∀ path ∈ paths, ∀ home ∈ homes, spelt here path ∉ way here home)

include h hclear

/-- On the ways there may be more directories, and that is all. -/
theorem on_way (hhome : home ∈ homes) (hon : place ∈ way here home) :
    u.get? place = t.get? place ∨ t.get? place = none ∧ u.get? place = some .directory := by
  have hother : ∀ path ∈ paths, spelt here path ≠ place := by
    rintro path hpath rfl
    exact hclear path hpath home hhome hon
  exact (h.elsewhere place hother).imp_right fun hnew => ⟨hnew.1, hnew.2.1⟩

theorem admits_iff (hhome : home ∈ homes) :
    (∀ place ∈ way here home, u.Admits place) ↔ ∀ place ∈ way here home, t.Admits place := by
  refine forall₂_congr fun place hon => ?_
  rcases h.on_way hclear hhome hon with hsame | ⟨hnone, hdirectory⟩
  · rw [Admits, Admits, hsame]
  · rw [Admits, Admits, hnone, hdirectory]
    simp

theorem unlinked (hhome : home ∈ homes)
    (hlinks : ∀ place ∈ way here home, ∀ target, t.get? place ≠ some (.link target)) :
    ∀ place ∈ way here home, ∀ target, u.get? place ≠ some (.link target) := by
  intro place hon target hlink
  rcases h.on_way hclear hhome hon with hsame | ⟨-, hdirectory⟩
  · exact hlinks place hon target (hsame ▸ hlink)
  · rw [hdirectory] at hlink
    cases hlink

/-- **Whether a document can be written is settled before.** -/
theorem accepts_iff (hhome : home ∈ homes) (hname : IsFileName name)
    (hpath : join home name ∈ paths) :
    Accepts here (join home name) u ↔ Accepts here (join home name) t := by
  have hway := way_eq_of_route (route_folder_join hname home) here
  have hadmits := h.admits_iff hclear hhome
  rw [← hway] at hadmits
  have hfree := (h.targets _ hpath).not
  exact ⟨fun ⟨hup, hshort, hgoal⟩ => ⟨hadmits.1 hup, hshort, hfree.1 hgoal⟩,
    fun ⟨hup, hshort, hgoal⟩ => ⟨hadmits.2 hup, hshort, hfree.2 hgoal⟩⟩

end

end Since

/-! ## The sink -/

/-- What is known of the disk while documents are written. -/
structure Known (here : Place) (homes paths : List String) (d e : Disk) : Prop where
  since : Since here homes paths d.tree e.tree
  closed : e.tree.IsClosed
  begun : d.begun ≤ e.begun

/-- The place of the next temporary file is out of everyone's way. -/
theorem Known.scratch (h : Known here homes paths d e) (hground : Ground here homes paths d)
    (hhome : home ∈ homes) (name : String) :
    e.tree.get? (staging here home name e.nextToken) = none ∧
      staging here home name e.nextToken ∉ way here home := by
  have hscratch : d.IsScratch (staging here home name e.nextToken) := by
    refine ⟨e.begun, h.begun, temporaryName e.nextToken (join home name), ?_, ?_⟩
    · simp [staging]
    · exact carries_temporaryName e.nextToken (join home name)
  obtain ⟨hnone, htarget, hway⟩ := hground.scratch _ hscratch
  refine ⟨?_, hway home hhome⟩
  rcases h.since.elsewhere _ htarget with hsame | ⟨-, -, other, hother, hon⟩
  · rw [hsame, hnone]
  · exact absurd hon (hway other hother)

section

variable (hground : Ground here homes paths d) (hb : d.tree.get? here = some .directory)

include hground hb

/-- Making a directory changes no document. -/
theorem Known.make (h : Known here homes paths d e) (hhome : home ∈ homes)
    {result : Except Failure Unit} {f : Disk}
    (hmade : (Sink.disk .overwrite here).ensureDirectory home e = (result, f)) :
    Known here homes paths d f ∧ (∀ place, f.entry place = e.entry place) ∧
      ((EndsInDot home → d.tree.get? (spelt here home) = some .directory) →
        (result = .ok () ↔ ∀ place ∈ way here home, d.tree.Admits place)) := by
  have hbase := h.since.directory hb
  have hlinks := h.since.unlinked hground.clear hhome (hground.unlinked home hhome)
  have hbuilt := built_makeDirectories hbase hlinks
  have hadds : Adds (fun _ => True) e.tree (e.tree.makeDirectories here home).2 :=
    makeDirectories_adds h.closed hbase fun _ _ _ => trivial
  have hok := fun hfound => (hbuilt.eq_ok_iff hfound).trans (h.since.admits_iff hground.clear hhome)
  obtain ⟨answer, u, hout⟩ : ∃ answer u, e.tree.makeDirectories here home = (answer, u) :=
    ⟨_, _, rfl⟩
  rw [hout] at hbuilt hadds hok
  have hensure : Disk.ensureDirectory here home e = (result, f) := hmade
  have hboth : f = { e with tree := u } ∧ (result = .ok () ↔ answer = .ok ()) := by
    unfold Disk.ensureDirectory at hensure
    rw [hout] at hensure
    cases answer with
    | ok _ =>
      obtain ⟨rfl, rfl⟩ := Prod.mk.inj hensure
      exact ⟨rfl, fun _ => rfl, fun _ => rfl⟩
    | error cause =>
      obtain ⟨rfl, rfl⟩ := Prod.mk.inj hensure
      exact ⟨rfl, nofun, nofun⟩
  obtain ⟨rfl, hresult⟩ := hboth
  refine ⟨⟨h.since.grow hground.clear hhome hbuilt.gains, hadds.closed h.closed, h.begun⟩,
    fun place => Option.ext fun node => ?_, fun hfound => ?_⟩
  · rw [entry_eq_some_iff, entry_eq_some_iff]
    exact and_congr_left fun hne => hbuilt.gains.get?_iff hne
  · exact hresult.trans (hok fun hdot => h.since.directory (hfound hdot))

/-- Writing a document goes as the layout has it. -/
theorem Known.write (h : Known here homes paths d e) (hhome : home ∈ homes)
    (hname : IsFileName name) (hpath : join home name ∈ paths) {content : String}
    {result : Except Failure String} {f : Disk}
    (hwritten : (Sink.disk .overwrite here).write (join home name) content e = (result, f)) :
    Known here homes paths d f ∧
      (layout here d.tree).Writes (join home name) content e result f := by
  have hway := way_eq_of_route (route_folder_join hname home) here
  have haccepts := h.since.accepts_iff hground.clear hhome hname hpath
  obtain ⟨hvacant, hstaging⟩ := h.scratch hground hhome name
  obtain ⟨hyields, hclosed, hbegun⟩ := write_yields h.closed
    (h.since.directory hb) hname
    (h.since.unlinked hground.clear hhome (hground.unlinked home hhome)) hvacant hstaging
    (hground.clear _ hpath home hhome)
  have hwrite : Disk.write .overwrite here (join home name) content e = (result, f) := hwritten
  rw [hwrite] at hyields hclosed hbegun
  dsimp only at hyields hclosed hbegun
  have hcount : d.begun ≤ f.begun := by
    have hbefore := h.begun
    omega
  generalize hleft : f.tree = v at hyields hclosed
  cases hyields with
  | written hyes hgains hv =>
    have hwritable := haccepts.1 hyes
    rw [hway] at hgains
    have hsince := (h.since.grow hground.clear hhome hgains).write hpath hwritable.free hv
    refine ⟨⟨hleft ▸ hsince, hleft ▸ hclosed, hcount⟩, ⟨fun _ => hwritable, fun _ => ⟨_, rfl⟩⟩,
      fun _ => ?_, fun place hplace => Option.ext fun node => ?_⟩
    · refine entry_eq_some_iff.2 ⟨?_, nofun⟩
      rw [hleft, hv]
      exact if_pos rfl
    · have hne : place ≠ spelt here (join home name) := fun heq => hplace hwritable heq.symm
      refine entry_eq_some_iff.trans (.trans ?_ entry_eq_some_iff.symm)
      rw [hleft, hv, if_neg hne]
      exact and_congr_left fun hnode => hgains.get?_iff hnode
  | refused hno hgains =>
    have hwritable : ¬ Accepts here (join home name) d.tree := haccepts.not.1 hno
    rw [hway] at hgains
    refine ⟨⟨hleft ▸ h.since.grow hground.clear hhome hgains, hleft ▸ hclosed, hcount⟩,
      ⟨nofun, fun hyes => absurd hyes hwritable⟩, fun hyes => absurd hyes hwritable,
      fun place _ => Option.ext fun node => ?_⟩
    refine entry_eq_some_iff.trans (.trans ?_ entry_eq_some_iff.symm)
    rw [hleft]
    exact and_congr_left fun hnode => hgains.get?_iff hnode

/-- **The sink on a disk keeps documents apart** that are not in each other's way. -/
theorem separates_disk
    (hnamed : ∀ path ∈ paths, ∃ home ∈ homes, ∃ name, IsFileName name ∧ path = join home name)
    (hfound : ∀ directory ∈ directories, directory ∈ homes ∧
      (EndsInDot directory → d.tree.get? (spelt here directory) = some .directory)) :
    (Sink.disk .overwrite here).Separates (layout here d.tree) (Known here homes paths d) paths
      directories := by
  refine ⟨fun hknown hpath hwritten => ?_, fun hknown hdirectory hmade => ?_⟩
  · obtain ⟨home, hhome, name, hname, rfl⟩ := hnamed _ hpath
    exact hknown.write hground hb hhome hname hpath hwritten
  · obtain ⟨hhome, hthere⟩ := hfound _ hdirectory
    obtain ⟨hnext, hkept, hanswer⟩ := hknown.make hground hb hhome hmade
    exact ⟨hnext, hanswer hthere, hkept⟩

end

end Docsmith.Disk
