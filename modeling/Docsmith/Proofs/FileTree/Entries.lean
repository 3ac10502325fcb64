import Docsmith.Proofs.FileTree.Growth
import Docsmith.Proofs.FileTree.Spelling
import Mathlib.Data.List.Induction
import Mathlib.Data.List.Nodup
/-!
# File trees — the paths of entries

In a proper tree (`IsProper`) each place is listed once, under directories
and with names that a path can spell. The path of an entry below a
directory is then the directory's path with the names on the way appended,
and it leads back to the entry: to the file if it is one
(`IsProper.trace_file`), and to the link itself if it is a link that is not
gone through (`IsProper.locate_link`). Deleting the links at and below a place
leaves a proper tree with every other entry where it was
(`IsProper.unlinked`, `mem_nodes_unlinked`).
-/


namespace Docsmith.FileTree

open Text

variable {t : FileTree} {through : Bool} {links : Nat} {here base place rest top : Place}
variable {root name target : String} {node : Node} {content : ByteArray} {spot : Spot}

/-! ## Proper trees -/

/-- A tree as a file system has it. -/
structure IsProper (t : FileTree) : Prop where
  closed : t.IsClosed
  distinct : (t.nodes.map (·.1)).Nodup
  placed : ∀ entry ∈ t.nodes, entry.1 ≠ []
  names : ∀ entry ∈ t.nodes, ∀ name ∈ entry.1, Path.IsFileName name ∧ fits name = true

theorem mem_nodes_of_get? (hp : place ≠ []) (h : t.get? place = some node) :
    (place, node) ∈ t.nodes := by
  rw [get?_of_ne_nil hp, Option.map_eq_some_iff] at h
  obtain ⟨entry, hfind, rfl⟩ := h
  obtain rfl : entry.1 = place := by simpa using List.find?_some hfind
  exact List.mem_of_find?_eq_some hfind

/-- **The table and its lookup agree** where no place is listed twice. -/
theorem get?_eq_some_iff (hd : (t.nodes.map (·.1)).Nodup) (hp : place ≠ []) :
    t.get? place = some node ↔ (place, node) ∈ t.nodes := by
  refine ⟨mem_nodes_of_get? hp, fun hmem => ?_⟩
  obtain ⟨found, hfind⟩ : ∃ found, t.nodes.find? (·.1 == place) = some found := by
    rw [← Option.isSome_iff_exists, List.find?_isSome]
    exact ⟨_, hmem, beq_self_eq_true place⟩
  have hplace : found.1 = place := by simpa using List.find?_some hfind
  have hfound : found = (place, node) :=
    List.inj_on_of_nodup_map hd (List.mem_of_find?_eq_some hfind) hmem hplace
  rw [get?_of_ne_nil hp, hfind, hfound]
  rfl

namespace IsProper

/-- Names on the way to an entry can be spelt. -/
theorem isFileName (h : t.IsProper) (hp : place ≠ []) (hg : t.get? place = some node)
    (hname : name ∈ place) : Path.IsFileName name ∧ fits name = true :=
  h.names _ (mem_nodes_of_get? hp hg) name hname

end IsProper

/-- A name that can be spelt is the name of an entry. -/
theorem isName_of_isFileName (h : Path.IsFileName name) (hfits : fits name = true) : IsName name :=
  ⟨h.ne_dot, h.ne_dotdot, hfits⟩

/-- What is above an entry is a directory, however far above. -/
theorem IsClosed.get?_above (h : t.IsClosed) (hr : rest ≠ [])
    (hg : t.get? (place ++ rest) = some node) : t.get? place = some .directory := by
  induction rest using List.reverseRecOn generalizing node with
  | nil => exact absurd rfl hr
  | append_singleton rest name ih =>
    rw [← List.append_assoc] at hg
    have habove := h _ _ _ hg
    by_cases hrest : rest = []
    · rwa [hrest, List.append_nil] at habove
    · exact ih hrest habove

/-! ## Spelling -/

/-- The path of what is below a directory. -/
def pathBelow (root : String) (rest : Place) : String :=
  Path.join root ("/".intercalate rest)

theorem splitChar_intercalate (hr : rest ≠ []) (hnames : ∀ name ∈ rest, Path.IsFileName name) :
    splitChar '/' ("/".intercalate rest).toList = rest.map String.toList := by
  rw [String.toList_intercalate]
  refine splitChar_join (by simpa using hr) fun piece hp => ?_
  obtain ⟨name, hname, rfl⟩ := List.mem_map.1 hp
  exact (hnames name hname).no_slash

theorem isAbsolute_intercalate (hr : rest ≠ []) (hnames : ∀ name ∈ rest, Path.IsFileName name) :
    Path.isAbsolute ("/".intercalate rest) = false := by
  refine Path.isAbsolute_of_head fun hhead => ?_
  obtain ⟨first, more, rfl⟩ := List.exists_cons_of_ne_nil hr
  obtain ⟨text, htext⟩ := List.head?_eq_some_iff.1 hhead
  have hsplit := splitChar_intercalate hr hnames
  have hslash := splitChar_append_cons '/' [] text
  rw [List.nil_append, ← htext, hsplit, List.map_cons] at hslash
  have hfirst : first.toList = [] := (List.cons.inj hslash).1
  exact (hnames first List.mem_cons_self).ne_empty (String.toList_eq_nil_iff.1 hfirst)

/-- **The pieces of such a path** are the directory's names and those below
it. -/
theorem pieces_pathBelow (hr : rest ≠ []) (hnames : ∀ name ∈ rest, Path.IsFileName name) :
    pieces (pathBelow root rest) = names root ++ rest := by
  have hkeep : rest.filter (!·.isEmpty) = rest := List.filter_eq_self.2 fun name hname => by
    simpa using (hnames name hname).ne_empty
  have hlast : ∀ before : List String, ((before ++ rest).getLast? == some "") = false := by
    intro before
    rw [List.getLast?_append_of_ne_nil _ hr, beq_eq_false_iff_ne]
    intro h
    exact (hnames "" (List.mem_of_getLast? h)).ne_empty rfl
  have hsplit : ∀ before : List (List Char),
      splitChar '/' (pathBelow root rest).toList = before ++ rest.map String.toList →
      pieces (pathBelow root rest) = (before.map String.ofList).filter (!·.isEmpty) ++ rest := by
    intro before h
    have hrest : (rest.map String.toList).map String.ofList = rest := by simp
    rw [pieces, h]
    simp only [List.map_append, hrest, hlast, List.filter_append, hkeep]
    exact List.append_nil _
  have hbelow := splitChar_intercalate hr hnames
  rcases Path.splitChar_join_relative (isAbsolute_intercalate hr hnames) root with
    ⟨rfl, hj⟩ | ⟨before, -, hj, hd | ⟨-, hd⟩⟩
  · exact hsplit [] (hj.trans hbelow)
  · rw [hsplit before (hbelow ▸ hj), names, hd]
    simp
  · rw [hsplit before (hbelow ▸ hj), names, hd]

theorem pathBelow_ne_empty (hr : rest ≠ []) (hnames : ∀ name ∈ rest, Path.IsFileName name) :
    pathBelow root rest ≠ "" := by
  intro h
  have hpieces : pieces (pathBelow root rest) = names root ++ rest := pieces_pathBelow hr hnames
  rw [h, show pieces "" = ["."] by decide +kernel] at hpieces
  obtain ⟨name, hname⟩ := List.exists_mem_of_ne_nil _ hr
  have hdot : name ∈ ["."] := hpieces ▸ List.mem_append_right _ hname
  exact (hnames name hname).ne_dot (List.mem_singleton.1 hdot)

/-- Paths below a directory are told apart by what they lead to. -/
theorem pathBelow_inj {other : Place} (hr : rest ≠ []) (ho : other ≠ [])
    (hnames : ∀ name ∈ rest, Path.IsFileName name) (hothers : ∀ name ∈ other, Path.IsFileName name)
    (h : pathBelow root rest = pathBelow root other) : rest = other := by
  have hpieces := congrArg pieces h
  rw [pieces_pathBelow hr hnames, pieces_pathBelow ho hothers] at hpieces
  exact List.append_cancel_left hpieces

/-- Such a path starts where the directory's does. -/
theorem start_pathBelow (hroot : root ≠ "") (hr : rest ≠ [])
    (hnames : ∀ name ∈ rest, Path.IsFileName name) :
    start here (pathBelow root rest) = start here root := by
  have hhead : ∀ more : String, (root ++ more).toList.head? = root.toList.head? := by
    intro more
    obtain ⟨c, text, htext⟩ := List.exists_cons_of_ne_nil (mt String.toList_eq_nil_iff.1 hroot)
    rw [String.toList_append, htext]
    rfl
  obtain ⟨more, hmore⟩ : ∃ more, pathBelow root rest = root ++ more := by
    rw [pathBelow, Path.join, isAbsolute_intercalate hr hnames, if_neg Bool.false_ne_true]
    split_ifs
    · exact ⟨_, rfl⟩
    · exact ⟨_, String.append_assoc⟩
  rw [hmore, start, start, hhead]

/-! ## Where the path of an entry leads -/

/-- The pieces of a directory's path are its names, and dots. -/
theorem pieces_eq_names (path : String) :
    ∃ dots : List String, pieces path = names path ++ dots ∧ ∀ dot ∈ dots, dot = "." := by
  refine ⟨_, rfl, fun dot hdot => ?_⟩
  split_ifs at hdot
  · exact List.mem_singleton.1 hdot
  · cases hdot

/-- **A way goes on below the directory that it leads to.** The dots at its
end may be left out. -/
theorem Leads.descend {all : List String} (h : t.Leads true links here all (.directory base))
    (hr : rest ≠ []) (hgo : ∀ m, t.Leads through m base rest spot) :
    ∀ before dots, before ++ dots = all → (∀ dot ∈ dots, dot = ".") →
      t.Leads through links here (before ++ rest) spot := by
  generalize hend : Spot.directory base = last at h
  induction h with
  | stop =>
    intro before dots he hdots
    cases hend
    obtain ⟨rfl, -⟩ := List.append_eq_nil_iff.1 he
    exact hgo _
  | stay _ ih =>
    intro before dots he hdots
    cases before with
    | nil =>
      rw [List.nil_append] at he
      subst he
      exact ih hend [] _ rfl fun dot hdot => hdots dot (List.mem_cons_of_mem _ hdot)
    | cons piece before =>
      obtain ⟨rfl, rfl⟩ := List.cons.inj he
      exact .stay (ih hend before dots rfl hdots)
  | climb _ ih =>
    intro before dots he hdots
    cases before with
    | nil =>
      rw [List.nil_append] at he
      subst he
      exact absurd (hdots ".." List.mem_cons_self) (by decide)
    | cons piece before =>
      obtain ⟨rfl, rfl⟩ := List.cons.inj he
      exact .climb (ih hend before dots rfl hdots)
  | enter hn hg _ ih =>
    intro before dots he hdots
    cases before with
    | nil =>
      rw [List.nil_append] at he
      subst he
      exact absurd (hdots _ List.mem_cons_self) hn.1
    | cons piece before =>
      obtain ⟨rfl, rfl⟩ := List.cons.inj he
      exact .enter hn hg (ih hend before dots rfl hdots)
  | file => cases hend
  | missing => cases hend
  | link => cases hend
  | jump hn hg _ ht _ ih =>
    intro before dots he hdots
    cases before with
    | nil =>
      rw [List.nil_append] at he
      subst he
      exact absurd (hdots _ List.mem_cons_self) hn.1
    | cons piece before =>
      obtain ⟨rfl, rfl⟩ := List.cons.inj he
      have hgoal := ih hend (pieces _ ++ before) dots (List.append_assoc _ _ _) hdots
      rw [List.append_assoc] at hgoal
      exact .jump hn hg (.inl (List.append_ne_nil_of_right_ne_nil _ hr)) ht hgoal

namespace IsProper

/-- **The names on the way down from a directory lead to the entry**, if
its last name does. -/
theorem leads_entry (h : t.IsProper) (hr : rest ≠ []) (hg : t.get? (base ++ rest) = some node)
    (hend : ∀ above name, above ++ [name] = base ++ rest → IsName name →
      t.Leads through links above [name] spot) : t.Leads through links base rest spot := by
  induction rest generalizing base with
  | nil => exact absurd rfl hr
  | cons name rest ih =>
    have hname := h.isFileName (by simp) hg (List.mem_append_right _ List.mem_cons_self)
    have hentry := isName_of_isFileName hname.1 hname.2
    rw [List.append_cons] at hg hend
    cases rest with
    | nil =>
      rw [List.append_nil] at hend
      exact hend base name rfl hentry
    | cons next rest =>
      have hdirectory := h.closed.get?_above (by simp) hg
      exact .enter hentry hdirectory (ih (by simp) hg hend)

/-- What the path of an entry leads to, if the directory's path leads to the
directory and the names below it lead on. -/
theorem trace_pathBelow (h : t.IsProper) (hroot : t.resolve here root = .ok (.directory base))
    (hr : rest ≠ []) (hg : t.get? (base ++ rest) = some node)
    (hgo : ∀ m, t.Leads through m base rest spot) :
    t.trace through here (pathBelow root rest) = .ok spot := by
  have hnames : ∀ name ∈ rest, Path.IsFileName name := fun name hname =>
    (h.isFileName (List.append_ne_nil_of_right_ne_nil _ hr) hg
      (List.mem_append_right _ hname)).1
  obtain ⟨hne, hleads⟩ := trace_eq_ok_iff.1 hroot
  obtain ⟨dots, hpieces, hdots⟩ := pieces_eq_names root
  refine trace_eq_ok_iff.2 ⟨by simpa using pathBelow_ne_empty hr hnames, ?_⟩
  rw [start_pathBelow (by simpa using hne) hr hnames, pieces_pathBelow hr hnames]
  exact hleads.descend hr hgo _ dots hpieces.symm hdots

/-- **The path of a file leads to the file**, and names it. -/
theorem trace_file (h : t.IsProper) (hroot : t.resolve here root = .ok (.directory base))
    (hr : rest ≠ []) (hg : t.get? (base ++ rest) = some (.file content)) (through : Bool) :
    t.trace through here (pathBelow root rest) = .ok (.file (base ++ rest) content) :=
  h.trace_pathBelow hroot hr hg fun _ => h.leads_entry hr hg fun above name he hn => by
    rw [← he] at hg ⊢
    exact .file hn hg

/-- **The path of a link names the link**, wherever that leads. -/
theorem locate_link (h : t.IsProper)
    (hroot : t.resolve here root = .ok (.directory base)) (hr : rest ≠ [])
    (hg : t.get? (base ++ rest) = some (.link target)) :
    t.locate here (pathBelow root rest) = .ok (.link (base ++ rest) target) :=
  h.trace_pathBelow hroot hr hg fun _ => h.leads_entry hr hg fun above name he hn => by
    rw [← he] at hg ⊢
    exact .link hn hg rfl

end IsProper

/-! ## Deleting links -/

/-- The node is a link. -/
def Node.isLink : Node → Bool
  | .link _ => true
  | _ => false

/-- The link at an entry stands at or below a place. -/
def isLinkBelow (top : Place) (entry : Place × Node) : Bool :=
  top.isPrefixOf entry.1 && entry.2.isLink

/-- The tree with every link at or below a place deleted. -/
def unlinked (t : FileTree) (top : Place) : FileTree :=
  ⟨t.nodes.filter fun entry => !isLinkBelow top entry⟩

theorem mem_nodes_unlinked {entry : Place × Node} :
    entry ∈ (t.unlinked top).nodes ↔ entry ∈ t.nodes ∧ isLinkBelow top entry = false := by
  simp [unlinked]

/-- A directory is no link. -/
theorem isLinkBelow_directory : isLinkBelow top (place, .directory) = false := by
  simp [isLinkBelow, Node.isLink]

/-- Nor is a file. -/
theorem isLinkBelow_file : isLinkBelow top (place, .file content) = false := by
  simp [isLinkBelow, Node.isLink]

/-- **Without its links a proper tree is proper.** -/
theorem IsProper.unlinked (h : t.IsProper) (top : Place) : (t.unlinked top).IsProper where
  closed := .of_nodes fun entry hentry => by
    obtain ⟨hmem, -⟩ := mem_nodes_unlinked.1 hentry
    obtain ⟨above, name, hplace⟩ := List.eq_nil_or_concat entry.1 |>.resolve_left (h.placed _ hmem)
    have hg : t.get? (above ++ [name]) = some entry.2 := by
      rw [get?_eq_some_iff h.distinct (by simp), ← List.concat_eq_append, ← hplace]
      exact hmem
    rw [hplace, List.concat_eq_append, List.dropLast_concat]
    by_cases hroot : above = []
    · rw [hroot]
      rfl
    · have habove := mem_nodes_of_get? hroot (h.closed _ _ _ hg)
      exact (get?_eq_some_iff (h.distinct.sublist (List.filter_sublist.map _)) hroot).2
        (mem_nodes_unlinked.2 ⟨habove, isLinkBelow_directory⟩)
  distinct := h.distinct.sublist (List.filter_sublist.map _)
  placed entry hentry := h.placed entry (mem_nodes_unlinked.1 hentry).1
  names entry hentry := h.names entry (mem_nodes_unlinked.1 hentry).1

end Docsmith.FileTree
