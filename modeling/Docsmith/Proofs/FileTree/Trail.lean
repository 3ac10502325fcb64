import Docsmith.Proofs.FileTree.Table
import Mathlib.Data.List.Basic
/-!
# File trees — the way of a path

`follow` goes through links with a bound on their number. `Leads` says the
same by one rule for each kind of piece, and the two agree
(`follow_eq_ok_iff`), so what holds of a way is proved by induction on it.
A tree that has got more directories, and files in place of links, leads a
way to the same end or breaks it off at a file (`Leads.survives`); the way
breaks off only where a link it goes through is gone.
-/


namespace Docsmith.FileTree

/-- The piece is the name of an entry. -/
def IsName (piece : String) : Prop :=
  piece ≠ "." ∧ piece ≠ ".." ∧ fits piece = true

/-- The place a path leads to. -/
def Spot.place : Spot → Place
  | .directory place | .file place _ | .link place _ | .missing place => place

/-- The path leads to an entry of a directory, if only to a missing one. -/
def Spot.IsEntry : Spot → Prop
  | .directory _ => False
  | .file _ _ | .link _ _ | .missing _ => True

/-- The same spot once an entry there is a file. -/
def Spot.filled (content : ByteArray) : Spot → Spot
  | .directory place => .directory place
  | .file place _ | .link place _ | .missing place => .file place content

/-- What stands at a spot. -/
def Spot.node? : Spot → Option Node
  | .directory _ => some .directory
  | .file _ content => some (.file content)
  | .link _ target => some (.link target)
  | .missing _ => none

/-- Following pieces from a directory leads to a spot, through no more than
a number of links. -/
inductive Leads (t : FileTree) (through : Bool) : Nat → Place → List String → Spot → Prop
  /-- No piece is left. -/
  | stop {links directory} : Leads t through links directory [] (.directory directory)
  /-- The directory itself. -/
  | stay {links directory rest spot} :
      Leads t through links directory rest spot → Leads t through links directory ("." :: rest) spot
  /-- The directory above. -/
  | climb {links directory rest spot} :
      Leads t through links directory.dropLast rest spot →
      Leads t through links directory (".." :: rest) spot
  /-- A directory of that name. -/
  | enter {links directory piece rest spot} :
      IsName piece → t.get? (directory ++ [piece]) = some .directory →
      Leads t through links (directory ++ [piece]) rest spot →
      Leads t through links directory (piece :: rest) spot
  /-- A file, at the end. -/
  | file {links directory piece content} :
      IsName piece → t.get? (directory ++ [piece]) = some (.file content) →
      Leads t through links directory [piece] (.file (directory ++ [piece]) content)
  /-- Nothing, at the end. -/
  | missing {links directory piece} :
      IsName piece → t.get? (directory ++ [piece]) = none →
      Leads t through links directory [piece] (.missing (directory ++ [piece]))
  /-- A link, at the end of a way that does not go through it. -/
  | link {links directory piece target} :
      IsName piece → t.get? (directory ++ [piece]) = some (.link target) → through = false →
      Leads t through links directory [piece] (.link (directory ++ [piece]) target)
  /-- A link to go through. -/
  | jump {links directory piece target rest spot} :
      IsName piece → t.get? (directory ++ [piece]) = some (.link target) →
      rest ≠ [] ∨ through = true → target.isEmpty = false →
      Leads t through links (start directory target) (pieces target ++ rest) spot →
      Leads t through (links + 1) directory (piece :: rest) spot

variable {t u : FileTree} {through : Bool} {links : Nat} {directory place : Place}
variable {piece target : String} {rest : List String} {content : ByteArray} {spot : Spot}

/-! ## One piece at a time -/

/-- Places from which the pieces lead to the same stop are followed alike. -/
theorem follow_congr {other : Place} {more : List String}
    (h : t.advance through directory rest = t.advance through other more) :
    t.follow through links directory rest = t.follow through links other more := by
  rw [follow, h, follow]

/-- A stop that is no link to go through is where the way leads. -/
theorem follow_of_stop {result : Except Error Spot}
    (h : t.advance through directory rest = result.map .spot) :
    t.follow through links directory rest = result := by
  rw [follow, h]
  cases result <;> rfl

@[simp] theorem follow_nil : t.follow through links directory [] = .ok (.directory directory) :=
  follow_of_stop rfl

theorem follow_dot :
    t.follow through links directory ("." :: rest) = t.follow through links directory rest :=
  follow_congr (if_pos rfl)

theorem follow_dotdot : t.follow through links directory (".." :: rest) =
    t.follow through links directory.dropLast rest :=
  follow_congr ((if_neg (by decide)).trans (if_pos rfl))

/-- What is asked at the name of an entry. -/
theorem advance_name (h : IsName piece) : t.advance through directory (piece :: rest) =
    match t.get? (directory ++ [piece]) with
    | some .directory => t.advance through (directory ++ [piece]) rest
    | some (.link target) =>
      if rest.isEmpty && !through then .ok (.spot (.link (directory ++ [piece]) target))
      else .ok (.jump directory target rest)
    | some (.file content) =>
      if rest.isEmpty then .ok (.spot (.file (directory ++ [piece]) content))
      else .error .notDirectory
    | none =>
      if rest.isEmpty then .ok (.spot (.missing (directory ++ [piece]))) else .error .notFound := by
  obtain ⟨hdot, hdots, hfits⟩ := h
  rw [advance, if_neg hdot, if_neg hdots, hfits]
  rfl

theorem follow_long (hdot : piece ≠ ".") (hdots : piece ≠ "..") (h : fits piece = false) :
    t.follow through links directory (piece :: rest) = .error .nameTooLong := by
  refine follow_of_stop ?_
  rw [advance, if_neg hdot, if_neg hdots, h]
  rfl

theorem follow_directory (h : IsName piece) (hg : t.get? (directory ++ [piece]) = some .directory) :
    t.follow through links directory (piece :: rest) =
      t.follow through links (directory ++ [piece]) rest :=
  follow_congr (by rw [advance_name h, hg])

theorem follow_file (h : IsName piece)
    (hg : t.get? (directory ++ [piece]) = some (.file content)) :
    t.follow through links directory (piece :: rest) =
      if rest.isEmpty then .ok (.file (directory ++ [piece]) content)
      else .error .notDirectory := by
  refine follow_of_stop ?_
  rw [advance_name h, hg]
  cases rest <;> rfl

theorem follow_missing (h : IsName piece) (hg : t.get? (directory ++ [piece]) = none) :
    t.follow through links directory (piece :: rest) =
      if rest.isEmpty then .ok (.missing (directory ++ [piece])) else .error .notFound := by
  refine follow_of_stop ?_
  rw [advance_name h, hg]
  cases rest <;> rfl

theorem follow_link_last (h : IsName piece)
    (hg : t.get? (directory ++ [piece]) = some (.link target)) :
    t.follow false links directory [piece] = .ok (.link (directory ++ [piece]) target) := by
  refine follow_of_stop ?_
  rw [advance_name h, hg]
  rfl

theorem follow_jump (h : IsName piece)
    (hg : t.get? (directory ++ [piece]) = some (.link target))
    (hr : rest ≠ [] ∨ through = true) :
    t.follow through links directory (piece :: rest) =
      match links with
      | 0 => .error .tooManyLinks
      | links + 1 =>
        if target.isEmpty then .error .notFound
        else t.follow through links (start directory target) (pieces target ++ rest) := by
  have hgo : (rest.isEmpty && !through) = false := by
    rcases hr with hr | rfl
    · cases rest with
      | nil => exact absurd rfl hr
      | cons _ _ => rfl
    · simp
  rw [follow, advance_name h, hg]
  simp only [hgo]
  rfl

/-! ## The relation -/

theorem Leads.follow_eq (h : t.Leads through links directory rest spot) :
    t.follow through links directory rest = .ok spot := by
  induction h with
  | stop => rw [follow_nil]
  | stay _ ih => rw [follow_dot, ih]
  | climb _ ih => rw [follow_dotdot, ih]
  | enter hn hg _ ih => rw [follow_directory hn hg, ih]
  | file hn hg => rw [follow_file hn hg]; rfl
  | missing hn hg => rw [follow_missing hn hg]; rfl
  | link hn hg hthrough => subst hthrough; exact follow_link_last hn hg
  | jump hn hg hr ht _ ih =>
    rw [follow_jump hn hg hr]
    simp only [ht]
    exact ih

/-- A way found is a way of the relation. The induction is on the links
left and, among those, on the pieces left: a jump may add pieces and takes
a link. -/
theorem leads_of_follow_eq (h : t.follow through links directory rest = .ok spot) :
    t.Leads through links directory rest spot := by
  induction links using Nat.strongRecOn generalizing directory rest with
  | ind links ihl =>
    induction rest generalizing directory with
    | nil =>
      rw [follow_nil] at h
      cases h
      exact .stop
    | cons piece rest ih =>
      by_cases hdot : piece = "."
      · subst hdot
        exact .stay (ih (by rwa [follow_dot] at h))
      by_cases hdots : piece = ".."
      · subst hdots
        exact .climb (ih (by rwa [follow_dotdot] at h))
      cases hfits : fits piece with
      | false => rw [follow_long hdot hdots hfits] at h; cases h
      | true =>
        have hn : IsName piece := ⟨hdot, hdots, hfits⟩
        cases hg : t.get? (directory ++ [piece]) with
        | none =>
          rw [follow_missing hn hg] at h
          cases rest with
          | nil => cases h; exact .missing hn hg
          | cons _ _ => cases h
        | some node =>
          cases node with
          | directory => exact .enter hn hg (ih (by rwa [follow_directory hn hg] at h))
          | file content =>
            rw [follow_file hn hg] at h
            cases rest with
            | nil => cases h; exact .file hn hg
            | cons _ _ => cases h
          | link target =>
            -- only here the pieces may become more, and then a link is spent
            by_cases hr : rest ≠ [] ∨ through = true
            · rw [follow_jump hn hg hr] at h
              cases links with
              | zero => cases h
              | succ links =>
                cases ht : target.isEmpty with
                | true => simp [ht] at h
                | false =>
                  simp only [ht] at h
                  exact .jump hn hg hr ht (ihl links (Nat.lt_succ_self _) h)
            · obtain ⟨rfl, hthrough⟩ : rest = [] ∧ through = false := by simpa using hr
              subst hthrough
              rw [follow_link_last hn hg] at h
              cases h
              exact .link hn hg rfl

/-- **The relation and the function agree.** -/
theorem follow_eq_ok_iff : t.follow through links directory rest = .ok spot ↔
    t.Leads through links directory rest spot :=
  ⟨leads_of_follow_eq, Leads.follow_eq⟩

/-! ## Where a way ends -/

/-- Links start in a directory. -/
theorem get?_start (hd : t.get? directory = some .directory) (path : String) :
    t.get? (start directory path) = some .directory := by
  rw [start]
  split
  · exact get?_nil
  · exact hd

/-- A directory that a way leads to is one. -/
theorem Leads.get?_directory (h : t.Leads through links directory rest (.directory place))
    (hc : t.IsClosed) (hd : t.get? directory = some .directory) :
    t.get? place = some .directory := by
  generalize hspot : Spot.directory place = spot at h
  induction h with
  | stop =>
    cases hspot
    exact hd
  | stay _ ih => exact ih hd hspot
  | climb _ ih => exact ih (hc.dropLast hd) hspot
  | enter _ hg _ ih => exact ih hg hspot
  | file | missing | link => cases hspot
  | jump _ _ _ _ _ ih => exact ih (get?_start hd _) hspot

/-- An entry that a way leads to is what the tree has there. -/
theorem Leads.get?_place (h : t.Leads through links directory rest spot) (hs : spot.IsEntry) :
    t.get? spot.place = spot.node? := by
  induction h with
  | stop => exact hs.elim
  | stay _ ih | climb _ ih => exact ih hs
  | enter _ _ _ ih => exact ih hs
  | jump _ _ _ _ _ ih => exact ih hs
  | file _ hg | missing _ hg | link _ hg _ => exact hg

/-- It is no directory. -/
theorem Leads.get?_ne_directory (h : t.Leads through links directory rest spot) (hs : spot.IsEntry) :
    t.get? spot.place ≠ some .directory := by
  rw [h.get?_place hs]
  cases spot with
  | directory => exact hs.elim
  | _ => simp [Spot.node?]

theorem Leads.place_ne_nil (h : t.Leads through links directory rest spot) (hs : spot.IsEntry) :
    spot.place ≠ [] := by
  intro he
  have hd := h.get?_ne_directory hs
  rw [he] at hd
  exact hd rfl

/-- Where nothing stands, an entry that a way leads to is a missing one. -/
theorem Leads.eq_missing (h : t.Leads through links directory rest spot) (hs : spot.IsEntry)
    (hn : t.get? spot.place = none) : spot = .missing spot.place := by
  rw [h.get?_place hs] at hn
  cases spot with
  | missing place => rfl
  | _ => cases hn

/-- **An entry has the last name of the path** and stands in a directory. -/
theorem Leads.entry (h : t.Leads false links directory rest spot) (hs : spot.IsEntry)
    (hc : t.IsClosed) (hd : t.get? directory = some .directory) :
    ∃ above name, spot.place = above ++ [name] ∧ t.get? above = some .directory ∧ IsName name ∧
      rest.getLast? = some name := by
  induction h with
  | stop => exact hs.elim
  | stay _ ih =>
    obtain ⟨above, name, hp, ha, hn, hl⟩ := ih hs hd
    exact ⟨above, name, hp, ha, hn, List.mem_getLast?_cons hl⟩
  | climb _ ih =>
    obtain ⟨above, name, hp, ha, hn, hl⟩ := ih hs (hc.dropLast hd)
    exact ⟨above, name, hp, ha, hn, List.mem_getLast?_cons hl⟩
  | enter _ hg _ ih =>
    obtain ⟨above, name, hp, ha, hn, hl⟩ := ih hs hg
    exact ⟨above, name, hp, ha, hn, List.mem_getLast?_cons hl⟩
  | file hn _ => exact ⟨_, _, rfl, hd, hn, rfl⟩
  | missing hn _ => exact ⟨_, _, rfl, hd, hn, rfl⟩
  | link hn _ _ => exact ⟨_, _, rfl, hd, hn, rfl⟩
  | @jump _ _ _ _ rest _ _ _ hr _ _ ih =>
    obtain ⟨above, name, hp, ha, hn, hl⟩ := ih hs (get?_start hd _)
    obtain ⟨next, rest, rfl⟩ := List.exists_cons_of_ne_nil (hr.resolve_right Bool.false_ne_true)
    rw [List.getLast?_append_cons] at hl
    exact ⟨above, name, hp, ha, hn, List.mem_getLast?_cons hl⟩

/-! ## Going through the last link or not -/

/-- A way that does not end at a link goes through none at its end. -/
theorem Leads.toThrough (h : t.Leads false links directory rest spot)
    (hs : ∀ place target, spot ≠ .link place target) : t.Leads true links directory rest spot := by
  induction h with
  | stop => exact .stop
  | stay _ ih => exact .stay (ih hs)
  | climb _ ih => exact .climb (ih hs)
  | enter hn hg _ ih => exact .enter hn hg (ih hs)
  | file hn hg => exact .file hn hg
  | missing hn hg => exact .missing hn hg
  | link => exact absurd rfl (hs _ _)
  | jump hn hg _ ht _ ih => exact .jump hn hg (.inr rfl) ht (ih hs)

/-- Where no link has the last name of a path, it does not matter whether
one there is gone through. -/
theorem Leads.toStop (h : t.Leads true links directory rest spot)
    (hl : ∀ name ∈ rest.getLast?, ∀ above target, t.get? (above ++ [name]) ≠ some (.link target)) :
    t.Leads false links directory rest spot := by
  induction h with
  | stop => exact .stop
  | stay _ ih => exact .stay (ih fun name hn => hl name (List.mem_getLast?_cons hn))
  | climb _ ih => exact .climb (ih fun name hn => hl name (List.mem_getLast?_cons hn))
  | enter hname hg _ ih =>
    exact .enter hname hg (ih fun name hn => hl name (List.mem_getLast?_cons hn))
  | file hn hg => exact .file hn hg
  | missing hn hg => exact .missing hn hg
  | link _ _ hthrough => cases hthrough
  | @jump _ directory piece target rest _ hname hg _ ht _ ih =>
    cases rest with
    | nil => exact absurd hg (hl piece rfl directory target)
    | cons next rest =>
      refine .jump hname hg (.inl (by simp)) ht (ih fun name hn => hl name ?_)
      rw [List.getLast?_append_cons] at hn
      exact List.mem_getLast?_cons hn

/-! ## The way in a later tree -/

/-- **A way survives.** In a tree that keeps the directories and the links,
or has files for them, a way leads to the same end, or it breaks off at a
file that stands for a link. -/
theorem Leads.survives (h : t.Leads false links directory rest spot) (hk : t.Keeps u)
    (hp : spot.IsEntry → u.get? spot.place = some (.file content)) :
    u.Leads false links directory rest (spot.filled content) ∨
      (u.follow false links directory rest = .error .notDirectory ∧
        ∃ place target, t.get? place = some (.link target) ∧
          u.get? place ≠ some (.link target)) := by
  induction h with
  | stop => exact .inl .stop
  | stay _ ih =>
    rcases ih hp with hu | ⟨hu, hlost⟩
    · exact .inl (.stay hu)
    · exact .inr ⟨by rw [follow_dot, hu], hlost⟩
  | climb _ ih =>
    rcases ih hp with hu | ⟨hu, hlost⟩
    · exact .inl (.climb hu)
    · exact .inr ⟨by rw [follow_dotdot, hu], hlost⟩
  | enter hn hg _ ih =>
    have hg' := hk.directory _ hg
    rcases ih hp with hu | ⟨hu, hlost⟩
    · exact .inl (.enter hn hg' hu)
    · exact .inr ⟨by rw [follow_directory hn hg', hu], hlost⟩
  | file hn _ => exact .inl (.file hn (hp trivial))
  | missing hn _ => exact .inl (.file hn (hp trivial))
  | link hn _ _ => exact .inl (.file hn (hp trivial))
  | @jump _ _ _ _ rest _ hn hg hr ht _ ih =>
    -- the link is still there, or a file stands for it and the way ends
    rcases hk.link _ _ hg with hg' | ⟨other, hg'⟩
    · rcases ih hp with hu | ⟨hu, hlost⟩
      · exact .inl (.jump hn hg' hr ht hu)
      · refine .inr ⟨?_, hlost⟩
        rw [follow_jump hn hg' hr]
        simp only [ht]
        exact hu
    · refine .inr ⟨?_, _, _, hg, by rw [hg']; simp⟩
      rw [follow_file hn hg']
      cases rest with
      | nil => simp at hr
      | cons _ _ => rfl

end Docsmith.FileTree
