import Docsmith.Proofs.FileTree.Building
import Docsmith.Proofs.FileTree.Entries
import Docsmith.Proofs.Sink.Beside
/-!
# Sinks — a write by itself

What becomes of a document that is written over what is there, with no other
writer at work. It is written exactly if the places on the way to its directory
admit directories, its temporary name is not too long and no directory stands at
its own place (`Accepts`), whatever else is on the disk. Then it stands at its
place, and apart from it nothing but directories on the way is new; else nothing
but such directories is new at all (`write_yields`).
-/


namespace Docsmith.Disk

open FileTree
open Docsmith.Path

variable {here : Place} {t u : FileTree} {d : Disk} {home name content token path : String}

/-! ## The length of a temporary name -/

/-- A token has thirty-six bytes. -/
theorem IsToken.utf8ByteSize_eq (h : IsToken token) : token.utf8ByteSize = 36 := by
  obtain ⟨hlength, hchars⟩ := h
  have hsize : ∀ text : List Char, (∀ c ∈ text, c.isDigit ∨ ('a' ≤ c ∧ c ≤ 'f') ∨ c = '-') →
      (String.ofList text).utf8ByteSize = text.length := by
    intro text htext
    induction text with
    | nil => rfl
    | cons c text ih =>
      have hc : c.utf8Size = 1 := by
        rw [Char.utf8Size_eq_one_iff]
        have hbound : c.val.toNat ≤ 127 := by
          rcases htext c List.mem_cons_self with hdigit | ⟨-, hletter⟩ | rfl
          · have hrange : 48 ≤ c.val ∧ c.val ≤ 57 := by simpa [Char.isDigit] using hdigit
            exact (UInt32.le_iff_toNat_le.1 hrange.2).trans (by decide)
          · exact (UInt32.le_iff_toNat_le.1 hletter).trans (by decide)
          · decide
        exact UInt32.le_iff_toNat_le.2 hbound
      have hsplit : String.ofList (c :: text) = String.singleton c ++ String.ofList text := by
        rw [String.singleton_eq_ofList, ← String.ofList_append]
        rfl
      rw [hsplit, String.utf8ByteSize_append, String.utf8ByteSize_singleton, hc,
        ih fun c hmem => htext c (List.mem_cons_of_mem _ hmem), List.length_cons, Nat.add_comm]
  have hbytes := hsize token.toList hchars
  rwa [String.ofList_toList, hlength] at hbytes

/-- Whether a temporary name is too long does not depend on the token. -/
theorem fits_temporaryName {other : String} (h : IsToken token) (h' : IsToken other)
    (path : String) : fits (temporaryName token path) = fits (temporaryName other path) := by
  unfold fits temporaryName
  simp only [String.utf8ByteSize_append, h.utf8ByteSize_eq, h'.utf8ByteSize_eq]

/-- A name is no longer than the temporary name that is made of it. -/
theorem fits_of_temporaryName (hname : IsFileName name)
    (h : fits (temporaryName token (join home name)) = true) : fits name = true := by
  have hfile : fileName? (join home name) = some name := fileName?_of_route (route_name hname home)
  unfold fits temporaryName at *
  rw [hfile] at h
  simp only [String.utf8ByteSize_append, decide_eq_true_eq, Option.getD_some] at h ⊢
  omega

theorem temporaryName_ne (token : String) (hname : IsFileName name) :
    temporaryName token (join home name) ≠ name := by
  have hfile : fileName? (join home name) = some name := fileName?_of_route (route_name hname home)
  intro heq
  have hsize := congrArg String.utf8ByteSize heq
  unfold temporaryName at hsize
  rw [hfile] at hsize
  simp only [String.utf8ByteSize_append, Option.getD_some] at hsize
  have hdot : ".".utf8ByteSize = 1 := rfl
  omega

/-! ## Names in a directory -/

theorem join_ne_empty (hname : IsFileName name) (directory : String) :
    join directory name ≠ "" := by
  intro hempty
  have hroute := route_name hname directory
  rw [hempty, show route "" = [] by decide +kernel] at hroute
  exact absurd hroute.symm (List.append_ne_nil_of_right_ne_nil _ (List.cons_ne_nil _ _))

theorem start_join (hname : IsFileName name) (here : Place) (directory : String) :
    start here (join directory name) = start here directory := by
  rw [start_eq_route, start_eq_route, route_name hname]
  cases route directory with
  | nil => simp
  | cons first more => rfl

/-- A name in a directory has its place there. -/
theorem spelt_join (hname : IsFileName name) (here : Place) (directory : String) :
    spelt here (join directory name) = spelt here directory ++ [name] := by
  have hstep : (Component.name name.toList :: []).filterMap stepOf? = [name] := by
    simp [stepOf?]
  rw [spelt_eq_steps, spelt_eq_steps, start_join hname, steps_eq_route, steps_eq_route,
    route_name hname, List.filterMap_append, hstep, byName_append]
  rw [byName, if_neg hname.ne_dot, if_neg hname.ne_dotdot, byName]

/-- **A name in a directory** is what is asked for when the directories stand. -/
theorem trace_join {through : Bool} (hstands : ∀ place ∈ way here home, t.Stands place)
    (hname : IsFileName name) : t.trace through here (join home name) =
      t.follow through 40 (spelt here home) [name] := by
  have hpasses : passes (start here home) (names home) = way here home := by
    rw [way_eq_steps, steps_eq_names, passes_filter]
  have hplace : byName (start here home) (names home) = spelt here home := by
    rw [spelt_eq_steps, steps_eq_names, byName_filter]
  rw [trace, if_neg (by simpa using join_ne_empty hname home), start_join hname,
    pieces_join hname.no_slash hname.ne_empty, follow_append (hpasses ▸ hstands), hplace]

theorem dropSlashes_join (hname : IsFileName name) (directory : String) :
    dropSlashes (join directory name) = join directory name := by
  obtain ⟨before, htext⟩ : ∃ before, (join directory name).toList = before ++ name.toList := by
    unfold join
    split_ifs
    · exact ⟨[], rfl⟩
    · exact ⟨directory.toList, String.toList_append⟩
    · exact ⟨(directory ++ "/").toList, String.toList_append⟩
  obtain ⟨init, c, hinit⟩ := (List.eq_nil_or_concat name.toList).resolve_left
    (mt String.toList_eq_nil_iff.1 hname.ne_empty)
  have hc : ¬ (c == '/') = true := by
    intro hslash
    obtain rfl : c = '/' := by simpa using hslash
    exact hname.no_slash (by rw [hinit]; simp)
  have hkept : Text.dropAllEnd '/' (join directory name).toList = (join directory name).toList := by
    rw [htext, hinit, List.concat_eq_append, ← List.append_assoc, Text.dropAllEnd,
      Text.dropEndWhile, List.reverse_append, List.reverse_singleton, List.singleton_append,
      List.dropWhile_cons, if_neg hc, List.reverse_cons, List.reverse_reverse]
  rw [dropSlashes_eq, hkept, String.ofList_toList]
  split_ifs
  · rfl
  · rfl

/-! ## The directory of a document -/

theorem route_folder_join (hname : IsFileName name) (home : String) :
    route (folder (join home name)) = route home :=
  route_folder (isChild_join hname home)

/-- The directory of a document is not one that has to be found. -/
theorem found_folder (hb : t.get? here = some .directory) (path : String)
    (hdot : EndsInDot (folder path)) : t.get? (spelt here (folder path)) = some .directory := by
  have hstart : steps (folder path) = [] → t.get? (spelt here (folder path)) = some .directory := by
    intro hnone
    rw [spelt_eq_steps, hnone]
    exact get?_start hb _
  have hdotted : steps "." = [] := by decide +kernel
  unfold folder at hdot hstart ⊢
  cases habove : parent? path with
  | none =>
    rw [habove] at hstart
    exact hstart hdotted
  | some above =>
    rw [habove] at hdot hstart
    dsimp only at hdot hstart ⊢
    split_ifs at hdot hstart ⊢ with hempty
    · exact hstart hdotted
    · exact hstart (steps_eq_nil_of_parent? habove hdot)

/-- The directory of a document is made as its home would be, were that spelt plainly. -/
theorem built_folder (hb : t.get? here = some .directory) (hname : IsFileName name)
    (hlinks : ∀ place ∈ way here home, ∀ target, t.get? place ≠ some (.link target)) :
    let (result, u) := t.makeDirectories here (folder (join home name))
    Gains (way here home) t u ∧ (result = .ok () ↔ ∀ place ∈ way here home, t.Admits place) ∧
      (result = .ok () → ∀ place ∈ way here home, u.Stands place) := by
  have hway := way_eq_of_route (route_folder_join hname home) here
  rw [← hway] at hlinks ⊢
  have hbuilt := built_makeDirectories hb hlinks
  have hfound := found_folder hb (join home name)
  generalize t.makeDirectories here (folder (join home name)) = out at hbuilt ⊢
  exact ⟨hbuilt.gains, hbuilt.eq_ok_iff hfound, hbuilt.stands⟩

/-! ## The steps of a write -/

section Steps

variable {bytes : ByteArray}

/-- The place of the temporary file. -/
def staging (here : Place) (home name token : String) : Place :=
  spelt here home ++ [temporaryName token (join home name)]

theorem staging_ne_nil (here : Place) (home name token : String) :
    staging here home name token ≠ [] := by
  simp [staging]

theorem trace_temporary {through : Bool} (ht : IsToken token) (hname : IsFileName name)
    (hstands : ∀ place ∈ way here home, t.Stands place) :
    t.trace through here (temporary token (join home name)) =
      t.follow through 40 (spelt here home) [temporaryName token (join home name)] := by
  have hroute := route_folder_join hname home
  have hway := way_eq_of_route hroute here
  have hplace := spelt_eq_of_route hroute here
  rw [← hway] at hstands
  rw [← hplace]
  exact trace_join hstands (isFileName_temporaryName ht (join home name))

theorem isName_temporaryName (ht : IsToken token)
    (hfits : fits (temporaryName token path) = true) : IsName (temporaryName token path) :=
  isName_of_isFileName (isFileName_temporaryName ht path) hfits

/-- Where nothing stands at its place, the temporary file is written. -/
theorem writeFile_temporary (ht : IsToken token) (hname : IsFileName name)
    (hstands : ∀ place ∈ way here home, t.Stands place)
    (hnone : t.get? (staging here home name token) = none)
    (hfits : fits (temporaryName token (join home name)) = true) :
    t.writeFile here (temporary token (join home name)) bytes =
      .ok (t.insert (staging here home name token) (.file bytes)) := by
  rw [writeFile, resolve, trace_temporary ht hname hstands,
    follow_missing (isName_temporaryName ht hfits) hnone]
  rfl

/-- A name that is too long is refused in every step. -/
theorem follow_temporary_long {through : Bool} (ht : IsToken token)
    (hfits : fits (temporaryName token path) = false) (directory : Place) :
    t.follow through 40 directory [temporaryName token path] = .error .nameTooLong :=
  follow_long (isFileName_temporaryName ht path).ne_dot (isFileName_temporaryName ht path).ne_dotdot
    hfits

theorem locate_temporary (ht : IsToken token) (hname : IsFileName name)
    (hstands : ∀ place ∈ way here home, t.Stands place)
    (hfile : t.get? (staging here home name token) = some (.file bytes))
    (hfits : fits (temporaryName token (join home name)) = true) :
    t.locate here (temporary token (join home name)) =
      .ok (.file (staging here home name token) bytes) := by
  rw [locate, trace_temporary ht hname hstands, follow_file (isName_temporaryName ht hfits) hfile]
  rfl

/-- **A file lands on a name in a directory**, unless a directory stands there. -/
theorem landing_join (hname : IsFileName name) (hfits : fits name = true)
    (hstands : ∀ place ∈ way here home, t.Stands place) :
    t.landing here (join home name) =
      if t.get? (spelt here home ++ [name]) = some .directory then .error .isDirectory
      else .ok (spelt here home ++ [name]) := by
  have hentry := isName_of_isFileName hname hfits
  have hlast : ((pieces (join home name)).getLast?.any
      fun piece => piece == "." || piece == "..") = false := by
    rw [pieces_join hname.no_slash hname.ne_empty, List.getLast?_concat, Option.any_some,
      beq_false_of_ne hname.ne_dot, beq_false_of_ne hname.ne_dotdot]
    rfl
  unfold landing
  dsimp only
  rw [dropSlashes_join hname, locate, trace_join hstands hname, hlast, bne_self_eq_false]
  cases hget : t.get? (spelt here home ++ [name]) with
  | none =>
    have hfollow : t.follow false 40 (spelt here home) [name] =
        .ok (.missing (spelt here home ++ [name])) := follow_missing hentry hget
    rw [hfollow, if_neg (by simp)]
    rfl
  | some node =>
    cases node with
    | directory =>
      have hne : spelt here home ++ [name] ≠ [] := by simp
      obtain ⟨first, more, hmore⟩ := List.exists_cons_of_ne_nil hne
      rw [follow_directory hentry hget, follow_nil, hmore, if_pos rfl]
      rfl
    | file content =>
      have hfollow : t.follow false 40 (spelt here home) [name] =
          .ok (.file (spelt here home ++ [name]) content) := follow_file hentry hget
      rw [hfollow, if_neg (by simp)]
      rfl
    | link target =>
      rw [follow_link_last hentry hget, if_neg (by simp)]
      rfl

end Steps

/-! ## The writer's way -/

section Writer

variable {e e' : FileTree.Error} {v x : FileTree}

/-- What a write leaves is what its writer has done when it rests. -/
theorem write_eq_of_run (w : Writer) (made : Disk) {result : Except Failure String} (steps : Nat)
    (hsteps : steps ≤ 8) (hrests : w.result? = some result)
    (h : ∀ count, (Writer.start .overwrite path content d.nextToken).run .overwrite here
      (count + steps) d = w.run .overwrite here count made) :
    write .overwrite here path content d = (result, { made with begun := d.begun + 1 }) := by
  obtain ⟨count, hcount⟩ : ∃ count, d.patience = count + steps := by
    refine ⟨d.patience - steps, ?_⟩
    unfold patience
    omega
  unfold write
  rw [hcount, h, Writer.run_of_done hrests]
  dsimp only
  rw [hrests]
  rfl

/-! One lemma for each step that a write by itself may take. -/

theorem step_start (path content token : String) (here : Place) (d : Disk) :
    (Writer.start .overwrite path content token).step .overwrite here d =
      match d.tree.makeDirectories here (folder path) with
      | (.ok (), t) => (⟨path, content, token, .stage path⟩, { d with tree := t })
      | (.error e, t) => (⟨path, content, token,
          .done (.error (failure "create directory" (folder path) e))⟩, { d with tree := t }) :=
  rfl

theorem step_stage (path content token : String) (here : Place) (d : Disk) :
    (⟨path, content, token, .stage path⟩ : Writer).step .overwrite here d =
      match d.tree.writeFile here (temporary token path) content.toUTF8 with
      | .ok t => (⟨path, content, token, .publish path⟩, { d with tree := t })
      | .error e => (⟨path, content, token,
          .discard path (failure "write" (temporary token path) e)⟩, d) := by
  unfold Writer.step
  dsimp only [Writer.temporary]
  generalize d.tree.writeFile here (temporary token path) content.toUTF8 = made
  cases made with
  | ok t => rfl
  | error e => rfl

theorem step_publish (path content token : String) (here : Place) (d : Disk) :
    (⟨path, content, token, .publish path⟩ : Writer).step .overwrite here d =
      match d.tree.renameFile here (temporary token path) path with
      | .ok t => (⟨path, content, token, .done (.ok path)⟩, { d with tree := t })
      | .error e => (⟨path, content, token, .discard path (failure "write" path e)⟩, d) := by
  unfold Writer.step
  dsimp only [Writer.temporary]
  generalize d.tree.renameFile here (temporary token path) path = made
  cases made with
  | ok t => rfl
  | error e => rfl

theorem step_discard (path content token : String) (f : Failure) (here : Place) (d : Disk) :
    (⟨path, content, token, .discard path f⟩ : Writer).step .overwrite here d =
      match d.tree.removeFile here (temporary token path) with
      | .ok t => (⟨path, content, token, .done (.error f)⟩, { d with tree := t })
      | .error _ => (⟨path, content, token, .done (.error f)⟩, d) := by
  unfold Writer.step
  dsimp only [Writer.temporary]
  generalize d.tree.removeFile here (temporary token path) = made
  cases made with
  | ok t => rfl
  | error e => rfl

/-! And one for each way through them. -/

theorem write_of_unmade (hmade : d.tree.makeDirectories here (folder path) = (.error e, u)) :
    write .overwrite here path content d =
      (.error (failure "create directory" (folder path) e),
        { d with tree := u, begun := d.begun + 1 }) := by
  refine write_eq_of_run ⟨path, content, d.nextToken,
    .done (.error (failure "create directory" (folder path) e))⟩ { d with tree := u } 1
    (by decide) rfl fun count => ?_
  rw [Writer.run_succ rfl, step_start, hmade]

theorem write_of_unstaged (hmade : d.tree.makeDirectories here (folder path) = (.ok (), u))
    (hstage : u.writeFile here (temporary d.nextToken path) content.toUTF8 = .error e)
    (hdiscard : u.removeFile here (temporary d.nextToken path) = .error e') :
    write .overwrite here path content d =
      (.error (failure "write" (temporary d.nextToken path) e),
        { d with tree := u, begun := d.begun + 1 }) := by
  refine write_eq_of_run ⟨path, content, d.nextToken,
    .done (.error (failure "write" (temporary d.nextToken path) e))⟩ { d with tree := u } 3
    (by decide) rfl fun count => ?_
  rw [Writer.run_succ rfl, step_start, hmade]
  dsimp only
  rw [Writer.run_succ rfl, step_stage, hstage]
  dsimp only
  rw [Writer.run_succ rfl, step_discard, hdiscard]

theorem write_of_unpublished (hmade : d.tree.makeDirectories here (folder path) = (.ok (), u))
    (hstage : u.writeFile here (temporary d.nextToken path) content.toUTF8 = .ok v)
    (hpublish : v.renameFile here (temporary d.nextToken path) path = .error e)
    (hdiscard : v.removeFile here (temporary d.nextToken path) = .ok x) :
    write .overwrite here path content d =
      (.error (failure "write" path e), { d with tree := x, begun := d.begun + 1 }) := by
  refine write_eq_of_run ⟨path, content, d.nextToken,
    .done (.error (failure "write" path e))⟩ { d with tree := x } 4 (by decide) rfl
    fun count => ?_
  rw [Writer.run_succ rfl, step_start, hmade]
  dsimp only
  rw [Writer.run_succ rfl, step_stage, hstage]
  dsimp only
  rw [Writer.run_succ rfl, step_publish, hpublish]
  dsimp only
  rw [Writer.run_succ rfl, step_discard, hdiscard]

theorem write_of_published (hmade : d.tree.makeDirectories here (folder path) = (.ok (), u))
    (hstage : u.writeFile here (temporary d.nextToken path) content.toUTF8 = .ok v)
    (hpublish : v.renameFile here (temporary d.nextToken path) path = .ok x) :
    write .overwrite here path content d =
      (.ok path, { d with tree := x, begun := d.begun + 1 }) := by
  refine write_eq_of_run ⟨path, content, d.nextToken, .done (.ok path)⟩ { d with tree := x } 3
    (by decide) rfl fun count => ?_
  rw [Writer.run_succ rfl, step_start, hmade]
  dsimp only
  rw [Writer.run_succ rfl, step_stage, hstage]
  dsimp only
  rw [Writer.run_succ rfl, step_publish, hpublish]

end Writer

/-! ## The end of a write

Where the directories stand and nothing stands at the place of the temporary file, three
things decide what becomes of a write: whether the temporary name is too long, and else
whether a directory stands at the place of the document. -/

section Ending

variable {u : FileTree}

/-- The tree with the temporary file. -/
def staged (here : Place) (home name content token : String) (u : FileTree) : FileTree :=
  u.insert (staging here home name token) (.file content.toUTF8)

theorem stands_staged (hstands : ∀ place ∈ way here home, u.Stands place)
    (hstaging : staging here home name token ∉ way here home) (content : String) :
    ∀ place ∈ way here home, (staged here home name content token u).Stands place := by
  intro place hon
  have hother : place ≠ staging here home name token := fun heq => hstaging (heq ▸ hon)
  obtain ⟨hdirectory, hfits⟩ := hstands place hon
  refine ⟨?_, hfits⟩
  rw [staged, get?_insert_of_ne (staging_ne_nil here home name token) hother]
  exact hdirectory

/-- Without the temporary file the tree is as it was before. -/
theorem get?_erase_staged (hnone : u.get? (staging here home name token) = none)
    (content : String) (place : Place) :
    ((staged here home name content token u).erase (staging here home name token)).get? place =
      u.get? place := by
  have hne := staging_ne_nil here home name token
  rw [get?_erase hne]
  split_ifs with heq
  · rw [heq, hnone]
  · exact get?_insert_of_ne hne heq

/-- The document lands where a file can land. -/
theorem landing_staged (hname : IsFileName name) (hstands : ∀ place ∈ way here home, u.Stands place)
    (hstaging : staging here home name token ∉ way here home)
    (hfits : fits (temporaryName token (join home name)) = true) (content : String) :
    (staged here home name content token u).landing here (join home name) =
      if u.get? (spelt here home ++ [name]) = some .directory then .error .isDirectory
      else .ok (spelt here home ++ [name]) := by
  have hother : spelt here home ++ [name] ≠ staging here home name token := by
    intro heq
    have hlast := (List.append_inj' heq rfl).2
    exact temporaryName_ne token hname (List.cons.inj hlast).1.symm
  have hland := landing_join hname (fits_of_temporaryName hname hfits)
    (stands_staged hstands hstaging content)
  rwa [staged, get?_insert_of_ne (staging_ne_nil here home name token) hother] at hland

/-- The temporary file stands where it was written. -/
theorem locate_staged (ht : IsToken token) (hname : IsFileName name)
    (hstands : ∀ place ∈ way here home, u.Stands place)
    (hstaging : staging here home name token ∉ way here home)
    (hfits : fits (temporaryName token (join home name)) = true) (content : String) :
    (staged here home name content token u).locate here (temporary token (join home name)) =
      .ok (.file (staging here home name token) content.toUTF8) :=
  locate_temporary ht hname (stands_staged hstands hstaging content)
    (get?_insert_self (staging_ne_nil here home name token)) hfits

/-- And goes to the place of the document, unless a directory stands there. -/
theorem renameFile_staged (ht : IsToken token) (hname : IsFileName name)
    (hstands : ∀ place ∈ way here home, u.Stands place)
    (hstaging : staging here home name token ∉ way here home)
    (hfits : fits (temporaryName token (join home name)) = true) (content : String) :
    (staged here home name content token u).renameFile here (temporary token (join home name))
        (join home name) =
      if u.get? (spelt here home ++ [name]) = some .directory then .error .isDirectory
      else .ok (((staged here home name content token u).erase
        (staging here home name token)).insert (spelt here home ++ [name])
          (.file content.toUTF8)) := by
  rw [renameFile, locate_staged ht hname hstands hstaging hfits content]
  dsimp only
  rw [landing_staged hname hstands hstaging hfits content]
  split_ifs <;> rfl

variable (content) (hname : IsFileName name)
variable (hmade : d.tree.makeDirectories here (folder (join home name)) = (.ok (), u))
variable (hstands : ∀ place ∈ way here home, u.Stands place)

include hname hmade hstands

/-- With a name that is too long nothing is written. -/
theorem write_of_long (hlong : fits (temporaryName d.nextToken (join home name)) = false) :
    ∃ f, write .overwrite here (join home name) content d =
      (.error f, { d with tree := u, begun := d.begun + 1 }) := by
  have htrace : ∀ through : Bool, u.trace through here (temporary d.nextToken (join home name)) =
      .error .nameTooLong := by
    intro through
    rw [trace_temporary d.isToken_nextToken hname hstands,
      follow_temporary_long d.isToken_nextToken hlong]
  have hstage : u.writeFile here (temporary d.nextToken (join home name)) content.toUTF8 =
      .error .nameTooLong := by
    rw [writeFile, resolve, htrace]
  have hdiscard : u.removeFile here (temporary d.nextToken (join home name)) =
      .error .nameTooLong := by
    rw [removeFile, locate, htrace]
  exact ⟨_, write_of_unstaged hmade hstage hdiscard⟩

variable (hnone : u.get? (staging here home name d.nextToken) = none)
variable (hstaging : staging here home name d.nextToken ∉ way here home)
variable (hfits : fits (temporaryName d.nextToken (join home name)) = true)

include hnone hstaging hfits

/-- In the place of a directory nothing is written, and the temporary file is removed. -/
theorem write_of_directory (hdirectory : u.get? (spelt here home ++ [name]) = some .directory) :
    ∃ f v, write .overwrite here (join home name) content d =
        (.error f, { d with tree := v, begun := d.begun + 1 }) ∧
      ∀ place, v.get? place = u.get? place := by
  have hstage : u.writeFile here (temporary d.nextToken (join home name)) content.toUTF8 =
      .ok (staged here home name content d.nextToken u) :=
    writeFile_temporary d.isToken_nextToken hname hstands hnone hfits
  have hpublish := renameFile_staged d.isToken_nextToken hname hstands hstaging hfits content
  rw [if_pos hdirectory] at hpublish
  have hdiscard : (staged here home name content d.nextToken u).removeFile here
      (temporary d.nextToken (join home name)) =
        .ok ((staged here home name content d.nextToken u).erase
          (staging here home name d.nextToken)) := by
    rw [removeFile, locate_staged d.isToken_nextToken hname hstands hstaging hfits content]
  exact ⟨_, _, write_of_unpublished hmade hstage hpublish hdiscard, get?_erase_staged hnone content⟩

/-- Else the document is written to its place. -/
theorem write_of_free (hfree : u.get? (spelt here home ++ [name]) ≠ some .directory) :
    ∃ v, write .overwrite here (join home name) content d =
        (.ok (join home name), { d with tree := v, begun := d.begun + 1 }) ∧
      ∀ place, v.get? place =
        (u.insert (spelt here home ++ [name]) (.file content.toUTF8)).get? place := by
  have hstage : u.writeFile here (temporary d.nextToken (join home name)) content.toUTF8 =
      .ok (staged here home name content d.nextToken u) :=
    writeFile_temporary d.isToken_nextToken hname hstands hnone hfits
  have hpublish := renameFile_staged d.isToken_nextToken hname hstands hstaging hfits content
  rw [if_neg hfree] at hpublish
  refine ⟨_, write_of_published hmade hstage hpublish, fun place => ?_⟩
  have hne : spelt here home ++ [name] ≠ [] := by simp
  rw [get?_insert hne, get?_insert hne, get?_erase_staged hnone]

end Ending

/-! ## A document by itself -/

/-- A document with this path can be written. -/
structure Accepts (here : Place) (path : String) (t : FileTree) : Prop where
  admits : ∀ place ∈ way here (folder path), t.Admits place
  short : ∀ token, IsToken token → fits (temporaryName token path) = true
  free : t.get? (spelt here path) ≠ some .directory

/-- What a write yields: the document where it was to be written, or nothing but
directories on the way. -/
inductive Yields (here : Place) (path content : String) (t : FileTree) :
    Except Failure String → FileTree → Prop
  | written {u v : FileTree} : Accepts here path t →
      Gains (way here (folder path)) t u →
      (∀ place, v.get? place =
        if place = spelt here path then some (.file content.toUTF8) else u.get? place) →
      Yields here path content t (.ok path) v
  | refused {f : Failure} {v : FileTree} : ¬ Accepts here path t →
      Gains (way here (folder path)) t v → Yields here path content t (.error f) v

/-- A tree that has the same entries as a closed one is closed. -/
theorem isClosed_congr (h : ∀ place, t.get? place = u.get? place) (hu : u.IsClosed) :
    t.IsClosed := by
  intro place name node hnode
  rw [h] at hnode ⊢
  exact hu place name node hnode

/-- Where directories stand on the way, one stands at its end. -/
theorem get?_spelt (hc : t.IsClosed) (hb : t.get? here = some .directory)
    (hstands : ∀ place ∈ way here home, t.Stands place) :
    t.get? (spelt here home) = some .directory := by
  have hfollow : t.follow true 0 (start here home) (pieces home) =
      .ok (.directory (spelt here home)) := follow_of_stands hstands
  exact (follow_eq_ok_iff.1 hfollow).get?_directory hc (get?_start hb home)

/-- **What a write by itself yields**, if nothing stands at the place of its temporary file and
neither that nor its own place is on the way. -/
theorem write_yields (hc : d.tree.IsClosed) (hb : d.tree.get? here = some .directory)
    (hname : IsFileName name)
    (hlinks : ∀ place ∈ way here home, ∀ target, d.tree.get? place ≠ some (.link target))
    (hvacant : d.tree.get? (staging here home name d.nextToken) = none)
    (hstaging : staging here home name d.nextToken ∉ way here home)
    (hgoal : spelt here (join home name) ∉ way here home) :
    let out := write .overwrite here (join home name) content d
    Yields here (join home name) content d.tree out.1 out.2.tree ∧ out.2.tree.IsClosed ∧
      out.2.begun = d.begun + 1 := by
  have ht : IsToken d.nextToken := d.isToken_nextToken
  have hfolder := built_folder hb hname hlinks
  have hadds : Adds (fun _ => True) d.tree
      (d.tree.makeDirectories here (folder (join home name))).2 :=
    makeDirectories_adds hc hb fun _ _ _ => trivial
  have hplace := spelt_join hname here home
  obtain ⟨result, u, hmade⟩ : ∃ result u,
      d.tree.makeDirectories here (folder (join home name)) = (result, u) := ⟨_, _, rfl⟩
  rw [hmade] at hfolder hadds
  obtain ⟨hgains, hok, hstands⟩ := hfolder
  have hclosed : u.IsClosed := hadds.closed hc
  have hway := way_eq_of_route (route_folder_join hname home) here
  have hgained : Gains (way here (folder (join home name))) d.tree u := hway.symm ▸ hgains
  cases result with
  | error e =>
    rw [write_of_unmade hmade]
    refine ⟨.refused (fun haccepts => ?_) hgained, hclosed, rfl⟩
    exact absurd (hok.2 (hway ▸ haccepts.admits)) nofun
  | ok _ =>
    have hadmits := hok.1 rfl
    replace hstands := hstands rfl
    have hnone : u.get? (staging here home name d.nextToken) = none := by
      rcases hgains (staging here home name d.nextToken) with hsame | ⟨-, -, hon⟩
      · rw [hsame, hvacant]
      · exact absurd hon hstaging
    -- making directories makes none in the place of the document
    have hgoal' : u.get? (spelt here home ++ [name]) = d.tree.get? (spelt here home ++ [name]) := by
      rcases hgains (spelt here home ++ [name]) with hsame | ⟨-, -, hon⟩
      · exact hsame
      · exact absurd (hplace ▸ hon) hgoal
    cases hfits : fits (temporaryName d.nextToken (join home name)) with
    | false =>
      obtain ⟨f, hwrite⟩ := write_of_long content hname hmade hstands hfits
      rw [hwrite]
      refine ⟨.refused (fun haccepts => ?_) hgained, hclosed, rfl⟩
      rw [haccepts.short _ ht] at hfits
      cases hfits
    | true =>
      by_cases hdirectory : u.get? (spelt here home ++ [name]) = some .directory
      · obtain ⟨f, v, hwrite, hv⟩ := write_of_directory content hname hmade hstands hnone
          hstaging hfits hdirectory
        rw [hwrite]
        refine ⟨.refused (fun haccepts => ?_) fun place => ?_, isClosed_congr hv hclosed, rfl⟩
        · rw [hgoal', ← hplace] at hdirectory
          exact haccepts.free hdirectory
        · rw [hv]
          exact hgained place
      · obtain ⟨v, hwrite, hv⟩ := write_of_free content hname hmade hstands hnone
          hstaging hfits hdirectory
        have hbase : u.get? here = some .directory := hadds.kept _ _ hb
        have hthere := hclosed.insert (get?_spelt hclosed hbase hstands) hdirectory
          (.file content.toUTF8)
        rw [hwrite]
        refine ⟨.written ⟨hway.symm ▸ hadmits, fun token htoken => ?_, ?_⟩ hgained fun place => ?_,
          isClosed_congr hv hthere, rfl⟩
        · rw [fits_temporaryName htoken ht, hfits]
        · rwa [hplace, ← hgoal']
        · rw [hv, get?_insert (by simp), hplace]

end Docsmith.Disk
