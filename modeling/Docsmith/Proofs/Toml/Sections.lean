import Docsmith.Proofs.Json.Parts
import Docsmith.Proofs.Toml.Keys
import Docsmith.Toml.Printer
/-!
# TOML — tables come back

A document states a table section by section: each has the path of its header and
the fields whose values stand on lines. Taking up the sections of a value one after
the other builds the value again (`build_sections`).
-/


namespace Docsmith.Toml

open Json (Number reread EveryObject)

variable {name : String} {num : Number → Number} {before : Fields}

/-! ## Sections -/

/-- A table as a document states it: its path, whether it is an item of an array, and
its fields. -/
structure Section where
  path : List String
  array : Bool
  fields : List (String × Json)

/-- The fields whose values stand on lines. -/
def onLines (fields : List (String × Json)) : List (String × Json) :=
  fields.filter fun field => !hasBlocks field.2

/-- The tables once a header stands. -/
def Section.opened (s : Section) (root : Fields) : Option Fields :=
  match s.path.getLast? with
  | some name =>
    root.inside (fun fields => if s.array then fields.append name else fields.state name)
      s.path.dropLast
  | none => some root

/-- The tables once the values on lines stand. -/
def Section.filled (num : Number → Number) (s : Section) (root : Fields) : Option Fields :=
  (onLines s.fields).foldlM (fun root field =>
    root.inside (fun fields => fields.put (reread num field.2) false false [field.1]) s.path) root

/-- The tables once a section stands. -/
def Section.apply (num : Number → Number) (s : Section) (root : Fields) : Option Fields :=
  (s.opened root).bind (s.filled num)

/-- The tables once some sections stand. -/
def build (num : Number → Number) (sections : List Section) (root : Fields) : Option Fields :=
  sections.foldlM (fun root s => s.apply num root) root

/-- A section below a name. -/
def Section.under (name : String) (s : Section) : Section :=
  { s with path := name :: s.path }

theorem foldlM_map {α β γ : Type} {f : α → γ → Option α} {g : β → γ → Option β} {e : α → β}
    (h : ∀ a x, g (e a) x = (f a x).map e) (xs : List γ) (a : α) :
    xs.foldlM g (e a) = (xs.foldlM f a).map e := by
  induction xs generalizing a with
  | nil => rfl
  | cons x xs ih =>
    rw [List.foldlM_cons, List.foldlM_cons, h]
    cases f a x with
    | none => rfl
    | some b => exact ih b

theorem Section.opened_of_ne_nil {s : Section} (hpath : s.path ≠ []) (root : Fields) :
    s.opened root = root.inside (fun fields =>
      if s.array then fields.append (s.path.getLast hpath) else fields.state (s.path.getLast hpath))
      s.path.dropLast := by
  rw [opened, List.getLast?_eq_some_getLast hpath]

/-- A header below a name works inside what the name holds. -/
theorem Section.opened_under {s : Section} (hpath : s.path ≠ []) {hold : Fields → Fields}
    (h : Holds name hold) (inner : Fields) :
    (s.under name).opened (hold inner) = (s.opened inner).map hold := by
  have hunder : (s.under name).path ≠ [] := List.cons_ne_nil name s.path
  rw [opened_of_ne_nil hunder, opened_of_ne_nil hpath]
  simp only [under, List.getLast_cons hpath, List.dropLast_cons_of_ne_nil hpath]
  exact h _ _ inner

theorem Section.opened_under_of_lacks {s : Section} (hpath : s.path ≠ []) (h : Lacks name before) :
    (s.under name).opened before =
      (s.opened []).map fun inner => before ++ [(name, .table .implied inner)] := by
  have hunder : (s.under name).path ≠ [] := List.cons_ne_nil name s.path
  rw [opened_of_ne_nil hunder, opened_of_ne_nil hpath]
  simp only [under, List.getLast_cons hpath, List.dropLast_cons_of_ne_nil hpath]
  exact inside_of_lacks h _ _

theorem Section.filled_under (s : Section) {hold : Fields → Fields} (h : Holds name hold)
    (inner : Fields) :
    (s.under name).filled num (hold inner) = (s.filled num inner).map hold :=
  foldlM_map (fun root _ => h _ s.path root) _ inner

theorem Section.apply_under {s : Section} (hpath : s.path ≠ []) {hold : Fields → Fields}
    (h : Holds name hold) (inner : Fields) :
    (s.under name).apply num (hold inner) = (s.apply num inner).map hold := by
  rw [apply, apply, opened_under hpath h, Option.bind_map, Option.map_bind]
  exact congrArg _ (funext fun opened => s.filled_under h opened)

theorem Section.apply_under_of_lacks {s : Section} (hpath : s.path ≠ []) (h : Lacks name before) :
    (s.under name).apply num before =
      (s.apply num []).map fun inner => before ++ [(name, .table .implied inner)] := by
  rw [apply, apply, opened_under_of_lacks hpath h, Option.bind_map, Option.map_bind]
  exact congrArg _ (funext fun opened => s.filled_under (holds_table h .implied) opened)

/-- Sections below a name build what the name holds. -/
theorem build_under {sections : List Section} (hpaths : ∀ s ∈ sections, s.path ≠ [])
    {hold : Fields → Fields} (h : Holds name hold) (inner : Fields) :
    build num (sections.map (·.under name)) (hold inner) =
      (build num sections inner).map hold := by
  induction sections generalizing inner with
  | nil => rfl
  | cons s sections ih =>
    obtain ⟨hs, hsections⟩ := List.forall_mem_cons.1 hpaths
    rw [List.map_cons, build, build, List.foldlM_cons, List.foldlM_cons, s.apply_under hs h]
    cases s.apply num inner with
    | none => rfl
    | some inner => exact ih hsections inner

/-- Sections below a name that is not there make a table on the way. -/
theorem build_under_of_lacks {s : Section} {sections : List Section}
    (hpaths : ∀ t ∈ s :: sections, t.path ≠ []) (h : Lacks name before) :
    build num ((s :: sections).map (·.under name)) before =
      (build num (s :: sections) []).map fun inner =>
        before ++ [(name, .table .implied inner)] := by
  obtain ⟨hs, hsections⟩ := List.forall_mem_cons.1 hpaths
  rw [List.map_cons, build, build, List.foldlM_cons, List.foldlM_cons, s.apply_under_of_lacks hs h]
  cases s.apply num [] with
  | none => rfl
  | some inner => exact build_under hsections (holds_table h .implied) inner

/-! ## The sections of a value -/

mutual

/-- The sections of a value under a path. -/
def sections (path : List String) : Json → List Section
  | .object fields => ⟨path, false, fields⟩ :: fieldSections path fields
  | .array items => if items.all isTable then itemSections path items else []
  | _ => []

/-- The sections of the items of an array. -/
def itemSections (path : List String) : List Json → List Section
  | [] => []
  | .object fields :: items =>
    ⟨path, true, fields⟩ :: fieldSections path fields ++ itemSections path items
  | _ :: items => itemSections path items

/-- The sections of the fields of a table. -/
def fieldSections (path : List String) : List (String × Json) → List Section
  | [] => []
  | (name, value) :: fields => sections (path ++ [name]) value ++ fieldSections path fields

end

/-- The block of a section. -/
def Section.block (s : Section) : Block :=
  .ofFields (s.path.map fun name => quoteKey name.toList) s.array s.fields

/-- The section is written. -/
def Section.isShown (s : Section) : Bool :=
  s.block.isShown

theorem itemBlocks_eq {items : List Json} (path : List String)
    (h : ∀ item ∈ items, blocks (path.map fun name => quoteKey name.toList) item =
      (sections path item).map Section.block) :
    itemBlocks (path.map fun name => quoteKey name.toList) items =
      (itemSections path items).map Section.block := by
  induction items with
  | nil => rfl
  | cons item items ih =>
    obtain ⟨hitem, hitems⟩ := List.forall_mem_cons.1 h
    cases item with
    | object fields =>
      rw [blocks, sections, List.map_cons, List.cons.injEq] at hitem
      rw [itemBlocks, itemSections, ih hitems, hitem.2, List.map_append, List.map_cons]
      rfl
    | _ => exact ih hitems

/-- **The blocks of a value are those of its sections**, by induction on its
parts. -/
theorem blocks_eq (path : List String) (v : Json) :
    blocks (path.map fun name => quoteKey name.toList) v = (sections path v).map Section.block := by
  induction v using Json.parts_induction generalizing path with
  | null => rfl
  | bool b => rfl
  | number n => rfl
  | string s => rfl
  | array items ih =>
    rw [blocks, sections, itemBlocks_eq path fun item hitem => ih item hitem path]
    split_ifs <;> rfl
  | object fields ih =>
    have hfields : fieldBlocks (path.map fun name => quoteKey name.toList) fields =
        (fieldSections path fields).map Section.block := by
      induction fields with
      | nil => rfl
      | cons field fields ihf =>
        obtain ⟨name, value⟩ := field
        obtain ⟨hfield, hfields⟩ := List.forall_mem_cons.1 ih
        have hvalue := hfield (path ++ [name])
        rw [List.map_append, List.map_cons, List.map_nil] at hvalue
        rw [fieldBlocks, fieldSections, ihf hfields, List.map_append, hvalue]
    rw [blocks, sections, List.map_cons, hfields]
    rfl

theorem itemSections_cons {items : List Json} (name : String) (path : List String)
    (h : ∀ item ∈ items, sections (name :: path) item =
      (sections path item).map (Section.under name)) :
    itemSections (name :: path) items = (itemSections path items).map (Section.under name) := by
  induction items with
  | nil => rfl
  | cons item items ih =>
    obtain ⟨hitem, hitems⟩ := List.forall_mem_cons.1 h
    cases item with
    | object fields =>
      rw [sections, sections, List.map_cons, List.cons.injEq] at hitem
      rw [itemSections, itemSections, ih hitems, hitem.2, List.map_append, List.map_cons]
      rfl
    | _ => exact ih hitems

theorem fieldSections_cons {fields : List (String × Json)} (name : String) (path : List String)
    (h : ∀ field ∈ fields, ∀ path, sections (name :: path) field.2 =
      (sections path field.2).map (Section.under name)) :
    fieldSections (name :: path) fields =
      (fieldSections path fields).map (Section.under name) := by
  induction fields with
  | nil => rfl
  | cons field fields ih =>
    obtain ⟨hfield, hfields⟩ := List.forall_mem_cons.1 h
    rw [fieldSections, fieldSections, ih hfields, List.cons_append, hfield, List.map_append]

/-- Sections under a longer path are those under the shorter one, below a name. -/
theorem sections_cons (name : String) (path : List String) (v : Json) :
    sections (name :: path) v = (sections path v).map (Section.under name) := by
  induction v using Json.parts_induction generalizing path with
  | null => rfl
  | bool b => rfl
  | number n => rfl
  | string s => rfl
  | array items ih =>
    rw [sections, sections, itemSections_cons name path fun item hitem => ih item hitem path]
    split_ifs <;> rfl
  | object fields ih =>
    rw [sections, sections, fieldSections_cons name path ih]
    rfl

section Forall

variable {P : Section → Prop} {path : List String}

/-- What holds of the sections of each table holds of those of an array of them, unless
it tells arrays apart. -/
theorem forall_mem_itemSections {items : List Json}
    (harray : ∀ fields, P ⟨path, false, fields⟩ → P ⟨path, true, fields⟩)
    (h : ∀ item ∈ items, ∀ s ∈ sections path item, P s) : ∀ s ∈ itemSections path items, P s := by
  induction items with
  | nil => simp [itemSections]
  | cons item items ih =>
    obtain ⟨hitem, hitems⟩ := List.forall_mem_cons.1 h
    cases item with
    | object fields =>
      rw [sections, List.forall_mem_cons] at hitem
      rw [itemSections, List.cons_append, List.forall_mem_cons, List.forall_mem_append]
      exact ⟨harray fields hitem.1, hitem.2, ih hitems⟩
    | _ => exact ih hitems

theorem forall_mem_fieldSections {fields : List (String × Json)}
    (h : ∀ field ∈ fields, ∀ s ∈ sections (path ++ [field.1]) field.2, P s) :
    ∀ s ∈ fieldSections path fields, P s := by
  induction fields with
  | nil => simp [fieldSections]
  | cons field fields ih =>
    obtain ⟨hfield, hfields⟩ := List.forall_mem_cons.1 h
    rw [fieldSections, List.forall_mem_append]
    exact ⟨hfield, ih hfields⟩

end Forall

/-- A section under a path has one. -/
theorem ne_nil_of_mem_sections (v : Json) :
    ∀ path ≠ [], ∀ s ∈ sections path v, s.path ≠ [] := by
  induction v using Json.parts_induction with
  | null => simp [sections]
  | bool b => simp [sections]
  | number n => simp [sections]
  | string s => simp [sections]
  | array items ih =>
    intro path hpath
    rw [sections]
    split_ifs
    · exact forall_mem_itemSections (fun _ h => h) fun item hitem => ih item hitem path hpath
    · simp
  | object fields ih =>
    intro path hpath
    rw [sections, List.forall_mem_cons]
    exact ⟨hpath, forall_mem_fieldSections fun field hfield => ih field hfield _ (by simp)⟩

theorem ne_nil_of_mem_fieldSections (path : List String) (fields : List (String × Json)) :
    ∀ s ∈ fieldSections path fields, s.path ≠ [] :=
  forall_mem_fieldSections fun field _ => ne_nil_of_mem_sections field.2 _ (by simp)

/-! ## What the sections build -/

/-- The sections of the fields of a table, as they are written. -/
def shownBelow (fields : List (String × Json)) : List Section :=
  (fieldSections [] fields).filter Section.isShown

theorem isShown_of_ne_nil {s : Section} (hpath : s.path ≠ []) :
    s.isShown = (s.array || !(ownLines s.fields).isEmpty ||
      !s.fields.any fun field => hasBlocks field.2) := by
  rw [Section.isShown, Section.block, Block.isShown, Block.ofFields, if_neg]
  simpa using hpath

theorem filter_isShown_under {sections : List Section} (h : ∀ s ∈ sections, s.path ≠ [])
    (name : String) :
    (sections.map (Section.under name)).filter Section.isShown =
      (sections.filter Section.isShown).map (Section.under name) := by
  rw [List.filter_map]
  refine congrArg _ (List.filter_congr fun s hs => ?_)
  rw [Function.comp, isShown_of_ne_nil (List.cons_ne_nil name s.path), isShown_of_ne_nil (h s hs)]
  rfl

theorem onLines_eq_nil {fields : List (String × Json)} (h : (ownLines fields).isEmpty = true) :
    onLines fields = [] := by
  rw [ownLines, List.isEmpty_iff, List.flatMap_eq_nil_iff] at h
  refine List.eq_nil_iff_forall_not_mem.2 fun field hfield => ?_
  have hline := h field hfield
  simp at hline

/-- The written sections below a name are those below its table. -/
theorem filter_fieldSections (name : String) (fields : List (String × Json)) :
    (fieldSections [name] fields).filter Section.isShown =
      (shownBelow fields).map (Section.under name) := by
  rw [fieldSections_cons name [] fun field _ path => sections_cons name path field.2]
  exact filter_isShown_under
    (ne_nil_of_mem_fieldSections [] fields) name

theorem filter_itemSections (name : String) (fields : List (String × Json)) (items : List Json) :
    (itemSections [name] (.object fields :: items)).filter Section.isShown =
      ⟨[name], true, fields⟩ :: (shownBelow fields).map (Section.under name) ++
        (itemSections [name] items).filter Section.isShown := by
  rw [itemSections, List.filter_append, List.filter_cons_of_pos, filter_fieldSections]
  rfl

theorem build_append (first second : List Section) (root : Fields) :
    build num (first ++ second) root = (build num first root).bind (build num second) :=
  List.foldlM_append

theorem sections_eq_nil {v : Json} (h : hasBlocks v = false) (path : List String) :
    sections path v = [] := by
  cases v with
  | object fields => cases h
  | array items =>
    rw [sections]
    cases items with
    | nil => rfl
    | cons item items =>
      rw [if_neg]
      simpa [hasBlocks] using h
  | _ => rfl

theorem eq_of_key_eq {fields : List (String × Json)} (h : Ordered.HasDistinctKeys fields)
    {field other : String × Json} (hfield : field ∈ fields) (hother : other ∈ fields)
    (hkey : field.1 = other.1) : field = other := by
  have hfind := (Ordered.find?_eq_some h).2 hfield
  rw [hkey, (Ordered.find?_eq_some h).2 hother] at hfind
  exact Prod.ext hkey (Option.some.inj hfind).symm

/-- A field whose value was read. -/
def rereadField (num : Number → Number) (field : String × Json) : String × Json :=
  (field.1, reread num field.2)

/-- Values on lines stand in their order behind what was there. -/
theorem foldlM_put {fields : List (String × Json)} (hdistinct : Ordered.HasDistinctKeys fields) :
    ∀ before : Fields, (∀ field ∈ fields, Lacks field.1 before) →
      fields.foldlM (fun (root : Fields) field =>
          root.put (reread num field.2) false false [field.1]) before =
        some (before ++ (fields.map (rereadField num)).map finished) := by
  induction fields with
  | nil => exact fun before _ => congrArg some (List.append_nil before).symm
  | cons field fields ih =>
    obtain ⟨hhead, htail⟩ := List.pairwise_cons.1 hdistinct
    intro before hbefore
    obtain ⟨hfield, hfields⟩ := List.forall_mem_cons.1 hbefore
    have hmore := ih htail (before ++ [(field.1, .value (reread num field.2))])
      fun other hother => (hfields other hother).concat (hhead other hother) _
    rw [List.foldlM_cons, put_of_lacks hfield, Option.bind_eq_bind, Option.bind_some, hmore,
      List.append_assoc]
    rfl

/-- A value that gets sections of its own is built under its name by them. -/
def Builds (num : Number → Number) (v : Json) : Prop :=
  ∀ name, ∃ node : Node, node.finish = reread num v ∧
    ∀ before, Lacks name before →
      build num ((sections [name] v).filter Section.isShown) before =
        some (before ++ [(name, node)])

/-- The fields with sections of their own are built one after the other. -/
theorem exists_build_shownBelow {fields : List (String × Json)}
    (hdistinct : Ordered.HasDistinctKeys fields)
    (h : ∀ field ∈ fields, hasBlocks field.2 = true → Builds num field.2) :
    ∃ nodes : Fields,
      finishFields nodes =
        (fields.filter fun field => hasBlocks field.2).map (rereadField num) ∧
      ∀ before, (∀ field ∈ fields, hasBlocks field.2 = true → Lacks field.1 before) →
        build num (shownBelow fields) before = some (before ++ nodes) := by
  induction fields with
  | nil => exact ⟨[], rfl, fun before _ => congrArg some (List.append_nil before).symm⟩
  | cons field fields ih =>
    obtain ⟨hhead, htail⟩ := List.pairwise_cons.1 hdistinct
    obtain ⟨hfield, hfields⟩ := List.forall_mem_cons.1 h
    obtain ⟨nodes, hfinish, hbuild⟩ := ih htail hfields
    have hshown : shownBelow (field :: fields) =
        (sections [field.1] field.2).filter Section.isShown ++ shownBelow fields := by
      rw [shownBelow, fieldSections, List.filter_append]
      rfl
    cases hblocks : hasBlocks field.2 with
    | false =>
      refine ⟨nodes, ?_, fun before hbefore => ?_⟩
      · rw [List.filter_cons_of_neg (by simp [hblocks]), hfinish]
      · rw [hshown, sections_eq_nil hblocks]
        exact hbuild before (List.forall_mem_cons.1 hbefore).2
    | true =>
      obtain ⟨node, hnode, hbuildNode⟩ := hfield hblocks field.1
      refine ⟨(field.1, node) :: nodes, ?_, fun before hbefore => ?_⟩
      · rw [List.filter_cons_of_pos (by simpa using hblocks), List.map_cons, finishFields, hnode,
          hfinish]
        rfl
      · obtain ⟨hlacks, hothers⟩ := List.forall_mem_cons.1 hbefore
        rw [hshown, build_append, hbuildNode before (hlacks hblocks), Option.bind_some, hbuild,
          List.append_assoc]
        · rfl
        · exact fun other hother hotherBlocks =>
            (hothers other hother hotherBlocks).concat (hhead other hother) _

/-- The nodes that the lines and the sections of a table leave in it. -/
structure Fills (num : Number → Number) (fields : List (String × Json)) (nodes : Fields) :
    Prop where
  finish : nodes.finish = reread num (.object fields)
  ne_nil : fields ≠ [] → nodes ≠ []
  build : ((⟨[], false, fields⟩ : Section).filled num []).bind (build num (shownBelow fields)) =
    some nodes

/-- The fields on lines come first, and then those with sections. -/
theorem exists_fills {fields : List (String × Json)} (hdistinct : Ordered.HasDistinctKeys fields)
    (h : ∀ field ∈ fields, hasBlocks field.2 = true → Builds num field.2) :
    ∃ nodes, Fills num fields nodes := by
  obtain ⟨below, hfinish, hbuild⟩ := exists_build_shownBelow hdistinct h
  let own : Fields := ((onLines fields).map (rereadField num)).map finished
  have hperm : (onLines fields ++ fields.filter fun field => hasBlocks field.2).Perm fields :=
    List.perm_append_comm.trans (List.filter_append_perm _ fields)
  have hnodes : (finishFields (own ++ below)).Perm (fields.map (rereadField num)) := by
    rw [finishFields_append, finishFields_finished, hfinish, ← List.map_append]
    exact hperm.map _
  refine ⟨own ++ below, ?_, ?_, ?_⟩
  · have hkeys : Ordered.HasDistinctKeys (fields.map (rereadField num)) :=
      List.pairwise_map.2 hdistinct
    rw [Fields.finish, reread, Json.rereadFields_eq, Json.ofFields, Json.ofFields]
    exact congrArg _ (Ordered.ofList_perm hkeys hnodes.symm).symm
  · intro hfields hnil
    rw [hnil] at hnodes
    exact hfields (List.map_eq_nil_iff.1 (List.nil_perm.1 hnodes))
  · have hown : (⟨[], false, fields⟩ : Section).filled num [] = some own :=
      foldlM_put (hdistinct.sublist List.filter_sublist) [] fun _ _ _ hentry => by cases hentry
    rw [hown, Option.bind_some]
    refine hbuild own fun field hfield hblocks entry hentry hname => ?_
    obtain ⟨_, hread, rfl⟩ := List.mem_map.1 hentry
    obtain ⟨other, hother, rfl⟩ := List.mem_map.1 hread
    obtain ⟨hmem, hline⟩ := List.mem_filter.1 hother
    rw [← eq_of_key_eq hdistinct hmem hfield hname] at hblocks
    simp [hblocks] at hline

/-- A table whose header stands is filled in its place. -/
theorem Fills.build_opened {fields : List (String × Json)} {nodes : Fields} {array : Bool}
    {hold : Fields → Fields} (h : Fills num fields nodes) (hhold : Holds name hold)
    (hopened : (⟨[name], array, fields⟩ : Section).opened before = some (hold [])) :
    Toml.build num (⟨[name], array, fields⟩ :: (shownBelow fields).map (Section.under name))
      before = some (hold nodes) := by
  have hpaths : ∀ s ∈ shownBelow fields, s.path ≠ [] := fun s hs =>
    ne_nil_of_mem_fieldSections [] _ s
      (List.mem_filter.1 hs).1
  have hfilled : (⟨[name], array, fields⟩ : Section).filled num (hold []) =
      ((⟨[], false, fields⟩ : Section).filled num []).map hold :=
    Section.filled_under ⟨[], array, fields⟩ hhold []
  rw [Toml.build, List.foldlM_cons, Section.apply, hopened, Option.bind_some, hfilled]
  have hbuild := h.build
  cases hown : (⟨[], false, fields⟩ : Section).filled num [] with
  | none => rw [hown] at hbuild; cases hbuild
  | some own =>
    rw [hown, Option.bind_some] at hbuild
    exact (build_under hpaths hhold own).trans (congrArg (Option.map hold) hbuild)

/-- A table that is written gets its header, and one that only leads to others comes
to be on the way. -/
theorem builds_object {fields : List (String × Json)} {nodes : Fields}
    (h : Fills num fields nodes) :
    Builds num (.object fields) := by
  intro name
  have hsections : (sections [name] (.object fields)).filter Section.isShown =
      (if (⟨[name], false, fields⟩ : Section).isShown then [⟨[name], false, fields⟩] else []) ++
        (shownBelow fields).map (Section.under name) := by
    rw [sections, List.filter_cons, filter_fieldSections]
    split_ifs <;> rfl
  rw [hsections]
  by_cases hshown : (⟨[name], false, fields⟩ : Section).isShown = true
  · refine ⟨.table .stated nodes, h.finish, fun before hlacks => ?_⟩
    rw [if_pos hshown]
    exact h.build_opened (holds_table hlacks .stated) (change_of_lacks hlacks _)
  · refine ⟨.table .implied nodes, h.finish, fun before hlacks => ?_⟩
    rw [if_neg hshown, List.nil_append]
    rw [isShown_of_ne_nil (List.cons_ne_nil name [])] at hshown
    simp only [Bool.false_or, Bool.or_eq_true, Bool.not_eq_true', not_or,
      Bool.not_eq_false] at hshown
    obtain ⟨hlines, hblocks⟩ := hshown
    have hown : (⟨[], false, fields⟩ : Section).filled num [] = some [] := by
      rw [Section.filled, onLines_eq_nil hlines]
      rfl
    have hbuild := h.build
    rw [hown, Option.bind_some] at hbuild
    have hfields : fields ≠ [] := by
      rintro rfl
      cases hblocks
    have hpaths : ∀ s ∈ shownBelow fields, s.path ≠ [] := fun s hs =>
      ne_nil_of_mem_fieldSections [] _ s
        (List.mem_filter.1 hs).1
    cases hbelow : shownBelow fields with
    | nil =>
      rw [hbelow] at hbuild
      exact absurd (Option.some.inj hbuild).symm (h.ne_nil hfields)
    | cons s below =>
      rw [hbelow] at hbuild hpaths
      rw [build_under_of_lacks hpaths hlacks, hbuild]
      rfl

/-- An item more of an array of tables closes the one before. -/
theorem exists_build_items {items : List Json} (htables : items.all isTable = true)
    (h : ∀ item ∈ items, EveryObject (fun fields => ∃ nodes, Fills num fields nodes) item)
    (name : String) :
    ∀ closed last, ∃ closed' last',
      closed' ++ [Fields.finish last'] =
        closed ++ [Fields.finish last] ++ items.map (reread num) ∧
      ∀ before, Lacks name before →
        build num ((itemSections [name] items).filter Section.isShown)
            (before ++ [(name, .tables closed last)]) =
          some (before ++ [(name, .tables closed' last')]) := by
  induction items with
  | nil => exact fun closed last => ⟨closed, last, (List.append_nil _).symm, fun _ _ => rfl⟩
  | cons item items ih =>
    obtain ⟨hitem, hitems⟩ := List.forall_mem_cons.1 h
    rw [List.all_cons, Bool.and_eq_true] at htables
    intro closed last
    cases item with
    | object fields =>
      obtain ⟨nodes, hnodes⟩ := hitem.1
      obtain ⟨closed', last', hfinish, hbuild⟩ :=
        ih htables.2 hitems (closed ++ [Fields.finish last]) nodes
      refine ⟨closed', last', ?_, fun before hlacks => ?_⟩
      · rw [hfinish, hnodes.finish, List.map_cons, List.append_assoc _ [_], List.singleton_append]
      · rw [filter_itemSections, build_append]
        have hheader : (⟨[name], true, fields⟩ : Section).opened
            (before ++ [(name, .tables closed last)]) =
              some (before ++ [(name, .tables (closed ++ [Fields.finish last]) [])]) :=
          change_last hlacks _ _
        rw [hnodes.build_opened (holds_tables hlacks _) hheader]
        exact hbuild before hlacks
    | _ => cases htables.1

theorem builds_array {items : List Json} (hblocks : hasBlocks (.array items) = true)
    (h : ∀ item ∈ items, EveryObject (fun fields => ∃ nodes, Fills num fields nodes) item) :
    Builds num (.array items) := by
  intro name
  rw [hasBlocks, Bool.and_eq_true] at hblocks
  rw [sections, if_pos hblocks.2]
  cases items with
  | nil => cases hblocks.1
  | cons item items =>
    obtain ⟨hitem, hitems⟩ := List.forall_mem_cons.1 h
    rw [List.all_cons, Bool.and_eq_true] at hblocks
    cases item with
    | object fields =>
      obtain ⟨nodes, hnodes⟩ := hitem.1
      obtain ⟨closed, last, hfinish, hbuild⟩ :=
        exists_build_items hblocks.2.2 hitems name [] nodes
      refine ⟨.tables closed last, ?_, fun before hlacks => ?_⟩
      · rw [Node.finish, reread, Json.rereadItems_eq, List.map_cons, ← hnodes.finish]
        exact congrArg _ hfinish
      · rw [filter_itemSections, build_append]
        have hheader : (⟨[name], true, fields⟩ : Section).opened before =
            some (before ++ [(name, .tables [] [])]) :=
          change_of_lacks hlacks _
        rw [hnodes.build_opened (holds_tables hlacks _) hheader]
        exact hbuild before hlacks
    | _ => cases hblocks.2.1

/-- Every table in a value is filled by its lines and sections, by induction on the
parts of the value. -/
theorem everyObject_fills {v : Json} (h : EveryObject Ordered.HasDistinctKeys v) :
    EveryObject (fun fields => ∃ nodes, Fills num fields nodes) v := by
  induction v using Json.parts_induction with
  | null => trivial
  | bool b => trivial
  | number n => trivial
  | string s => trivial
  | array items ih =>
    exact Json.everyItem_iff.2 fun item hitem =>
      ih item hitem (Json.everyItem_iff.1 h item hitem)
  | object fields ih =>
    have hfields : ∀ field ∈ fields,
        EveryObject (fun fields => ∃ nodes, Fills num fields nodes) field.2 :=
      fun field hfield => ih field hfield (Json.everyField_iff.1 h.2 field hfield)
    refine ⟨exists_fills h.1 fun field hfield hblocks => ?_, Json.everyField_iff.2 hfields⟩
    have hvalue := hfields field hfield
    cases hform : field.2 with
    | object inner =>
      rw [hform] at hvalue
      obtain ⟨nodes, hnodes⟩ := hvalue.1
      exact builds_object hnodes
    | array items =>
      rw [hform] at hvalue hblocks
      exact builds_array hblocks (Json.everyItem_iff.1 hvalue)
    | _ => rw [hform] at hblocks; cases hblocks

/-- **The written sections of a table build it**. -/
theorem build_sections {fields : List (String × Json)}
    (h : EveryObject Ordered.HasDistinctKeys (.object fields)) :
    ∃ nodes : Fields, nodes.finish = reread num (.object fields) ∧
      build num ((sections [] (.object fields)).filter Section.isShown) [] = some nodes := by
  have hfills : EveryObject (fun fields => ∃ nodes, Fills num fields nodes) (.object fields) :=
    everyObject_fills h
  obtain ⟨nodes, hnodes⟩ := hfills.1
  refine ⟨nodes, hnodes.finish, ?_⟩
  have hbuild := hnodes.build
  rw [sections, List.filter_cons]
  split_ifs with hshown
  · exact hbuild
  · have hlines : (ownLines fields).isEmpty = true := by
      simpa [Section.isShown, Section.block, Block.isShown, Block.ofFields] using hshown
    rw [Section.filled, onLines_eq_nil hlines] at hbuild
    exact hbuild

end Docsmith.Toml
