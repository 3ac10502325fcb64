import Docsmith.Proofs.Toml.Values
import Docsmith.Toml.Reader
/-!
# TOML — what is read

No key stands twice in a table that was read, and nothing in it is `null`
(`isPlain_of_parse?`). Tables under construction grow by finished values only, and
a finished table is in order.
-/


namespace Docsmith.Toml

variable {name : String} {fields made : Fields} {path : List String} {v : Json}
variable {text rest : List Char}

/-! ## Tables under construction -/

mutual

/-- What stands under a key is plain as far as it is finished. -/
def Node.IsPlain : Node → Prop
  | .value v => Toml.IsPlain v
  | .table _ fields => FieldsPlain fields
  | .tables closed last => (∀ item ∈ closed, Toml.IsPlain item) ∧ FieldsPlain last

/-- All that stands in a table is plain as far as it is finished. -/
def FieldsPlain : List (String × Node) → Prop
  | [] => True
  | (_, node) :: fields => node.IsPlain ∧ FieldsPlain fields

end

theorem fieldsPlain_nil : FieldsPlain [] :=
  trivial

/-- What a change makes of what stood under a key is plain if that was. -/
def KeepsPlain (f : Option Node → Option Node) : Prop :=
  ∀ old : Option Node, (∀ node ∈ old, node.IsPlain) → ∀ node ∈ f old, node.IsPlain

theorem FieldsPlain.change {f : Option Node → Option Node} (hf : KeepsPlain f)
    (h : FieldsPlain fields) (hmade : fields.change name f = some made) : FieldsPlain made := by
  induction fields generalizing made with
  | nil =>
    obtain ⟨node, hnode, rfl⟩ := Option.map_eq_some_iff.1 hmade
    exact ⟨hf none (by simp) node hnode, trivial⟩
  | cons entry fields ih =>
    obtain ⟨other, old⟩ := entry
    rw [Fields.change] at hmade
    split_ifs at hmade
    · obtain ⟨node, hnode, rfl⟩ := Option.map_eq_some_iff.1 hmade
      exact ⟨hf (some old) (by simpa using h.1) node hnode, h.2⟩
    · obtain ⟨rest, hrest, rfl⟩ := Option.map_eq_some_iff.1 hmade
      exact ⟨h.1, ih h.2 hrest⟩

/-- A change of the table that a header leads to keeps all tables plain if it keeps
that one so, by induction on the way. -/
theorem FieldsPlain.inside {f : Fields → Option Fields}
    (hf : ∀ fields made, FieldsPlain fields → f fields = some made → FieldsPlain made)
    (h : FieldsPlain fields) (hmade : fields.inside f path = some made) : FieldsPlain made := by
  induction path generalizing fields made with
  | nil => exact hf _ _ h hmade
  | cons name path ih =>
    refine h.change (fun old hold node hnode => ?_) hmade
    match old, hold with
    | none, _ =>
      obtain ⟨inner, hinner, rfl⟩ := Option.map_eq_some_iff.1 hnode
      exact ih fieldsPlain_nil hinner
    | some (.table _ _), hold =>
      obtain ⟨inner, hinner, rfl⟩ := Option.map_eq_some_iff.1 hnode
      exact ih (hold _ rfl) hinner
    | some (.tables _ _), hold =>
      obtain ⟨inner, hinner, rfl⟩ := Option.map_eq_some_iff.1 hnode
      exact ⟨(hold _ rfl).1, ih (hold _ rfl).2 hinner⟩

theorem FieldsPlain.put (hv : IsPlain v) {below dotted : Bool} (h : FieldsPlain fields)
    (hmade : fields.put v below dotted path = some made) : FieldsPlain made := by
  induction path generalizing fields made below dotted with
  | nil => cases hmade
  | cons name path ih =>
    cases path with
    | nil =>
      rw [Fields.put] at hmade
      split_ifs at hmade
      refine h.change (fun old _ node hnode => ?_) hmade
      cases old with
      | none =>
        obtain rfl := Option.some.inj hnode
        exact hv
      | some old => cases hnode
    | cons next path =>
      refine h.change (fun old hold node hnode => ?_) hmade
      cases old with
      | none =>
        obtain ⟨inner, hinner, rfl⟩ := Option.map_eq_some_iff.1 hnode
        exact ih fieldsPlain_nil hinner
      | some old =>
        have hplain := hold _ rfl
        cases old with
        | value old => cases hnode
        | table origin =>
          -- A table that was stated takes no keys from elsewhere.
          cases origin with
          | stated => cases hnode
          | implied | dotted =>
            obtain ⟨inner, hinner, rfl⟩ := Option.map_eq_some_iff.1 hnode
            exact ih hplain hinner
        | tables =>
          obtain ⟨inner, hinner, rfl⟩ := Option.map_eq_some_iff.1 hnode
          exact ⟨hplain.1, ih hplain.2 hinner⟩

/-! ## Finished tables -/

theorem isPlain_ofFields {fields : List (String × Json)} (h : ∀ field ∈ fields, IsPlain field.2) :
    IsPlain (.ofFields fields) :=
  isPlain_object.2 ⟨(Ordered.isAscending_ofList _).hasDistinctKeys,
    fun field hfield => h field (Ordered.mem_ofList hfield)⟩

mutual

theorem Node.IsPlain.finish : ∀ {node : Node}, node.IsPlain → Toml.IsPlain node.finish
  | .value _, h => h
  | .table _ _, h => isPlain_ofFields (FieldsPlain.finishFields h)
  | .tables _ _, h => isPlain_array.2 <| List.forall_mem_append.2
      ⟨h.1, List.forall_mem_singleton.2 (isPlain_ofFields (FieldsPlain.finishFields h.2))⟩

theorem FieldsPlain.finishFields : ∀ {fields : Fields}, FieldsPlain fields →
    ∀ field ∈ Toml.finishFields fields, IsPlain field.2
  | [], _ => List.forall_mem_nil _
  | (_, _) :: _, h => List.forall_mem_cons.2 ⟨Node.IsPlain.finish h.1, FieldsPlain.finishFields h.2⟩

end

theorem FieldsPlain.finish (h : FieldsPlain fields) : IsPlain (Fields.finish fields) :=
  isPlain_ofFields h.finishFields

theorem FieldsPlain.state (h : FieldsPlain fields) (hmade : fields.state name = some made) :
    FieldsPlain made := by
  refine h.change (fun old hold node hnode => ?_) hmade
  match old, hold with
  | none, _ =>
    obtain rfl := Option.some.inj hnode
    trivial
  | some (.table .implied inner), hold =>
    obtain rfl := Option.some.inj hnode
    exact hold (.table .implied inner) rfl

theorem FieldsPlain.append (h : FieldsPlain fields) (hmade : fields.append name = some made) :
    FieldsPlain made := by
  refine h.change (fun old hold node hnode => ?_) hmade
  match old, hold with
  | none, _ =>
    obtain rfl := Option.some.inj hnode
    exact ⟨List.forall_mem_nil _, trivial⟩
  | some (.tables _ _), hold =>
    obtain rfl := Option.some.inj hnode
    obtain ⟨hclosed, hlast⟩ := hold _ rfl
    exact ⟨List.forall_mem_append.2 ⟨hclosed, List.forall_mem_singleton.2 hlast.finish⟩, trivial⟩

/-! ## Values -/

/-- A reader of values that gives plain ones only. -/
def GivesPlain (value : List Char → Option (Json × List Char)) : Prop :=
  ∀ text v rest, value text = some (v, rest) → IsPlain v

section

variable {value : List Char → Option (Json × List Char)}

theorem GivesPlain.items (h : GivesPlain value) {fuel : Nat} {items : List Json}
    (hread : items? value fuel text = some (items, rest)) : ∀ item ∈ items, IsPlain item := by
  induction fuel generalizing text items with
  | zero => cases hread
  | succ fuel ih =>
    rw [items?] at hread
    split at hread
    · cases hread
      exact List.forall_mem_nil _
    · obtain ⟨⟨item, more⟩, hitem, hread⟩ := Option.bind_eq_some_iff.1 hread
      dsimp only at hread
      split at hread
      · obtain ⟨⟨items, more⟩, hitems, hread⟩ := Option.bind_eq_some_iff.1 hread
        cases hread
        exact List.forall_mem_cons.2 ⟨h _ _ _ hitem, ih hitems⟩
      · cases hread
        exact List.forall_mem_singleton.2 (h _ _ _ hitem)
      · cases hread

theorem GivesPlain.pair (h : GivesPlain value) {key : List String}
    (hread : pair? value text = some (key, v, rest)) : IsPlain v := by
  unfold pair? at hread
  obtain ⟨⟨parts, more⟩, -, hread⟩ := Option.bind_eq_some_iff.1 hread
  dsimp only at hread
  split at hread
  · obtain ⟨⟨value, more⟩, hvalue, hread⟩ := Option.bind_eq_some_iff.1 hread
    cases hread
    exact h _ _ _ hvalue
  · cases hread

theorem GivesPlain.inlineFields (h : GivesPlain value) {fuel : Nat} (hfields : FieldsPlain fields)
    (hread : inlineFields? value fuel fields text = some (made, rest)) : FieldsPlain made := by
  induction fuel generalizing text fields with
  | zero => cases hread
  | succ fuel ih =>
    rw [inlineFields?] at hread
    obtain ⟨⟨key, v, more⟩, hpair, hread⟩ := Option.bind_eq_some_iff.1 hread
    obtain ⟨next, hnext, hread⟩ := Option.bind_eq_some_iff.1 hread
    have hplain := hfields.put (h.pair hpair) hnext
    split at hread
    · exact ih hplain hread
    · cases hread
      exact hplain
    · cases hread

theorem GivesPlain.array (h : GivesPlain value) (hread : array? value text = some (v, rest)) :
    IsPlain v := by
  obtain ⟨⟨items, more⟩, hitems, heq⟩ := Option.map_eq_some_iff.1 hread
  cases heq
  exact isPlain_array.2 (h.items hitems)

theorem GivesPlain.inlineTable (h : GivesPlain value)
    (hread : inlineTable? value text = some (v, rest)) : IsPlain v := by
  unfold inlineTable? at hread
  split at hread
  · cases hread
    exact isPlain_object.2 ⟨List.Pairwise.nil, List.forall_mem_nil _⟩
  · obtain ⟨⟨fields, more⟩, hfields, heq⟩ := Option.map_eq_some_iff.1 hread
    cases heq
    exact (h.inlineFields fieldsPlain_nil hfields).finish

end

theorem isPlain_of_word? (h : word? text = some (v, rest)) : IsPlain v := by
  unfold word? at h
  split at h
  · cases h
    exact isPlain_object.2 ⟨List.pairwise_singleton _ _,
      List.forall_mem_singleton.2 (isPlain_string _)⟩
  · dsimp only at h
    split_ifs at h
    · cases h
      exact isPlain_bool _
    · cases h
      exact isPlain_bool _
    · obtain ⟨n, -, heq⟩ := Option.map_eq_some_iff.1 h
      cases heq
      exact isPlain_number n

theorem isPlain_of_scalar? (h : scalar? text = some (v, rest)) : IsPlain v := by
  unfold scalar? at h
  split at h
  · obtain ⟨_, -, heq⟩ := Option.map_eq_some_iff.1 h
    cases heq
    exact isPlain_string _
  · obtain ⟨_, -, heq⟩ := Option.map_eq_some_iff.1 h
    cases heq
    exact isPlain_string _
  · exact isPlain_of_word? h

/-- Arrays and inline tables hold plain values, by induction on the depth. -/
theorem givesPlain_value? (depth : Nat) : GivesPlain (value? depth) := by
  induction depth with
  | zero =>
    intro text v rest h
    unfold value? at h
    split at h
    · cases h
    · cases h
    · next heq => cases heq
    · next heq => cases heq
    · exact isPlain_of_scalar? h
  | succ depth ih =>
    intro text v rest h
    unfold value? at h
    split at h
    · next heq => cases heq
    · next heq => cases heq
    · next heq =>
      cases heq
      exact ih.array h
    · next heq =>
      cases heq
      exact ih.inlineTable h
    · exact isPlain_of_scalar? h

/-! ## Documents -/

variable {d e : Draft}

theorem plain_of_header (h : FieldsPlain d.root) {array : Bool}
    (hmade : d.header array path = some e) : FieldsPlain e.root := by
  unfold Draft.header at hmade
  split at hmade
  · cases hmade
  · obtain ⟨root, hroot, heq⟩ := Option.bind_eq_some_iff.1 hmade
    cases heq
    refine h.inside (fun fields made hfields hadd => ?_) hroot
    cases array with
    | false => exact hfields.state hadd
    | true => exact hfields.append hadd

theorem plain_of_put (h : FieldsPlain d.root) (hv : IsPlain v)
    (hmade : d.put path v = some e) : FieldsPlain e.root := by
  obtain ⟨root, hroot, heq⟩ := Option.bind_eq_some_iff.1 hmade
  cases heq
  exact h.inside (fun _ _ hfields hput => hfields.put hv hput) hroot

theorem plain_of_statement? (h : FieldsPlain d.root)
    (hread : statement? d text = some (e, rest)) : FieldsPlain e.root := by
  unfold statement? at hread
  split at hread
  · obtain ⟨⟨path, more⟩, -, hread⟩ := Option.bind_eq_some_iff.1 hread
    dsimp only at hread
    split at hread
    · obtain ⟨next, hnext, heq⟩ := Option.bind_eq_some_iff.1 hread
      cases heq
      exact plain_of_header h hnext
    · cases hread
  · obtain ⟨⟨path, more⟩, -, hread⟩ := Option.bind_eq_some_iff.1 hread
    dsimp only at hread
    split at hread
    · obtain ⟨next, hnext, heq⟩ := Option.bind_eq_some_iff.1 hread
      cases heq
      exact plain_of_header h hnext
    · cases hread
  · obtain ⟨⟨key, v, more⟩, hpair, hread⟩ := Option.bind_eq_some_iff.1 hread
    obtain ⟨next, hnext, heq⟩ := Option.bind_eq_some_iff.1 hread
    cases heq
    exact plain_of_put h ((givesPlain_value? maxDepth).pair hpair) hnext

theorem plain_of_statements? {fuel : Nat} (h : FieldsPlain d.root)
    (hread : statements? fuel d text = some e) : FieldsPlain e.root := by
  induction fuel generalizing d text with
  | zero => cases hread
  | succ fuel ih =>
    rw [statements?] at hread
    split at hread
    · cases hread
      exact h
    · obtain ⟨⟨next, more⟩, hnext, hread⟩ := Option.bind_eq_some_iff.1 hread
      have hplain := plain_of_statement? h hnext
      dsimp only at hread
      split at hread
      · cases hread
        exact hplain
      · exact ih hplain hread
      · cases hread

/-- **A document that is read is a plain table.** -/
theorem isPlain_of_parse? {text : String} (h : parse? text = some v) :
    IsPlain v ∧ ∃ fields, v = .object fields := by
  obtain ⟨d, hread, rfl⟩ := Option.map_eq_some_iff.1 h
  exact ⟨(plain_of_statements? fieldsPlain_nil hread).finish, _, rfl⟩

end Docsmith.Toml
