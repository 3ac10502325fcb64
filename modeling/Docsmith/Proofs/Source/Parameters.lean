import Docsmith.Proofs.Source.PythonParameters
import Docsmith.Proofs.Text.Insertion
import Docsmith.Source.Lines.Python
/-!
# Python — parameters of a header, by lines and by syntax

By lines a header is cut at its commas, so its parameters are those of the texts in it, each
cut again where it has a comma itself (`Lines.Python.read_header`). By syntax they are the
texts. So the two agree exactly where no comma stands inside a parameter
(`header_parameters`).
-/


namespace Docsmith.Source

/-! ## By lines -/

namespace Lines.Python

open Docsmith.Source.Python (header header_append joined joined_cons_cons IsFunction)

variable {p text : List Char}

/-- A comma parts the parameters. -/
theorem parameters_append_cons (before after : List Char) :
    parameters (before ++ ',' :: after) = parameters before ++ parameters after := by
  rw [parameters, Text.splitChar_append_cons, List.map_append, List.filter_append]
  rfl

/-- A space in front belongs to none. -/
theorem parameters_space (text : List Char) : parameters (' ' :: text) = parameters text := by
  obtain ⟨piece, rest, hsplit⟩ := List.exists_cons_of_ne_nil (Text.splitChar_ne_nil ',' text)
  have hspace : Text.splitChar ',' (' ' :: text) = (' ' :: piece) :: rest :=
    Text.splitBy_cons_of_neg (by decide) hsplit
  rw [parameters, parameters, hspace, hsplit]
  rfl

/-- **The parameters of a list are those of its texts.** -/
theorem parameters_joined (ps : List (List Char)) :
    parameters (joined ps) = ps.flatMap parameters := by
  induction ps with
  | nil => rfl
  | cons p ps ih =>
    cases ps with
    | nil => simp [joined, Text.join]
    | cons q ps =>
      rw [joined_cons_cons, parameters_append_cons, parameters_space, ih,
        ← List.flatMap_cons]

/-- No parameter holds a comma. -/
theorem comma_not_mem_of_mem_parameters {q : String} (h : q ∈ parameters text) :
    ',' ∉ q.toList := by
  obtain ⟨piece, hpiece, rfl⟩ := List.mem_map.1 (List.mem_filter.1 h).1
  rw [String.toList_ofList]
  exact fun hmem => Text.not_mem_of_mem_splitChar hpiece (Text.mem_of_mem_trim hmem)

/-- A text without commas is one parameter. -/
theorem parameters_of_not_mem (h : ',' ∉ p) (htrim : Text.trim p = p)
    (hp : String.ofList p ≠ "" ∧ String.ofList p ≠ "self" ∧ String.ofList p ≠ "cls") :
    parameters p = [String.ofList p] := by
  rw [parameters, Text.splitChar_of_not_mem h, List.map_singleton, htrim]
  simp [hp]

/-- What stands in parentheses ends at the first that closes. -/
theorem parenthesized?_append (after : List Char) (h : ')' ∉ text) :
    parenthesized? ('(' :: (text ++ ')' :: after)) = some (text, after) := by
  have hkept : ∀ c ∈ text, (c != ')') = true := fun c hc => bne_iff_ne.2 fun heq => h (heq ▸ hc)
  have htake := Text.takeWhile_append_cons (p := (· != ')')) (c := ')') after hkept (by decide)
  have hdrop := Text.dropWhile_append_cons (p := (· != ')')) (c := ')') after hkept (by decide)
  simp only [parenthesized?, htake, hdrop]

theorem header_append_eq_cons (text tail : List Char) : header text ++ tail =
    'd' :: 'e' :: 'f' :: ' ' :: 'f' :: '(' :: (text ++ ')' :: ':' :: tail) := by
  rw [header_append]
  rfl

/-- A header has the form of a function. -/
theorem functionHeader?_header (tail : List Char) (h : ')' ∉ text) :
    functionHeader? (header text ++ tail) =
      some ⟨['f'], text, upTo (header text ++ tail) tail⟩ := by
  have hkeyword : afterKeyword? ['d', 'e', 'f'] (Text.trimStart (header text ++ tail)) =
      some ('f' :: '(' :: (text ++ ')' :: ':' :: tail)) := by
    rw [header_append_eq_cons]
    rfl
  have hname : name? ('f' :: '(' :: (text ++ ')' :: ':' :: tail)) =
      some (['f'], '(' :: (text ++ ')' :: ':' :: tail)) := by
    have hparen : Unicode.isWordChar '(' = false := by decide +kernel
    simp only [name?, List.takeWhile, List.dropWhile, hparen]
    rfl
  have hparameters : parenthesized? (Text.trimStart ('(' :: (text ++ ')' :: ':' :: tail))) =
      some (text, ':' :: tail) := parenthesized?_append (':' :: tail) h
  unfold functionHeader?
  simp only [hkeyword, hname, hparameters, Option.bind_eq_bind, Option.bind_some]
  rfl

/-- **What is read of a header**: a function with the pieces of its parameters. -/
theorem step_header (path : String) (tail : List Char) (after : List (List Char)) (h : ')' ∉ text) :
    ∃ e ∈ (step path {} 1 (header text ++ tail) after).element,
      IsFunction path (parameters text) e := by
  have hsilent : isSilent (header text ++ tail) = false := by
    have htrim : ∀ text, Text.trim ('d' :: text) = 'd' :: Text.trimEnd text := fun text =>
      Text.dropEndWhile_append_cons [] text (by decide)
    rw [header_append_eq_cons, isSilent, htrim]
    rfl
  have hdecorator : decorator? (header text ++ tail) = none := by
    rw [header_append_eq_cons]
    rfl
  have hclass : classHeader? (header text ++ tail) = none := by
    rw [header_append_eq_cons]
    rfl
  unfold step
  rw [if_neg (by simp [hsilent]), hdecorator, hclass, functionHeader?_header tail h]
  exact ⟨_, rfl, rfl, rfl, rfl, rfl, rfl⟩

/-- **What is read of a text that starts with a header.** -/
theorem read_header (path : String) (rest : List Char) (h : ')' ∉ text) (hfeed : '\n' ∉ text) :
    ∃ e others, read path (header text ++ rest) = e :: others ∧
      IsFunction path (parameters text) e := by
  have hline (rest : List Char) :
      header text ++ rest = ("def f(".toList ++ (text ++ [')'])) ++ ':' :: rest := by
    rw [header_append, List.append_assoc, List.append_assoc]
    rfl
  have hfeeds : '\n' ∉ "def f(".toList ++ (text ++ [')']) := by
    simp [hfeed]
  obtain ⟨tail, lines, hlines⟩ : ∃ tail lines,
      Text.lines (header text ++ rest) = (header text ++ tail) :: lines := by
    rw [hline]
    obtain ⟨tail, lines, hlines⟩ :=
      Text.exists_lines_append_cons hfeeds (by decide : ':' ≠ '\n') (by decide) rest
    exact ⟨tail, lines, by rw [hlines, hline]⟩
  obtain ⟨e, he, hfunction⟩ := step_header path tail lines h
  have hread : read path (header text ++ rest) =
      (step path {} 1 (header text ++ tail) lines).element.toList ++
        readFrom path (step path {} 1 (header text ++ tail) lines).consumed
          (step path {} 1 (header text ++ tail) lines).state 2 lines := by
    rw [read, hlines, readFrom]
  rw [Option.mem_def.1 he] at hread
  exact ⟨e, _, hread, hfunction⟩

end Lines.Python

/-! ## Either way -/

/-- The header of a function with some parameters. -/
def header (parameters : List String) : String :=
  "def f(" ++ ", ".intercalate parameters ++ "):"

/-- A text to stand among parameters: in single spaces, no receiver, without quotes,
parentheses and comments, its brackets balanced and its commas inside them. -/
structure IsParameter (p : String) : Prop where
  ne_empty : p ≠ ""
  spaced : Text.collapse p.toList = p.toList
  not_self : p ≠ "self"
  not_cls : p ≠ "cls"
  bare : ∀ c ∈ p.toList, c ∉ ['"', '\'', '(', ')', '#']
  nested : Python.IsNested p.toList

/-- A text that the grammar accepts as a parameter, and that starts and ends with a
token. -/
structure IsAccepted (p : String) : Prop where
  alone : ∃ path rest es, Python.read path (header [p] ++ rest) = .ok es
  visible : Python.IsVisible p.toList

theorem toList_header (ps : List String) :
    (header ps).toList = Python.header (Python.joined (ps.map (·.toList))) := by
  rw [header, String.toList_append, String.toList_append, String.toList_intercalate,
    List.append_assoc]
  rfl

theorem IsParameter.isPlainText {p : String} (h : IsParameter p) : Python.IsPlainText p.toList := by
  intro c hc hmem
  have hfeed : '\n' ∉ p.toList := h.spaced ▸ Text.feed_not_mem_collapse p.toList
  by_cases hbreak : c = '\n'
  · exact hfeed (hbreak ▸ hc)
  · exact h.bare c hc (by simpa [hbreak] using hmem)

theorem IsParameter.isWhole {p : String} (h : IsParameter p) (hp : IsAccepted p) :
    Python.IsWhole p.toList := by
  obtain ⟨path, rest, es, hread⟩ := hp.alone
  have hcontent : (header [p] ++ rest).toList = Python.header p.toList ++ rest.toList := by
    rw [String.toList_append, toList_header]
    simp [Python.joined, Text.join]
  exact Python.isWhole_of_read h.isPlainText hp.visible h.nested hcontent hread

/-- By lines, texts stay whole exactly if no comma stands in them. -/
theorem flatMap_parameters_eq_iff {ps : List String} (hps : ∀ p ∈ ps, IsParameter p) :
    (ps.flatMap fun p => Lines.Python.parameters p.toList) = ps ↔ ∀ p ∈ ps, ',' ∉ p.toList := by
  constructor
  · intro h p hp
    rw [← h] at hp
    obtain ⟨q, -, hq⟩ := List.mem_flatMap.1 hp
    exact Lines.Python.comma_not_mem_of_mem_parameters hq
  · intro h
    induction ps with
    | nil => rfl
    | cons p ps ih =>
      obtain ⟨hp, hps⟩ := List.forall_mem_cons.1 hps
      obtain ⟨hcomma, h⟩ := List.forall_mem_cons.1 h
      have htrim : Text.trim p.toList = p.toList := by
        rw [← hp.spaced]
        exact Text.trim_collapse p.toList
      have hkept := Lines.Python.parameters_of_not_mem hcomma htrim
        (by simpa using ⟨hp.ne_empty, hp.not_self, hp.not_cls⟩)
      rw [List.flatMap_cons, ih hps h, hkept, String.ofList_toList, List.singleton_append]

/-- **The parameters of a header, read either way.** By lines they are the pieces of the
texts between their commas, which are the texts exactly if none of them has a comma; by
syntax they are the texts, with their commas. -/
theorem header_parameters (path rest : String) (ps : List String) (hps : ∀ p ∈ ps, IsParameter p) :
    (∃ e others, Lines.Python.read path (header ps ++ rest).toList = e :: others ∧
      Python.IsFunction path (ps.flatMap fun p => Lines.Python.parameters p.toList) e) ∧
    ((ps.flatMap fun p => Lines.Python.parameters p.toList) = ps ↔ ∀ p ∈ ps, ',' ∉ p.toList) ∧
    ((∀ p ∈ ps, IsAccepted p) → ∀ es, Python.read path (header ps ++ rest) = .ok es →
      ∃ e others, es = e :: others ∧ Python.IsFunction path ps e) := by
  have hcontent : (header ps ++ rest).toList =
      Python.header (Python.joined (ps.map (·.toList))) ++ rest.toList := by
    rw [String.toList_append, toList_header]
  have hplain : ∀ p ∈ ps.map (·.toList), Python.IsPlainText p :=
    List.forall_mem_map.2 fun p hp => (hps p hp).isPlainText
  refine ⟨?_, flatMap_parameters_eq_iff hps, fun haccepted es hread => ?_⟩
  · have hjoined := Python.isPlainText_joined hplain
    have hparen : ')' ∉ Python.joined (ps.map (·.toList)) := fun hmem => hjoined _ hmem (by decide)
    have hfeed : '\n' ∉ Python.joined (ps.map (·.toList)) := fun hmem => hjoined _ hmem (by decide)
    obtain ⟨e, others, hread, he⟩ := Lines.Python.read_header path rest.toList hparen hfeed
    rw [Lines.Python.parameters_joined, List.flatMap_map] at he
    exact ⟨e, others, hcontent ▸ hread, he⟩
  · have hwhole : ∀ p ∈ ps.map (·.toList), Python.IsWhole p :=
      List.forall_mem_map.2 fun p hp => (hps p hp).isWhole (haccepted p hp)
    obtain ⟨e, others, rfl, he⟩ := Python.parameters_of_read hwhole hcontent hread
    have hshown : (ps.map (·.toList)).map (fun p => String.ofList (Text.collapse p)) = ps := by
      rw [List.map_map]
      refine (List.map_congr_left fun p hp => ?_).trans (List.map_id ps)
      rw [Function.comp_apply, (hps p hp).spaced, String.ofList_toList, id]
    rw [hshown, List.filter_eq_self.2 fun p hp => by
      simp [(hps p hp).not_self, (hps p hp).not_cls]] at he
    exact ⟨e, others, rfl, he⟩

/-- A parameter with a comma inside a bracket. -/
theorem isParameter_dict : IsParameter "x: Dict[str, int]" where
  ne_empty := by decide
  spaced := by decide +kernel
  not_self := by decide
  not_cls := by decide
  bare := List.all_iff_forall_prop.1 (by decide)
  nested := by decide

theorem exists_read_dict :
    ∃ es, Python.read "a.py" (header ["x: Dict[str, int]"] ++ "\n") = .ok es := by
  have hok : (Python.read "a.py" (header ["x: Dict[str, int]"] ++ "\n")).isOk = true := by
    decide +kernel
  cases hread : Python.read "a.py" (header ["x: Dict[str, int]"] ++ "\n") with
  | error failure =>
    rw [hread] at hok
    cases hok
  | ok es => exact ⟨es, rfl⟩

theorem isAccepted_dict : IsAccepted "x: Dict[str, int]" where
  alone := ⟨_, _, exists_read_dict⟩
  visible := ⟨⟨'x', rfl, by decide⟩, ⟨']', by decide, by decide⟩⟩

/-- Its header by lines and by syntax. -/
theorem header_parameters_dict :
    (∀ p ∈ ["x: Dict[str, int]"], IsParameter p ∧ IsAccepted p) ∧
    (∃ e others, Lines.Python.read "a.py" (header ["x: Dict[str, int]"] ++ "\n").toList =
      e :: others ∧ e.parameters = ["x: Dict[str", "int]"]) ∧
    ∃ e others, Python.read "a.py" (header ["x: Dict[str, int]"] ++ "\n") = .ok (e :: others) ∧
      e.parameters = ["x: Dict[str, int]"] := by
  have hparameter : ∀ p ∈ ["x: Dict[str, int]"], IsParameter p :=
    List.forall_mem_singleton.2 isParameter_dict
  have haccepted : ∀ p ∈ ["x: Dict[str, int]"], IsAccepted p :=
    List.forall_mem_singleton.2 isAccepted_dict
  obtain ⟨⟨e, others, hlines, he⟩, -, hsyntax⟩ :=
    header_parameters "a.py" "\n" ["x: Dict[str, int]"] hparameter
  refine ⟨fun p hp => ⟨hparameter p hp, haccepted p hp⟩, ⟨e, others, hlines, ?_⟩, ?_⟩
  · rw [he.parameters]
    decide +kernel
  · obtain ⟨es, hread⟩ := exists_read_dict
    obtain ⟨e, others, rfl, he⟩ := hsyntax haccepted es hread
    exact ⟨e, others, hread, he.parameters⟩

/-- **By lines a bracket does not keep its commas**: the parameter comes in two pieces. -/
theorem dict_parameter_cut : IsParameter "x: Dict[str, int]" ∧
    ∀ e ∈ Lines.Python.read "a.py" "def f(x: Dict[str, int]):\n".toList,
      e.parameters ≠ ["x: Dict[str, int]"] :=
  ⟨isParameter_dict, by decide +kernel⟩

-- no parameter alone: the lambda takes the comma behind it for its own
example : ((Python.read "a.py" (header ["x=lambda a", "b: a"] ++ "\n")).toOption.map fun es =>
    es.map (·.parameters)) = some [["x=lambda a, b: a"]] := by
  decide +kernel

end Docsmith.Source
