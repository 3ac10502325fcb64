import Docsmith.Proofs.Diagram.MermaidLayout
import Docsmith.Proofs.Diagram.PlantUmlLayout
import Docsmith.Proofs.Diagram.Uses
/-!
# Diagrams — layouts withstand the source

The diagrams of a class that is not private are laid out in the same lines whatever its
source says, in both formats, as long as the names of the class and of its members do
not end lines (`isLaidOut_of_views`). There is one line for each member that is shown and
one for each class that it uses.
-/


namespace Docsmith.Diagram

open Docsmith.Text

variable {p : Char → Bool} {a : Analysis} {vs : List View} {v : View} {generatedOn : String}

/-- **No text of the source breaks the layout of a diagram.** Take a class that gets a
diagram, and suppose that no line ends inside its name, the names of its members or the
stamp; signatures, parameters, annotations and documentation may be anything. Then the
lines of its page and of its diagram are laid out by its members and its uses. The uses
are those of the graph: each qualified name of a class that the class's members mention
stands once, and a class of that qualified name is the one whose name is shown. -/
theorem isLaidOut_of_views (hviews : views a = .ok vs) (hv : v ∈ vs) (hp : IsLineBreak p)
    (hname : IsLine p v.type.name) (hnames : ∀ m ∈ v.members, IsLine p m.name)
    (hstamp : IsLine p generatedOn) :
    let uses := Uses.ofViews vs
    let targets := uses.targets v.type.qualifiedName
    let names := uses.namesUsed v.type.qualifiedName
    targets.Nodup ∧
    (∀ target, target ∈ targets ↔ ∃ s ∈ vs, ∃ t ∈ vs, Uses.isUse s t = true ∧
      s.type.qualifiedName = v.type.qualifiedName ∧ t.type.qualifiedName = target) ∧
    List.Forall₂
      (fun target name => ∃ t ∈ vs, t.type.qualifiedName = target ∧ t.type.name = name)
      targets names ∧
    Mermaid.IsLaidOut v names (linesBy p (Mermaid.render v uses generatedOn)) ∧
    PlantUml.IsLaidOut v names (linesBy p (PlantUml.render v uses)) := by
  intro uses targets names
  have hvisible : ∀ m ∈ v.members, isVisible m = true := fun m hm =>
    isVisible_member hviews hv hm
  exact ⟨Uses.nodup_targets _ _, fun target => Uses.mem_targets_ofViews,
    Uses.namesUsed_ofViews _ _, Mermaid.isLaidOut_render hp hname hstamp _,
    PlantUml.isLaidOut_render hp hname hnames hvisible _⟩

/-- A class whose members would end the block, the class and the diagram if their texts
were shown as they are, and the class that they mention. -/
def unruly : Analysis :=
  ⟨"shop",
    [⟨.type, "Cart", "shop.Cart", "Cart.java", 1, "public class Cart", "", [], []⟩,
      ⟨.field, "items", "shop.Cart.items", "Cart.java", 2,
        "public Item\n```\n    \x7d\nitems", "", [], []⟩,
      ⟨.method, "add", "shop.Cart.add", "Cart.java", 3, "public void add(Item\r\n\x7d item)", "",
        ["Item\n@enduml\n"], []⟩,
      ⟨.type, "Item", "shop.Item", "Item.java", 1, "public class Item", "", [], []⟩]⟩

/-- Whichever characters end lines, its diagrams are laid out. -/
theorem unruly_isLaidOut : ∃ vs v, views unruly = .ok vs ∧ v ∈ vs ∧ v.type.name = "Cart" ∧
    v.fields.length = 1 ∧ v.methods.length = 1 ∧
    (Uses.ofViews vs).namesUsed v.type.qualifiedName = ["Item"] ∧
    Mermaid.IsLaidOut v ["Item"]
      (linesBy isAnyBreak (Mermaid.render v (Uses.ofViews vs) (Stamp.mk 0).text)) ∧
    PlantUml.IsLaidOut v ["Item"] (linesBy isAnyBreak (PlantUml.render v (Uses.ofViews vs))) := by
  have hviews : views unruly = .ok (unruly.classes.map (View.ofClass unruly)) := by decide +kernel
  obtain ⟨v, hfirst⟩ : ∃ v, (unruly.classes.map (View.ofClass unruly)).head? = some v := ⟨_, rfl⟩
  have hv := List.mem_of_head? hfirst
  have hshown : v.type.name = "Cart" ∧ v.fields.length = 1 ∧ v.methods.length = 1 ∧
      (∀ m ∈ v.members, IsSpaced m.name) ∧
      (Uses.ofViews (unruly.classes.map (View.ofClass unruly))).namesUsed v.type.qualifiedName =
        ["Item"] := by
    obtain rfl := Option.some.inj hfirst
    decide +kernel
  obtain ⟨hname, hfields, hmethods, hspaced, huses⟩ := hshown
  have hcart : IsSpaced v.type.name := by
    rw [hname]
    decide
  obtain ⟨-, -, -, hpage, hsheet⟩ := isLaidOut_of_views hviews hv isLineBreak_isAnyBreak
    (isLineBreak_isAnyBreak.isLine hcart)
    (fun m hm => isLineBreak_isAnyBreak.isLine (hspaced m hm))
    (isLineBreak_isAnyBreak.isLine (isSpaced_stamp (Stamp.mk 0)))
  rw [huses] at hpage hsheet
  exact ⟨_, v, hviews, hv, hname, hfields, hmethods, huses, hpage, hsheet⟩

end Docsmith.Diagram
