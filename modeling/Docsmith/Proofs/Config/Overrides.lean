import Docsmith.Config.Basic
import Docsmith.Proofs.Config.Precedence
/-!
# Configurations — what a run asks for

What is asked for in a run lies over the configuration and touches nothing that is
checked: the configuration of the run differs from the one that was loaded in the
directories and the four switches alone (`SameBesides`), so it is refused exactly if that
one is, with the same failure (`check_congr`). What is asked for in two steps can be
asked for in one (`apply_followedBy`), from which it follows that asking twice is asking
once, and that the order counts exactly where both steps name a directory and not the
same one (`apply_comm_iff`).
-/


namespace Docsmith.Config

variable {c d : Config} {environment : List (String × String)}

/-! ## What is left alone -/

/-- The configurations differ at most in what a run may ask for. -/
def SameBesides (c d : Config) : Prop :=
  d = { c with
    output := { c.output with
      directory := d.output.directory
      unitTests := d.output.unitTests
      mermaid := d.output.mermaid
      plantUml := d.output.plantUml
      mermaidPath := d.output.mermaidPath
      plantUmlPath := d.output.plantUmlPath }
    sources := { c.sources with includePrivate := d.sources.includePrivate } }

theorem sameBesides_apply (o : Overrides) (c : Config) : SameBesides c (o.apply c) :=
  rfl

/-- **Nothing that a run may ask for is checked.** -/
theorem check_congr (h : SameBesides c d) : d.check = c.check := by
  rw [h]
  rfl

/-- What is made of layers has been checked. -/
theorem check_of_ofLayers {layers : List Layer} (h : ofLayers layers environment = .ok c) :
    c.check = .ok () := by
  cases hstack : stack layers environment with
  | error e =>
    rw [ofLayers, hstack] at h
    cases h
  | ok settings => exact ((ofLayers_eq_ok_iff hstack).1 h).2

/-- **What is loaded has been checked**, wherever it comes from. -/
theorem check_of_load {t : FileTree} {here : Place} {file : Option String}
    (h : load t here environment file = .ok c) : c.check = .ok () := by
  cases file with
  | none => exact check_of_ofLayers h
  | some path =>
    rw [load, loadFile] at h
    split_ifs at h
    exact check_of_ofLayers h

namespace Overrides

variable {o₁ o₂ : Overrides}

/-! ## One step after another -/

/-- What is asked for in two steps: of two directories the later one counts. -/
def followedBy (o₁ o₂ : Overrides) : Overrides where
  output := o₂.output.or o₁.output
  mermaid := o₁.mermaid || o₂.mermaid
  plantUml := o₁.plantUml || o₂.plantUml
  mermaidPath := o₂.mermaidPath.or o₁.mermaidPath
  plantUmlPath := o₂.plantUmlPath.or o₁.plantUmlPath
  includePrivate := o₁.includePrivate || o₂.includePrivate
  noTests := o₁.noTests || o₂.noTests

/-- A format is switched on by either step, or by a directory in either. -/
theorem switchedOn_or (old on₁ on₂ : Bool) (path₁ path₂ : Option String) :
    (old || (on₁ || on₂) || (path₂.or path₁).isSome) =
      (old || on₁ || path₁.isSome || on₂ || path₂.isSome) := by
  rw [Option.isSome_or]
  ac_rfl

/-- **Two steps are one.** -/
theorem apply_followedBy (o₁ o₂ : Overrides) (c : Config) :
    (o₁.followedBy o₂).apply c = o₂.apply (o₁.apply c) := by
  simp only [apply, followedBy, switchedOn_or, Option.getD_or, Option.or_assoc, Bool.not_or]
  simp only [Bool.and_assoc, Bool.or_assoc]

theorem followedBy_self (o : Overrides) : o.followedBy o = o := by
  simp only [followedBy, Option.or_self, Bool.or_self]

/-- **Asking twice is asking once.** -/
theorem apply_apply (o : Overrides) (c : Config) : o.apply (o.apply c) = o.apply c := by
  rw [← apply_followedBy, followedBy_self]

/-! ## The order of two steps -/

/-- Where both steps name a directory it is the same one. -/
structure Agrees (o₁ o₂ : Overrides) : Prop where
  output : ∀ a ∈ o₁.output, ∀ b ∈ o₂.output, a = b
  mermaidPath : ∀ a ∈ o₁.mermaidPath, ∀ b ∈ o₂.mermaidPath, a = b
  plantUmlPath : ∀ a ∈ o₁.plantUmlPath, ∀ b ∈ o₂.plantUmlPath, a = b

/-- Each of the directories is named in one step at most. -/
structure IsApart (o₁ o₂ : Overrides) : Prop where
  output : o₁.output = none ∨ o₂.output = none
  mermaidPath : o₁.mermaidPath = none ∨ o₂.mermaidPath = none
  plantUmlPath : o₁.plantUmlPath = none ∨ o₂.plantUmlPath = none

theorem or_comm_of_agree {p q : Option String} (h : ∀ a ∈ p, ∀ b ∈ q, a = b) :
    q.or p = p.or q := by
  cases p with
  | none => exact Option.or_none
  | some a =>
    cases q with
    | none => rfl
    | some b => rw [h a rfl b rfl]

/-- A directory that prevails in either order is the same one. -/
theorem agree_of_or_comm {p q r : Option String} (h : q.or (p.or r) = p.or (q.or r)) :
    ∀ a ∈ p, ∀ b ∈ q, a = b := by
  rintro a rfl b rfl
  exact (Option.some.inj h).symm

theorem agree_of_none {p q : Option String} (h : p = none ∨ q = none) :
    ∀ a ∈ p, ∀ b ∈ q, a = b := by
  rcases h with rfl | rfl
  · exact nofun
  · exact fun _ _ => nofun

theorem IsApart.agrees (h : o₁.IsApart o₂) : o₁.Agrees o₂ where
  output := agree_of_none h.output
  mermaidPath := agree_of_none h.mermaidPath
  plantUmlPath := agree_of_none h.plantUmlPath

theorem followedBy_comm (h : o₁.Agrees o₂) : o₁.followedBy o₂ = o₂.followedBy o₁ := by
  simp only [followedBy, or_comm_of_agree h.output, or_comm_of_agree h.mermaidPath,
    or_comm_of_agree h.plantUmlPath, Bool.or_comm]

/-- **The order of two steps counts exactly where both name a directory** and it is not
the same one, whatever the configuration is. -/
theorem apply_comm_iff :
    o₂.apply (o₁.apply c) = o₁.apply (o₂.apply c) ↔ o₁.Agrees o₂ := by
  constructor
  · intro h
    refine ⟨fun a ha b hb => ?_, agree_of_or_comm (congrArg (·.output.mermaidPath) h),
      agree_of_or_comm (congrArg (·.output.plantUmlPath) h)⟩
    have hdirectory := congrArg (·.output.directory) h
    simp only [apply, Option.mem_def.1 ha, Option.mem_def.1 hb] at hdirectory
    exact hdirectory.symm
  · intro h
    rw [← apply_followedBy, ← apply_followedBy, followedBy_comm h]

/-! ## The configuration of a run -/

/-- **What a run asks for keeps a configuration as valid as it is.** The check gives the
same result as before, and so lets every configuration pass that was loaded; what may be
asked for is all that changes, and a switch is only turned the one way. Asking again
changes nothing, and neither does the order of two steps that do not both name a
directory. -/
theorem run_stays_valid (c : Config) (o o₁ o₂ : Overrides) :
    (o.apply c).check = c.check ∧
    (∀ t here environment file, load t here environment file = .ok c →
      (o.apply c).check = .ok ()) ∧
    o.apply (o.apply c) = o.apply c ∧
    SameBesides c (o.apply c) ∧
    ((c.output.mermaid = true → (o.apply c).output.mermaid = true) ∧
      (c.output.plantUml = true → (o.apply c).output.plantUml = true) ∧
      (c.sources.includePrivate = true → (o.apply c).sources.includePrivate = true) ∧
      ((o.apply c).output.unitTests = true → c.output.unitTests = true)) ∧
    (o₁.IsApart o₂ → o₂.apply (o₁.apply c) = o₁.apply (o₂.apply c)) ∧
    (o₂.apply (o₁.apply c) = o₁.apply (o₂.apply c) ↔ o₁.Agrees o₂) := by
  have hcheck : (o.apply c).check = c.check := check_congr (sameBesides_apply o c)
  refine ⟨hcheck, fun t here environment file hload => ?_, apply_apply o c,
    sameBesides_apply o c, ⟨?_, ?_, ?_, ?_⟩, fun h => apply_comm_iff.2 h.agrees, apply_comm_iff⟩
  · rw [hcheck, check_of_load hload]
  · intro hon
    simp only [apply, hon, Bool.true_or]
  · intro hon
    simp only [apply, hon, Bool.true_or]
  · intro hon
    simp only [apply, hon, Bool.true_or]
  · intro hon
    exact (Bool.and_eq_true_iff.1 hon).1

/-- A project's file. -/
def projectTree : FileTree :=
  ⟨[([".documentor"], .directory), ([".documentor", "config.toml"], .file
    "[output]\ngenerate_plantuml = true\noutput_directory = \"site\"\n".toUTF8)]⟩

/-- A run for which a directory of diagrams is named, without tests, and another one with
a directory of its own. -/
theorem run_stays_valid_project :
    ∃ c, load projectTree [] [] none = .ok c ∧
      let wish : Overrides := { mermaidPath := some "uml", noTests := true }
      let other : Overrides := { output := some "out", includePrivate := true }
      wish.IsApart other ∧ c.output.plantUml = true ∧
        (wish.apply c).check = .ok () ∧ wish.apply (wish.apply c) = wish.apply c ∧
        (wish.apply c).output.plantUml = true ∧
        other.apply (wish.apply c) = wish.apply (other.apply c) := by
  obtain ⟨c, hc, hon⟩ : ∃ c ∈ (load projectTree [] [] none).toOption,
      c.output.plantUml = true := by
    decide +kernel
  have hload : load projectTree [] [] none = .ok c := eq_ok_of_toOption hc
  have hapart : IsApart { mermaidPath := some "uml", noTests := true }
      { output := some "out", includePrivate := true } := ⟨.inl rfl, .inr rfl, .inl rfl⟩
  obtain ⟨-, hvalid, htwice, -, ⟨-, hplantUml, -, -⟩, hcomm, -⟩ :=
    run_stays_valid c { mermaidPath := some "uml", noTests := true }
      { mermaidPath := some "uml", noTests := true }
      { output := some "out", includePrivate := true }
  exact ⟨c, hload, hapart, hon, hvalid _ _ _ _ hload, htwice, hplantUml hon, hcomm hapart⟩

end Overrides

end Docsmith.Config
