import SudokuSolver.Build.Projects

/-!
# The projects that a build is limited to

`removeUnrelatedProjects` of `only.lua`.  The loop that checks the wanted names
binds the index of a name, where the same loop of `dependents.lua` binds the
name, so the check only fails when more names are wanted than there are
projects.
-/

namespace SudokuSolver.Build

/-! ## The check of the names -/

/-- The check of the wanted names in `only.lua`: the loop variable `name` is
the index. -/
def checkNames (projects : Projects) (wantedNames : List String) :
    Option (Except String Unit) :=
  genericFor (ipairs fun _ => wantedNames) (fun (name, _) _ =>
    if (projects.atIndex name).isNone then
      .error (toString name ++ " is not a project name")
    else .ok ()) 0 ()

/-- The check looks at the indices of the wanted names only. -/
theorem checkNames_eq (projects : Projects) (wantedNames : List String) :
    checkNames projects wantedNames =
      some (if projects.indexed.length < wantedNames.length then
        .error (toString (projects.indexed.length + 1) ++
          " is not a project name")
      else .ok ()) := by
  have hrest : ∀ (names : List String) (k : ℕ), k ≤ projects.indexed.length →
      (names.zipIdx (k + 1)).foldlM (fun (_ : Unit) (p : String × ℕ) =>
          if (projects.atIndex p.2).isNone then
            .error (toString p.2 ++ " is not a project name")
          else .ok ()) () =
        (if projects.indexed.length < k + names.length then
          .error (toString (projects.indexed.length + 1) ++
            " is not a project name")
        else .ok () : Except String Unit) := by
    intro names
    induction names with
    | nil =>
        intro k hk
        rw [if_neg (by simpa using hk)]
        rfl
    | cons name names ih =>
        intro k hk
        rw [List.zipIdx_cons, List.foldlM_cons, List.length_cons]
        by_cases hlast : projects.indexed.length < k + 1
        · have hk' : projects.indexed.length = k := by omega
          rw [if_pos ((Projects.atIndex_isNone_iff (by omega)).mpr hlast),
            if_pos (by omega), hk']
          rfl
        · rw [if_neg fun h => hlast
            ((Projects.atIndex_isNone_iff (by omega)).mp h)]
          refine (ih (k + 1) (by omega)).trans ?_
          rw [Nat.add_assoc, Nat.add_comm 1]
  rw [checkNames, genericFor_ipairs]
  congr 1
  refine (hrest wantedNames 0 (Nat.zero_le _)).trans ?_
  rw [Nat.zero_add]

/-! ## Removing unrelated projects -/

/-- Removes all projects that aren't the named projects or a dependency of any
of the named projects from the solution: whether an error was raised, and the
solution after it. -/
def removeUnrelatedProjects (projects : Projects) (wantedNames : List String) :
    Option (Except String Unit × Projects) := do
  match ← checkNames projects wantedNames with
  | .error message => return (.error message, projects)
  | .ok () =>
      let wantedNames ← addDependencies projects wantedNames
      return (.ok (), removeProjectsIf projects fun project =>
        !contains wantedNames project.name)

/-- What is left of a solution: exactly the related projects, in their order,
each under its index and its name. -/
structure Keeps (projects : Projects) (wantedNames : List String)
    (kept : Projects) : Prop where
  wellFormed : kept.WellFormed
  sublist : kept.indexed.Sublist projects.indexed
  mem_indexed : ∀ project, project ∈ kept.indexed ↔
    Related projects wantedNames project

/-- A wanted name that is not a project is an error that leaves the solution as
it was, and otherwise exactly the related projects are left. -/
def SelectsRelated (projects : Projects) (wantedNames : List String) : Prop :=
  ((∃ name ∈ wantedNames, projects.atName name = none) →
    ∃ message, removeUnrelatedProjects projects wantedNames =
      some (.error message, projects)) ∧
  ((∀ name ∈ wantedNames, projects.atName name ≠ none) →
    ∃ kept, removeUnrelatedProjects projects wantedNames =
      some (.ok (), kept) ∧ Keeps projects wantedNames kept)

variable {projects : Projects} {wantedNames : List String}

theorem removeUnrelatedProjects_error
    (hlength : projects.indexed.length < wantedNames.length) :
    removeUnrelatedProjects projects wantedNames =
      some (.error (toString (projects.indexed.length + 1) ++
        " is not a project name"), projects) := by
  rw [removeUnrelatedProjects, checkNames_eq, if_pos hlength]
  rfl

/-- Once the check has passed, the names that are not projects make no
difference. -/
theorem removeUnrelatedProjects_ok (h : projects.WellFormed)
    (hacyclic : Acyclic projects)
    (hlength : ¬projects.indexed.length < wantedNames.length) :
    ∃ kept, removeUnrelatedProjects projects wantedNames =
      some (.ok (), kept) ∧ Keeps projects wantedNames kept := by
  obtain ⟨names, hrun, hnames⟩ := addDependencies_spec h hacyclic wantedNames
  refine ⟨removeProjectsIf projects fun project =>
    !contains names project.name, ?_, h.removeProjectsIf _, ?_, ?_⟩
  · rw [removeUnrelatedProjects, checkNames_eq, if_neg hlength]
    simp only [Option.bind_eq_bind, Option.bind_some, hrun]
    rfl
  · rw [removeProjectsIf, removeIf_eq]
    exact List.filter_sublist
  · intro project
    rw [removeProjectsIf, removeIf_eq, List.mem_filter, Bool.not_not,
      contains_iff, hnames, Related]

/-- Exactly the related projects are left, or the error of a name that is not a
project raised, if and only if such names show in the number of names. -/
theorem selectsRelated_iff (h : projects.WellFormed)
    (hacyclic : Acyclic projects) :
    SelectsRelated projects wantedNames ↔
      ((∃ name ∈ wantedNames, projects.atName name = none) ↔
        projects.indexed.length < wantedNames.length) := by
  constructor
  · rintro ⟨hbad, hgood⟩
    constructor
    · intro hname
      obtain ⟨message, hrun⟩ := hbad hname
      by_contra hlength
      obtain ⟨kept, hok, -⟩ := removeUnrelatedProjects_ok h hacyclic hlength
      exact absurd (hrun.symm.trans hok) (by simp)
    · intro hlength
      by_contra hnames
      obtain ⟨kept, hok, -⟩ := hgood fun name hname hnone =>
        hnames ⟨name, hname, hnone⟩
      have hrun := removeUnrelatedProjects_error hlength
      exact absurd (hrun.symm.trans hok) (by simp)
  · intro hiff
    constructor
    · intro hname
      exact ⟨_, removeUnrelatedProjects_error (hiff.mp hname)⟩
    · intro hnames
      apply removeUnrelatedProjects_ok h hacyclic
      intro hlength
      obtain ⟨name, hname, hnone⟩ := hiff.mpr hlength
      exact hnames name hname hnone

/-- A solution of an application, the library it is linked to, and a tool. -/
def appLibTool : Projects :=
  let app : Project := ⟨"app", ["lib"], [], []⟩
  let lib : Project := ⟨"lib", [], [], []⟩
  let tool : Project := ⟨"tool", [], [], []⟩
  ⟨[app, lib, tool], [("app", app), ("lib", lib), ("tool", tool)]⟩

theorem wellFormed_appLibTool : appLibTool.WellFormed := by
  constructor
  · decide
  · rintro ⟨name, project⟩
    simp only [appLibTool, List.mem_cons, List.not_mem_nil, or_false,
      Prod.mk.injEq]
    constructor
    · rintro (⟨rfl, rfl⟩ | ⟨rfl, rfl⟩ | ⟨rfl, rfl⟩) <;> simp
    · rintro ⟨rfl | rfl | rfl, rfl⟩ <;> simp

theorem acyclic_appLibTool : Acyclic appLibTool := by
  have hstep : ∀ a b, DependsOn appLibTool a b → a = "app" ∧ b = "lib" := by
    rintro a b ⟨project, dependency, ha, hb, -⟩
    obtain ⟨hmem, rfl⟩ := wellFormed_appLibTool.atName_eq_some_iff.mp ha
    simp only [appLibTool, List.mem_cons, List.not_mem_nil, or_false] at hmem
    rcases hmem with rfl | rfl | rfl
    · simpa [Project.links] using hb
    · simp [Project.links] at hb
    · simp [Project.links] at hb
  intro name hcycle
  obtain ⟨b, hfirst, -⟩ := Relation.TransGen.head'_iff.mp hcycle
  obtain ⟨c, -, hlast⟩ := Relation.TransGen.tail'_iff.mp hcycle
  have hname := (hstep name b hfirst).1.symm.trans (hstep c name hlast).2
  exact absurd hname (by decide)

/-- For the application alone the condition holds. -/
theorem selectsRelated_appLibTool :
    SelectsRelated appLibTool ["app"] ↔
      ((∃ name ∈ ["app"], appLibTool.atName name = none) ↔
        appLibTool.indexed.length < ["app"].length) :=
  selectsRelated_iff wellFormed_appLibTool acyclic_appLibTool

/-- A wanted name that is not a project is not noticed. -/
theorem not_selectsRelated_appLibTool :
    appLibTool.WellFormed ∧ Acyclic appLibTool ∧
      ¬SelectsRelated appLibTool ["nope"] := by
  refine ⟨wellFormed_appLibTool, acyclic_appLibTool, fun h => ?_⟩
  obtain ⟨message, hrun⟩ := h.1 ⟨"nope", by decide, by decide⟩
  obtain ⟨kept, hok, -⟩ := removeUnrelatedProjects_ok wellFormed_appLibTool
    acyclic_appLibTool (show ¬3 < ["nope"].length by decide)
  exact absurd (hrun.symm.trans hok) (by simp)

end SudokuSolver.Build
