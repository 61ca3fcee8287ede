import SudokuSolver.Build.Linking
import SudokuSolver.Support.Failures

/-!
# Completing the settings of the projects

`settings.lua` of the build scripts and the extensions that wrap
`completeForActiveProject`: `build_events.lua`, `onlink.lua`,
`copy_shared_libs.lua`, `coverage.lua` and `propagate_links.lua`, which is the
order in which they are loaded.  The text of an error comes without the position
that Lua puts before it.
-/

namespace SudokuSolver.Build.Solution

variable {σ : Type}

/-! ## Build events -/

/-- The line that runs the executable of a project. -/
def runPath (solution : Solution σ) (configName platform : String)
    (activeProject projectToRun : Project) (arguments : Option String) :
    String :=
  let binPath := solution.binPath configName platform activeProject projectToRun
  let runPath := "\"../../" ++ binPath ++ "/./" ++ projectToRun.name ++ "\""
  match arguments with
  | none => runPath
  | some arguments => runPath ++ " " ++ arguments

/-- Marks that the given project should be run in response to a stage in the
active project's build step defined by the functor. -/
def addProjectRun (solution : Solution σ) (activeProject : Project)
    (projectName : String)
    (functor : Project → String → String → List String → σ → σ)
    (arguments : Option String) (st : σ) : Except String σ :=
  match solution.projects.atName projectName with
  | none =>
      .error ("Bad build event for " ++ activeProject.name ++ ": " ++
        projectName ++ " does not exist")
  | some projectToRun =>
      if solution.isAppProject projectToRun then
        let st := solution.setLinks activeProject [projectName] st
        .ok (solution.configurations.foldl (fun st (configName, platform) =>
          functor activeProject configName platform
            [solution.runPath configName platform activeProject projectToRun
              arguments] st) st)
      else .ok st

/-- Sets the active project's output to be run after the project is built. -/
def runPostBuild (solution : Solution σ) (activeProject : Project) (st : σ) :
    Except String σ :=
  solution.addProjectRun activeProject activeProject.name
    solution.postbuildcommands none st

/-- What `build_events.lua` does for the active project. -/
def addBuildEvents (solution : Solution σ) (activeProject : Project)
    (st : σ) : Except String σ :=
  activeProject.preBuild.foldlM (fun st preBuild =>
    solution.addProjectRun activeProject preBuild.projectName
      solution.prebuildcommands preBuild.arguments st) st

/-! ## Coverage reports -/

/-- The first loop of `completeReportCoverage`. -/
def findCoverageFor (solution : Solution σ) (activeProject : Project)
    (projectNames : List String) : Except String (List Project) :=
  projectNames.foldlM (fun coverageFor projectName =>
    match solution.projects.atName projectName with
    | none =>
        .error ("Cannot create coverage report for " ++ activeProject.name ++
          ": " ++ projectName ++ " does not exist")
    | some project => .ok (coverageFor ++ [project])) []

/-- Adds a run of the program and generates a coverage report as a post build
step of the active project. -/
def completeReportCoverage (solution : Solution σ) (activeProject : Project)
    (projectNames : List String) (st : σ) : Except String σ := do
  let coverageFor ← solution.findCoverageFor activeProject projectNames
  let st ← solution.runPostBuild activeProject st
  return solution.coverageCommands activeProject coverageFor st

/-- What `coverage.lua` does for the active project. -/
def reportCoverage (solution : Solution σ) (activeProject : Project)
    (st : σ) : Except String σ :=
  if solution.coverageSupported && solution.isAppProject activeProject then
    match solution.coverageFor activeProject with
    | none => .ok st
    | some projectNames =>
        solution.completeReportCoverage activeProject projectNames st
  else .ok st

/-! ## Links -/

/-- What `copy_shared_libs.lua` does for the active project. -/
def copySharedLibs (solution : Solution σ) (depth : ℕ)
    (activeProject : Project) (st : σ) : Option σ :=
  if solution.isAppProject activeProject then
    solution.configurations.foldlM (fun st (configName, platform) => do
      let sharedLibPaths ← solution.findSharedLibs configName platform
        activeProject depth activeProject []
      return sharedLibPaths.foldl (fun st libPath =>
        solution.postbuildcommands activeProject configName platform
          [solution.copyCommand configName platform activeProject libPath] st)
        st) st
  else some st

/-- What `propagate_links.lua` does for the active project. -/
def propagateLinks (solution : Solution σ) (depth : ℕ)
    (activeProject : Project) (st : σ) : Option σ :=
  if solution.isAppProject activeProject ||
      solution.isSharedLib activeProject then
    solution.completeLinks activeProject depth activeProject st
  else some st

/-! ## All projects -/

/-- An error with a message. -/
def raised {α : Type} (result : Except String α) : Except (Option String) α :=
  result.mapError some

/-- A recursion that has come to the bound is an error without a message. -/
def bounded {α : Type} (result : Option α) : Except (Option String) α :=
  result.elim (.error none) .ok

/-- `completeForActiveProject` as the extensions have wrapped it, one after
another. -/
def completeForActiveProject (solution : Solution σ) (depth : ℕ)
    (activeProject : Project) (st : σ) : Except (Option String) σ := do
  let st ← raised (solution.addBuildEvents activeProject st)
  let st ← bounded
    (solution.completeSettings activeProject depth activeProject st)
  let st ← bounded (solution.copySharedLibs depth activeProject st)
  let st ← raised (solution.reportCoverage activeProject st)
  bounded (solution.propagateLinks depth activeProject st)

/-- What comes of all projects: an error without a message is a missing
result. -/
def unbounded {α : Type} : Except (Option String) α → Option (Except String α)
  | .error none => none
  | .error (some message) => some (.error message)
  | .ok a => some (.ok a)

/-- Goes through the projects with each of them in turn the active one; the
extensions that wrap this function remove projects after it. -/
def completeForAllProjects (solution : Solution σ) (depth : ℕ) (st : σ) :
    Option (Except String σ) :=
  (genericFor (ipairs fun _ => solution.projects.indexed) (fun (_, project) st =>
    match solution.projects.atName project.name with
    | none => .error (some ("No project named " ++ project.name))
    | some activeProject =>
        solution.completeForActiveProject depth activeProject st) 0 st).bind
    unbounded

/-! ## What is needed to complete a project -/

/-- The extensions that follow all links do so for the projects that are linked
themselves. -/
def FollowsLinks (solution : Solution σ) (activeProject : Project) : Prop :=
  (solution.isAppProject activeProject ||
    solution.isSharedLib activeProject) = true

/-- A coverage report of the project covers the named one. -/
def Covers (solution : Solution σ) (project : Project) (name : String) : Prop :=
  solution.coverageSupported = true ∧ solution.isAppProject project = true ∧
    ∃ projectNames, solution.coverageFor project = some projectNames ∧
      name ∈ projectNames

/-- The projects that are named for the build events and the coverage report of
a project exist. -/
structure NamesExist (solution : Solution σ) (project : Project) : Prop where
  preBuild : ∀ preBuild ∈ project.preBuild,
    solution.projects.atName preBuild.projectName ≠ none
  coverageFor : ∀ name, solution.Covers project name →
    solution.projects.atName name ≠ none

/-- The recursions that are done for a project do not come to the bound. -/
structure LinksEnd (solution : Solution σ) (depth : ℕ) (project : Project) :
    Prop where
  settings : Ends solution.calls depth (.settings project)
  linked : solution.FollowsLinks project → Ends solution.linked depth project

/-- The recursions that are done for a project meet no cycle. -/
structure NoCycles (solution : Solution σ) (project : Project) : Prop where
  headers : ∀ q, solution.CompletedBy project q →
    ¬Relation.TransGen solution.HeaderLink q q
  linked : solution.FollowsLinks project →
    ∀ q, Relation.ReflTransGen solution.Link project q →
      ¬Relation.TransGen solution.Link q q

/-- The error that is raised for a project names one that does not exist. -/
inductive NameError (solution : Solution σ) (project : Project) :
    String → Prop
  | preBuild (preBuild : PreBuild) (hmem : preBuild ∈ project.preBuild)
      (hnone : solution.projects.atName preBuild.projectName = none) :
      NameError solution project ("Bad build event for " ++ project.name ++
        ": " ++ preBuild.projectName ++ " does not exist")
  | coverageFor (name : String) (hcovers : solution.Covers project name)
      (hnone : solution.projects.atName name = none) :
      NameError solution project ("Cannot create coverage report for " ++
        project.name ++ ": " ++ name ++ " does not exist")

section Results

variable {solution : Solution σ} {p : Project} {depth : ℕ} {st : σ}

/-! ## How the steps can fail -/

theorem foreseen_raised {α : Type} {good : Prop} {bad : String → Prop}
    {result : Except String α} (h : Foreseen good bad result) :
    Foreseen good (fun e => ∃ message, e = some message ∧ bad message)
      (raised result) := by
  rcases result with message | a
  · refine Foreseen.throw ?_ ⟨message, rfl, h.error message rfl⟩
    intro hgood
    obtain ⟨a, ha⟩ := h.ok_iff.mpr hgood
    cases ha
  · exact (Foreseen.ok a).imp (iff_of_true trivial (h.ok_iff.mp ⟨a, rfl⟩))
      fun _ he => he

theorem foreseen_bounded {α : Type} {ends : Prop} {result : Option α}
    (h : result.isSome = true ↔ ends) :
    Foreseen ends (fun e => e = none ∧ ¬ends) (bounded result) := by
  rcases result with _ | a
  · have hnot : ¬ends := fun hends => Bool.false_ne_true (h.mpr hends)
    exact Foreseen.throw hnot ⟨rfl, hnot⟩
  · exact (Foreseen.ok a).imp (iff_of_true trivial (h.mp rfl)) fun _ he => he

theorem foreseen_addProjectRun (solution : Solution σ) (p : Project)
    (projectName : String)
    (functor : Project → String → String → List String → σ → σ)
    (arguments : Option String) (st : σ) :
    Foreseen (solution.projects.atName projectName ≠ none)
      (fun message => solution.projects.atName projectName = none ∧
        message = "Bad build event for " ++ p.name ++ ": " ++ projectName ++
          " does not exist")
      (solution.addProjectRun p projectName functor arguments st) := by
  rw [addProjectRun]
  rcases hname : solution.projects.atName projectName with _ | projectToRun
  · exact Foreseen.throw (fun h => h rfl) ⟨rfl, rfl⟩
  · have hgood : True ↔ some projectToRun ≠ none :=
      iff_of_true trivial (Option.some_ne_none projectToRun)
    dsimp only
    split
    · exact (Foreseen.ok _).imp hgood fun _ he => he
    · exact (Foreseen.ok _).imp hgood fun _ he => he

theorem foreseen_addBuildEvents (solution : Solution σ) (p : Project)
    (st : σ) :
    Foreseen (∀ preBuild ∈ p.preBuild,
        solution.projects.atName preBuild.projectName ≠ none)
      (NameError solution p) (solution.addBuildEvents p st) := by
  refine (Foreseen.foldlM (fun preBuild _ st =>
    foreseen_addProjectRun solution p preBuild.projectName
      solution.prebuildcommands preBuild.arguments st) st).imp Iff.rfl ?_
  rintro _ ⟨before, preBuild, after, hsplit, -, hnone, rfl⟩
  refine NameError.preBuild preBuild ?_ hnone
  rw [hsplit]
  exact List.mem_append_right _ List.mem_cons_self

theorem foreseen_findCoverageFor (solution : Solution σ) (p : Project)
    (projectNames : List String) :
    Foreseen (∀ name ∈ projectNames, solution.projects.atName name ≠ none)
      (fun message => ∃ name ∈ projectNames,
        solution.projects.atName name = none ∧
          message = "Cannot create coverage report for " ++ p.name ++ ": " ++
            name ++ " does not exist")
      (solution.findCoverageFor p projectNames) := by
  have hstep : ∀ name ∈ projectNames, ∀ coverageFor,
      Foreseen (solution.projects.atName name ≠ none)
        (fun message => solution.projects.atName name = none ∧
          message = "Cannot create coverage report for " ++ p.name ++ ": " ++
            name ++ " does not exist")
        (match solution.projects.atName name with
        | none => .error ("Cannot create coverage report for " ++ p.name ++
            ": " ++ name ++ " does not exist")
        | some project => .ok (coverageFor ++ [project])) := by
    intro name _ coverageFor
    rcases hname : solution.projects.atName name with _ | project
    · exact Foreseen.throw (fun h => h rfl) ⟨rfl, rfl⟩
    · exact (Foreseen.ok _).imp
        (iff_of_true trivial (Option.some_ne_none project)) fun _ he => he
  apply (Foreseen.foldlM hstep []).imp Iff.rfl
  rintro _ ⟨before, name, after, hsplit, -, he⟩
  refine ⟨name, ?_, he⟩
  rw [hsplit]
  exact List.mem_append_right _ List.mem_cons_self

/-- The project itself exists, so that it can be run. -/
theorem foreseen_reportCoverage (hp : solution.projects.atName p.name ≠ none)
    (st : σ) :
    Foreseen (∀ name, solution.Covers p name →
        solution.projects.atName name ≠ none)
      (NameError solution p) (solution.reportCoverage p st) := by
  rw [reportCoverage]
  by_cases hreports :
      (solution.coverageSupported && solution.isAppProject p) = true
  · rw [if_pos hreports]
    obtain ⟨hsupported, happ⟩ := (Bool.and_eq_true _ _).mp hreports
    rcases hfor : solution.coverageFor p with _ | projectNames
    · refine (Foreseen.ok st).imp (iff_of_true trivial ?_) fun _ he => he
      rintro name ⟨-, -, names, hnames, -⟩
      rw [hfor] at hnames
      cases hnames
    · have hcovers : ∀ name, name ∈ projectNames ↔ solution.Covers p name := by
        intro name
        constructor
        · exact fun hname => ⟨hsupported, happ, projectNames, hfor, hname⟩
        · rintro ⟨-, -, names, hnames, hname⟩
          rw [hfor] at hnames
          cases hnames
          exact hname
      dsimp only
      rw [completeReportCoverage]
      have hrun : ∀ (coverageFor : List Project),
          Foreseen True (fun _ => False) (do
            let st ← solution.runPostBuild p st
            return solution.coverageCommands p coverageFor st) := by
        intro coverageFor
        have hcommands : ∀ st : σ, Foreseen True (fun _ : String => False)
            (.ok (solution.coverageCommands p coverageFor st)) :=
          fun st => Foreseen.ok _
        apply ((foreseen_addProjectRun solution p p.name
          solution.postbuildcommands none st).bind hcommands).imp
            (iff_of_true ⟨hp, trivial⟩ trivial)
        rintro e (⟨hnone, -⟩ | ⟨-, hfalse⟩)
        · exact hp hnone
        · exact hfalse
      refine ((foreseen_findCoverageFor solution p projectNames).bind
        hrun).imp ?_ ?_
      · simp only [and_true, hcovers]
      · rintro _ (⟨name, hname, hnone, rfl⟩ | ⟨-, hfalse⟩)
        · exact NameError.coverageFor name ((hcovers name).mp hname) hnone
        · exact hfalse.elim
  · rw [if_neg hreports]
    refine (Foreseen.ok st).imp (iff_of_true trivial ?_) fun _ he => he
    rintro name ⟨hsupported, happ, -⟩
    rw [hsupported, happ] at hreports
    exact absurd rfl hreports

theorem isSome_copySharedLibs_iff (solution : Solution σ) (depth : ℕ)
    (p : Project) (st : σ) :
    (solution.copySharedLibs depth p st).isSome = true ↔
      (solution.isAppProject p = true → ∀ c ∈ solution.configurations,
        Ends solution.linked depth p) := by
  rw [copySharedLibs]
  by_cases happ : solution.isAppProject p = true
  · rw [if_pos happ, forall_prop_of_true happ]
    apply isSome_foldlM_iff
    rintro ⟨configName, platform⟩ st
    dsimp only
    rw [findSharedLibs_eq, ← isSome_walk_iff]
    rcases walk solution.linked _ depth p [] with _ | paths
    · rfl
    · rfl
  · rw [if_neg happ]
    exact iff_of_true rfl fun h => absurd h happ

theorem isSome_propagateLinks_iff (solution : Solution σ) (depth : ℕ)
    (p : Project) (st : σ) :
    (solution.propagateLinks depth p st).isSome = true ↔
      (solution.FollowsLinks p → Ends solution.linked depth p) := by
  rw [propagateLinks, FollowsLinks]
  by_cases hfollows :
      (solution.isAppProject p || solution.isSharedLib p) = true
  · rw [if_pos hfollows, completeLinks_eq, isSome_walk_iff]
    exact ⟨fun h _ => h, fun h => h hfollows⟩
  · rw [if_neg hfollows]
    exact ⟨fun _ h => absurd h hfollows, fun _ => rfl⟩

theorem isSome_completeSettings_iff (solution : Solution σ) (depth : ℕ)
    (p : Project) (st : σ) :
    (solution.completeSettings p depth p st).isSome = true ↔
      Ends solution.calls depth (.settings p) := by
  rw [completeSettings_eq, isSome_walk_iff]

/-- A project is completed if the projects that it names exist and the bound is
enough for the recursions that are done for it. -/
theorem foreseen_completeForActiveProject
    (hp : solution.projects.atName p.name ≠ none) (depth : ℕ) (st : σ) :
    Foreseen (solution.NamesExist p ∧ solution.LinksEnd depth p)
      (fun e => e = none ∧ ¬solution.LinksEnd depth p ∨
        ∃ message, e = some message ∧ NameError solution p message)
      (solution.completeForActiveProject depth p st) := by
  have hsteps :=
    (foreseen_raised (foreseen_addBuildEvents solution p st)).bind fun st =>
      (foreseen_bounded (solution.isSome_completeSettings_iff depth p st)).bind
        fun st =>
          (foreseen_bounded
            (solution.isSome_copySharedLibs_iff depth p st)).bind fun st =>
              (foreseen_raised (foreseen_reportCoverage hp st)).bind fun st =>
                foreseen_bounded (solution.isSome_propagateLinks_iff depth p st)
  refine hsteps.imp ?_ ?_
  · constructor
    · rintro ⟨hpreBuild, hsettings, -, hcoverage, hlinked⟩
      exact ⟨⟨hpreBuild, hcoverage⟩, ⟨hsettings, hlinked⟩⟩
    · rintro ⟨⟨hpreBuild, hcoverage⟩, ⟨hsettings, hlinked⟩⟩
      refine ⟨hpreBuild, hsettings, fun happ _ _ => hlinked ?_, hcoverage,
        hlinked⟩
      rw [FollowsLinks, happ, Bool.true_or]
  · rintro e (hname | ⟨-, ⟨rfl, hnot⟩ | ⟨-, ⟨rfl, hnot⟩ | ⟨-, hname |
      ⟨-, rfl, hnot⟩⟩⟩⟩)
    · exact Or.inr hname
    · exact Or.inl ⟨rfl, fun hends => hnot hends.settings⟩
    · refine Or.inl ⟨rfl, fun hends => hnot fun happ _ _ => hends.linked ?_⟩
      rw [FollowsLinks, happ, Bool.true_or]
    · exact Or.inr hname
    · exact Or.inl ⟨rfl, fun hends => hnot hends.linked⟩

/-! ## Which recursions end -/

theorem mem_indexed_of_headers (h : solution.projects.WellFormed)
    (hp : p ∈ solution.projects.indexed) {q : Project}
    (hq : Relation.ReflTransGen solution.HeaderLink p q) :
    q ∈ solution.projects.indexed := by
  rcases Relation.ReflTransGen.cases_tail hq with rfl | ⟨r, -, hr⟩
  · exact hp
  · obtain ⟨name, -, hname⟩ := List.mem_filterMap.mp hr
    exact (h.atName_eq_some_iff.mp hname).1

theorem mem_indexed_of_completedBy (h : solution.projects.WellFormed)
    (hp : p ∈ solution.projects.indexed) {q : Project}
    (hq : solution.CompletedBy p q) : q ∈ solution.projects.indexed := by
  rcases hq with hq | ⟨a, b, -, hb, hq⟩
  · exact mem_indexed_of_headers h hp hq
  · obtain ⟨name, -, hname⟩ := List.mem_filterMap.mp hb
    exact mem_indexed_of_headers h (h.atName_eq_some_iff.mp hname).1 hq

theorem LinksEnd.mono {depth' : ℕ} (h : solution.LinksEnd depth p)
    (hle : depth ≤ depth') : solution.LinksEnd depth' p :=
  ⟨h.settings.mono hle, fun hfollows => (h.linked hfollows).mono hle⟩

/-- Some bound is enough for a project exactly when no cycle is met. -/
theorem exists_linksEnd_iff :
    (∃ depth, solution.LinksEnd depth p) ↔ solution.NoCycles p := by
  constructor
  · rintro ⟨depth, hends⟩
    exact ⟨exists_ends_settings_iff.mp ⟨depth, hends.settings⟩,
      fun hfollows => (exists_ends_iff (finite_linked solution p)).mp
        ⟨depth, hends.linked hfollows⟩⟩
  · rintro ⟨hheaders, hlinked⟩
    obtain ⟨d, hd⟩ := exists_ends_settings_iff.mpr hheaders
    by_cases hfollows : solution.FollowsLinks p
    · obtain ⟨d', hd'⟩ := (exists_ends_iff (finite_linked solution p)).mpr
        (hlinked hfollows)
      exact ⟨max d d', hd.mono (le_max_left d d'),
        fun _ => hd'.mono (le_max_right d d')⟩
    · exact ⟨d, hd, fun h => absurd h hfollows⟩

theorem exists_forall_linksEnd_iff :
    (∃ depth, ∀ p ∈ solution.projects.indexed, solution.LinksEnd depth p) ↔
      ∀ p ∈ solution.projects.indexed, solution.NoCycles p := by
  constructor
  · rintro ⟨depth, hends⟩ p hp
    exact exists_linksEnd_iff.mp ⟨depth, hends p hp⟩
  · intro hcycles
    apply exists_forall_of_mono
    · exact fun p d d' hle hends => hends.mono hle
    · exact fun p hp => exists_linksEnd_iff.mpr (hcycles p hp)

/-- For all projects together every project with header links counts. -/
theorem forall_noCycles_iff (h : solution.projects.WellFormed) :
    (∀ p ∈ solution.projects.indexed, solution.NoCycles p) ↔
      (∀ p ∈ solution.projects.indexed,
        ¬Relation.TransGen solution.HeaderLink p p) ∧
      ∀ p ∈ solution.projects.indexed, solution.FollowsLinks p →
        ∀ q, Relation.ReflTransGen solution.Link p q →
          ¬Relation.TransGen solution.Link q q := by
  constructor
  · intro hcycles
    exact ⟨fun p hp => (hcycles p hp).headers p
        (Or.inl Relation.ReflTransGen.refl),
      fun p hp => (hcycles p hp).linked⟩
  · rintro ⟨hheaders, hlinked⟩ p hp
    exact ⟨fun q hq => hheaders q (mem_indexed_of_completedBy h hp hq),
      hlinked p hp⟩

/-! ## When all projects are completed -/

theorem unbounded_eq_ok_iff {α : Type} {result : Except (Option String) α}
    {a : α} : unbounded result = some (.ok a) ↔ result = .ok a := by
  rcases result with (_ | message) | b <;> simp [unbounded]

theorem unbounded_eq_error_iff {α : Type}
    {result : Except (Option String) α} {message : String} :
    unbounded result = some (.error message) ↔
      result = .error (some message) := by
  rcases result with (_ | message') | b <;> simp [unbounded]

/-- The projects are completed one after another; their names are found. -/
theorem completeForAllProjects_eq (h : solution.projects.WellFormed)
    (depth : ℕ) (st : σ) :
    solution.completeForAllProjects depth st =
      unbounded (solution.projects.indexed.foldlM (fun st p =>
        solution.completeForActiveProject depth p st) st) := by
  rw [completeForAllProjects, genericFor_ipairs, Option.bind_some]
  have hnames : ∀ p ∈ solution.projects.indexed,
      solution.projects.atName p.name = some p := fun p hp =>
    h.atName_eq_some_iff.mpr ⟨hp, rfl⟩
  congr 1
  generalize solution.projects.indexed = l at hnames
  generalize 1 = k
  induction l generalizing st k with
  | nil => rfl
  | cons p l ih =>
      obtain ⟨hp, hl⟩ := List.forall_mem_cons.mp hnames
      rw [List.zipIdx_cons, List.foldlM_cons, List.foldlM_cons]
      dsimp only
      rw [hp]
      dsimp only
      rcases solution.completeForActiveProject depth p st with e | st'
      · rfl
      · exact ih st' hl (k + 1)

/-- What comes of all projects with a bound. -/
theorem foreseen_completeForAllProjects (h : solution.projects.WellFormed)
    (depth : ℕ) (st : σ) :
    Foreseen (∀ p ∈ solution.projects.indexed,
        solution.NamesExist p ∧ solution.LinksEnd depth p)
      (fun e => ∃ before p after,
        solution.projects.indexed = before ++ p :: after ∧
        (∀ q ∈ before, solution.NamesExist q ∧ solution.LinksEnd depth q) ∧
        (e = none ∧ ¬solution.LinksEnd depth p ∨
          ∃ message, e = some message ∧ NameError solution p message))
      (solution.projects.indexed.foldlM (fun st p =>
        solution.completeForActiveProject depth p st) st) := by
  apply Foreseen.foldlM
  intro p hp st
  apply foreseen_completeForActiveProject
  rw [h.atName_eq_some_iff.mpr ⟨hp, rfl⟩]
  exact Option.some_ne_none p

/-- The settings of all projects are completed if and only if there is no cycle
of header links, no cycle of links can be reached from an application or a
shared library, and the projects that are named for build events and coverage
reports exist.  Without cycles there is a result in any case.  An error is one
about a name of the first project that is not completed; `setActiveProject`
never fails. -/
theorem completeForAllProjects_spec (h : solution.projects.WellFormed)
    (st : σ) :
    ((∃ depth st', solution.completeForAllProjects depth st =
        some (.ok st')) ↔
      ((∀ p ∈ solution.projects.indexed,
          ¬Relation.TransGen solution.HeaderLink p p) ∧
        ∀ p ∈ solution.projects.indexed, solution.FollowsLinks p →
          ∀ q, Relation.ReflTransGen solution.Link p q →
            ¬Relation.TransGen solution.Link q q) ∧
      ∀ p ∈ solution.projects.indexed, solution.NamesExist p) ∧
    ((∀ p ∈ solution.projects.indexed,
          ¬Relation.TransGen solution.HeaderLink p p) ∧
        (∀ p ∈ solution.projects.indexed, solution.FollowsLinks p →
          ∀ q, Relation.ReflTransGen solution.Link p q →
            ¬Relation.TransGen solution.Link q q) →
      ∃ depth result,
        solution.completeForAllProjects depth st = some result) ∧
    ∀ depth message,
      solution.completeForAllProjects depth st = some (.error message) →
      ∃ before p after,
        solution.projects.indexed = before ++ p :: after ∧
        (∀ q ∈ before, solution.NamesExist q ∧ solution.NoCycles q) ∧
        NameError solution p message := by
  simp only [completeForAllProjects_eq h, ← forall_noCycles_iff h,
    ← exists_forall_linksEnd_iff]
  refine ⟨?_, ?_, ?_⟩
  · constructor
    · rintro ⟨depth, st', hrun⟩
      have hall := (foreseen_completeForAllProjects h depth st).ok_iff.mp
        ⟨st', unbounded_eq_ok_iff.mp hrun⟩
      exact ⟨⟨depth, fun p hp => (hall p hp).2⟩, fun p hp => (hall p hp).1⟩
    · rintro ⟨⟨depth, hends⟩, hnames⟩
      obtain ⟨st', hst'⟩ :=
        (foreseen_completeForAllProjects h depth st).ok_iff.mpr
          fun p hp => ⟨hnames p hp, hends p hp⟩
      exact ⟨depth, st', unbounded_eq_ok_iff.mpr hst'⟩
  · rintro ⟨depth, hends⟩
    have herror := (foreseen_completeForAllProjects h depth st).error
    refine ⟨depth, ?_⟩
    rcases hrun : solution.projects.indexed.foldlM (fun st p =>
      solution.completeForActiveProject depth p st) st with
      (_ | message) | st'
    · obtain ⟨before, p, after, hsplit, -, ⟨-, hnot⟩ | ⟨message, hnone, -⟩⟩ :=
        herror none hrun
      · refine absurd (hends p ?_) hnot
        rw [hsplit]
        exact List.mem_append_right _ List.mem_cons_self
      · cases hnone
    · exact ⟨_, rfl⟩
    · exact ⟨_, rfl⟩
  · intro depth message hrun
    obtain ⟨before, p, after, hsplit, hbefore, ⟨hnone, -⟩ |
      ⟨message', hsome, hname⟩⟩ :=
      (foreseen_completeForAllProjects h depth st).error _
        (unbounded_eq_error_iff.mp hrun)
    · cases hnone
    · cases hsome
      exact ⟨before, p, after, hsplit, fun q hq => ⟨(hbefore q hq).1,
        exists_linksEnd_iff.mp ⟨depth, (hbefore q hq).2⟩⟩, hname⟩

end Results

/-- The application is an executable with a coverage report; what is done to the
settings is noted. -/
def appLibTool (projectNames : List String) : Solution (List String) where
  projects := Build.appLibTool
  metaProject := fun _ => false
  isAppProject := fun project => project.name == "app"
  isSharedLib := fun _ => false
  coverageFor := fun project =>
    if project.name = "app" then some projectNames else none
  coverageSupported := true
  configurations := [("debug", "x32")]
  libPath := fun _ _ _ project => project.name ++ ".so"
  binPath := fun _ _ _ project => project.name ++ "/bin"
  copyCommand := fun _ _ _ libPath => "cp " ++ libPath
  callOnLinkFor := fun _ project st => st ++ ["onLink " ++ project.name]
  links := fun _ name st => st ++ ["link " ++ name]
  prebuildcommands := fun _ _ _ commands st => st ++ commands
  postbuildcommands := fun _ _ _ commands st => st ++ commands
  coverageCommands := fun project _ st => st ++ ["report " ++ project.name]

/-- The only link is the one from the application to the library. -/
theorem noCycles_appLibTool (projectNames : List String) :
    ∀ p ∈ (appLibTool projectNames).projects.indexed,
      (appLibTool projectNames).NoCycles p := by
  generalize hsolution : appLibTool projectNames = solution
  have hlink : ∀ a ∈ solution.projects.indexed, ∀ b ∈ solution.linked a,
      b ∈ solution.projects.indexed ∧ solution.linked b = [] := by
    subst hsolution
    intro a ha
    change a ∈ Build.appLibTool.indexed at ha
    simp only [Build.appLibTool, List.mem_cons, List.not_mem_nil, or_false] at ha
    rcases ha with rfl | rfl | rfl
    · intro b hb
      change b ∈ [(⟨"lib", [], [], []⟩ : Project)] at hb
      rw [List.mem_singleton] at hb
      subst hb
      exact ⟨List.mem_cons_of_mem _ List.mem_cons_self, rfl⟩
    · intro b hb
      cases hb
    · intro b hb
      cases hb
  have hcycle : ∀ a ∈ solution.projects.indexed,
      ¬Relation.TransGen solution.Link a a := by
    intro a ha h
    obtain ⟨b, hb, hback⟩ := Relation.TransGen.head'_iff.mp h
    obtain ⟨-, hnone⟩ := hlink a ha b hb
    rcases Relation.ReflTransGen.cases_head hback with rfl | ⟨c, hc, -⟩
    · change b ∈ solution.linked b at hb
      rw [hnone] at hb
      cases hb
    · change c ∈ solution.linked b at hc
      rw [hnone] at hc
      cases hc
  have hreach : ∀ {a b}, a ∈ solution.projects.indexed →
      Relation.ReflTransGen solution.Link a b →
      b ∈ solution.projects.indexed := by
    intro a b ha h
    induction h with
    | refl => exact ha
    | tail _ hstep ih => exact (hlink _ ih _ hstep).1
  have hheader : ∀ a b, solution.HeaderLink a b → solution.Link a b :=
    fun a b hab => List.mem_append_left _ hab
  have hwell : solution.projects.WellFormed := by
    subst hsolution
    exact wellFormed_appLibTool
  rw [forall_noCycles_iff hwell]
  exact ⟨fun p hp h => hcycle p hp (Relation.TransGen.mono hheader p p h),
    fun p hp _ q hq => hcycle q (hreach hp hq)⟩

/-- A report about what is not a project is an error for the application. -/
theorem completeForAllProjects_nope :
    ∃ depth, (appLibTool ["nope"]).completeForAllProjects depth [] =
      some (.error
        "Cannot create coverage report for app: nope does not exist") := by
  have hwell : (appLibTool ["nope"]).projects.WellFormed :=
    wellFormed_appLibTool
  obtain ⟨hok, hresult, herror⟩ :=
    @completeForAllProjects_spec _ (appLibTool ["nope"]) hwell []
  obtain ⟨depth, result, hrun⟩ := hresult
    ((forall_noCycles_iff hwell).mp (noCycles_appLibTool ["nope"]))
  refine ⟨depth, ?_⟩
  rcases result with message | st'
  · obtain ⟨before, p, after, hsplit, -, hname⟩ := herror depth message hrun
    have hp : p ∈ Build.appLibTool.indexed := by
      rw [show Build.appLibTool.indexed = before ++ p :: after from hsplit]
      exact List.mem_append_right _ List.mem_cons_self
    simp only [Build.appLibTool, List.mem_cons, List.not_mem_nil, or_false] at hp
    cases hname with
    | preBuild preBuild hmem _ => rcases hp with rfl | rfl | rfl <;> cases hmem
    | coverageFor name hcovers hnone =>
        obtain ⟨-, happ, names, hfor, hname⟩ := hcovers
        rcases hp with rfl | rfl | rfl
        · cases hfor
          rw [List.mem_singleton] at hname
          subst hname
          exact hrun
        · cases happ
        · cases happ
  · obtain ⟨-, hnames⟩ := hok.mp ⟨depth, st', hrun⟩
    refine absurd ?_ ((hnames ⟨"app", ["lib"], [], []⟩
      List.mem_cons_self).coverageFor "nope"
        ⟨rfl, rfl, ["nope"], rfl, List.mem_cons_self⟩)
    rfl

end SudokuSolver.Build.Solution
