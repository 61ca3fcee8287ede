import SudokuSolver.Build.Only
import SudokuSolver.Support.Walk

/-!
# Dependents

`addDependents` of `dependencies.lua`, and what `dependents.lua` and `all.lua`
make of it.  The first keeps the wanted projects and those that depend on them,
without the links that lead out of them; the second keeps the dependencies of
all these projects as well.
-/

namespace SudokuSolver.Build

/-! ## Adding dependents -/

/-- The condition under which a project directly depends on another to build. -/
def dependsDirectly (prj project : Project) : Bool :=
  let preBuildNames := prj.preBuild.map PreBuild.projectName
  contains prj.headerLinks project.name ||
    contains prj.sourceOnlyLinks project.name ||
    contains preBuildNames project.name

/-- Given a project adds all names of the projects that directly depend on it to
build to the given list. -/
def addProjectDependents (projects : Projects) (project : Project)
    (list : List String) : Option (List String) :=
  (genericFor (ipairs fun _ => projects.indexed) (fun (_, prj) list =>
    (.ok (if dependsDirectly prj project then list ++ [prj.name] else list) :
      Except Unit (List String))) 0 list).bind Except.toOption

/-- Adds the names of the projects that directly depend on each. -/
def addDependents (projects : Projects) (projectNames : List String) :
    Option (List String) :=
  forEachValidProject projects id (addProjectDependents projects) projectNames

/-! ## Removing unrelated projects -/

/-- The check of the wanted names in `dependents.lua`. -/
def checkDependentNames (projects : Projects) (wantedNames : List String) :
    Option (Except String Unit) :=
  genericFor (ipairs fun _ => wantedNames) (fun (_, name) _ =>
    if (projects.atName name).isNone then
      .error (name ++ " is not a project name")
    else .ok ()) 0 ()

namespace Dependents

/-- Removes the links of a project to what isn't wanted. -/
def keepLinks (wantedNames : List String) (project : Project) : Project where
  name := project.name
  headerLinks := removeIf project.headerLinks fun name =>
    !contains wantedNames name
  sourceOnlyLinks := removeIf project.sourceOnlyLinks fun name =>
    !contains wantedNames name
  preBuild := removeIf project.preBuild fun pre =>
    !contains wantedNames pre.projectName

/-- The last loop of `removeUnrelatedProjects`.  `pairs` comes to every project
under its index and under its name, but nothing is left to remove the second
time. -/
def keepAllLinks (wantedNames : List String) (projects : Projects) :
    Projects where
  indexed := projects.indexed.map (keepLinks wantedNames)
  named := projects.named.map fun field =>
    (field.1, keepLinks wantedNames field.2)

/-- Removes all projects that aren't the named projects or aren't dependent on
one of the named projects from the solution: whether an error was raised, and
the solution after it. -/
def removeUnrelatedProjects (projects : Projects) (wantedNames : List String) :
    Option (Except String Unit × Projects) := do
  match ← checkDependentNames projects wantedNames with
  | .error message => return (.error message, projects)
  | .ok () =>
      let wantedNames ← addDependents projects wantedNames
      let projects := removeProjectsIf projects fun project =>
        !contains wantedNames project.name
      return (.ok (), keepAllLinks wantedNames projects)

end Dependents

namespace All

/-- Removes all projects that are neither related to the named projects nor to
their dependents.  The names are checked as `only.lua` does it. -/
def removeUnrelatedProjects (projects : Projects) (wantedNames : List String) :
    Option (Except String Unit × Projects) := do
  match ← checkNames projects wantedNames with
  | .error message => return (.error message, projects)
  | .ok () =>
      let wantedNames ← addDependents projects wantedNames
      let wantedNames ← addDependencies projects wantedNames
      return (.ok (), removeProjectsIf projects fun project =>
        !contains wantedNames project.name)

end All

/-! ## The names that are added -/

variable {projects : Projects} {wantedNames : List String}

/-- What is added to the list for one of its names. -/
def dependents (projects : Projects) (name : String) : List String :=
  match projects.atName name with
  | some project =>
      (projects.indexed.filter fun prj => dependsDirectly prj project).map
        Project.name
  | none => []

theorem dependsDirectly_iff {prj project : Project} :
    dependsDirectly prj project = true ↔ project.name ∈ prj.links := by
  simp only [dependsDirectly, Bool.or_eq_true, contains_iff, Project.links,
    List.mem_append]

theorem addProjectDependents_eq (projects : Projects) (project : Project)
    (list : List String) :
    addProjectDependents projects project list =
      some (list ++ (projects.indexed.filter fun prj =>
        dependsDirectly prj project).map Project.name) := by
  rw [addProjectDependents, genericFor_ipairs, Option.bind_some]
  generalize projects.indexed = l
  generalize 1 = k
  induction l generalizing list k with
  | nil => simp [pure, Except.pure, Except.toOption]
  | cons prj l ih =>
      rw [List.zipIdx_cons, List.foldlM_cons, List.filter_cons]
      dsimp only
      by_cases hprj : dependsDirectly prj project = true
      · rw [if_pos hprj, if_pos hprj, List.map_cons]
        have hrest := ih (list ++ [prj.name]) (k + 1)
        rw [List.append_assoc, List.singleton_append] at hrest
        exact hrest
      · rw [if_neg hprj, if_neg hprj]
        exact ih list (k + 1)

theorem appends_dependents_iff (h : projects.WellFormed) {a b : String} :
    Appends (dependents projects) a b ↔ DependsOn projects b a := by
  rw [Appends, dependents, DependsOn]
  rcases ha : projects.atName a with _ | project
  · simp
  · have hname := (h.atName_eq_some_iff.mp ha).2
    simp only [List.mem_map, List.mem_filter, dependsDirectly_iff, hname]
    constructor
    · rintro ⟨prj, ⟨hprj, hlink⟩, rfl⟩
      exact ⟨prj, project, h.atName_eq_some_iff.mpr ⟨hprj, rfl⟩, hlink, rfl⟩
    · rintro ⟨prj, -, hprj, hlink, -⟩
      obtain ⟨hmem, rfl⟩ := h.atName_eq_some_iff.mp hprj
      exact ⟨prj, ⟨hmem, hlink⟩, rfl⟩

/-- Without cycles no chain of dependents goes on for ever. -/
theorem Acyclic.wellFounded_dependents (hacyclic : Acyclic projects) :
    WellFounded fun b a => DependsOn projects b a := by
  constructor
  intro a
  apply (acc_iff_acyclic ?_).mpr
  · intro b _ hcycle
    exact hacyclic b (Relation.transGen_swap.mp hcycle)
  · apply (List.finite_toSet (a :: projects.named.map Prod.fst)).subset
    intro b hb
    rcases Relation.ReflTransGen.cases_tail hb with rfl | ⟨c, -, hc⟩
    · exact List.mem_cons_self
    · obtain ⟨project, _, hname, -⟩ := hc
      obtain ⟨field, hfield, -⟩ := Option.map_eq_some_iff.mp hname
      have hkey : field.1 = b := by
        simpa using List.find?_some hfield
      rw [← hkey]
      exact List.mem_cons_of_mem a
        (List.mem_map_of_mem (List.mem_of_find?_eq_some hfield))

/-- The list comes to hold exactly the names that lead to the wanted ones. -/
theorem addDependents_spec (h : projects.WellFormed)
    (hacyclic : Acyclic projects) (wantedNames : List String) :
    ∃ names, addDependents projects wantedNames = some names ∧
      ∀ name, name ∈ names ↔ ∃ wanted ∈ wantedNames,
        Relation.ReflTransGen (DependsOn projects) name wanted := by
  have happends : Appends (dependents projects) =
      fun a b => DependsOn projects b a :=
    funext fun a => funext fun b => propext (appends_dependents_iff h)
  have hnext : WellFounded fun b a => Appends (dependents projects) a b :=
    happends ▸ hacyclic.wellFounded_dependents
  obtain ⟨names, hrun, hnames⟩ :=
    genericFor_ipairs_grow (ρ := Unit) hnext wantedNames
  refine ⟨names, ?_, fun name => ?_⟩
  · have hbody : (fun (p : ℕ × String) (list : List String) =>
        match projects.atName p.2 with
        | some project => (addProjectDependents projects project list).elim
            (Except.error ()) Except.ok
        | none => Except.ok list) =
        fun p list => .ok (list ++ dependents projects p.2) := by
      funext p list
      rw [dependents]
      rcases projects.atName p.2 with _ | project
      · simp
      · simp only [addProjectDependents_eq, Option.elim_some]
    have hloop := (congrArg (fun body =>
      genericFor (ipairs id) body 0 wantedNames) hbody).trans hrun
    exact congrArg (fun result => result.bind Except.toOption) hloop
  · rw [hnames, happends]
    simp only [Relation.reflTransGen_swap]

/-! ## What is left of the solution -/

/-- The first wanted name that is not a project is the error. -/
theorem checkDependentNames_eq (projects : Projects)
    (wantedNames : List String) :
    checkDependentNames projects wantedNames =
      some (match wantedNames.find? fun name =>
        (projects.atName name).isNone with
      | some name => .error (name ++ " is not a project name")
      | none => .ok ()) := by
  rw [checkDependentNames, genericFor_ipairs]
  congr 1
  generalize 1 = k
  induction wantedNames generalizing k with
  | nil => rfl
  | cons name names ih =>
      rw [List.zipIdx_cons, List.foldlM_cons, List.find?_cons]
      dsimp only
      by_cases hname : (projects.atName name).isNone = true
      · rw [if_pos hname, hname]
        rfl
      · rw [if_neg hname, Bool.eq_false_iff.mpr hname]
        exact ih (k + 1)

/-- A solution that is left with the wanted projects and their dependents, in
their order.  Between them there are the same links as before, and no link leads
out of the solution. -/
structure KeepsDependents (projects : Projects) (wantedNames : List String)
    (kept : Projects) : Prop where
  wellFormed : kept.WellFormed
  sublist : (kept.indexed.map Project.name).Sublist
    (projects.indexed.map Project.name)
  atName_iff : ∀ name, kept.atName name ≠ none ↔
    ∃ wanted ∈ wantedNames,
      Relation.ReflTransGen (DependsOn projects) name wanted
  dependsOn_iff : ∀ a b, DependsOn kept a b ↔
    DependsOn projects a b ∧ kept.atName b ≠ none
  closed : ∀ project ∈ kept.indexed, ∀ name ∈ project.links,
    kept.atName name ≠ none

namespace Dependents

variable {names : List String}

theorem mem_links_keepLinks {project : Project} {name : String} :
    name ∈ (keepLinks names project).links ↔
      name ∈ project.links ∧ name ∈ names := by
  simp only [keepLinks, Project.links, removeIf_eq, List.mem_append,
    List.mem_filter, List.mem_map, Bool.not_not, contains_iff]
  constructor
  · rintro ((⟨hlink, hname⟩ | ⟨hlink, hname⟩) | ⟨pre, ⟨hpre, hname⟩, rfl⟩)
    · exact ⟨Or.inl (Or.inl hlink), hname⟩
    · exact ⟨Or.inl (Or.inr hlink), hname⟩
    · exact ⟨Or.inr ⟨pre, hpre, rfl⟩, hname⟩
  · rintro ⟨(hlink | hlink) | ⟨pre, hpre, rfl⟩, hname⟩
    · exact Or.inl (Or.inl ⟨hlink, hname⟩)
    · exact Or.inl (Or.inr ⟨hlink, hname⟩)
    · exact Or.inr ⟨pre, ⟨hpre, hname⟩, rfl⟩

theorem wellFormed_keepAllLinks (names : List String)
    (h : projects.WellFormed) :
    (keepAllLinks names projects).WellFormed := by
  constructor
  · rw [keepAllLinks, List.map_map]
    exact h.nodup_names
  · rintro ⟨key, project⟩
    simp only [keepAllLinks, List.mem_map, Prod.mk.injEq]
    constructor
    · rintro ⟨field, hfield, rfl, rfl⟩
      obtain ⟨hmem, hname⟩ := (h.mem_named field).mp hfield
      exact ⟨⟨field.2, hmem, rfl⟩, hname⟩
    · rintro ⟨⟨prj, hprj, rfl⟩, rfl⟩
      exact ⟨(prj.name, prj), (h.mem_named _).mpr ⟨hprj, rfl⟩, rfl, rfl⟩

/-- The projects that are left, with the links that are left. -/
theorem atName_kept_iff (h : projects.WellFormed) {kept : Projects}
    (hkept : keepAllLinks names (removeProjectsIf projects fun project =>
      !contains names project.name) = kept) {name : String}
    {project : Project} :
    kept.atName name = some project ↔
      ∃ prj, projects.atName name = some prj ∧ name ∈ names ∧
        keepLinks names prj = project := by
  subst hkept
  have hwell := wellFormed_keepAllLinks names
    (h.removeProjectsIf fun project => !contains names project.name)
  rw [hwell.atName_eq_some_iff, keepAllLinks, removeProjectsIf, removeIf_eq]
  simp only [List.mem_map, List.mem_filter, Bool.not_not, contains_iff,
    h.atName_eq_some_iff]
  constructor
  · rintro ⟨⟨prj, ⟨hprj, hmem⟩, rfl⟩, rfl⟩
    exact ⟨prj, ⟨hprj, rfl⟩, hmem, rfl⟩
  · rintro ⟨prj, ⟨hprj, rfl⟩, hmem, rfl⟩
    exact ⟨⟨prj, ⟨hprj, hmem⟩, rfl⟩, rfl⟩

/-- A name that leads to a project is the name of a project. -/
theorem atName_ne_none_of_reaches {name wanted : String}
    (hwanted : projects.atName wanted ≠ none)
    (h : Relation.ReflTransGen (DependsOn projects) name wanted) :
    projects.atName name ≠ none := by
  rcases Relation.ReflTransGen.cases_head h with rfl | ⟨next, hstep, -⟩
  · exact hwanted
  · obtain ⟨project, _, hname, -⟩ := hstep
    rw [hname]
    exact Option.some_ne_none project

theorem keepsDependents (h : projects.WellFormed)
    (hnames : ∀ name, name ∈ names ↔ ∃ wanted ∈ wantedNames,
      Relation.ReflTransGen (DependsOn projects) name wanted)
    (hvalid : ∀ name ∈ wantedNames, projects.atName name ≠ none)
    {kept : Projects}
    (hkept : keepAllLinks names (removeProjectsIf projects fun project =>
      !contains names project.name) = kept) :
    KeepsDependents projects wantedNames kept := by
  have hatName : ∀ name, kept.atName name ≠ none ↔ name ∈ names := by
    intro name
    rw [Option.ne_none_iff_exists']
    constructor
    · rintro ⟨project, hproject⟩
      obtain ⟨prj, -, hname, -⟩ := (atName_kept_iff h hkept).mp hproject
      exact hname
    · intro hname
      obtain ⟨wanted, hwanted, hreaches⟩ := (hnames name).mp hname
      obtain ⟨prj, hprj⟩ := Option.ne_none_iff_exists'.mp
        (atName_ne_none_of_reaches (hvalid wanted hwanted) hreaches)
      exact ⟨_, (atName_kept_iff h hkept).mpr ⟨prj, hprj, hname, rfl⟩⟩
  have hwell : kept.WellFormed := hkept ▸ wellFormed_keepAllLinks names
    (h.removeProjectsIf fun project => !contains names project.name)
  refine ⟨hwell, ?_, fun name => (hatName name).trans (hnames name),
    fun a b => ⟨?_, ?_⟩, fun project hproject name hlink => ?_⟩
  · rw [← hkept, keepAllLinks, List.map_map, removeProjectsIf, removeIf_eq]
    exact List.filter_sublist.map Project.name
  · rintro ⟨project, dependency, ha, hlink, hb⟩
    obtain ⟨prj, hprj, -, rfl⟩ := (atName_kept_iff h hkept).mp ha
    obtain ⟨dep, hdep, hmem, -⟩ := (atName_kept_iff h hkept).mp hb
    exact ⟨⟨prj, dep, hprj, (mem_links_keepLinks.mp hlink).1, hdep⟩,
      (hatName b).mpr hmem⟩
  · rintro ⟨⟨prj, dep, hprj, hlink, hdep⟩, hb⟩
    have hmem := (hatName b).mp hb
    obtain ⟨wanted, hwanted, hreaches⟩ := (hnames b).mp hmem
    have ha : a ∈ names := (hnames a).mpr ⟨wanted, hwanted,
      Relation.ReflTransGen.head ⟨prj, dep, hprj, hlink, hdep⟩ hreaches⟩
    exact ⟨_, _, (atName_kept_iff h hkept).mpr ⟨prj, hprj, ha, rfl⟩,
      mem_links_keepLinks.mpr ⟨hlink, hmem⟩,
      (atName_kept_iff h hkept).mpr ⟨dep, hdep, hmem, rfl⟩⟩
  · have hname := hwell.atName_eq_some_iff.mpr ⟨hproject, rfl⟩
    obtain ⟨prj, -, -, rfl⟩ := (atName_kept_iff h hkept).mp hname
    exact (hatName name).mpr (mem_links_keepLinks.mp hlink).2

end Dependents

/-- Exactly the wanted projects and their dependents are left, with exactly the
links between them; a wanted name that is not a project is an error that leaves
the solution as it was, and is about the first such name. -/
theorem removeUnrelatedProjects_dependents (h : projects.WellFormed)
    (hacyclic : Acyclic projects) (wantedNames : List String) :
    (∀ name, (wantedNames.find? fun name => (projects.atName name).isNone) =
        some name →
      Dependents.removeUnrelatedProjects projects wantedNames =
        some (.error (name ++ " is not a project name"), projects)) ∧
      ((∀ name ∈ wantedNames, projects.atName name ≠ none) →
        ∃ kept, Dependents.removeUnrelatedProjects projects wantedNames =
          some (.ok (), kept) ∧ KeepsDependents projects wantedNames kept) := by
  rw [Dependents.removeUnrelatedProjects, checkDependentNames_eq]
  constructor
  · intro name hname
    rw [hname]
    rfl
  · intro hvalid
    have hnone : (wantedNames.find? fun name =>
        (projects.atName name).isNone) = none := by
      rw [List.find?_eq_none]
      intro name hname hisNone
      exact hvalid name hname (Option.isNone_iff_eq_none.mp hisNone)
    obtain ⟨names, hrun, hnames⟩ := addDependents_spec h hacyclic wantedNames
    refine ⟨_, ?_, Dependents.keepsDependents h hnames hvalid rfl⟩
    rw [hnone]
    simp only [Option.bind_eq_bind, Option.bind_some, hrun]
    rfl

/-- The library is wanted, and the application depends on it. -/
theorem removeUnrelatedProjects_dependents_lib :
    (∀ name, (["lib"].find? fun name => (appLibTool.atName name).isNone) =
        some name →
      Dependents.removeUnrelatedProjects appLibTool ["lib"] =
        some (.error (name ++ " is not a project name"), appLibTool)) ∧
      ((∀ name ∈ ["lib"], appLibTool.atName name ≠ none) →
        ∃ kept, Dependents.removeUnrelatedProjects appLibTool ["lib"] =
          some (.ok (), kept) ∧ KeepsDependents appLibTool ["lib"] kept) :=
  removeUnrelatedProjects_dependents wellFormed_appLibTool acyclic_appLibTool
    ["lib"]

/-- A project that some dependent of a wanted project leads to. -/
def RelatedToDependent (projects : Projects) (wantedNames : List String)
    (project : Project) : Prop :=
  project ∈ projects.indexed ∧ ∃ wanted ∈ wantedNames, ∃ dependent,
    Relation.ReflTransGen (DependsOn projects) dependent wanted ∧
      Relation.ReflTransGen (DependsOn projects) dependent project.name

/-- Exactly the projects are left that some dependent of a wanted project leads
to.  Names that are not projects make no difference, unless there are more names
than projects, which is an error. -/
theorem removeUnrelatedProjects_all (h : projects.WellFormed)
    (hacyclic : Acyclic projects) (wantedNames : List String) :
    (projects.indexed.length < wantedNames.length →
      All.removeUnrelatedProjects projects wantedNames =
        some (.error (toString (projects.indexed.length + 1) ++
          " is not a project name"), projects)) ∧
      (wantedNames.length ≤ projects.indexed.length →
        ∃ kept, All.removeUnrelatedProjects projects wantedNames =
          some (.ok (), kept) ∧ kept.WellFormed ∧
          kept.indexed.Sublist projects.indexed ∧
          ∀ project, project ∈ kept.indexed ↔
            RelatedToDependent projects wantedNames project) := by
  rw [All.removeUnrelatedProjects, checkNames_eq]
  constructor
  · intro hlength
    rw [if_pos hlength]
    rfl
  · intro hlength
    obtain ⟨names, hrun, hnames⟩ := addDependents_spec h hacyclic wantedNames
    obtain ⟨closed, hclosed, hmem⟩ := addDependencies_spec h hacyclic names
    refine ⟨removeProjectsIf projects fun project =>
      !contains closed project.name, ?_, h.removeProjectsIf _, ?_, ?_⟩
    · rw [if_neg (Nat.not_lt.mpr hlength)]
      simp only [Option.bind_eq_bind, Option.bind_some, hrun, hclosed]
      rfl
    · rw [removeProjectsIf, removeIf_eq]
      exact List.filter_sublist
    · intro project
      rw [removeProjectsIf, removeIf_eq, List.mem_filter, Bool.not_not,
        contains_iff, hmem, RelatedToDependent]
      apply and_congr_right
      intro _
      constructor
      · rintro ⟨dependent, hdependent, hreaches⟩
        obtain ⟨wanted, hwanted, hback⟩ := (hnames dependent).mp hdependent
        exact ⟨wanted, hwanted, dependent, hback, hreaches⟩
      · rintro ⟨wanted, hwanted, dependent, hback, hreaches⟩
        exact ⟨dependent, (hnames dependent).mpr ⟨wanted, hwanted, hback⟩,
          hreaches⟩

/-- Around the library there are the application and itself. -/
theorem removeUnrelatedProjects_all_lib :
    (3 < ["lib"].length →
      All.removeUnrelatedProjects appLibTool ["lib"] =
        some (.error (toString (3 + 1) ++ " is not a project name"),
          appLibTool)) ∧
      (["lib"].length ≤ 3 →
        ∃ kept, All.removeUnrelatedProjects appLibTool ["lib"] =
          some (.ok (), kept) ∧ kept.WellFormed ∧
          kept.indexed.Sublist appLibTool.indexed ∧
          ∀ project, project ∈ kept.indexed ↔
            RelatedToDependent appLibTool ["lib"] project) :=
  removeUnrelatedProjects_all wellFormed_appLibTool acyclic_appLibTool ["lib"]

end SudokuSolver.Build
