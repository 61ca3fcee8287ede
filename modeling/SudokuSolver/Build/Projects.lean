import SudokuSolver.Support.GenericFor

/-!
# The projects of a solution

`array.lua`, `utilities.lua` and `dependencies.lua` of the build scripts.  The
table of projects has an array part and a field for every name.  Of a project
only the name, the links to other projects and the pre-build steps are kept.
-/

namespace SudokuSolver.Build

/-! ## Projects -/

/-- A pre-build step.  The arguments are what they are when all projects have
been defined: where they are a function, what it returns. -/
structure PreBuild where
  projectName : String
  arguments : Option String

structure Project where
  name : String
  headerLinks : List String
  sourceOnlyLinks : List String
  preBuild : List PreBuild

/-- `solution().projects`: the projects under their indices, from one on, and
the fields under names. -/
structure Projects where
  indexed : List Project
  named : List (String × Project)

namespace Projects

variable {projects : Projects}

/-- `projects[index]`. -/
def atIndex (projects : Projects) (index : ℕ) : Option Project :=
  if index = 0 then none else projects.indexed[index - 1]?

/-- `projects[name]`. -/
def atName (projects : Projects) (name : String) : Option Project :=
  (projects.named.find? fun field => field.1 == name).map Prod.snd

/-- Every project is both under its index and under its name. -/
structure WellFormed (projects : Projects) : Prop where
  nodup_names : (projects.indexed.map Project.name).Nodup
  mem_named : ∀ field, field ∈ projects.named ↔
    field.2 ∈ projects.indexed ∧ field.2.name = field.1

theorem WellFormed.eq_of_name (h : projects.WellFormed) {p q : Project}
    (hp : p ∈ projects.indexed) (hq : q ∈ projects.indexed)
    (hname : p.name = q.name) : p = q :=
  List.inj_on_of_nodup_map h.nodup_names hp hq hname

theorem WellFormed.atName_eq_some_iff (h : projects.WellFormed)
    {name : String} {project : Project} :
    projects.atName name = some project ↔
      project ∈ projects.indexed ∧ project.name = name := by
  rw [atName, Option.map_eq_some_iff]
  constructor
  · rintro ⟨field, hfind, rfl⟩
    have hkey : field.1 = name := by
      simpa using List.find?_some hfind
    have hmem := (h.mem_named field).mp (List.mem_of_find?_eq_some hfind)
    exact ⟨hmem.1, hmem.2.trans hkey⟩
  · rintro ⟨hmem, hname⟩
    have hfield : (name, project) ∈ projects.named :=
      (h.mem_named (name, project)).mpr ⟨hmem, hname⟩
    obtain ⟨field, hfind⟩ := Option.isSome_iff_exists.mp
      (List.find?_isSome (p := fun field : String × Project =>
        field.1 == name).mpr ⟨(name, project), hfield, by simp⟩)
    have hkey : field.1 = name := by
      simpa using List.find?_some hfind
    have hother := (h.mem_named field).mp (List.mem_of_find?_eq_some hfind)
    refine ⟨field, hfind, h.eq_of_name hother.1 hmem ?_⟩
    rw [hother.2, hkey, hname]

theorem atIndex_isNone_iff {index : ℕ} (hindex : 1 ≤ index) :
    (projects.atIndex index).isNone = true ↔
      projects.indexed.length < index := by
  rw [atIndex, if_neg (by omega), Option.isNone_iff_eq_none,
    List.getElem?_eq_none_iff]
  omega

end Projects

/-! ## Arrays -/

/-- True if the item already exists in the given array. -/
def contains (array : List String) (checkForItem : String) : Bool :=
  array.any fun item => item == checkForItem

theorem contains_iff {array : List String} {item : String} :
    contains array item = true ↔ item ∈ array := by
  simp [contains]

/-- The rounds of `removeIf` from an index down to the first one. -/
def removeFrom {α : Type} (func : α → Bool) : ℕ → List α → List α
  | 0, array => array
  | index + 1, array =>
      removeFrom func index
        (if array[index]?.any func then array.eraseIdx index else array)

/-- Removes all items for which the functor returns true. -/
def removeIf {α : Type} (array : List α) (func : α → Bool) : List α :=
  removeFrom func array.length array

theorem removeFrom_append {α : Type} (func : α → Bool) (first rest : List α) :
    removeFrom func first.length (first ++ rest) =
      (first.filter fun a => !func a) ++ rest := by
  induction first using List.reverseRecOn generalizing rest with
  | nil => rfl
  | append_singleton first a ih =>
      have hitem : (first ++ [a] ++ rest)[first.length]? = some a := by
        simp
      have herase : (first ++ [a] ++ rest).eraseIdx first.length =
          first ++ rest := by
        rw [List.append_assoc, List.eraseIdx_append_of_length_le le_rfl]
        simp
      rw [List.length_append, List.length_singleton, removeFrom, hitem,
        Option.any_some, herase]
      by_cases ha : func a = true
      · rw [if_pos ha, ih, List.filter_append]
        simp [ha]
      · rw [if_neg ha, List.append_assoc, ih, List.filter_append]
        simp [ha]

/-- Going from the end to the start, every item is asked once. -/
theorem removeIf_eq {α : Type} (array : List α) (func : α → Bool) :
    removeIf array func = array.filter fun a => !func a := by
  have h := removeFrom_append func array []
  rwa [List.append_nil, List.append_nil] at h

/-! ## Utilities -/

/-- For each project name that exists in the solution the functor is called
with the project as the parameter.  The list of names is the one of the state
that the functor has left behind. -/
def forEachValidProject {σ : Type} (projects : Projects)
    (projectNames : σ → List String) (functor : Project → σ → Option σ)
    (start : σ) : Option σ :=
  (genericFor (ipairs projectNames) (fun p st =>
    match projects.atName p.2 with
    | some project => (functor project st).elim (.error ()) .ok
    | none => .ok st) 0 start).bind Except.toOption

/-- Removes the projects for which the given functor returns true.  When
`pairs` comes to the array, `removeIf` has left no such project there, so that
only fields under names are set to `nil`. -/
def removeProjectsIf (projects : Projects) (func : Project → Bool) :
    Projects where
  indexed := removeIf projects.indexed func
  named := projects.named.filter fun field => !func field.2

theorem Projects.WellFormed.removeProjectsIf {projects : Projects}
    (h : projects.WellFormed) (func : Project → Bool) :
    (removeProjectsIf projects func).WellFormed := by
  rw [Build.removeProjectsIf, removeIf_eq]
  constructor
  · exact h.nodup_names.sublist (List.filter_sublist.map Project.name)
  · intro field
    rw [List.mem_filter, List.mem_filter, h.mem_named]
    tauto

/-! ## Dependencies -/

/-- Adds all names of the projects the project directly depends on to build to
the given list. -/
def addProjectDependencies (projects : Projects) (project : Project)
    (list : List String) : Option (List String) := do
  let insert := fun (prj : Project) (list : List String) =>
    some (list ++ [prj.name])
  let list ← forEachValidProject projects (fun _ => project.headerLinks)
    insert list
  let list ← forEachValidProject projects (fun _ => project.sourceOnlyLinks)
    insert list
  let preBuildNames := project.preBuild.map PreBuild.projectName
  forEachValidProject projects (fun _ => preBuildNames) insert list

/-- Adds the names of the projects on which each project depends. -/
def addDependencies (projects : Projects) (projectNames : List String) :
    Option (List String) :=
  forEachValidProject projects id (addProjectDependencies projects)
    projectNames

/-- The names a project is linked to. -/
def Project.links (project : Project) : List String :=
  project.headerLinks ++ project.sourceOnlyLinks ++
    project.preBuild.map PreBuild.projectName

/-- A project has a link to another project. -/
def DependsOn (projects : Projects) (a b : String) : Prop :=
  ∃ project dependency, projects.atName a = some project ∧
    b ∈ project.links ∧ projects.atName b = some dependency

def Acyclic (projects : Projects) : Prop :=
  ∀ name, ¬Relation.TransGen (DependsOn projects) name name

/-- A project of the solution that one of the wanted names leads to. -/
def Related (projects : Projects) (wantedNames : List String)
    (project : Project) : Prop :=
  project ∈ projects.indexed ∧ ∃ name ∈ wantedNames,
    Relation.ReflTransGen (DependsOn projects) name project.name

/-- What is added to the list for one of its names. -/
def dependencies (projects : Projects) (name : String) : List String :=
  match projects.atName name with
  | some project =>
      (project.links.filterMap projects.atName).map Project.name
  | none => []

/-- The loop over a list of links inserts the names of its projects. -/
theorem forEachValidProject_insert (projects : Projects)
    (names list : List String) :
    forEachValidProject projects (fun _ => names)
        (fun prj list => some (list ++ [prj.name])) list =
      some (list ++ (names.filterMap projects.atName).map Project.name) := by
  rw [forEachValidProject, genericFor_ipairs, Option.bind_some]
  generalize 1 = k
  induction names generalizing list k with
  | nil => simp; rfl
  | cons name names ih =>
      rw [List.zipIdx_cons, List.foldlM_cons]
      rcases hname : projects.atName name with _ | project
      · rw [List.filterMap_cons_none hname]
        exact ih list (k + 1)
      · rw [List.filterMap_cons_some hname, List.map_cons,
          List.append_cons]
        exact ih (list ++ [project.name]) (k + 1)

theorem addProjectDependencies_eq (projects : Projects) (project : Project)
    (list : List String) :
    addProjectDependencies projects project list =
      some (list ++
        (project.links.filterMap projects.atName).map Project.name) := by
  simp only [addProjectDependencies, forEachValidProject_insert,
    Project.links, Option.bind_eq_bind, Option.bind_some,
    List.filterMap_append, List.map_append, List.append_assoc]

variable {projects : Projects}

theorem appends_iff (h : projects.WellFormed) {a b : String} :
    Appends (dependencies projects) a b ↔ DependsOn projects a b := by
  rw [Appends, dependencies, DependsOn]
  rcases ha : projects.atName a with _ | project
  · simp
  · simp only [List.mem_map, List.mem_filterMap, Option.some.injEq]
    constructor
    · rintro ⟨dependency, ⟨link, hlink, hlookup⟩, rfl⟩
      have hname := (h.atName_eq_some_iff.mp hlookup).2
      exact ⟨project, dependency, rfl, hname ▸ hlink, hname ▸ hlookup⟩
    · rintro ⟨_, dependency, rfl, hlink, hlookup⟩
      exact ⟨dependency, ⟨b, hlink, hlookup⟩,
        (h.atName_eq_some_iff.mp hlookup).2⟩

/-- Without cycles no chain of dependencies goes on for ever. -/
theorem Acyclic.wellFounded (hacyclic : Acyclic projects) :
    WellFounded fun b a => DependsOn projects a b := by
  have hfinite : {name | (projects.atName name).isSome = true}.Finite := by
    apply (List.finite_toSet (projects.named.map Prod.fst)).subset
    intro name hname
    rw [Set.mem_ofPred_eq, Projects.atName, Option.isSome_map] at hname
    obtain ⟨field, hfield, hkey⟩ := List.find?_isSome.mp hname
    exact List.mem_map.mpr ⟨field, hfield, by simpa using hkey⟩
  have hirrefl : Std.Irrefl fun b a =>
      Relation.TransGen (DependsOn projects) a b := ⟨hacyclic⟩
  have htrans : IsTrans String fun b a =>
      Relation.TransGen (DependsOn projects) a b :=
    ⟨fun _ _ _ hba hcb => hcb.trans hba⟩
  have hstrict : IsStrictOrder String fun b a =>
      Relation.TransGen (DependsOn projects) a b := {}
  apply Subrelation.wf _ (Set.wellFoundedOn_iff.mp
    (hfinite.wellFoundedOn (r := fun b a =>
      Relation.TransGen (DependsOn projects) a b)))
  intro b a hab
  have hstep := hab
  obtain ⟨project, dependency, ha, -, hb⟩ := hab
  exact ⟨Relation.TransGen.single hstep, by rw [Set.mem_ofPred_eq, hb]; rfl,
    by rw [Set.mem_ofPred_eq, ha]; rfl⟩

/-- The list comes to hold exactly the names the wanted ones lead to. -/
theorem addDependencies_spec (h : projects.WellFormed)
    (hacyclic : Acyclic projects) (wantedNames : List String) :
    ∃ names, addDependencies projects wantedNames = some names ∧
      ∀ name, name ∈ names ↔ ∃ wanted ∈ wantedNames,
        Relation.ReflTransGen (DependsOn projects) wanted name := by
  have happends : Appends (dependencies projects) = DependsOn projects :=
    funext fun a => funext fun b => propext (appends_iff h)
  have hnext : WellFounded fun b a => Appends (dependencies projects) a b :=
    happends ▸ hacyclic.wellFounded
  obtain ⟨names, hrun, hnames⟩ :=
    genericFor_ipairs_grow (ρ := Unit) hnext wantedNames
  refine ⟨names, ?_, happends ▸ hnames⟩
  rw [addDependencies, forEachValidProject]
  have hbody : (fun (p : ℕ × String) (list : List String) =>
      match projects.atName p.2 with
      | some project => (addProjectDependencies projects project list).elim
          (Except.error ()) Except.ok
      | none => Except.ok list) =
      fun p list => .ok (list ++ dependencies projects p.2) := by
    funext p list
    rw [dependencies]
    rcases projects.atName p.2 with _ | project
    · simp
    · simp only [addProjectDependencies_eq, Option.elim_some]
  rw [hbody, hrun]
  rfl

end SudokuSolver.Build
