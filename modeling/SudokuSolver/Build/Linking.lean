import SudokuSolver.Build.Only
import SudokuSolver.Support.Walk

/-!
# Following the links of the projects

The functions of `onlink.lua`, `propagate_links.lua` and `copy_shared_libs.lua`
of the build scripts that follow the links of a project without a note of where
they have been.  The nested calls of Lua are bounded; a recursion that comes to
the bound is a missing result.
-/

namespace SudokuSolver.Build

variable {σ : Type}

/-! ## The solution -/

/-- The projects and the fields they have besides their links, and what premake
and the `onLink` functions of the projects do to the settings of the active
project.  The path of a shared library or of an executable is relative to the
active project, and `coverageSupported` says whether lcov was found. -/
structure Solution (σ : Type) where
  projects : Projects
  metaProject : Project → Bool
  isAppProject : Project → Bool
  isSharedLib : Project → Bool
  coverageFor : Project → Option (List String)
  coverageSupported : Bool
  configurations : List (String × String)
  libPath : String → String → Project → Project → String
  binPath : String → String → Project → Project → String
  copyCommand : String → String → Project → String → String
  callOnLinkFor : Project → Project → σ → σ
  links : Project → String → σ → σ
  prebuildcommands : Project → String → String → List String → σ → σ
  postbuildcommands : Project → String → String → List String → σ → σ
  coverageCommands : Project → List Project → σ → σ

namespace Solution

/-- Adds links to the active project, which is not allowed to depend on
itself. -/
def setLinksTo (solution : Solution σ) (activeProject : Project)
    (projectNames : List String) (st : σ) : σ :=
  projectNames.foldl (fun st projectName =>
    if projectName ≠ activeProject.name then
      solution.links activeProject projectName st
    else st) st

/-- True if the name is the name of a meta-project. -/
def isMetaProject (solution : Solution σ) (projectName : String) : Bool :=
  (solution.projects.atName projectName).any solution.metaProject

/-- `setLinks` as `meta_project.lua` wraps it: there are no libraries of
meta-projects to link to. -/
def setLinks (solution : Solution σ) (activeProject : Project)
    (projectNames : List String) : σ → σ :=
  solution.setLinksTo activeProject
    (removeIf projectNames solution.isMetaProject)

/-! ## Following the links -/

/-- Same as `completeSettings` but does not follow or call `onLink` for source
links. -/
def completeHeaderOnly (solution : Solution σ) (activeProject : Project) :
    ℕ → Project → σ → Option σ
  | 0, _, _ => none
  | depth + 1, project, st =>
      let st := solution.callOnLinkFor activeProject project st
      forEachValidProject solution.projects (fun _ => project.headerLinks)
        (solution.completeHeaderOnly activeProject depth) st

def completeSettings (solution : Solution σ) (activeProject : Project) :
    ℕ → Project → σ → Option σ
  | 0, _, _ => none
  | depth + 1, project, st => do
      let st := solution.callOnLinkFor activeProject project st
      let st ← forEachValidProject solution.projects
        (fun _ => project.sourceOnlyLinks)
        (solution.completeHeaderOnly activeProject depth) st
      forEachValidProject solution.projects (fun _ => project.headerLinks)
        (solution.completeSettings activeProject depth) st

def completeLinks (solution : Solution σ) (activeProject : Project) :
    ℕ → Project → σ → Option σ
  | 0, _, _ => none
  | depth + 1, project, st => do
      let st := solution.setLinks activeProject project.headerLinks st
      let st := solution.setLinks activeProject project.sourceOnlyLinks st
      let st ← forEachValidProject solution.projects
        (fun _ => project.headerLinks)
        (solution.completeLinks activeProject depth) st
      forEachValidProject solution.projects (fun _ => project.sourceOnlyLinks)
        (solution.completeLinks activeProject depth) st

/-- Merges unique items from a source array into a target array. -/
def mergeUnique (target source : List String) : List String :=
  source.foldl (fun target value =>
    if !contains target value then target ++ [value] else target) target

def findSharedLibs (solution : Solution σ) (configName platform : String)
    (activeProject : Project) :
    ℕ → Project → List String → Option (List String)
  | 0, _, _ => none
  | depth + 1, project, sharedLibPaths => do
      let sharedLibPaths :=
        if solution.isSharedLib project then
          mergeUnique sharedLibPaths
            [solution.libPath configName platform activeProject project]
        else sharedLibPaths
      let sharedLibPaths ← forEachValidProject solution.projects
        (fun _ => project.headerLinks)
        (solution.findSharedLibs configName platform activeProject depth)
        sharedLibPaths
      forEachValidProject solution.projects (fun _ => project.sourceOnlyLinks)
        (solution.findSharedLibs configName platform activeProject depth)
        sharedLibPaths

/-! ## The links as a graph -/

/-- The projects among the header links, and among the source links. -/
def headers (solution : Solution σ) (project : Project) : List Project :=
  project.headerLinks.filterMap solution.projects.atName

def sources (solution : Solution σ) (project : Project) : List Project :=
  project.sourceOnlyLinks.filterMap solution.projects.atName

def linked (solution : Solution σ) (project : Project) : List Project :=
  solution.headers project ++ solution.sources project

/-- The calls of the functions of `onlink.lua`. -/
inductive Call
  | settings (project : Project)
  | headerOnly (project : Project)

def Call.project : Call → Project
  | settings project => project
  | headerOnly project => project

/-- The calls that a call makes. -/
def calls (solution : Solution σ) : Call → List Call
  | .settings project =>
      (solution.sources project).map .headerOnly ++
        (solution.headers project).map .settings
  | .headerOnly project => (solution.headers project).map .headerOnly

end Solution

theorem forEachValidProject_eq (projects : Projects) (names : List String)
    (functor : Project → σ → Option σ) (st : σ) :
    forEachValidProject projects (fun _ => names) functor st =
      (names.filterMap projects.atName).foldlM
        (fun st project => functor project st) st := by
  rw [forEachValidProject, genericFor_ipairs, Option.bind_some]
  generalize 1 = k
  induction names generalizing st k with
  | nil => rfl
  | cons name names ih =>
      rw [List.zipIdx_cons, List.foldlM_cons]
      rcases hname : projects.atName name with _ | project
      · rw [List.filterMap_cons_none hname]
        exact ih st (k + 1)
      · rw [List.filterMap_cons_some hname, List.foldlM_cons]
        rcases hst : functor project st with _ | st'
        · dsimp only
          rw [hst]
          rfl
        · dsimp only
          rw [hst]
          exact ih st' (k + 1)

namespace Solution

theorem completeHeaderOnly_eq (solution : Solution σ)
    (activeProject : Project) (depth : ℕ) (project : Project) (st : σ) :
    solution.completeHeaderOnly activeProject depth project st =
      walk solution.calls
        (fun call st => solution.callOnLinkFor activeProject call.project st)
        depth (.headerOnly project) st := by
  induction depth generalizing project st with
  | zero => rfl
  | succ depth ih =>
      rw [completeHeaderOnly, walk, calls, List.foldlM_map,
        forEachValidProject_eq]
      simp only [ih]
      rfl

theorem completeSettings_eq (solution : Solution σ)
    (activeProject : Project) (depth : ℕ) (project : Project) (st : σ) :
    solution.completeSettings activeProject depth project st =
      walk solution.calls
        (fun call st => solution.callOnLinkFor activeProject call.project st)
        depth (.settings project) st := by
  induction depth generalizing project st with
  | zero => rfl
  | succ depth ih =>
      rw [completeSettings, walk, calls, List.foldlM_append, List.foldlM_map]
      simp only [List.foldlM_map, forEachValidProject_eq, ih,
        completeHeaderOnly_eq]
      rfl

theorem completeLinks_eq (solution : Solution σ) (activeProject : Project)
    (depth : ℕ) (project : Project) (st : σ) :
    solution.completeLinks activeProject depth project st =
      walk solution.linked (fun project st =>
        solution.setLinks activeProject project.sourceOnlyLinks
          (solution.setLinks activeProject project.headerLinks st))
        depth project st := by
  induction depth generalizing project st with
  | zero => rfl
  | succ depth ih =>
      rw [completeLinks, walk, linked, List.foldlM_append]
      simp only [forEachValidProject_eq, ih]
      rfl

/-- A shared library is merged into the paths. -/
def mergeSharedLib (solution : Solution σ) (configName platform : String)
    (activeProject project : Project) (sharedLibPaths : List String) :
    List String :=
  if solution.isSharedLib project then
    mergeUnique sharedLibPaths
      [solution.libPath configName platform activeProject project]
  else sharedLibPaths

theorem findSharedLibs_eq (solution : Solution σ)
    (configName platform : String) (activeProject : Project) (depth : ℕ)
    (project : Project) (sharedLibPaths : List String) :
    solution.findSharedLibs configName platform activeProject depth project
        sharedLibPaths =
      walk solution.linked
        (solution.mergeSharedLib configName platform activeProject)
        depth project sharedLibPaths := by
  induction depth generalizing project sharedLibPaths with
  | zero => rfl
  | succ depth ih =>
      rw [findSharedLibs, walk, linked, List.foldlM_append]
      simp only [forEachValidProject_eq, ih]
      rfl

/-! ## Which calls are made -/

section Graph

variable {solution : Solution σ} {p q : Project} {call : Call}

/-- One project has a header link to another. -/
abbrev HeaderLink (solution : Solution σ) : Project → Project → Prop :=
  Appends solution.headers

/-- One project has a link of either kind to another. -/
abbrev Link (solution : Solution σ) : Project → Project → Prop :=
  Appends solution.linked

/-- The projects whose `onLink` completes the settings of a project: along header
links, with at most one source link on the way. -/
def CompletedBy (solution : Solution σ) (p q : Project) : Prop :=
  Relation.ReflTransGen solution.HeaderLink p q ∨
    ∃ a b, Relation.ReflTransGen solution.HeaderLink p a ∧
      b ∈ solution.sources a ∧
      Relation.ReflTransGen solution.HeaderLink b q

theorem mem_named_of_atName {projects : Projects} {name : String}
    {project : Project} (h : projects.atName name = some project) :
    project ∈ projects.named.map Prod.snd := by
  obtain ⟨field, hfield, rfl⟩ := Option.map_eq_some_iff.mp h
  exact List.mem_map_of_mem (List.mem_of_find?_eq_some hfield)

theorem mem_named_of_filterMap {projects : Projects} {names : List String}
    {project : Project} (h : project ∈ names.filterMap projects.atName) :
    project ∈ projects.named.map Prod.snd := by
  obtain ⟨name, -, hname⟩ := List.mem_filterMap.mp h
  exact mem_named_of_atName hname

theorem finite_linked (solution : Solution σ) (p : Project) :
    {q | Relation.ReflTransGen solution.Link p q}.Finite := by
  apply finite_reachable (l := solution.projects.named.map Prod.snd)
  intro a b hb
  rcases List.mem_append.mp hb with hb | hb
  · exact mem_named_of_filterMap hb
  · exact mem_named_of_filterMap hb

theorem finite_calls (solution : Solution σ) (call : Call) :
    {c | Relation.ReflTransGen (Appends solution.calls) call c}.Finite := by
  let named := solution.projects.named.map Prod.snd
  apply finite_reachable (l := named.map .headerOnly ++ named.map .settings)
  intro a b hb
  cases a with
  | settings project =>
      rcases List.mem_append.mp hb with hb | hb
      · obtain ⟨q, hq, rfl⟩ := List.mem_map.mp hb
        exact List.mem_append_left _
          (List.mem_map_of_mem (mem_named_of_filterMap hq))
      · obtain ⟨q, hq, rfl⟩ := List.mem_map.mp hb
        exact List.mem_append_right _
          (List.mem_map_of_mem (mem_named_of_filterMap hq))
  | headerOnly project =>
      obtain ⟨q, hq, rfl⟩ := List.mem_map.mp hb
      exact List.mem_append_left _
        (List.mem_map_of_mem (mem_named_of_filterMap hq))

/-- `completeHeaderOnly` only calls itself, along the header links. -/
theorem reaches_of_headerOnly :
    Relation.ReflTransGen (Appends solution.calls) (.headerOnly p) call ↔
      ∃ q, call = .headerOnly q ∧
        Relation.ReflTransGen solution.HeaderLink p q := by
  constructor
  · intro h
    induction h with
    | refl => exact ⟨p, rfl, Relation.ReflTransGen.refl⟩
    | tail _ hstep ih =>
        obtain ⟨q, rfl, hq⟩ := ih
        obtain ⟨r, hr, rfl⟩ := List.mem_map.mp hstep
        exact ⟨r, rfl, hq.tail hr⟩
  · rintro ⟨q, rfl, h⟩
    exact h.lift Call.headerOnly fun a b hab => List.mem_map_of_mem hab

/-- `completeSettings` calls itself along the header links, and
`completeHeaderOnly` once for each source link. -/
theorem reaches_of_settings :
    Relation.ReflTransGen (Appends solution.calls) (.settings p) call ↔
      (∃ q, call = .settings q ∧
        Relation.ReflTransGen solution.HeaderLink p q) ∨
      ∃ a b q, call = .headerOnly q ∧
        Relation.ReflTransGen solution.HeaderLink p a ∧
        b ∈ solution.sources a ∧
        Relation.ReflTransGen solution.HeaderLink b q := by
  have hsettings : ∀ q, Relation.ReflTransGen solution.HeaderLink p q →
      Relation.ReflTransGen (Appends solution.calls) (.settings p)
        (.settings q) := fun q h =>
    h.lift Call.settings fun a b hab =>
      List.mem_append_right _ (List.mem_map_of_mem hab)
  constructor
  · intro h
    induction h with
    | refl => exact Or.inl ⟨p, rfl, Relation.ReflTransGen.refl⟩
    | tail _ hstep ih =>
        rcases ih with ⟨q, rfl, hq⟩ | ⟨a, b, q, rfl, ha, hb, hq⟩
        · rcases List.mem_append.mp hstep with hnext | hnext
          · obtain ⟨r, hr, rfl⟩ := List.mem_map.mp hnext
            exact Or.inr ⟨q, r, r, rfl, hq, hr, Relation.ReflTransGen.refl⟩
          · obtain ⟨r, hr, rfl⟩ := List.mem_map.mp hnext
            exact Or.inl ⟨r, rfl, hq.tail hr⟩
        · obtain ⟨r, hr, rfl⟩ := List.mem_map.mp hstep
          exact Or.inr ⟨a, b, r, rfl, ha, hb, hq.tail hr⟩
  · rintro (⟨q, rfl, hq⟩ | ⟨a, b, q, rfl, ha, hb, hq⟩)
    · exact hsettings q hq
    · have hsource : Appends solution.calls (.settings a) (.headerOnly b) :=
        List.mem_append_left _ (List.mem_map_of_mem hb)
      exact ((hsettings a ha).tail hsource).trans
        (reaches_of_headerOnly.mpr ⟨q, rfl, hq⟩)

theorem exists_call_iff :
    (∃ call, Relation.ReflTransGen (Appends solution.calls) (.settings p) call ∧
      call.project = q) ↔ solution.CompletedBy p q := by
  constructor
  · rintro ⟨call, hcall, rfl⟩
    rcases reaches_of_settings.mp hcall with
      ⟨q, rfl, hq⟩ | ⟨a, b, q, rfl, ha, hb, hq⟩
    · exact Or.inl hq
    · exact Or.inr ⟨a, b, ha, hb, hq⟩
  · rintro (hq | ⟨a, b, ha, hb, hq⟩)
    · exact ⟨.settings q, reaches_of_settings.mpr (Or.inl ⟨q, rfl, hq⟩), rfl⟩
    · exact ⟨.headerOnly q,
        reaches_of_settings.mpr (Or.inr ⟨a, b, q, rfl, ha, hb, hq⟩), rfl⟩

/-- A call leads back to itself exactly when its project does, along the header
links. -/
theorem transGen_calls_iff :
    Relation.TransGen (Appends solution.calls) call call ↔
      Relation.TransGen solution.HeaderLink call.project call.project := by
  constructor
  · intro h
    obtain ⟨next, hstep, hback⟩ := Relation.TransGen.head'_iff.mp h
    cases call with
    | settings p =>
        rcases List.mem_append.mp hstep with hnext | hnext
        · obtain ⟨q, -, rfl⟩ := List.mem_map.mp hnext
          obtain ⟨r, hr, -⟩ := reaches_of_headerOnly.mp hback
          cases hr
        · obtain ⟨q, hq, rfl⟩ := List.mem_map.mp hnext
          rcases reaches_of_settings.mp hback with
            ⟨r, hr, hqr⟩ | ⟨a, b, r, hr, -⟩
          · cases hr
            exact Relation.TransGen.head' hq hqr
          · cases hr
    | headerOnly p =>
        obtain ⟨q, hq, rfl⟩ := List.mem_map.mp hstep
        obtain ⟨r, hr, hqr⟩ := reaches_of_headerOnly.mp hback
        cases hr
        exact Relation.TransGen.head' hq hqr
  · intro h
    cases call with
    | settings p =>
        exact h.lift Call.settings fun a b hab =>
          List.mem_append_right _ (List.mem_map_of_mem hab)
    | headerOnly p =>
        exact h.lift Call.headerOnly fun a b hab => List.mem_map_of_mem hab

/-- `completeSettings` comes to an end exactly when no cycle of header links can
be reached. -/
theorem exists_ends_settings_iff :
    (∃ depth, Ends solution.calls depth (.settings p)) ↔
      ∀ q, solution.CompletedBy p q →
        ¬Relation.TransGen solution.HeaderLink q q := by
  rw [exists_ends_iff (finite_calls solution (.settings p))]
  constructor
  · intro h q hq hcycle
    obtain ⟨call, hcall, rfl⟩ := exists_call_iff.mpr hq
    exact h call hcall (transGen_calls_iff.mpr hcycle)
  · intro h call hcall hcycle
    exact h call.project (exists_call_iff.mp ⟨call, hcall, rfl⟩)
      (transGen_calls_iff.mp hcycle)

end Graph

/-! ## What is completed -/

section Results

variable {solution : Solution σ} {activeProject p : Project}
variable {depth : ℕ} {st : σ}

/-- The settings of a project are completed if and only if no cycle of header
links can be reached.  Then `onLink` has been called for the project first, and
for exactly the projects that complete its settings. -/
theorem completeSettings_spec (solution : Solution σ)
    (activeProject p : Project) (st : σ) :
    ((∃ depth st',
        solution.completeSettings activeProject depth p st = some st') ↔
      ∀ q, solution.CompletedBy p q →
        ¬Relation.TransGen solution.HeaderLink q q) ∧
      ∀ depth st',
        solution.completeSettings activeProject depth p st = some st' →
        ∃ order : List Project, order.head? = some p ∧
          (∀ q, q ∈ order ↔ solution.CompletedBy p q) ∧
          order.foldl (fun st q => solution.callOnLinkFor activeProject q st)
            st = st' := by
  simp only [completeSettings_eq, walk_eq_some_iff]
  constructor
  · rw [← exists_ends_settings_iff]
    constructor
    · rintro ⟨depth, st', h, -⟩
      exact ⟨depth, h⟩
    · rintro ⟨depth, h⟩
      exact ⟨depth, _, h, rfl⟩
  · rintro depth st' ⟨h, rfl⟩
    refine ⟨(visited solution.calls depth (.settings p)).map Call.project,
      ?_, fun q => ?_, ?_⟩
    · rw [List.head?_map, head?_visited h]
      rfl
    · rw [List.mem_map, ← exists_call_iff]
      simp only [mem_visited_iff h]
    · rw [List.foldl_map]

/-- The links that are set for a project: no meta-projects, and not the active
project itself. -/
def linksOf (solution : Solution σ) (activeProject q : Project) :
    List String :=
  (q.headerLinks ++ q.sourceOnlyLinks).filter fun name =>
    !solution.isMetaProject name && decide (name ≠ activeProject.name)

theorem setLinks_eq (solution : Solution σ) (activeProject : Project)
    (names : List String) (st : σ) :
    solution.setLinks activeProject names st =
      (names.filter fun name => !solution.isMetaProject name &&
        decide (name ≠ activeProject.name)).foldl
          (fun st name => solution.links activeProject name st) st := by
  rw [setLinks, setLinksTo, removeIf_eq]
  simp only [List.foldl_filter, Bool.and_eq_true, decide_eq_true_eq]
  congr 1
  funext st name
  by_cases hmeta : solution.isMetaProject name = true
  · simp [hmeta]
  · simp [hmeta]

/-- Links are propagated to a project if and only if no cycle of links can be
reached.  Then exactly the links of the projects that can be reached are added
to it, whether they are projects or not. -/
theorem completeLinks_spec (solution : Solution σ)
    (activeProject p : Project) (st : σ) :
    ((∃ depth st',
        solution.completeLinks activeProject depth p st = some st') ↔
      ∀ q, Relation.ReflTransGen solution.Link p q →
        ¬Relation.TransGen solution.Link q q) ∧
      ∀ depth st',
        solution.completeLinks activeProject depth p st = some st' →
        ∃ added : List String,
          (∀ name, name ∈ added ↔ name ≠ activeProject.name ∧
            solution.isMetaProject name = false ∧
            ∃ q, Relation.ReflTransGen solution.Link p q ∧
              (name ∈ q.headerLinks ∨ name ∈ q.sourceOnlyLinks)) ∧
          added.foldl (fun st name => solution.links activeProject name st)
            st = st' := by
  simp only [completeLinks_eq, walk_eq_some_iff]
  constructor
  · rw [← exists_ends_iff (finite_linked solution p)]
    constructor
    · rintro ⟨depth, st', h, -⟩
      exact ⟨depth, h⟩
    · rintro ⟨depth, h⟩
      exact ⟨depth, _, h, rfl⟩
  · rintro depth st' ⟨h, rfl⟩
    refine ⟨(visited solution.linked depth p).flatMap
      (solution.linksOf activeProject), fun name => ?_, ?_⟩
    · rw [List.mem_flatMap]
      simp only [mem_visited_iff h, linksOf, List.mem_filter, List.mem_append,
        Bool.and_eq_true, Bool.not_eq_true', decide_eq_true_eq]
      constructor
      · rintro ⟨q, hq, hname, hmeta, hne⟩
        exact ⟨hne, hmeta, q, hq, hname⟩
      · rintro ⟨hne, hmeta, q, hq, hname⟩
        exact ⟨q, hq, hname, hmeta, hne⟩
    · rw [List.foldl_flatMap]
      simp only [setLinks_eq, linksOf, List.filter_append, List.foldl_append]

theorem mem_mergeSharedLib {configName platform : String} {q : Project}
    {sharedLibPaths : List String} {libPath : String} :
    libPath ∈ solution.mergeSharedLib configName platform activeProject q
        sharedLibPaths ↔
      libPath ∈ sharedLibPaths ∨ solution.isSharedLib q = true ∧
        libPath = solution.libPath configName platform activeProject q := by
  rw [mergeSharedLib]
  by_cases hshared : solution.isSharedLib q = true
  · rw [if_pos hshared, mergeUnique, List.foldl_cons, List.foldl_nil]
    by_cases hmem : solution.libPath configName platform activeProject q ∈
        sharedLibPaths
    · rw [contains_iff.mpr hmem, Bool.not_true, if_neg Bool.false_ne_true]
      constructor
      · exact Or.inl
      · rintro (h | ⟨-, rfl⟩)
        · exact h
        · exact hmem
    · rw [Bool.eq_false_iff.mpr (mt contains_iff.mp hmem), Bool.not_false,
        if_pos rfl, List.mem_append, List.mem_singleton]
      simp [hshared]
  · rw [if_neg hshared]
    simp [hshared]

theorem nodup_mergeSharedLib {configName platform : String} {q : Project}
    {sharedLibPaths : List String} (h : sharedLibPaths.Nodup) :
    (solution.mergeSharedLib configName platform activeProject q
      sharedLibPaths).Nodup := by
  rw [mergeSharedLib]
  by_cases hshared : solution.isSharedLib q = true
  · rw [if_pos hshared, mergeUnique, List.foldl_cons, List.foldl_nil]
    by_cases hmem : solution.libPath configName platform activeProject q ∈
        sharedLibPaths
    · rw [contains_iff.mpr hmem, Bool.not_true, if_neg Bool.false_ne_true]
      exact h
    · rw [Bool.eq_false_iff.mpr (mt contains_iff.mp hmem), Bool.not_false,
        if_pos rfl]
      apply h.append (List.nodup_singleton _)
      exact List.disjoint_singleton.mpr hmem
  · rw [if_neg hshared]
    exact h

/-- The shared libraries of a project are found if and only if no cycle of links
can be reached.  Then the paths are those of the shared libraries that can be
reached, each of them once. -/
theorem findSharedLibs_spec (solution : Solution σ)
    (configName platform : String) (activeProject p : Project) :
    ((∃ depth sharedLibPaths, solution.findSharedLibs configName platform
        activeProject depth p [] = some sharedLibPaths) ↔
      ∀ q, Relation.ReflTransGen solution.Link p q →
        ¬Relation.TransGen solution.Link q q) ∧
      ∀ depth sharedLibPaths, solution.findSharedLibs configName platform
          activeProject depth p [] = some sharedLibPaths →
        sharedLibPaths.Nodup ∧ ∀ libPath, libPath ∈ sharedLibPaths ↔
          ∃ q, Relation.ReflTransGen solution.Link p q ∧
            solution.isSharedLib q = true ∧
            libPath =
              solution.libPath configName platform activeProject q := by
  simp only [findSharedLibs_eq, walk_eq_some_iff]
  constructor
  · rw [← exists_ends_iff (finite_linked solution p)]
    constructor
    · rintro ⟨depth, paths, h, -⟩
      exact ⟨depth, h⟩
    · rintro ⟨depth, h⟩
      exact ⟨depth, _, h, rfl⟩
  rintro depth sharedLibPaths ⟨hends, rfl⟩
  have hfold : ∀ (l : List Project) (paths : List String), paths.Nodup →
      (l.foldl (fun paths q => solution.mergeSharedLib configName platform
        activeProject q paths) paths).Nodup ∧
      ∀ libPath, libPath ∈ l.foldl (fun paths q => solution.mergeSharedLib
          configName platform activeProject q paths) paths ↔
        libPath ∈ paths ∨ ∃ q ∈ l, solution.isSharedLib q = true ∧
          libPath = solution.libPath configName platform activeProject q := by
    intro l
    induction l with
    | nil =>
        intro paths hpaths
        exact ⟨hpaths, fun libPath => by simp⟩
    | cons q l ih =>
        intro paths hpaths
        obtain ⟨hnodup, hmem⟩ := ih _ (nodup_mergeSharedLib hpaths)
        refine ⟨hnodup, fun libPath => ?_⟩
        rw [List.foldl_cons, hmem, mem_mergeSharedLib, List.exists_mem_cons_iff,
          or_assoc]
  obtain ⟨hnodup, hmem⟩ :=
    hfold (visited solution.linked depth p) [] List.nodup_nil
  refine ⟨hnodup, fun libPath => ?_⟩
  rw [hmem]
  simp only [List.not_mem_nil, false_or, mem_visited_iff hends]

end Results

end Solution

end SudokuSolver.Build
