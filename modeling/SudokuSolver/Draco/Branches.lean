import SudokuSolver.Draco.Window

/-!
# The branches of the event loop of Draco

What each branch of `eventLoop` does to the flags, the texts and the gadgets:
the ways a click goes, the ways a reset goes, and the ways a round goes.
-/

namespace SudokuSolver.Draco

/-! ## What the procedures do to the gadgets -/

section Gadgets

variable {s dimension : ℕ} {pSquareGadgets : SquareGadgets}

/-- What no call of `change` changes is not changed by the loop. -/
theorem forSquareGadgets_keeps {γ : Type*} (f : SquareGadget → γ)
    {change : ℕ → ℕ → SquareGadget → SquareGadget}
    (hchange : ∀ x y pSquareGadget,
      f (change x y pSquareGadget) = f pSquareGadget) (i : ℕ) :
    f (forSquareGadgets dimension change pSquareGadgets i) =
      f (pSquareGadgets i) := by
  have hinner : ∀ (ys : List ℕ) (x : ℕ) (pSquareGadgets : SquareGadgets),
      f (ys.foldl (fun pSquareGadgets y =>
        Function.update pSquareGadgets (y * dimension + x)
          (change x y (getSquareGadget pSquareGadgets dimension x y)))
        pSquareGadgets i) = f (pSquareGadgets i) := by
    intro ys x
    induction ys with
    | nil => exact fun _ => rfl
    | cons y ys ih =>
        intro pSquareGadgets
        rw [List.foldl_cons, ih]
        by_cases hi : i = y * dimension + x
        · rw [hi, Function.update_self, hchange, getSquareGadget]
        · rw [Function.update_of_ne hi]
  rw [forSquareGadgets]
  generalize List.range dimension = ys
  suffices hrest : ∀ (xs : List ℕ) (pSquareGadgets : SquareGadgets),
      f (xs.foldl (fun pSquareGadgets x =>
        ys.foldl (fun pSquareGadgets y =>
          Function.update pSquareGadgets (y * dimension + x)
            (change x y (getSquareGadget pSquareGadgets dimension x y)))
          pSquareGadgets) pSquareGadgets i) = f (pSquareGadgets i) from
    hrest ys pSquareGadgets
  intro xs
  induction xs with
  | nil => exact fun _ => rfl
  | cons x xs ih =>
      intro pSquareGadgets
      rw [List.foldl_cons, ih, hinner]

/-- The gadgets are enabled and have stashed values as before. -/
structure Kept (s : ℕ) (before after : SquareGadgets) : Prop where
  GADGDISABLED : ∀ c : Coord s, (gadgetAt after c).GADGDISABLED =
    (gadgetAt before c).GADGDISABLED
  sg_PreviousValue : ∀ c : Coord s, (gadgetAt after c).sg_PreviousValue =
    (gadgetAt before c).sg_PreviousValue

theorem Kept.refl (s : ℕ) (pSquareGadgets : SquareGadgets) :
    Kept s pSquareGadgets pSquareGadgets :=
  ⟨fun _ => rfl, fun _ => rfl⟩

theorem kept_updateSquareGadgetValues (pGrid : Block) :
    Kept s pSquareGadgets (updateSquareGadgetValues pSquareGadgets pGrid) := by
  constructor
  · intro c
    rw [updateSquareGadgetValues, gadgetAt, getSquareGadget,
      forSquareGadgets_keeps SquareGadget.GADGDISABLED]
    · rfl
    · intro x y pSquareGadget
      rw [updateSquareGadgetValue]
      split_ifs <;> rfl
  · intro c
    rw [updateSquareGadgetValues, gadgetAt, getSquareGadget,
      forSquareGadgets_keeps SquareGadget.sg_PreviousValue]
    · rfl
    · intro x y pSquareGadget
      rw [updateSquareGadgetValue]
      split_ifs <;> rfl

theorem GADGDISABLED_toggleSquareGadgetsEnabled (c : Coord s) :
    (gadgetAt (toggleSquareGadgetsEnabled (s * s) pSquareGadgets)
      c).GADGDISABLED = !(gadgetAt pSquareGadgets c).GADGDISABLED := by
  rw [toggleSquareGadgetsEnabled, gadgetAt_forSquareGadgets]

theorem sg_PreviousValue_toggleSquareGadgetsEnabled (c : Coord s) :
    (gadgetAt (toggleSquareGadgetsEnabled (s * s) pSquareGadgets)
      c).sg_PreviousValue = (gadgetAt pSquareGadgets c).sg_PreviousValue := by
  rw [toggleSquareGadgetsEnabled, gadgetAt_forSquareGadgets]

theorem GADGDISABLED_stashCurrentValues (c : Coord s) :
    (gadgetAt (stashCurrentValues (s * s) pSquareGadgets) c).GADGDISABLED =
      (gadgetAt pSquareGadgets c).GADGDISABLED := by
  rw [stashCurrentValues, gadgetAt_forSquareGadgets]

theorem sg_PreviousValue_stashCurrentValues (c : Coord s) :
    (gadgetAt (stashCurrentValues (s * s) pSquareGadgets) c).sg_PreviousValue =
      (gadgetAt pSquareGadgets c).si_LongInt := by
  rw [stashCurrentValues, gadgetAt_forSquareGadgets]

theorem GADGDISABLED_restorePreviousValues (c : Coord s) :
    (gadgetAt (restorePreviousValues (s * s) pSquareGadgets) c).GADGDISABLED =
      (gadgetAt pSquareGadgets c).GADGDISABLED := by
  rw [restorePreviousValues, gadgetAt_forSquareGadgets,
    updateSquareGadgetValue]
  split_ifs <;> rfl

theorem si_LongInt_restorePreviousValues (c : Coord s) :
    (gadgetAt (restorePreviousValues (s * s) pSquareGadgets) c).si_LongInt =
      (gadgetAt pSquareGadgets c).sg_PreviousValue := by
  rw [restorePreviousValues, gadgetAt_forSquareGadgets]
  exact si_LongInt_updateSquareGadgetValue _ _

end Gadgets

/-- The text of the button, by its flag. -/
def buttonText (SELECTED : Bool) : String :=
  if !SELECTED then "Cancel" else "Solve"

/-! ## What the branches do -/

section Branches

variable {s : ℕ} {fails : ℕ → Bool} {st st' : EventLoop}

/-- The grid that is created is the one of `createGrid`. -/
theorem createGridFromSquareGadgets_fst {mem mem' : Memory}
    {pSquareGadgets : SquareGadgets} {pGridList : Option ℕ}
    (h : createGridFromSquareGadgets mem fails s pSquareGadgets =
      some (pGridList, mem')) : pGridList = (mem.createGrid fails s).1 := by
  rw [createGridFromSquareGadgets] at h
  rcases hcreate : mem.createGrid fails s with ⟨_ | pGrid, mem₁⟩
  · rw [hcreate] at h
    cases h
    rfl
  · rw [hcreate] at h
    obtain ⟨mem₂, -, h⟩ := Option.bind_eq_some_iff.mp h
    cases h
    rfl

/-- The ways a click on the button goes. -/
inductive GadgetUp (fails : ℕ → Bool) (s : ℕ) (st st' : EventLoop) : Prop
  | invalid (hlist : st.pGridList = none)
      (hvalid : valuesAreValid (s * s) st.pSquareGadgets ≠ .ok ())
      (hlist' : st'.pGridList = none)
      (hselected : st'.SELECTED = !st.SELECTED)
      (hgadgets : st'.pSquareGadgets = st.pSquareGadgets)
  | failed (hlist : st.pGridList = none)
      (hvalid : valuesAreValid (s * s) st.pSquareGadgets = .ok ())
      (hcreate : (st.mem.createGrid fails s).1 = none)
      (hlist' : st'.pGridList = none)
      (hselected : st'.SELECTED = !st.SELECTED)
      (hgadgets : st'.pSquareGadgets = toggleSquareGadgetsEnabled (s * s)
        (stashCurrentValues (s * s) st.pSquareGadgets))
  | started (hlist : st.pGridList = none)
      (hcreate : (st.mem.createGrid fails s).1 ≠ none)
      (hlist' : st'.pGridList ≠ none)
      (hselected : st'.SELECTED = st.SELECTED)
      (hgadgets : st'.pSquareGadgets = toggleSquareGadgetsEnabled (s * s)
        (stashCurrentValues (s * s) st.pSquareGadgets))
      (hsolutions : st'.counters.c_Solutions = 0)
  | cancelled (hlist : st.pGridList ≠ none) (hlist' : st'.pGridList = none)
      (hselected : st'.SELECTED = st.SELECTED)
      (hgadgets : st'.pSquareGadgets = toggleSquareGadgetsEnabled (s * s)
        (if st.counters.c_Solutions = 0 then
          restorePreviousValues (s * s) st.pSquareGadgets
        else st.pSquareGadgets))
      (hcounters : st'.counters = st.counters)

theorem EventLoop.gadgetUp_cases (h : st.gadgetUp fails s = some st') :
    st'.it_IText = buttonText st'.SELECTED ∧ GadgetUp fails s st st' := by
  rw [gadgetUp] at h
  rcases hlist : st.pGridList with _ | pGridList
  · rw [hlist] at h
    dsimp only at h
    rw [startSolving] at h
    obtain ⟨next, hnext, h⟩ := Option.bind_eq_some_iff.mp h
    cases h
    refine ⟨rfl, ?_⟩
    rcases hvalid : valuesAreValid (s * s) st.pSquareGadgets with text | _
    · rw [hvalid] at hnext
      cases hnext
      exact GadgetUp.invalid hlist (by rw [hvalid]; simp) hlist rfl rfl
    · rw [hvalid] at hnext
      obtain ⟨⟨created, mem⟩, hcreate, hnext⟩ :=
        Option.bind_eq_some_iff.mp hnext
      have hfst := createGridFromSquareGadgets_fst hcreate
      rcases created with _ | pGrid
      · cases hnext
        exact GadgetUp.failed hlist hvalid hfst.symm rfl rfl rfl
      · cases hnext
        refine GadgetUp.started hlist ?_ (Option.some_ne_none pGrid) rfl rfl rfl
        rw [← hfst]
        exact Option.some_ne_none pGrid
  · rw [hlist] at h
    dsimp only at h
    rw [cancelSolving] at h
    obtain ⟨next, hnext, h⟩ := Option.bind_eq_some_iff.mp h
    cases h
    obtain ⟨mem, -, hnext⟩ := Option.bind_eq_some_iff.mp hnext
    cases hnext
    refine ⟨rfl, GadgetUp.cancelled (by rw [hlist]; simp) rfl ?_ ?_ ?_⟩
    · change (ite _ _ _ : EventLoop).SELECTED = _
      split_ifs <;> rfl
    · change toggleSquareGadgetsEnabled (s * s)
        (ite _ _ _ : EventLoop).pSquareGadgets = _
      split_ifs <;> rfl
    · change (ite _ _ _ : EventLoop).counters = _
      split_ifs <;> rfl

/-- A click that fails to create a grid gets through. -/
theorem EventLoop.FailsToCreate.gadgetUp (h : st.FailsToCreate fails s) :
    ∃ st', st.gadgetUp fails s = some st' := by
  obtain ⟨hlist, hvalid, hcreate⟩ := h
  have hnone (pSquareGadgets : SquareGadgets) :
      createGridFromSquareGadgets st.mem fails s pSquareGadgets =
        some (none, (st.mem.createGrid fails s).2) := by
    rw [createGridFromSquareGadgets]
    rcases hpair : st.mem.createGrid fails s with ⟨_ | pGrid, mem⟩
    · rfl
    · rw [hpair] at hcreate
      cases hcreate
  rw [EventLoop.gadgetUp, hlist]
  dsimp only
  rw [EventLoop.startSolving, hvalid]
  dsimp only
  rw [hnone]
  exact ⟨_, rfl⟩

/-- The ways the reset item goes. -/
inductive ResetPicked (s : ℕ) (st st' : EventLoop) : Prop
  | idle (hlist : st.pGridList = none) (hlist' : st'.pGridList = none)
      (hselected : st'.SELECTED = st.SELECTED)
      (htext : st'.it_IText = st.it_IText)
      (hgadgets : st'.pSquareGadgets =
        restorePreviousValues (s * s) st.pSquareGadgets)
  | solving (hlist : st.pGridList ≠ none) (hlist' : st'.pGridList = none)
      (hselected : st'.SELECTED = !st.SELECTED)
      (htext : st'.it_IText = buttonText st'.SELECTED)
      (hgadgets : st'.pSquareGadgets = toggleSquareGadgetsEnabled (s * s)
        (restorePreviousValues (s * s) st.pSquareGadgets))

theorem EventLoop.resetPicked_cases (h : st.resetPicked s = some st') :
    st'.counters = st.counters ∧ ResetPicked s st st' := by
  rw [resetPicked] at h
  dsimp only at h
  rcases hlist : st.pGridList with _ | pGridList
  · rw [hlist] at h
    cases h
    exact ⟨rfl, ResetPicked.idle hlist rfl rfl rfl rfl⟩
  · rw [hlist] at h
    obtain ⟨next, hnext, h⟩ := Option.bind_eq_some_iff.mp h
    cases h
    rw [resetSolving] at hnext
    obtain ⟨mem, -, hnext⟩ := Option.bind_eq_some_iff.mp hnext
    cases hnext
    exact ⟨rfl, ResetPicked.solving (by rw [hlist]; simp) rfl rfl rfl rfl⟩

theorem EventLoop.leave_snd {returned : ℕ} {next : EventLoop × Option ℕ}
    (h : st.leave returned = some next) : next.2 = some returned := by
  obtain ⟨mem, -, h⟩ := Option.bind_eq_some_iff.mp h
  cases h
  rfl

/-- Where the loop goes on, the first item of a pick was the reset item, or did
nothing. -/
theorem EventLoop.menuPick_cons {pick : MenuItem} {picks : List MenuItem}
    (h : st.menuPick s (pick :: picks) = some (st', none)) :
    (∃ next, pick = .resetMenuItem ∧ st.resetPicked s = some next ∧
      next.menuPick s picks = some (st', none)) ∨
    (pick ≠ .resetMenuItem ∧ st.menuPick s picks = some (st', none)) := by
  cases pick with
  | resetMenuItem =>
      obtain ⟨next, hnext, h⟩ := Option.bind_eq_some_iff.mp h
      exact Or.inl ⟨next, rfl, hnext, h⟩
  | size3MenuItem =>
      rw [menuPick] at h
      split_ifs at h
      · cases leave_snd h
      · exact Or.inr ⟨MenuItem.noConfusion, h⟩
  | size4MenuItem =>
      rw [menuPick] at h
      split_ifs at h
      · cases leave_snd h
      · exact Or.inr ⟨MenuItem.noConfusion, h⟩

/-- The ways a round goes, by the counters after the search was advanced. -/
inductive Round (s : ℕ) (counters : Counters) (st st' : EventLoop) : Prop
  | stays (hlist' : st'.pGridList ≠ none)
      (hselected : st'.SELECTED = st.SELECTED)
      (htext : st'.it_IText = st.it_IText)
      (hgadgets : Kept s st.pSquareGadgets st'.pSquareGadgets)
      (hcounters : st'.counters = counters)
  | counted (hlist' : st'.pGridList ≠ none)
      (hselected : st'.SELECTED = st.SELECTED)
      (htext : st'.it_IText = st.it_IText)
      (hgadgets : Kept s st.pSquareGadgets st'.pSquareGadgets)
      (hsolutions : st'.counters.c_Solutions = counters.c_Solutions + 1)
      (hfirst : ¬counters.c_Solutions + 1 > 1)
  | exhausted (hlist' : st'.pGridList = none)
      (hselected : st'.SELECTED = !st.SELECTED)
      (htext : st'.it_IText = buttonText st'.SELECTED)
      (hgadgets : st'.pSquareGadgets = toggleSquareGadgetsEnabled (s * s)
        (if counters.c_Solutions = 1 then st.pSquareGadgets
        else restorePreviousValues (s * s) st.pSquareGadgets))
      (hcounters : st'.counters = counters)
  | found (pSquareGadgets : SquareGadgets)
      (hkept : Kept s st.pSquareGadgets pSquareGadgets)
      (hlist' : st'.pGridList = none)
      (hselected : st'.SELECTED = !st.SELECTED)
      (htext : st'.it_IText = buttonText st'.SELECTED)
      (hgadgets : st'.pSquareGadgets =
        toggleSquareGadgetsEnabled (s * s) pSquareGadgets)
      (hsolutions : st'.counters.c_Solutions = counters.c_Solutions + 1)

/-- What `cleanupAfterSolver` leaves. -/
theorem EventLoop.cleanupAfterSolver_eq {dimension : ℕ}
    (h : st.cleanupAfterSolver dimension = some st') :
    st'.SELECTED = !st.SELECTED ∧ st'.it_IText = buttonText st'.SELECTED ∧
      st'.pSquareGadgets =
        toggleSquareGadgetsEnabled dimension st.pSquareGadgets ∧
      st'.pGridList = st.pGridList ∧ st'.counters = st.counters := by
  rw [cleanupAfterSolver] at h
  obtain ⟨mem, -, h⟩ := Option.bind_eq_some_iff.mp h
  cases h
  exact ⟨rfl, rfl, rfl, rfl, rfl⟩

/-- The branch without grids sets a text and cleans up. -/
theorem EventLoop.noMoreSolutions_eq (st : EventLoop) (dimension : ℕ) :
    ∃ text : Option String, st.noMoreSolutions dimension =
      EventLoop.cleanupAfterSolver dimension
        { st with
          pSquareGadgets :=
            if st.counters.c_Solutions = 1 then st.pSquareGadgets
            else restorePreviousValues dimension st.pSquareGadgets
          text := text } := by
  rw [noMoreSolutions]
  by_cases hunique : st.counters.c_Solutions = 1
  · rw [if_pos hunique, if_pos hunique]
    by_cases hlost : st.counters.c_GridsLost = 0
    · exact ⟨_, by rw [if_pos hlost]; rfl⟩
    · exact ⟨_, by rw [if_neg hlost]; rfl⟩
  · rw [if_neg hunique, if_neg hunique]
    by_cases hlost : st.counters.c_GridsLost = 0
    · exact ⟨_, by rw [if_pos hlost]; rfl⟩
    · exact ⟨_, by rw [if_neg hlost]; rfl⟩

theorem EventLoop.noMoreSolutions_cases {before : EventLoop}
    (hselected : st.SELECTED = before.SELECTED)
    (hgadgets : st.pSquareGadgets = before.pSquareGadgets)
    (hlist : st.pGridList = none)
    (h : st.noMoreSolutions (s * s) = some st') :
    Round s st.counters before st' := by
  obtain ⟨text, htext⟩ := st.noMoreSolutions_eq (s * s)
  rw [htext, hgadgets] at h
  obtain ⟨hselected', htext, hgadgets', hlist', hcounters⟩ :=
    cleanupAfterSolver_eq h
  exact Round.exhausted (hlist'.trans hlist)
    (hselected'.trans (congrArg Bool.not hselected)) htext hgadgets' hcounters

/-- With another solution there is an end, or grids are left and the solution
was the first. -/
theorem EventLoop.solutionCounted_cases {before : EventLoop}
    {counters : Counters} (hselected : st.SELECTED = before.SELECTED)
    (htext : st.it_IText = before.it_IText)
    (hkept : Kept s before.pSquareGadgets st.pSquareGadgets)
    (hsolutions : st.counters.c_Solutions = counters.c_Solutions + 1)
    (h : st.solutionCounted (s * s) = some st') :
    Round s counters before st' := by
  rw [solutionCounted] at h
  by_cases hmany : st.counters.c_Solutions > 1
  · rw [if_pos hmany] at h
    obtain ⟨next, hnext, h⟩ := Option.bind_eq_some_iff.mp h
    cases h
    obtain ⟨hselected', htext, hgadgets, -, hcounters⟩ :=
      cleanupAfterSolver_eq hnext
    exact Round.found _ hkept rfl
      (hselected'.trans (congrArg Bool.not hselected)) htext hgadgets
      ((congrArg Counters.c_Solutions hcounters).trans hsolutions)
  rw [if_neg hmany] at h
  rcases hlist : st.pGridList with _ | pGridList
  · rw [hlist, Option.isSome_none, if_neg Bool.false_ne_true] at h
    have hcleanup : ∃ text : Option String, (st.setText text).cleanupAfterSolver
        (s * s) = some st' := by
      by_cases hlost : st.counters.c_GridsLost = 0
      · rw [if_pos hlost] at h
        exact ⟨_, h⟩
      · rw [if_neg hlost] at h
        exact ⟨_, h⟩
    obtain ⟨text, hcleanup⟩ := hcleanup
    obtain ⟨hselected', htext, hgadgets, hlist', hcounters⟩ :=
      cleanupAfterSolver_eq hcleanup
    exact Round.found _ hkept (hlist'.trans hlist)
      (hselected'.trans (congrArg Bool.not hselected)) htext hgadgets
      ((congrArg Counters.c_Solutions hcounters).trans hsolutions)
  · rw [hlist, Option.isSome_some, if_pos rfl] at h
    cases h
    refine Round.counted ?_ hselected htext hkept hsolutions (hsolutions ▸ hmany)
    change st.pGridList ≠ none
    rw [hlist]
    exact Option.some_ne_none pGridList

theorem EventLoop.solvingStep_cases (h : st.solvingStep fails s = some st') :
    ∃ pGridList mem counters, st.mem.advanceSolving fails st.pGridList
      st.counters = some (pGridList, mem, counters) ∧
      Round s counters st st' := by
  rw [solvingStep] at h
  obtain ⟨⟨pGridList, mem, counters⟩, hadvance, h⟩ :=
    Option.bind_eq_some_iff.mp h
  refine ⟨pGridList, mem, counters, hadvance, ?_⟩
  rcases pGridList with _ | pGridList
  · refine noMoreSolutions_cases ?_ ?_ rfl h
    · rfl
    · rfl
  obtain ⟨grid, -, h⟩ := Option.bind_eq_some_iff.mp h
  by_cases hcomplete : isComplete grid.block = true
  · rw [if_pos hcomplete, solutionFound] at h
    obtain ⟨⟨rest, mem'⟩, -, h⟩ := Option.bind_eq_some_iff.mp h
    refine solutionCounted_cases ?_ ?_ ?_ ?_ h
    · rfl
    · rfl
    · exact kept_updateSquareGadgetValues grid.block
    · rfl
  rw [if_neg hcomplete] at h
  by_cases hnone : counters.c_Solutions = 0
  · rw [if_pos hnone] at h
    cases h
    exact Round.stays (Option.some_ne_none pGridList) rfl rfl
      (kept_updateSquareGadgetValues grid.block) rfl
  · rw [if_neg hnone] at h
    cases h
    exact Round.stays (Option.some_ne_none pGridList) rfl rfl (Kept.refl s _) rfl

end Branches

/-! ## What an action does -/

section Actions

variable {s : ℕ} {fails : ℕ → Bool} {a : Action} {w w' : Window}

theorem Window.step_eq_act (hopen : w.returned = none) :
    (system fails s).step a w = act fails s a w :=
  if_neg (by rw [hopen]; exact Bool.false_ne_true)

theorem Window.act_of_step (hstep : (system fails s).step a w = some w') :
    w.returned = none ∧ act fails s a w = some w' := by
  have h : (if w.returned.isSome then none else act fails s a w) = some w' :=
    hstep
  rw [Option.ite_none_left_eq_some] at h
  exact ⟨Option.not_isSome_iff_eq_none.mp h.1, h.2⟩


/-- The loop comes to a click. -/
theorem Window.step_getMsg {st st' : EventLoop}
    (h : st.gadgetUp fails s = some st') (messages : List Message) :
    (system fails s).step .getMsg
        ⟨st, .GADGETUP :: messages, .messages, none⟩ =
      some ⟨st', messages, .messages, none⟩ := by
  rw [step_eq_act rfl, act]
  dsimp only
  rw [getMsg]
  dsimp only
  rw [EventLoop.handleMessage, h]
  rfl

/-- An edit leaves the flags of the gadgets, and what is stashed. -/
theorem Window.editGadget_spec {x y : ℕ} {si_Buffer : List Char}
    {si_LongInt : ℤ} {empty : si_Buffer = [] → si_LongInt = 0}
    (h : w.editGadget s x y si_Buffer si_LongInt empty = some w') :
    ∃ pSquareGadgets : SquareGadgets,
      w' = { w with loop := { w.loop with pSquareGadgets := pSquareGadgets } } ∧
      Kept s w.loop.pSquareGadgets pSquareGadgets := by
  rw [editGadget] at h
  dsimp only at h
  rw [Option.ite_none_left_eq_some, Option.some.injEq] at h
  obtain ⟨-, rfl⟩ := h
  have hkept {γ : Type} (f : SquareGadget → γ) {edited : SquareGadget}
      (hedited : f edited = f (getSquareGadget w.loop.pSquareGadgets (s * s) x y))
      (c : Coord s) : f (gadgetAt (Function.update w.loop.pSquareGadgets
        (y * (s * s) + x) edited) c) = f (gadgetAt w.loop.pSquareGadgets c) := by
    rw [gadgetAt, getSquareGadget]
    by_cases hindex : c.2.1 * (s * s) + c.1.1 = y * (s * s) + x
    · rw [hindex, Function.update_self, hedited, gadgetAt, getSquareGadget,
        getSquareGadget, hindex]
    · rw [Function.update_of_ne hindex, gadgetAt, getSquareGadget]
  exact ⟨_, rfl, hkept SquareGadget.GADGDISABLED rfl,
    hkept SquareGadget.sg_PreviousValue rfl⟩

/-- The ways an action goes. -/
inductive Window.Acted (fails : ℕ → Bool) (s : ℕ) (a : Action) (w : Window) :
    Window → Prop
  | clicked : Acted fails s a w (w.toggleSelected.post .GADGETUP)
  | posted (message : Message) (hmessage : message ≠ .GADGETUP) :
      Acted fails s a w (w.post message)
  | edited (pSquareGadgets : SquareGadgets)
      (hkept : Kept s w.loop.pSquareGadgets pSquareGadgets) :
      Acted fails s a w
        { w with loop := { w.loop with pSquareGadgets := pSquareGadgets } }
  | moved (phase : Phase) : Acted fails s a w { w with phase := phase }
  | left {loop : EventLoop} (hleave : w.loop.leave 0 = some (loop, some 0)) :
      Acted fails s a w { w with loop := loop, returned := some 0 }
  | handled {message : Message} {messages : List Message} {loop : EventLoop}
      {returned : Option ℕ} (ha : a = .getMsg)
      (hmessages : w.messages = message :: messages)
      (hhandle : w.loop.handleMessage fails s message = some (loop, returned)) :
      Acted fails s a w
        { w with loop := loop, messages := messages, returned := returned }
  | round {loop : EventLoop} (hlist : w.loop.pGridList ≠ none)
      (hround : w.loop.solvingStep fails s = some loop) :
      Acted fails s a w { w with loop := loop, phase := .outer }

theorem Window.acted_getMsg (hget : w.getMsg fails s = some w') :
    Acted fails s .getMsg w w' := by
  rw [getMsg] at hget
  rcases hmessages : w.messages with _ | ⟨message, messages⟩
  · rw [hmessages] at hget
    cases hget
    rw [← hmessages]
    exact Acted.moved .solver
  · rw [hmessages] at hget
    obtain ⟨⟨loop, returned⟩, hhandle, hget⟩ := Option.bind_eq_some_iff.mp hget
    cases hget
    exact Acted.handled rfl hmessages hhandle

theorem Window.acted_endRound (hend : w.endRound fails s = some w') :
    Acted fails s a w w' := by
  rw [endRound] at hend
  rcases hlist : w.loop.pGridList with _ | pGridList
  · rw [hlist] at hend
    cases hend
    exact Acted.moved .outer
  · rw [hlist] at hend
    obtain ⟨loop, hround, hend⟩ := Option.bind_eq_some_iff.mp hend
    cases hend
    exact Acted.round (hlist ▸ Option.some_ne_none pGridList) hround

theorem Window.act_cases (hact : act fails s a w = some w') :
    Acted fails s a w w' := by
  cases a with
  | clickButton =>
      cases hact
      exact Acted.clicked
  | selectGadget =>
      cases hact
      exact Acted.posted .GADGETDOWN Message.noConfusion
  | pickItems picks distinct =>
      cases hact
      exact Acted.posted (.MENUPICK picks distinct) Message.noConfusion
  | closeWindow =>
      cases hact
      exact Acted.posted .CLOSEWINDOW Message.noConfusion
  | edit x y si_Buffer si_LongInt empty =>
      obtain ⟨pSquareGadgets, rfl, hkept⟩ := editGadget_spec hact
      exact Acted.edited pSquareGadgets hkept
  | breakSignaled =>
      rw [act] at hact
      split at hact
      · obtain ⟨⟨loop, returned⟩, hleave, hact⟩ :=
          Option.bind_eq_some_iff.mp hact
        cases hact
        obtain rfl : returned = some 0 := EventLoop.leave_snd hleave
        exact Acted.left hleave
      · cases hact
  | beginRound =>
      rw [act] at hact
      split at hact
      · cases hact
        exact Acted.moved .messages
      · cases hact
  | getMsg =>
      rw [act] at hact
      split at hact
      · exact acted_getMsg hact
      · cases hact
  | endRound =>
      rw [act] at hact
      split at hact
      · exact acted_endRound hact
      · cases hact

end Actions

end SudokuSolver.Draco
