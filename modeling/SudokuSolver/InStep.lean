import SudokuSolver.Agreement
import SudokuSolver.Lua.Printers
import SudokuSolver.Python.Print
import SudokuSolver.Python.Solutions
import SudokuSolver.Support.Lockstep

/-!
# Lua and Python in step

Where the tables of Lua are visited in the order of their keys, `solvers.lua`
and `solutions.py` go through the same search: they deduce the same values, split
the same squares, and find the same solutions after the same number of splits.
-/

namespace SudokuSolver

open Propagation

variable {s : ℕ}

/-- A grid of Lua that is visited in order, and a grid of Python with the same
possibilities. -/
def Alike (luaGrid : Lua.Grid s) (pythonGrid : Python.Grid s) : Prop :=
  luaGrid.layout = Lua.Layout.inOrder s ∧
    Corresponds toInteger luaGrid.candidates pythonGrid.candidates

variable {luaGrid : Lua.Grid s} {pythonGrid : Python.Grid s}

theorem alike_of_matches {grid : FSharp.Grid s}
    (hlua : LuaMatches luaGrid grid) (hpython : PythonMatches pythonGrid grid) :
    Alike luaGrid pythonGrid :=
  ⟨hlua.1, hlua.2 ▸ hpython⟩

theorem toInteger_pos (v : Value s) : 1 ≤ toInteger v := by
  have hv := (Finset.mem_Icc.mp v.2).1
  have hcoe : toInteger v = (v.1 : ℤ) := rfl
  omega

/-- The possibilities of a square in ascending order. -/
theorem sorted_map (values : Finset (Value s)) :
    Python.sorted (values.map toInteger) =
      (ascending values).map toInteger := by
  have hnodup : ((ascending values).map toInteger).Nodup :=
    (nodup_ascending values).map toInteger.injective
  have hperm : (Python.sorted (values.map toInteger)).Perm
      ((ascending values).map toInteger) := by
    refine (List.perm_ext_iff_of_nodup (Python.nodup_sorted _) hnodup).mpr ?_
    intro v
    rw [Python.mem_sorted, Finset.mem_map, List.mem_map]
    exact exists_congr fun w => and_congr_left' mem_ascending.symm
  refine hperm.eq_of_pairwise' (Python.pairwise_sorted _) ?_
  rw [List.pairwise_map]
  have hlt : (ascending values).Pairwise fun v w => v.1 < w.1 := by
    refine List.Pairwise.filter _ ?_
    rw [oneTo, List.pairwise_map]
    exact (List.pairwise_lt_finRange _).imp fun h => Nat.succ_lt_succ h
  exact hlt.imp fun h => Int.ofNat_le.mpr h.le

namespace Alike

/-! ## One grid -/

theorem possibilities (h : Alike luaGrid pythonGrid) (c : Coord s) :
    (pythonGrid.square c).possibilities =
      (luaGrid.square c).map toInteger := h.2 c

theorem getValue (h : Alike luaGrid pythonGrid) (c : Coord s) :
    (pythonGrid.square c).getValue =
      (Lua.Square.getValue (luaGrid.square c)).map toInteger :=
  (Lua.Grid.store s).value_corresponds (Python.Grid.store s)
    (g := luaGrid.m_rows) (h := pythonGrid) h.2 c

theorem getPossibilities (h : Alike luaGrid pythonGrid) (c : Coord s) :
    (pythonGrid.square c).getPossibilities =
      (Lua.Square.getPossibilities (luaGrid.square c)).map toInteger := by
  rw [Python.Square.getPossibilities, h.possibilities, sorted_map]
  rfl

theorem within (h : Alike luaGrid pythonGrid) :
    Within (Python.digits s) pythonGrid.candidates := by
  intro c
  rw [h.2 c, digits_eq_map]
  exact Finset.map_subset_map.mpr (Finset.subset_univ _)

theorem isPossible (h : Alike luaGrid pythonGrid) :
    pythonGrid.isPossible = luaGrid.isPossible := by
  rw [Bool.eq_iff_iff, Python.Grid.isPossible_iff, Lua.Grid.isPossible_iff]
  exact h.2.live_iff

theorem isComplete (h : Alike luaGrid pythonGrid) :
    pythonGrid.isComplete = luaGrid.isComplete := by
  rw [Bool.eq_iff_iff, Python.Grid.isComplete_iff_decided h.within,
    Lua.Grid.isComplete_iff]
  exact h.2.decided_iff

/-! ## Deductions -/

/-- A value of a list is found by a predicate that means the same. -/
theorem find?_map_toInteger {l : List (Value s)} {p : Value s → Bool}
    {q : ℤ → Bool} (h : ∀ v, q (toInteger v) = p v) :
    (l.map toInteger).find? q = (l.find? p).map toInteger := by
  have hcomp : q ∘ toInteger = p := funext h
  rw [List.find?_map, hcomp]

theorem deduceSquare (h : Alike luaGrid pythonGrid) (c : Coord s) :
    Python.deduceSquare pythonGrid c =
      (Lua.deduceSquare luaGrid c).map toInteger := by
  have hvalue : Python.truthy (pythonGrid.square c).getValue =
      (Lua.Square.getValue (luaGrid.square c)).isSome := by
    rw [h.getValue]
    cases Lua.Square.getValue (luaGrid.square c) with
    | none => rfl
    | some v => exact decide_eq_true (Int.ne_of_gt (toInteger_pos v))
  have hpossible : (pythonGrid.square c).isPossible =
      Lua.Square.isPossible (luaGrid.square c) := by
    rw [Bool.eq_iff_iff, Python.Square.isPossible_iff,
      Lua.Square.isPossible_iff, h.possibilities, Finset.map_nonempty]
  have hmust : ∀ v, (Python.mustBeValueByRow pythonGrid c (toInteger v) ||
      (Python.mustBeValueByCol pythonGrid c (toInteger v) ||
        Python.mustBeValueBySector pythonGrid c (toInteger v))) =
      (Lua.mustBeValueByRow luaGrid v c ||
        (Lua.mustBeValueByColumn luaGrid v c ||
          Lua.mustBeValueBySector luaGrid v c)) := by
    intro v
    rw [Bool.eq_iff_iff, Python.mustBeValue_iff, Lua.mustBeValue_iff]
    simp only [h.2.mem_iff]
  rw [Python.deduceSquare, Lua.deduceSquare, hvalue, hpossible,
    h.getPossibilities, Bool.or_comm]
  split
  · rfl
  · exact find?_map_toInteger hmust

theorem setSquareValueAt (h : Alike luaGrid pythonGrid) (c : Coord s)
    (v : Value s) :
    Alike (Lua.setSquareValueAt luaGrid c v)
      (Python.setSquareValueAt pythonGrid c (toInteger v)) := by
  rw [Lua.setSquareValueAt_eq, Python.setSquareValueAt_eq,
    python_visitOrder_eq, ← lua_visitOrder_eq, ← h.1]
  exact ⟨h.1, (Lua.Grid.store s).setSquare_corresponds (Python.Grid.store s)
    luaGrid.layout.visitOrder (g := luaGrid.m_rows) (h := pythonGrid) h.2 v c⟩

theorem refine (h : Alike luaGrid pythonGrid) :
    Alike (Lua.refineGrid luaGrid) pythonGrid.refine := by
  have hgrid : ∀ {rows : Table (Lua.Square s) (s * s)}
      {pythonGrid : Python.Grid s},
      Corresponds toInteger ((Lua.Grid.store s).candidates rows)
        ((Python.Grid.store s).candidates pythonGrid) →
      Alike { luaGrid with m_rows := rows } pythonGrid :=
    fun hrows => ⟨h.1, hrows⟩
  refine ⟨h.1, ?_⟩
  rw [Python.Grid.refine, Python.refineFrom, python_visitOrder_eq,
    ← lua_visitOrder_eq, ← h.1]
  have hgrids : Corresponds toInteger
      ((Lua.Grid.store s).candidates luaGrid.m_rows)
      ((Python.Grid.store s).candidates pythonGrid) := h.2
  refine refineLap_corresponds ?_ ?_ none _ hgrids
  · intro rows pythonGrid hrows c
    have hdeduce := (hgrid hrows).deduceSquare c
    have hpython : (Python.deducer s).deduce pythonGrid c =
        (Python.deduceSquare pythonGrid c).filter fun value => value ≠ 0 := rfl
    have hlua : (Lua.deducer luaGrid).deduce rows c =
        Lua.deduceSquare { luaGrid with m_rows := rows } c := rfl
    rw [hpython, hlua, hdeduce]
    cases Lua.deduceSquare { luaGrid with m_rows := rows } c with
    | none => rfl
    | some v => exact if_pos (decide_eq_true (Int.ne_of_gt (toInteger_pos v)))
  · exact fun hrows => (hgrid hrows).isPossible

/-! ## Splits -/

end Alike

/-- The choice of `split.lua`: the first of the squares with the least
possibilities, of those that have several. -/
theorem squareToSplit_eq (hlayout : luaGrid.layout = Lua.Layout.inOrder s) :
    luaGrid.squareToSplit = (((rowMajor s).filter fun c =>
        decide (1 < (luaGrid.candidates c).card)).argmin fun c =>
          (luaGrid.candidates c).card).map fun c =>
            (c, (luaGrid.candidates c).card) := by
  have hcoords : luaGrid.layout.coords = rowMajor s := by
    rw [hlayout, rowMajor_eq_flatMap]
    rfl
  have hfold : ∀ (l : List (Coord s)) (chosen : Option (Coord s)),
      l.foldl luaGrid.chooseSquare
          (chosen.map fun c => (c, (luaGrid.candidates c).card)) =
        ((l.filter fun c => decide (1 < (luaGrid.candidates c).card)).foldl
          (List.argAux fun b c => (luaGrid.candidates b).card <
            (luaGrid.candidates c).card) chosen).map fun c =>
              (c, (luaGrid.candidates c).card) := by
    intro l
    induction l with
    | nil => exact fun _ => rfl
    | cons c l ih =>
        intro chosen
        rw [List.foldl_cons, Lua.Grid.chooseSquare, List.filter_cons]
        have hcard : ((Lua.Square.getValue (luaGrid.square c)).isNone &&
            Lua.Square.isPossible (luaGrid.square c)) = true ↔
              1 < (luaGrid.candidates c).card := Lua.Grid.open_iff
        by_cases hopen : 1 < (luaGrid.candidates c).card
        · rw [if_pos (hcard.mpr hopen),
            if_pos (decide_eq_true hopen), List.foldl_cons, ← ih]
          congr 1
          rw [Lua.Square.getPossibilityCount_eq]
          cases chosen with
          | none => rfl
          | some d =>
              change (if (luaGrid.candidates c).card <
                  (luaGrid.candidates d).card then _ else _) =
                Option.map _ (if (luaGrid.candidates c).card <
                  (luaGrid.candidates d).card then some c else some d)
              rw [apply_ite (Option.map _)]
              rfl
        · rw [if_neg (mt hcard.mp hopen),
            if_neg (by simpa using hopen), ih]
  rw [Lua.Grid.squareToSplit, hcoords]
  exact hfold (rowMajor s) none

namespace Alike

theorem split (h : Alike luaGrid pythonGrid) :
    Option.Rel (List.Forall₂ Alike)
      (luaGrid.split fun _ => Lua.Layout.inOrder s)
      pythonGrid.split.toOption := by
  have hcount : pythonGrid.countPossibilities =
      fun c => (luaGrid.candidates c).card := by
    funext c
    rw [Python.Grid.countPossibilities, h.getPossibilities, List.length_map]
    exact length_ascending _
  have hindexes : pythonGrid.splitIndexes = (rowMajor s).filter fun c =>
      decide (1 < (luaGrid.candidates c).card) := by
    rw [Python.Grid.splitIndexes, hcount, rowMajor_eq_flatMap]
  rw [Lua.Grid.split, squareToSplit_eq h.1, Python.Grid.split, hcount, hindexes]
  cases ((rowMajor s).filter fun c =>
      decide (1 < (luaGrid.candidates c).card)).argmin fun c =>
        (luaGrid.candidates c).card with
  | none => exact Option.Rel.none
  | some c =>
      refine Option.Rel.some ?_
      dsimp only
      rw [h.getPossibilities, List.map_map]
      have hclone : Alike (luaGrid.clone (Lua.Layout.inOrder s))
          pythonGrid := by
        refine ⟨rfl, ?_⟩
        rw [Lua.Grid.candidates_clone]
        exact h.2
      generalize Lua.Square.getPossibilities (luaGrid.square c) = values
      generalize 0 = k
      induction values generalizing k with
      | nil => exact List.Forall₂.nil
      | cons v values ih =>
          exact List.Forall₂.cons (hclone.setSquareValueAt c v) (ih (k + 1))

end Alike

/-! ## Searches -/

/-- All tables of a search are visited in the order of their keys. -/
def Lua.Tables.inOrder (s : ℕ) : Lua.Tables s where
  clone _ := Lua.Layout.inOrder s
  splits _ := Lua.Traversal.inOrder

theorem visit_inOrder {α : Type*} (l : List α) :
    (Lua.Traversal.inOrder l.length).visit l = l :=
  List.map_get_finRange l

theorem solvers_inStep (s : ℕ) :
    Solver.InStep (Lua.solver (Lua.Tables.inOrder s)) (Python.solver s)
      Alike where
  refine := Alike.refine
  isComplete := Alike.isComplete
  isPossible := Alike.isPossible
  keep := Alike.isPossible
  split st luaGrid pythonGrid h := by
    have hsplit := h.split
    change Option.Rel _ (Lua.visitSplits (Lua.Tables.inOrder s) st luaGrid)
      (pythonGrid.split.toOption.map fun gridSplits =>
        (st + gridSplits.length, gridSplits))
    rw [Lua.visitSplits]
    revert hsplit
    change Option.Rel _ (luaGrid.split fun _ => Lua.Layout.inOrder s) _ →
      Option.Rel _ ((luaGrid.split fun _ => Lua.Layout.inOrder s).map _) _
    generalize (luaGrid.split fun _ => Lua.Layout.inOrder s) = splits
    generalize pythonGrid.split.toOption = splits'
    rintro (hsplits | _)
    · refine Option.Rel.some ⟨?_, ?_⟩
      · exact congrArg (st + ·) hsplits.length_eq
      · dsimp only [Lua.Tables.inOrder]
        rw [visit_inOrder]
        exact hsplits
    · exact Option.Rel.none
  arrange h := List.rel_reverse h

/-- From grids that are alike, the coroutine and the generator yield alike
grids, in the same order and after the same numbers of splits. -/
theorem Alike.produceSolutions (h : Alike luaGrid pythonGrid)
    (hclosed : Closed Peer luaGrid.candidates) :
    ∃ routine generated,
      Lua.produceSolutions (Lua.Tables.inOrder s) luaGrid = some routine ∧
      Python.generate pythonGrid = some generated ∧
      List.Forall₂ (Solver.SolutionRel Alike) routine.yields
        generated.yields := by
  obtain ⟨routine, hroutine, -⟩ :=
    Lua.enumerates_produceSolutions (Lua.Tables.inOrder s) hclosed
  refine ⟨routine, ?_⟩
  have hproduce := hroutine
  rw [Lua.produceSolutions] at hproduce
  rw [Python.generate, h.isPossible]
  split at hproduce
  · next himpossible =>
    cases hproduce
    rw [if_pos himpossible]
    exact ⟨_, hroutine, rfl, List.Forall₂.nil⟩
  · next hpossible =>
    have hrun := (solvers_inStep s).run 0
      (List.Forall₂.cons h List.Forall₂.nil)
    obtain ⟨found, hfound, rfl⟩ := Option.map_eq_some_iff.mp hproduce
    rw [hfound] at hrun
    rw [if_neg hpossible, Python.generateFrom]
    revert hrun
    generalize (Python.solver s).run 0 [pythonGrid] = found'
    rintro (⟨hyields, -⟩ | _)
    exact ⟨_, hroutine, rfl, hyields⟩

/-! ## Texts -/

/-- A square is written the same way. -/
theorem Alike.text (h : Alike luaGrid pythonGrid) (c : Coord s) :
    (pythonGrid.square c).text = Lua.Square.text (luaGrid.square c) := by
  rw [Python.Square.text, Lua.Square.text, h.getValue]
  cases Lua.Square.getValue (luaGrid.square c) with
  | none => rfl
  | some v => exact if_pos (decide_eq_true (Int.ne_of_gt (toInteger_pos v)))

/-- Grids that are alike are written to the same line. -/
theorem Alike.getStateLine (h : Alike luaGrid pythonGrid) (hs : s ≤ 3) :
    ∃ text, Lua.getStateLine luaGrid = .ok text ∧
      pythonGrid.getStateLine = .ok text := by
  refine ⟨_, Lua.getStateLine_ok hs luaGrid, ?_⟩
  rw [Python.getStateLine_ok hs]
  simp only [h.text]

/-- A line that Lua accepts is accepted by Python, and gives grids that are
alike. -/
theorem exists_alike_of_parseLine {line : String}
    (hlua : Lua.parseLine Lua.Layout.inOrder line = .ok ⟨s, luaGrid⟩) :
    ∃ pythonGrid, Python.Parse.line line = .ok ⟨s, pythonGrid⟩ ∧
      Alike luaGrid pythonGrid := by
  have haccepted := exists_parseLine_iff.mp ⟨luaGrid, hlua⟩
  obtain ⟨grid, hfsharp⟩ := exists_fromLine_iff.mpr haccepted
  obtain ⟨pythonGrid, hpython⟩ := exists_line_iff.mpr haccepted.nine
  exact ⟨pythonGrid, hpython, alike_of_matches (luaMatches_of_ok hlua hfsharp)
    (pythonMatches_of_ok hpython hfsharp)⟩

/-- From a line that Lua accepts, Lua and Python find the same solutions, in the
same order and after the same numbers of splits. -/
theorem produceSolutions_inStep {line : String}
    (hlua : Lua.parseLine Lua.Layout.inOrder line = .ok ⟨s, luaGrid⟩) :
    ∃ pythonGrid routine generated,
      Python.Parse.line line = .ok ⟨s, pythonGrid⟩ ∧
      Lua.produceSolutions (Lua.Tables.inOrder s) luaGrid = some routine ∧
      Python.generate pythonGrid = some generated ∧
      List.Forall₂ (fun luaYield pythonYield =>
        luaYield.2 = pythonYield.2 ∧
          ∃ text, Lua.getStateLine luaYield.1 = .ok text ∧
            pythonYield.1.getStateLine = .ok text)
        routine.yields generated.yields := by
  obtain ⟨-, hsize, -⟩ := Lua.parseLine_eq_ok_iff.mp hlua
  obtain ⟨pythonGrid, hpython, halike⟩ := exists_alike_of_parseLine hlua
  obtain ⟨hclosed, -⟩ := Lua.parseLine_exact hlua
  obtain ⟨routine, generated, hroutine, hgenerated, hyields⟩ :=
    halike.produceSolutions hclosed
  refine ⟨pythonGrid, routine, generated, hpython, hroutine, hgenerated, ?_⟩
  exact hyields.imp fun _ _ hyield =>
    ⟨hyield.2, hyield.1.getStateLine hsize⟩

/-- A line whose clues contradict each other. -/
theorem produceSolutions_inStep_contradictory :
    ∃ luaGrid : Lua.Grid 2,
      Lua.parseLine Lua.Layout.inOrder "11.............." = .ok ⟨2, luaGrid⟩ ∧
      ∃ pythonGrid routine generated,
        Python.Parse.line "11.............." = .ok ⟨2, pythonGrid⟩ ∧
        Lua.produceSolutions (Lua.Tables.inOrder 2) luaGrid = some routine ∧
        Python.generate pythonGrid = some generated ∧
        List.Forall₂ (fun luaYield pythonYield =>
          luaYield.2 = pythonYield.2 ∧
            ∃ text, Lua.getStateLine luaYield.1 = .ok text ∧
              pythonYield.1.getStateLine = .ok text)
          routine.yields generated.yields := by
  have haccepted : Accepted (fun s => s * s) "11.............." 2 := by
    refine ⟨by decide, by decide, fun char hchar => ?_⟩
    have hcases : char = '1' ∨ char = '.' := by simpa using hchar
    rcases hcases with rfl | rfl
    · exact Or.inr ⟨1, by decide, rfl⟩
    · exact Or.inl rfl
  obtain ⟨luaGrid, hlua⟩ := exists_parseLine_iff.mpr haccepted
  exact ⟨luaGrid, hlua, produceSolutions_inStep hlua⟩

/-! ## Grid strings -/

/-- Spaces around a text that does not begin with one. -/
theorem replicate_append_eq_iff {a a' b b' : ℕ} {text : List Char}
    (hne : text ≠ []) (hspace : ' ' ∉ text) (hlength : a + b = a' + b') :
    List.replicate a ' ' ++ text ++ List.replicate b ' ' =
        List.replicate a' ' ' ++ text ++ List.replicate b' ' ' ↔ a = a' := by
  have hbefore : ∀ a b : ℕ, (List.replicate a ' ' ++ text ++
      List.replicate b ' ').takeWhile (· == ' ') = List.replicate a ' ' := by
    intro a b
    obtain ⟨char, rest, rfl⟩ := List.exists_cons_of_ne_nil hne
    have hchar : (char == ' ') = false := by
      rw [beq_eq_false_iff_ne]
      rintro rfl
      exact hspace List.mem_cons_self
    rw [List.append_assoc, List.takeWhile_append_of_pos (by simp),
      List.cons_append, List.takeWhile_cons_of_neg (by simp [hchar]),
      List.append_nil]
  constructor
  · intro h
    have hleft := congrArg (List.takeWhile (· == ' ')) h
    rw [hbefore, hbefore] at hleft
    simpa using congrArg List.length hleft
  · rintro rfl
    rw [Nat.add_left_cancel hlength]

/-- The texts that Lua and Python print are the same unless the cells are of
even width and some value of odd length stands in one: then Lua puts the odd
space on the left, and Python on the right. -/
theorem getGridString_eq_iff (h : Alike luaGrid pythonGrid) :
    Lua.getGridString luaGrid = pythonGrid.getGridString ↔
      Lua.maxValueLength s % 2 = 1 ∨
        ∀ c, (Lua.Square.text (luaGrid.square c)).length % 2 = 0 := by
  have hdivider : Python.dividerLine s = Lua.getDividerLine s := by
    have hdashes : Python.times (Python.times "-" (Python.maxValueLength s + 2))
        s = Lua.rep "-" (s * (Lua.maxValueLength s + 2) : ℕ) := by
      rw [← String.toList_inj, Python.times, String.toList_join,
        List.flatMap_replicate, show "-" = String.singleton '-' from rfl,
        Python.toList_times, Lua.toList_rep, List.flatten_replicate_replicate,
        Int.toNat_natCast]
      rfl
    rw [Python.dividerLine, Lua.getDividerLine, hdashes]
  have hcell : ∀ c, Lua.spacedValue (luaGrid.square c) =
      Python.center (Python.maxValueLength s + 2) (pythonGrid.square c).text ↔
        Lua.maxValueLength s % 2 = 1 ∨
          (Lua.Square.text (luaGrid.square c)).length % 2 = 0 := by
    intro c
    obtain ⟨hfits, -⟩ := Lua.Square.text_fits (luaGrid.square c)
    obtain ⟨hne, hspace⟩ := Lua.Square.text_visible (luaGrid.square c)
    have hpos := List.length_pos_iff.mpr hne
    rw [String.length_toList] at hfits hpos
    have hmax : Python.maxValueLength s = Lua.maxValueLength s := rfl
    rw [h.text, hmax, ← String.toList_inj, Lua.toList_spacedValue,
      Python.toList_center (by omega)]
    generalize Lua.maxValueLength s = width at hfits ⊢
    generalize (Lua.Square.text (luaGrid.square c)).length = length at *
    rcases Nat.mod_two_eq_zero_or_one (width + 2) with hparity | hparity
    · rw [hparity, Nat.mul_zero,
        replicate_append_eq_iff hne hspace (by omega)]
      omega
    · rw [hparity, Nat.mul_one, replicate_append_eq_iff hne hspace (by omega)]
      omega
  rw [Lua.getGridString_eq, Python.getGridString_eq, hdivider,
    gridText_eq_iff (fun c => Lua.spacedValue_cell (luaGrid.square c))
      fun c => Python.center_cell (h.within c), funext_iff]
  simp only [hcell]
  exact forall_or_left

/-- New grids of sector dimension four, whose cells are of even width. -/
theorem getGridString_eq_iff_four :
    ∃ (luaGrid : Lua.Grid 4) (pythonGrid : Python.Grid 4),
      Lua.newGrid 4 (Lua.Layout.inOrder 4) = .ok luaGrid ∧
      Python.newGrid 4 = .ok pythonGrid ∧
      (Lua.getGridString luaGrid = pythonGrid.getGridString ↔
        Lua.maxValueLength 4 % 2 = 1 ∨
          ∀ c, (Lua.Square.text (luaGrid.square c)).length % 2 = 0) := by
  obtain ⟨luaGrid, hlua, hlayout, hfull⟩ :=
    Lua.newGrid_ok (s := 4) (by decide) (Lua.Layout.inOrder 4)
  obtain ⟨pythonGrid, hpython, hfull'⟩ :=
    Python.newGrid_ok (s := 4) (by decide)
  have halike : Alike luaGrid pythonGrid := by
    refine ⟨hlayout, fun c => ?_⟩
    rw [hfull, hfull', digits_eq_map]
  exact ⟨luaGrid, pythonGrid, hlua, hpython, getGridString_eq_iff halike⟩

end SudokuSolver
