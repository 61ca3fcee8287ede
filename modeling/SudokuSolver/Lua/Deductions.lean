import SudokuSolver.Lua.Grid

/-!
# Deductions in Lua

`deductions.lua`: one lap over the squares that goes on until it comes back to
the square refined last, or until the grid has become impossible.
-/

namespace SudokuSolver.Lua

open Propagation

variable {s : ℕ}

/-- No other square of the row has the possibility. -/
def mustBeValueByRow (grid : Grid s) (possibility : Value s)
    (c : Coord s) : Bool :=
  (grid.layout.columns c.2).keys.all fun columnIndex =>
    !(decide ((columnIndex, c.2) ≠ c) &&
      decide (possibility ∈ grid.square (columnIndex, c.2)))

/-- No other square of the column has the possibility. -/
def mustBeValueByColumn (grid : Grid s) (possibility : Value s)
    (c : Coord s) : Bool :=
  grid.layout.rows.keys.all fun rowIndex =>
    !(decide ((c.1, rowIndex) ≠ c) &&
      decide (possibility ∈ grid.square (c.1, rowIndex)))

/-- No other square of the sector has the possibility. -/
def mustBeValueBySector (grid : Grid s) (possibility : Value s)
    (c : Coord s) : Bool :=
  (squaresInSector c).all fun d =>
    !(decide (d ≠ c) && decide (possibility ∈ grid.square d))

/-- The value of the square if it could be deduced. -/
def deduceSquare (grid : Grid s) (c : Coord s) : Option (Value s) :=
  if (Square.getValue (grid.square c)).isSome ||
      !Square.isPossible (grid.square c) then none
  else
    (Square.getPossibilities (grid.square c)).find? fun possibility =>
      mustBeValueByRow grid possibility c ||
        (mustBeValueByColumn grid possibility c ||
          mustBeValueBySector grid possibility c)

theorem mustBeValue_iff {grid : Grid s} {c : Coord s} {p : Value s} :
    (mustBeValueByRow grid p c || (mustBeValueByColumn grid p c ||
        mustBeValueBySector grid p c)) = true ↔
      ∃ h : House s, c ∈ h.squares ∧
        ∀ d ∈ h.squares, d ≠ c → p ∉ grid.candidates d := by
  obtain ⟨x, y⟩ := c
  rw [exists_house_iff]
  simp only [mustBeValueByRow, mustBeValueByColumn, mustBeValueBySector,
    Bool.or_eq_true, List.all_eq_true, Traversal.mem_keys, forall_const,
    mem_squaresInSector, Bool.not_eq_true', Bool.and_eq_false_iff,
    decide_eq_false_iff_not, ne_eq, not_not, Prod.mk.injEq, and_true, true_and,
    or_iff_not_imp_left]
  rfl

/-- The square neither has a value nor is impossible. -/
theorem closed_eq_false_iff {square : Square s} :
    ((Square.getValue square).isSome || !Square.isPossible square) = false ↔
      1 < square.card := by
  rw [← Grid.open_iff, Bool.or_eq_false_iff, Bool.and_eq_true,
    Option.isSome_eq_false_iff, Bool.not_eq_false']

theorem deducible_of_deduceSquare {grid : Grid s} {c : Coord s} {p : Value s}
    (h : deduceSquare grid c = some p) :
    Deducible House.squares grid.candidates c p := by
  rw [deduceSquare] at h
  split at h
  · exact absurd h (by simp)
  · next hopen =>
    have hforced := List.find?_some h
    exact ⟨closed_eq_false_iff.mp (Bool.eq_false_of_not_eq_true hopen),
      mem_ascending.mp (List.mem_of_find?_eq_some h),
      mustBeValue_iff.mp hforced⟩

theorem not_deducible_of_deduceSquare {grid : Grid s} {c : Coord s}
    (h : deduceSquare grid c = none) (p : Value s) :
    ¬Deducible House.squares grid.candidates c p := by
  rintro ⟨hcard, hp, hforced⟩
  have hopen := closed_eq_false_iff.mpr hcard
  rw [deduceSquare, if_neg (by rw [Grid.candidates] at hopen; simp [hopen])] at h
  exact List.find?_eq_none.mp h p (mem_ascending.mpr hp)
    (mustBeValue_iff.mpr hforced)

/-- `deduceSquare` finds a value exactly when a house forces one. -/
def deducer (grid : Grid s) : Deducer (Grid.store s) (House.squares (s := s)) where
  deduce rows := deduceSquare { grid with m_rows := rows }
  deduce_some h := deducible_of_deduceSquare h
  deduce_none h := not_deducible_of_deduceSquare h

/-- The loop of `refineGrid`, from a last refined square and a current one. -/
def refineFrom (lastRefinedSquare : Option (Coord s)) (current : Coord s)
    (grid : Grid s) : Grid s :=
  { grid with
    m_rows := refineLap (Grid.store s) grid.layout.visitOrder (deducer grid)
      (boardLap s) (fun rows => Grid.isPossible { grid with m_rows := rows })
      lastRefinedSquare current grid.m_rows }

/-- One iteration of the loop as the source writes it. -/
theorem refineFrom_eq (lastRefinedSquare : Option (Coord s))
    (current : Coord s) (grid : Grid s) :
    refineFrom lastRefinedSquare current grid =
      if lastRefinedSquare = some current then grid
      else
        match deduceSquare grid current with
        | some deducedValue =>
            let grid := setSquareValueAt grid current deducedValue
            if !grid.isPossible then grid
            else refineFrom (some current) (nextCoord current) grid
        | none =>
            refineFrom (lastRefinedSquare.or (some current))
              (nextCoord current) grid := by
  rw [refineFrom, refineLap]
  by_cases hlast : lastRefinedSquare = some current
  · rw [if_pos hlast, if_pos hlast]
  · rw [if_neg hlast, if_neg hlast]
    have hdeduce : (deducer grid).deduce grid.m_rows current =
        deduceSquare grid current := rfl
    split
    · next deducedValue hvalue =>
      rw [hdeduce] at hvalue
      rw [hvalue]
      dsimp only
      rw [setSquareValueAt_eq]
      split
      · next hpossible =>
        rw [if_neg (by simp [hpossible])]
        rfl
      · next hpossible =>
        rw [if_pos (by simpa using hpossible)]
    · next hvalue =>
      rw [hdeduce] at hvalue
      rw [hvalue]
      rfl

/-- Applies further rules to a grid to eliminate possibilities. -/
def refineGrid (grid : Grid s) : Grid s :=
  have hpos := Nat.mul_pos grid.m_sectorDimension_pos grid.m_sectorDimension_pos
  refineFrom none (⟨0, hpos⟩, ⟨0, hpos⟩) grid

theorem deduces_refineGrid (grid : Grid s) :
    Deduces Peer House.squares grid.candidates (refineGrid grid).candidates :=
  deduces_refineLap (Grid.store s) grid.layout.visitOrder (deducer grid)
    (boardLap s) _ none _ grid.m_rows

theorem closed_refineGrid {grid : Grid s}
    (hclosed : Closed Peer grid.candidates) :
    Closed Peer (refineGrid grid).candidates :=
  closed_refineLap (Grid.store s) grid.layout.visitOrder (deducer grid)
    (boardLap s) _ none _ grid.m_rows hclosed

/-- Unless the lap breaks off on an impossible grid, nothing is left to
deduce. -/
theorem exhausted_refineGrid (grid : Grid s)
    (hlive : Live (refineGrid grid).candidates) :
    Exhausted House.squares (refineGrid grid).candidates :=
  exhausted_refineLap_none (Grid.store s) grid.layout.visitOrder
    (deducer grid) (boardLap s) _ (fun _ => Grid.isPossible_iff) _ grid.m_rows
    hlive

end SudokuSolver.Lua
