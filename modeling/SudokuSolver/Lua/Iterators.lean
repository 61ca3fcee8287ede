import SudokuSolver.Lua.Deductions
import SudokuSolver.Support.GenericFor

/-!
# The sector iterator of Lua

`iterators.lua` with the tables and the indices of the source: the control value
of a loop over a sector is a table one square ahead of the square that the loop
is at, and an empty table after the last one.  The loop ends with the call that
is given the empty table.  What the rows hold is left open, so that it can be a
square's possibilities as well as its identity.
-/

namespace SudokuSolver.Lua.Iterators

variable {s : ℕ} {α σ ρ : Type}

/-! ## The iterator -/

/-- The control value of the iteration. -/
structure State where
  squareX : Option ℤ
  squareY : Option ℤ

/-- The invariant of the iteration: the rows of the grid, as they are in the
state that the loop has reached, and where the sector starts. -/
structure Invariant (s : ℕ) (α σ : Type) where
  m_rows : σ → Table α (s * s)
  startX : ℤ
  startY : ℤ

/-- What the iterator returns after the control value. -/
structure Visit (α : Type) where
  square : Option α
  rowIndex : ℤ
  columnIndex : ℤ

/-- A field of a table whose keys are `1 .. n`. -/
def field {β : Type*} {n : ℕ} (table : Vector β n) (index : ℤ) : Option β :=
  if 1 ≤ index then table[(index - 1).toNat]? else none

@[simp] theorem field_eq {β : Type*} {n : ℕ} (table : Vector β n)
    (i : Fin n) : field table ((i.1 : ℤ) + 1) = some table[i] := by
  have hi := i.isLt
  rw [field, if_pos (by omega)]
  simp

/-- Increments the iteration over all squares in a sector.  It fails when it
indexes a row that is not there. -/
def incrementInSector (invariant : Invariant s α σ) (st : σ) (state : State) :
    Option (Option (State × Visit α)) :=
  match state.squareX, state.squareY with
  | some squareX, some squareY =>
      let newState : State :=
        if squareX + 1 > s then
          if squareY + 1 > s then ⟨none, none⟩
          else ⟨some 1, some (squareY + 1)⟩
        else ⟨some (squareX + 1), some squareY⟩
      let columnIndex := invariant.startX + squareX
      let rowIndex := invariant.startY + squareY
      (field (invariant.m_rows st) rowIndex).map fun row =>
        some (newState, ⟨field row columnIndex, rowIndex, columnIndex⟩)
  | _, _ => some none

/-- Iterates over every square in the sector to which the given square
belongs: the invariant and the first control value. -/
def squaresInSector (m_rows : σ → Table α (s * s))
    (columnIndex rowIndex : ℤ) : Invariant s α σ × State :=
  let sectorX := (columnIndex - 1) / s
  let sectorY := (rowIndex - 1) / s
  (⟨m_rows, sectorX * s, sectorY * s⟩, ⟨some 1, some 1⟩)

/-- The loop over the squares in a sector. -/
def forSquaresInSector (m_rows : σ → Table α (s * s))
    (columnIndex rowIndex : ℤ) (body : Visit α → σ → Except ρ σ) (start : σ) :
    Option (Except ρ σ) :=
  let (invariant, state) := squaresInSector m_rows columnIndex rowIndex
  genericFor (incrementInSector invariant) body state start

/-! ## What the loop visits -/

/-- The control value of the iteration as the table that the source has. -/
def stateOf : Option (Fin s × Fin s) → State
  | some (x, y) => ⟨some (x.1 + 1), some (y.1 + 1)⟩
  | none => ⟨none, none⟩

/-- The invariant of the iteration over a sector. -/
def invariantOf (m_rows : σ → Table α (s * s)) (sector : Fin s × Fin s) :
    Invariant s α σ :=
  ⟨m_rows, sector.1.1 * s, sector.2.1 * s⟩

/-- The visit of a square: the square with its own indices. -/
def visit (rows : Table α (s * s)) (d : Coord s) : Visit α :=
  ⟨some (rows.entry d), d.2.1 + 1, d.1.1 + 1⟩

variable (m_rows : σ → Table α (s * s))

theorem squaresInSector_eq (c : Coord s) (hpos : 0 < s) :
    squaresInSector m_rows (c.1.1 + 1) (c.2.1 + 1) =
      (invariantOf m_rows (band c.1, band c.2),
        stateOf (some (⟨0, hpos⟩, ⟨0, hpos⟩))) := by
  simp only [squaresInSector, invariantOf, add_sub_cancel_right, band,
    Fin.divNat, Int.natCast_ediv]
  rfl

/-- The place of a square in its sector and the start of the sector add up to
the index. -/
theorem index_eq (b k : Fin s) :
    (b.1 * s + (k.1 + 1) : ℤ) = (finProdFinEquiv (b, k)).1 + 1 := by
  rw [finProdFinEquiv_apply_val]
  rw [Nat.cast_add, Nat.cast_mul, mul_comm (s : ℤ), ← add_assoc,
    add_comm (k.1 : ℤ)]

/-- What one call of the iterator does: it returns the square it is at, and the
control value that the iteration goes on with. -/
theorem incrementInSector_eq (sector : Fin s × Fin s) (st : σ)
    (state : Option (Fin s × Fin s)) :
    incrementInSector (invariantOf m_rows sector) st (stateOf state) =
      some ((Lua.incrementInSector sector state).map fun next =>
        (stateOf next.1, visit (m_rows st) next.2)) := by
  rcases state with _ | ⟨x, y⟩
  · rfl
  · have hx := x.isLt
    have hy := y.isLt
    simp only [incrementInSector, Lua.incrementInSector, stateOf, invariantOf,
      index_eq, field_eq, Option.map_some, visit]
    congr 3
    split_ifs <;> first | rfl | omega

/-- The loop from a control value on is a fold over the squares that the
iteration visits from there on. -/
theorem genericFor_incrementInSector (body : Visit α → σ → Except ρ σ)
    (sector : Fin s × Fin s) (state : Option (Fin s × Fin s)) (start : σ) :
    genericFor (incrementInSector (invariantOf m_rows sector)) body
        (stateOf state) start =
      some ((iterateSector sector state).foldlM
        (fun st d => body (visit (m_rows st) d) st) start) := by
  fun_induction iterateSector sector state generalizing start with
  | case1 state hstep =>
      apply genericFor_done
      rw [incrementInSector_eq, hstep, Option.map_none]
  | case2 state newState d hstep ih =>
      have hcall := incrementInSector_eq m_rows sector start state
      rw [hstep, Option.map_some] at hcall
      rw [List.foldlM_cons]
      rcases hbody : body (visit (m_rows start) d) start with result | next
      · exact genericFor_return hcall hbody
      · rw [genericFor_next hcall hbody, ih]
        rfl

/-- The loop over a sector is a fold over the squares of the sector. -/
theorem forSquaresInSector_eq (c : Coord s)
    (body : Visit α → σ → Except ρ σ) (start : σ) :
    forSquaresInSector m_rows (c.1.1 + 1) (c.2.1 + 1) body start =
      some ((Lua.squaresInSector c).foldlM
        (fun st d => body (visit (m_rows st) d) st) start) := by
  have hpos : 0 < s := Nat.pos_of_mul_pos_left c.1.pos
  simp only [forSquaresInSector, squaresInSector_eq m_rows c hpos]
  exact genericFor_incrementInSector m_rows body _ _ start

theorem length_squaresInSector (c : Coord s) :
    (Lua.squaresInSector c).length = s * s := by
  rw [Lua.squaresInSector_eq, List.length_flatMap]
  simp [bandRange, Function.comp_def]

/-- An iteration over a sector does not come to a square twice. -/
theorem nodup_squaresInSector (c : Coord s) :
    (Lua.squaresInSector c).Nodup := by
  have hsquares : (Lua.squaresInSector c).toFinset =
      (House.sector (band c.1) (band c.2)).squares := by
    ext d
    rw [List.mem_toFinset, mem_squaresInSector, House.mem_sector]
  have hcard : (Lua.squaresInSector c).toFinset.card =
      (Lua.squaresInSector c).length := by
    rw [hsquares, House.card_squares, length_squaresInSector]
  exact Multiset.toFinset_card_eq_card_iff_nodup.mp hcard

/-- A loop over a sector ends, and in between visits each of the `s * s` squares
of the sector once, whatever its body does to the rows: every visit is given
the square that the rows hold by then, with its own indices. -/
theorem forSquaresInSector_visits (c : Coord s) (body : Visit α → σ → σ)
    (start : σ) :
    ∃ visited : List (Coord s), visited.length = s * s ∧ visited.Nodup ∧
      (∀ d, d ∈ visited ↔
        d ∈ (House.sector (band c.1) (band c.2)).squares) ∧
      forSquaresInSector m_rows (c.1.1 + 1) (c.2.1 + 1)
          (fun values st => (.ok (body values st) : Except ρ σ)) start =
        some (.ok (visited.foldl (fun st d =>
          body ⟨some ((m_rows st).entry d), d.2.1 + 1, d.1.1 + 1⟩ st)
          start)) := by
  refine ⟨Lua.squaresInSector c, length_squaresInSector c,
    nodup_squaresInSector c, fun d => ?_, ?_⟩
  · rw [mem_squaresInSector, House.mem_sector]
  · rw [forSquaresInSector_eq]
    exact congrArg some List.foldlM_pure

/-! ## The loops over a sector -/

/-- The rows of a grid as the identities of its squares. -/
def identities (s : ℕ) : Table (Coord s) (s * s) :=
  Vector.ofFn fun y => Vector.ofFn fun x => (x, y)

@[simp] theorem entry_identities (d : Coord s) :
    (identities s).entry d = d := by
  simp [identities, Table.entry]

/-- A loop that leaves with `false` at the first entry with a property. -/
theorem foldlM_error_false {β : Type} (p : β → Prop) [DecidablePred p]
    (l : List β) :
    l.foldlM (fun _ d => if p d then .error false else .ok ()) () =
      (if l.all fun d => !decide (p d) then .ok () else .error false :
        Except Bool Unit) := by
  induction l with
  | nil => rfl
  | cons d l ih =>
      rw [List.foldlM_cons, List.all_cons]
      by_cases hd : p d
      · rw [if_pos hd, decide_eq_true hd]
        rfl
      · rw [if_neg hd, decide_eq_false hd]
        exact ih

/-- The loop of `mustBeValueBySector` leaves with `false` at another square
that has the possibility. -/
theorem forSquaresInSector_mustBeValue (grid : Grid s) (possibility : Value s)
    (c : Coord s) :
    forSquaresInSector (fun _ => identities s) (c.1.1 + 1) (c.2.1 + 1)
        (fun values _ =>
          if ∃ square ∈ values.square, square ≠ c ∧
              possibility ∈ grid.square square then .error false
          else .ok ()) () =
      some (if mustBeValueBySector grid possibility c then .ok ()
        else .error false) := by
  rw [forSquaresInSector_eq, mustBeValueBySector]
  simp only [visit, entry_identities, Option.mem_some_iff,
    exists_eq_left', foldlM_error_false, Bool.decide_and]

/-- The last loop of `removeRelatedPossibilities`. -/
theorem forSquaresInSector_removePossibility (grid : Grid s) (c : Coord s)
    (value : Value s) :
    forSquaresInSector (fun _ => identities s) (c.1.1 + 1) (c.2.1 + 1)
        (fun values grid => (.ok (values.square.elim grid fun square =>
          if square ≠ c then removePossibility grid square value
          else grid) : Except Unit (Grid s))) grid =
      some (.ok ((Lua.squaresInSector c).foldl (fun grid d =>
        if d ≠ c then removePossibility grid d value else grid) grid)) := by
  rw [forSquaresInSector_eq]
  simp only [visit, entry_identities, Option.elim_some]
  exact congrArg some List.foldlM_pure

end SudokuSolver.Lua.Iterators
