import SudokuSolver.Board

/-!
# Squares in Lua

`square.lua`.  The possibilities of a square are the keys of a table, which
`next` and `pairs` visit in an order that is not specified.
-/

namespace SudokuSolver.Lua

variable {s : ℕ}

/-- A square, by its `m_possibilities`; its `m_maxPossibility` is `s * s`. -/
abbrev Square (s : ℕ) := Finset (Value s)

namespace Square

/-- The keys of `m_possibilities`.  `next` and `pairs` may visit them in another
order, on which nothing below depends. -/
def keys (square : Square s) : List (Value s) := ascending square

/-- `getValue` for keys in the order of `next`: the first key, unless there is
none or another one after it. -/
def valueOfKeys : List (Value s) → Option (Value s)
  | [firstValue] => some firstValue
  | _ => none

/-- The single possible value of the square if there is only one. -/
def getValue (square : Square s) : Option (Value s) :=
  valueOfKeys (keys square)

/-- False if the square has no possible values. -/
def isPossible (square : Square s) : Bool := !(keys square).isEmpty

/-- Remove a given possibility, and whether it existed before. -/
def removePossibility (square : Square s) (possibility : Value s) :
    Square s × Bool :=
  (square.erase possibility, decide (possibility ∈ square))

def setValue (value : Value s) : Square s := {value}

/-- A copy of the square. -/
def clone (square : Square s) : Square s := (keys square).toFinset

/-- The possible values for the square, sorted. -/
def getPossibilities (square : Square s) : List (Value s) := ascending square

def getPossibilityCount (square : Square s) : ℕ := (keys square).length

/-- A square with the possibilities `1 .. s * s`. -/
def newPossibilitySquare (s : ℕ) : Square s := (oneTo s).toFinset

theorem getValue_eq_some_iff {square : Square s} {v : Value s} :
    getValue square = some v ↔ square = {v} := by
  constructor
  · intro h
    have hkeys : keys square = [v] := by
      rw [getValue, valueOfKeys.eq_def] at h
      split at h
      · next heq =>
        rw [heq, Option.some.inj h]
      · exact absurd h (by simp)
    rw [← toFinset_ascending square]
    exact congrArg List.toFinset hkeys
  · rintro rfl
    simp [getValue, keys, valueOfKeys]

theorem isPossible_iff {square : Square s} :
    isPossible square = true ↔ square.Nonempty := by
  rw [isPossible, keys, Bool.not_eq_true', ← Bool.not_eq_true,
    List.isEmpty_iff, ← List.length_eq_zero_iff, length_ascending,
    ← Finset.card_pos]
  omega

theorem getValue_isSome_iff {square : Square s} :
    (getValue square).isSome = true ↔ square.card = 1 := by
  rw [Option.isSome_iff_exists, Finset.card_eq_one]
  exact exists_congr fun v => getValue_eq_some_iff

@[simp] theorem clone_eq (square : Square s) : clone square = square :=
  toFinset_ascending square

@[simp] theorem getPossibilityCount_eq (square : Square s) :
    getPossibilityCount square = square.card := length_ascending square

theorem newPossibilitySquare_eq (s : ℕ) :
    newPossibilitySquare s = Finset.univ := by
  ext v
  simp [newPossibilitySquare]

end Square

end SudokuSolver.Lua
