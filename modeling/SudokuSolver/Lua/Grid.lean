import SudokuSolver.Lua.Square
import SudokuSolver.Support.Table

/-!
# The Lua grid and its propagation

`iterators.lua` and `grid.lua`.  Indices start at zero here, so
the Lua index of a row or column is one more.  Nothing is assumed about the
order in which `pairs` visits a table, except that it visits every entry once:
every grid comes with its own layout, and a clone may have another one.
Squares are mutated in place, and different squares of a grid are different
tables; a grid is therefore the table of its squares, and a comparison of two
squares is one of their coordinates.  The text of an error comes without the
position that Lua puts before it.
-/

namespace SudokuSolver.Lua

open Propagation

variable {s : ℕ}

/-! ## Tables -/

/-- The keys of a table with `n` entries in the order in which `pairs` visits
them. -/
structure Traversal (n : ℕ) where
  keys : List (Fin n)
  nodup : keys.Nodup
  mem_keys : ∀ k, k ∈ keys

/-- The order of `m_rows` and of each of its rows. -/
structure Layout (s : ℕ) where
  rows : Traversal (s * s)
  columns : Index s → Traversal (s * s)

/-- Visiting the entries in the order of their keys. -/
def Traversal.inOrder (n : ℕ) : Traversal n where
  keys := List.finRange n
  nodup := List.nodup_finRange n
  mem_keys := List.mem_finRange

/-- Visiting all tables of a grid in the order of their keys. -/
def Layout.inOrder (s : ℕ) : Layout s where
  rows := Traversal.inOrder _
  columns _ := Traversal.inOrder _

/-- The coordinates of a grid, in the order of two nested loops over `pairs`. -/
def Layout.coords (layout : Layout s) : List (Coord s) :=
  layout.rows.keys.flatMap fun rowIndex =>
    (layout.columns rowIndex).keys.map fun columnIndex =>
      (columnIndex, rowIndex)

@[simp] theorem Layout.mem_coords (layout : Layout s) (c : Coord s) :
    c ∈ layout.coords := by
  refine List.mem_flatMap.mpr ⟨c.2, layout.rows.mem_keys c.2, ?_⟩
  exact List.mem_map.mpr ⟨c.1, (layout.columns c.2).mem_keys c.1, rfl⟩

/-- A grid of possibility squares, with the order of its tables. -/
structure Grid (s : ℕ) where
  layout : Layout s
  m_rows : Table (Square s) (s * s)
  m_sectorDimension_pos : 0 < s

namespace Grid

def square (grid : Grid s) (c : Coord s) : Square s :=
  Table.entry grid.m_rows c

/-- The possibilities of every square. -/
def candidates (grid : Grid s) : Candidates (Coord s) (Value s) := grid.square

/-- The squares of a grid as a store of possibilities. -/
def store (s : ℕ) :
    CandidateStore (Table (Square s) (s * s)) (Coord s) (Value s) where
  candidates rows := Table.entry rows
  remove rows c v :=
    Table.replace rows c (Square.removePossibility (Table.entry rows c) v).1
  assign rows c v := Table.replace rows c (Square.setValue v)
  value rows c := Square.getValue (Table.entry rows c)
  candidates_remove rows c v := by
    funext d
    rw [Table.entry_replace, eraseAt, Function.update_apply]
    rfl
  candidates_assign rows c v := by
    funext d
    rw [Table.entry_replace, decideAt, Function.update_apply]
    rfl
  value_eq_some_iff _ _ _ := Square.getValue_eq_some_iff

end Grid

/-! ## Iterators -/

/-- The iteration of `incrementInSector` over a sector: the square of the
current state, and the state after it.  The state is missing after the last
square. -/
def incrementInSector (sector : Fin s × Fin s) :
    Option (Fin s × Fin s) → Option (Option (Fin s × Fin s) × Coord s)
  | some (squareX, squareY) =>
      let newState :=
        if hx : squareX.1 + 1 < s then some (⟨squareX.1 + 1, hx⟩, squareY)
        else if hy : squareY.1 + 1 < s then
          some (⟨0, by omega⟩, ⟨squareY.1 + 1, hy⟩)
        else none
      some (newState,
        finProdFinEquiv (sector.1, squareX), finProdFinEquiv (sector.2, squareY))
  | none => none

/-- The squares a loop over a sector visits from a state on. -/
def iterateSector (sector : Fin s × Fin s) (state : Option (Fin s × Fin s)) :
    List (Coord s) :=
  match _hstep : incrementInSector sector state with
  | none => []
  | some (newState, c) => c :: iterateSector sector newState
termination_by
  match state with
  | none => (0, 0)
  | some (squareX, squareY) => (s - squareY.1 + 1, s - squareX.1)
decreasing_by
  cases state with
  | none => simp [incrementInSector] at _hstep
  | some state =>
      simp only [incrementInSector, Option.some.injEq, Prod.mk.injEq] at _hstep
      obtain ⟨rfl, -⟩ := _hstep
      split_ifs
      · exact Prod.Lex.right _ (by dsimp only; omega)
      · exact Prod.Lex.left _ _ (by dsimp only; omega)
      · exact Prod.Lex.left _ _ (by omega)

/-- The squares in the sector of the given square. -/
def squaresInSector (c : Coord s) : List (Coord s) :=
  have hpos : 0 < s := Nat.pos_of_mul_pos_left c.1.pos
  iterateSector (band c.1, band c.2) (some (⟨0, hpos⟩, ⟨0, hpos⟩))

/-- The squares of a sector from a state on, row by row. -/
def InSectorFrom (sector : Fin s × Fin s) :
    Option (Fin s × Fin s) → Coord s → Prop
  | none, _ => False
  | some (x, y), d =>
      band d.1 = sector.1 ∧ band d.2 = sector.2 ∧
        (y.1 < d.2.modNat.1 ∨ y.1 = d.2.modNat.1 ∧ x.1 ≤ d.1.modNat.1)

theorem mem_iterateSector {sector : Fin s × Fin s}
    {state : Option (Fin s × Fin s)} {d : Coord s} :
    d ∈ iterateSector sector state ↔ InSectorFrom sector state d := by
  fun_induction iterateSector sector state with
  | case1 state hstep =>
      cases state with
      | none => simp [InSectorFrom]
      | some state => simp [incrementInSector] at hstep
  | case2 state newState c hstep ih =>
      cases state with
      | none => simp [incrementInSector] at hstep
      | some state =>
          obtain ⟨x, y⟩ := state
          simp only [incrementInSector, Option.some.injEq,
            Prod.mk.injEq] at hstep
          obtain ⟨rfl, rfl⟩ := hstep
          have hx := d.1.modNat.isLt
          have hy := d.2.modNat.isLt
          rw [List.mem_cons, ih, Prod.ext_iff, eq_finProdFinEquiv_iff,
            eq_finProdFinEquiv_iff]
          split_ifs
          · simp only [InSectorFrom, Fin.ext_iff]
            omega
          · simp only [InSectorFrom, Fin.ext_iff]
            omega
          · simp only [InSectorFrom, Fin.ext_iff, or_false]
            omega

/-- The iteration visits the squares of the sector. -/
theorem mem_squaresInSector {c d : Coord s} :
    d ∈ squaresInSector c ↔ band d.1 = band c.1 ∧ band d.2 = band c.2 := by
  rw [squaresInSector, mem_iterateSector]
  simp only [InSectorFrom]
  omega

/-- The squares that an iteration over a sector visits from a state on: the
rest of a row and the rows below it. -/
theorem iterateSector_eq (sector : Fin s × Fin s) (x y : Fin s) :
    iterateSector sector (some (x, y)) =
      (((List.finRange s).drop x).map fun k =>
        (finProdFinEquiv (sector.1, k), finProdFinEquiv (sector.2, y))) ++
      ((List.finRange s).drop (y + 1)).flatMap fun l =>
        (bandRange sector.1).map fun i => (i, finProdFinEquiv (sector.2, l)) := by
  generalize hstate : some (x, y) = state
  fun_induction iterateSector sector state generalizing x y with
  | case1 state hstep =>
      subst hstate
      simp [incrementInSector] at hstep
  | case2 state newState c hstep ih =>
      subst hstate
      simp only [incrementInSector, Option.some.injEq, Prod.mk.injEq] at hstep
      obtain ⟨rfl, rfl⟩ := hstep
      have hrow : (List.finRange s).drop x =
          x :: (List.finRange s).drop (x + 1) := by
        rw [List.drop_eq_getElem_cons (by simp), List.getElem_finRange]
        rfl
      rw [hrow, List.map_cons, List.cons_append]
      congr 1
      split_ifs at ih ⊢ with hx hy
      · exact ih ⟨x + 1, hx⟩ y rfl
      · have hlast : (List.finRange s).drop (x + 1) = [] :=
          List.drop_eq_nil_of_le (by rw [List.length_finRange]; omega)
        have hbelow : (List.finRange s).drop (y + 1) =
            ⟨y + 1, hy⟩ :: (List.finRange s).drop (y + 1 + 1) := by
          rw [List.drop_eq_getElem_cons (by simpa using hy),
            List.getElem_finRange]
          rfl
        rw [hlast, hbelow, List.map_nil, List.nil_append, List.flatMap_cons,
          ih _ _ rfl, bandRange, List.map_map]
        rfl
      · have hlast : (List.finRange s).drop (x + 1) = [] :=
          List.drop_eq_nil_of_le (by rw [List.length_finRange]; omega)
        have hbelow : (List.finRange s).drop (y + 1) = [] :=
          List.drop_eq_nil_of_le (by rw [List.length_finRange]; omega)
        rw [hlast, hbelow, iterateSector]
        simp [incrementInSector]

/-- The squares of the sector row by row. -/
theorem squaresInSector_eq (c : Coord s) :
    squaresInSector c = (bandRange (band c.2)).flatMap fun y =>
      (bandRange (band c.1)).map fun x => (x, y) := by
  have hpos : 0 < s := Nat.pos_of_mul_pos_left c.1.pos
  have hfirst : List.finRange s =
      ⟨0, hpos⟩ :: (List.finRange s).drop (0 + 1) := by
    have hcons := List.drop_eq_getElem_cons (l := List.finRange s) (i := 0)
      (by rwa [List.length_finRange])
    rw [List.drop_zero, List.getElem_finRange] at hcons
    exact hcons
  have hrows : bandRange (band c.2) =
      finProdFinEquiv (band c.2, ⟨0, hpos⟩) ::
        ((List.finRange s).drop (0 + 1)).map fun l =>
          finProdFinEquiv (band c.2, l) := by
    rw [bandRange, hfirst]
    rfl
  rw [squaresInSector, iterateSector_eq, hrows, List.flatMap_cons,
    List.flatMap_map, bandRange, List.map_map]
  rfl

/-! ## Removing possibilities -/

/-- The squares related to the given one, in the order they are visited: its
row, its column, its sector. -/
def Layout.related (layout : Layout s) (c : Coord s) : List (Coord s) :=
  (((layout.columns c.2).keys.map fun columnIndex => (columnIndex, c.2)) ++
    ((layout.rows.keys.map fun rowIndex => (c.1, rowIndex)) ++
      squaresInSector c)).filter fun d => !decide (d = c)

theorem Layout.mem_related (layout : Layout s) (c d : Coord s) :
    d ∈ layout.related c ↔ Peer c d := by
  simp only [related, List.mem_filter, List.mem_append, List.mem_map,
    mem_squaresInSector, Bool.not_eq_true', decide_eq_false_iff_not, Peer]
  constructor
  · rintro ⟨⟨x, -, rfl⟩ | ⟨y, -, rfl⟩ | ⟨hx, hy⟩, hne⟩
    · exact ⟨Ne.symm hne, Or.inl rfl⟩
    · exact ⟨Ne.symm hne, Or.inr (Or.inl rfl)⟩
    · exact ⟨Ne.symm hne, Or.inr (Or.inr ⟨hx.symm, hy.symm⟩)⟩
  · rintro ⟨hne, hrow | hcolumn | ⟨hx, hy⟩⟩
    · exact ⟨Or.inl ⟨d.1, (layout.columns c.2).mem_keys d.1,
        Prod.ext rfl hrow⟩, hne.symm⟩
    · exact ⟨Or.inr (Or.inl ⟨d.2, layout.rows.mem_keys d.2,
        Prod.ext hcolumn rfl⟩), hne.symm⟩
    · exact ⟨Or.inr (Or.inr ⟨hx.symm, hy.symm⟩), hne.symm⟩

/-- The order in which related squares are visited. -/
def Layout.visitOrder (layout : Layout s) : PeerOrder (Peer (s := s)) where
  related := layout.related
  mem_related := layout.mem_related
  symm _ _ := Peer.symm
  irrefl := Peer.irrefl

/-- Removes a possible value from a square and all related squares if the
value of the square becomes certain. -/
def removePossibility (grid : Grid s) (c : Coord s) (value : Value s) : Grid s :=
  { grid with
    m_rows := (Grid.store s).removePossibility grid.layout.visitOrder value
      grid.m_rows c }

/-- Remove this possible value from related squares but not the square
itself. -/
def removeRelatedPossibilities (grid : Grid s) (c : Coord s)
    (value : Value s) : Grid s :=
  let grid := (grid.layout.columns c.2).keys.foldl (fun grid columnIndex =>
    if (columnIndex, c.2) ≠ c then
      removePossibility grid (columnIndex, c.2) value
    else grid) grid
  let grid := grid.layout.rows.keys.foldl (fun grid rowIndex =>
    if (c.1, rowIndex) ≠ c then removePossibility grid (c.1, rowIndex) value
    else grid) grid
  (squaresInSector c).foldl (fun grid d =>
    if d ≠ c then removePossibility grid d value else grid) grid

/-- One of the three loops, over the coordinates it visits. -/
private theorem foldl_removePossibility {α : Type*} (l : List α)
    (place : α → Coord s) (c : Coord s) (value : Value s) (grid : Grid s) :
    l.foldl (fun grid a =>
        if place a ≠ c then removePossibility grid (place a) value else grid)
        grid =
      { grid with
        m_rows := ((l.map place).filter fun d => !decide (d = c)).foldl
          ((Grid.store s).removePossibility grid.layout.visitOrder value)
          grid.m_rows } := by
  induction l generalizing grid with
  | nil => rfl
  | cons a l ih =>
      rw [List.foldl_cons, ih, List.map_cons]
      by_cases hac : place a = c
      · simp [hac]
      · simp [hac, removePossibility]

theorem removeRelatedPossibilities_eq (grid : Grid s) (c : Coord s)
    (value : Value s) :
    removeRelatedPossibilities grid c value =
      { grid with
        m_rows := (Grid.store s).removeRelated grid.layout.visitOrder value c
          grid.m_rows } := by
  rw [removeRelatedPossibilities]
  rw [foldl_removePossibility _ (fun columnIndex => (columnIndex, c.2)),
    foldl_removePossibility _ (fun rowIndex => (c.1, rowIndex)),
    foldl_removePossibility _ (fun d => d), CandidateStore.removeRelated]
  simp only [Layout.visitOrder, Layout.related, List.filter_append,
    List.foldl_append, List.map_id']

/-- The recursion of `removePossibility` as the source writes it. -/
theorem removePossibility_eq (grid : Grid s) (c : Coord s) (value : Value s) :
    removePossibility grid c value =
      let (square, hadPossibility) :=
        Square.removePossibility (grid.square c) value
      if hadPossibility then
        let grid := { grid with m_rows := Table.replace grid.m_rows c square }
        match Square.getValue square with
        | some certainValue => removeRelatedPossibilities grid c certainValue
        | none => grid
      else grid := by
  rw [removePossibility, CandidateStore.removePossibility_eq]
  dsimp only [Square.removePossibility]
  by_cases hmem : value ∈ grid.square c
  · have hvalue : (Grid.store s).value
        ((Grid.store s).remove grid.m_rows c value) c =
        Square.getValue ((grid.square c).erase value) := by
      simp [Grid.store, Grid.square, Table.entry_replace,
        Square.removePossibility]
    have hstore : value ∈ (Grid.store s).candidates grid.m_rows c := hmem
    rw [if_pos hstore, hvalue, if_pos (decide_eq_true hmem)]
    cases Square.getValue ((grid.square c).erase value) with
    | none => rfl
    | some certainValue => simp only [removeRelatedPossibilities_eq]; rfl
  · have hstore : value ∉ (Grid.store s).candidates grid.m_rows c := hmem
    rw [if_neg hstore, if_neg (by simpa using hmem)]

/-- `setSquareValue` once its arguments are known to be in range. -/
def setSquareValueAt (grid : Grid s) (c : Coord s) (value : Value s) : Grid s :=
  removeRelatedPossibilities
    { grid with m_rows := Table.replace grid.m_rows c (Square.setValue value) }
    c value

/-- Sets a square to have a single possibility. -/
def setSquareValue (grid : Grid s) (x y value : ℤ) : Except String (Grid s) :=
  if hy : y < 1 ∨ (s * s : ℕ) < y then .error "row doesn't exist"
  else if hx : x < 1 ∨ (s * s : ℕ) < x then .error "column doesn't exist"
  else if hvalue : value < 1 ∨ value > (s * s : ℕ) then
    .error "value out of possible range"
  else
    .ok (setSquareValueAt grid
      (⟨(x - 1).toNat, by omega⟩, ⟨(y - 1).toNat, by omega⟩)
      ⟨value.toNat, by rw [Finset.mem_Icc]; omega⟩)

theorem setSquareValueAt_eq (grid : Grid s) (c : Coord s) (value : Value s) :
    setSquareValueAt grid c value =
      { grid with
        m_rows := (Grid.store s).setSquare grid.layout.visitOrder value c
          grid.m_rows } := by
  rw [setSquareValueAt, removeRelatedPossibilities_eq]
  rfl

/-- For a value and indices in range the checks pass. -/
theorem setSquareValue_ok (grid : Grid s) (c : Coord s) (value : Value s) :
    setSquareValue grid (c.1.1 + 1) (c.2.1 + 1) value.1 =
      .ok (setSquareValueAt grid c value) := by
  have hvalue := Finset.mem_Icc.mp value.2
  have hx := c.1.isLt
  have hy := c.2.isLt
  rw [setSquareValue, dif_neg (by omega), dif_neg (by omega),
    dif_neg (by omega)]
  congr 2
  simp

theorem decides_setSquareValueAt (grid : Grid s) (c : Coord s)
    (value : Value s) :
    Decides Peer grid.candidates c value
      (setSquareValueAt grid c value).candidates := by
  rw [setSquareValueAt_eq]
  exact (Grid.store s).decides_setSquare _ value c grid.m_rows

/-! ## The methods of a grid -/

namespace Grid

/-- True if every square still has at least one possible value. -/
def isPossible (grid : Grid s) : Bool :=
  grid.layout.coords.all fun c => Square.isPossible (grid.square c)

/-- True if every square has only a single possible value. -/
def isComplete (grid : Grid s) : Bool :=
  grid.layout.coords.all fun c => (Square.getValue (grid.square c)).isSome

theorem isPossible_iff {grid : Grid s} :
    grid.isPossible = true ↔ Live grid.candidates := by
  rw [isPossible, List.all_eq_true]
  simp only [Layout.mem_coords, forall_const, Square.isPossible_iff]
  rfl

theorem isComplete_iff {grid : Grid s} :
    grid.isComplete = true ↔ Decided grid.candidates := by
  rw [isComplete, List.all_eq_true]
  simp only [Layout.mem_coords, forall_const, Square.getValue_isSome_iff]
  rfl

/-- A new copy of the grid, whose tables have their own order. -/
def clone (grid : Grid s) (layout : Layout s) : Grid s :=
  { grid with
    layout := layout
    m_rows := grid.m_rows.map fun row => row.map Square.clone }

@[simp] theorem candidates_clone (grid : Grid s) (layout : Layout s) :
    (grid.clone layout).candidates = grid.candidates := by
  funext c
  simp [candidates, square, clone, Table.entry]

/-- The choice between the square to split so far and another one, each with
its number of possibilities. -/
def chooseSquare (grid : Grid s) (squareToSplit : Option (Coord s × ℕ))
    (c : Coord s) : Option (Coord s × ℕ) :=
  if (Square.getValue (grid.square c)).isNone &&
      Square.isPossible (grid.square c) then
    let squareCount := Square.getPossibilityCount (grid.square c)
    match squareToSplit with
    | none => some (c, squareCount)
    | some chosen =>
        if squareCount < chosen.2 then some (c, squareCount) else some chosen
  else squareToSplit

/-- The square with the least possibilities that can be split. -/
def squareToSplit (grid : Grid s) : Option (Coord s × ℕ) :=
  grid.layout.coords.foldl grid.chooseSquare none

/-- New versions of the grid, each with the chosen square containing one of its
possibilities; none if there was no viable square to split.  The clones get
their tables from `layouts`. -/
def split (grid : Grid s) (layouts : ℕ → Layout s) : Option (List (Grid s)) :=
  grid.squareToSplit.map fun chosen =>
    (Square.getPossibilities (grid.square chosen.1)).zipIdx.map fun p =>
      setSquareValueAt (grid.clone (layouts p.2)) chosen.1 p.1

/-- A square can be split when it has at least two possibilities. -/
theorem open_iff {square : Square s} :
    ((Square.getValue square).isNone && Square.isPossible square) = true ↔
      1 < square.card := by
  rw [Bool.and_eq_true, Option.isNone_iff_eq_none, ← Option.not_isSome_iff_eq_none,
    Square.getValue_isSome_iff, Square.isPossible_iff, ← Finset.card_pos]
  omega

theorem foldl_chooseSquare_some {grid : Grid s} (l : List (Coord s))
    {start : Option (Coord s × ℕ)} {chosen : Coord s × ℕ}
    (hstart : ∀ p ∈ start, 1 < (grid.candidates p.1).card)
    (h : l.foldl grid.chooseSquare start = some chosen) :
    1 < (grid.candidates chosen.1).card := by
  induction l generalizing start with
  | nil => exact hstart chosen h
  | cons c l ih =>
      refine ih ?_ h
      intro p hp
      rw [chooseSquare] at hp
      split at hp
      · next hopen =>
        have hcard := open_iff.mp hopen
        dsimp only at hp
        split at hp
        · cases hp
          exact hcard
        · split at hp
          · cases hp
            exact hcard
          · exact hstart p hp
      · exact hstart p hp

theorem foldl_chooseSquare_none {grid : Grid s} (l : List (Coord s))
    {start : Option (Coord s × ℕ)}
    (h : l.foldl grid.chooseSquare start = none) :
    start = none ∧ ∀ c ∈ l, ¬1 < (grid.candidates c).card := by
  induction l generalizing start with
  | nil => exact ⟨h, by simp⟩
  | cons c l ih =>
      obtain ⟨hnone, hrest⟩ := ih h
      rw [chooseSquare] at hnone
      split at hnone
      · dsimp only at hnone
        split at hnone
        · exact absurd hnone (by simp)
        · split at hnone
          · exact absurd hnone (by simp)
          · exact absurd hnone (by simp)
      · next hclosed =>
        refine ⟨hnone, fun d hd => ?_⟩
        rcases List.mem_cons.mp hd with rfl | hd
        · exact fun hcard => hclosed (open_iff.mpr hcard)
        · exact hrest d hd

theorem squareToSplit_some {grid : Grid s} {chosen : Coord s × ℕ}
    (h : grid.squareToSplit = some chosen) :
    1 < (grid.candidates chosen.1).card :=
  foldl_chooseSquare_some grid.layout.coords (by simp) h

/-- A possible grid that is not complete has a square to split. -/
theorem squareToSplit_isSome {grid : Grid s} (hlive : Live grid.candidates)
    (hopen : ¬Decided grid.candidates) :
    ∃ chosen, grid.squareToSplit = some chosen := by
  obtain ⟨c, hc⟩ := not_forall.mp hopen
  rw [← Option.ne_none_iff_exists']
  intro hnone
  have hcard := (foldl_chooseSquare_none _ hnone).2 c
    (grid.layout.mem_coords c)
  have hpos := Finset.card_pos.mpr (hlive c)
  omega

/-- Every version of the grid decides the chosen square for its
possibility. -/
theorem decides_split (grid : Grid s) (layouts : ℕ → Layout s) (c : Coord s)
    (values : List (Value s)) :
    List.Forall₂ (fun value newGrid =>
        Decides Peer grid.candidates c value (candidates newGrid)) values
      (values.zipIdx.map fun p =>
        setSquareValueAt (grid.clone (layouts p.2)) c p.1) := by
  have hdecides := fun (k : ℕ) (value : Value s) =>
    decides_setSquareValueAt (grid.clone (layouts k)) c value
  simp only [candidates_clone] at hdecides
  generalize 0 = k
  induction values generalizing k with
  | nil => exact List.Forall₂.nil
  | cons value values ih =>
      exact List.Forall₂.cons (hdecides k value) (ih (k + 1))

end Grid

/-- A grid with the given sector dimension, in which each square has all
possible values. -/
def newGrid (sectorDimension : ℕ) (layout : Layout sectorDimension) :
    Except String (Grid sectorDimension) :=
  if hs : sectorDimension < 1 then
    .error "sector size must be greater than zero"
  else
    .ok {
      layout := layout
      m_rows := Vector.replicate _ (Vector.replicate _
        (Square.newPossibilitySquare sectorDimension))
      m_sectorDimension_pos := by omega }

theorem newGrid_ok (hs : 1 ≤ s) (layout : Layout s) :
    ∃ grid, newGrid s layout = .ok grid ∧ grid.layout = layout ∧
      grid.candidates = fun _ => Finset.univ := by
  rw [newGrid, dif_neg (by omega)]
  refine ⟨_, rfl, rfl, funext fun c => ?_⟩
  rw [Grid.candidates, Grid.square, Table.entry_replicate,
    Square.newPossibilitySquare_eq]

/-! ## Grids given by clues -/

/-- `setSquareValue` called for one clue after the other on a new grid. -/
def clueGrid (layout : Layout s) (clues : List (Coord s × Value s)) :
    Except String (Grid s) := do
  let grid ← newGrid s layout
  clues.foldlM (fun grid clue =>
    setSquareValue grid (clue.1.1.1 + 1) (clue.1.2.1 + 1) clue.2.1) grid

theorem foldlM_setSquareValue (clues : List (Coord s × Value s))
    (grid : Grid s) :
    clues.foldlM (fun grid clue =>
        setSquareValue grid (clue.1.1.1 + 1) (clue.1.2.1 + 1) clue.2.1) grid =
      .ok { grid with
        m_rows := (Grid.store s).setSquares grid.layout.visitOrder clues
          grid.m_rows } := by
  induction clues generalizing grid with
  | nil => rfl
  | cons clue clues ih =>
      rw [List.foldlM_cons, setSquareValue_ok, setSquareValueAt_eq]
      exact ih _

theorem clueGrid_ok (hs : 1 ≤ s) (layout : Layout s)
    (clues : List (Coord s × Value s)) :
    ∃ new : Grid s, new.candidates = (fun _ => Finset.univ) ∧
      clueGrid layout clues = .ok { new with
        m_rows := (Grid.store s).setSquares new.layout.visitOrder clues
          new.m_rows } := by
  obtain ⟨new, hnew, -, hfull⟩ := newGrid_ok hs layout
  refine ⟨new, hfull, ?_⟩
  rw [clueGrid, hnew]
  exact foldlM_setSquareValue clues new

end SudokuSolver.Lua
