import Mathlib.Data.Set.Finite.Basic
import Mathlib.Logic.Equiv.Fin.Basic
import Mathlib.Order.Interval.Finset.Nat
import SudokuSolver.Support.Clues

/-!
# The sudoku board

A board of sector size `s` has `s * s` rows and columns, numbered from zero, and
its squares are addressed by column and row as in the sources.  The houses are
the rows, the columns and the sectors; two squares are peers when they share a
house.  A completion is a choice of values that makes every house a permutation
of the digits, which is the meaning all the solvers are measured against.
-/

namespace SudokuSolver

open Propagation

variable {s : ℕ} {V : Type*}

/-- A row or column, numbered from zero. -/
abbrev Index (s : ℕ) := Fin (s * s)

/-- A square, by its column and its row. -/
abbrev Coord (s : ℕ) := Index s × Index s

/-- The values `1 .. s * s` a square can have. -/
abbrev Value (s : ℕ) := {v : ℕ // v ∈ Finset.Icc 1 (s * s)}

/-- The band of rows, or the stack of columns, an index lies in. -/
def band (i : Index s) : Fin s := i.divNat

/-- An index is given by its band and its place in the band. -/
theorem eq_finProdFinEquiv_iff {i : Index s} {b k : Fin s} :
    i = finProdFinEquiv (b, k) ↔ band i = b ∧ i.modNat = k := by
  constructor
  · rintro rfl
    have h := finProdFinEquiv.symm_apply_apply (b, k)
    exact ⟨congrArg Prod.fst h, congrArg Prod.snd h⟩
  · rintro ⟨rfl, rfl⟩
    exact (finProdFinEquiv.apply_symm_apply i).symm

/-- The rows, columns and sectors of a board. -/
inductive House (s : ℕ) where
  | row (y : Index s)
  | column (x : Index s)
  | sector (x y : Fin s)

/-- The indices of one band. -/
def bandIndices (i : Fin s) : Finset (Index s) :=
  Finset.univ.filter fun x => band x = i

/-- The indices of one band, in order. -/
def bandRange (i : Fin s) : List (Index s) :=
  (List.finRange s).map fun k => finProdFinEquiv (i, k)

@[simp] theorem mem_bandRange {i : Fin s} {x : Index s} :
    x ∈ bandRange i ↔ band x = i := by
  rw [bandRange, List.mem_map]
  constructor
  · rintro ⟨k, -, rfl⟩
    exact (eq_finProdFinEquiv_iff.mp rfl).1
  · rintro rfl
    exact ⟨x.modNat, List.mem_finRange _,
      (eq_finProdFinEquiv_iff.mpr ⟨rfl, rfl⟩).symm⟩

/-- The squares of a house. -/
def House.squares : House s → Finset (Coord s)
  | row y => Finset.univ ×ˢ {y}
  | column x => {x} ×ˢ Finset.univ
  | sector x y => bandIndices x ×ˢ bandIndices y

@[simp] theorem mem_bandIndices {i : Fin s} {x : Index s} :
    x ∈ bandIndices i ↔ band x = i := by
  simp [bandIndices]

@[simp] theorem House.mem_row {y : Index s} {c : Coord s} :
    c ∈ (House.row y).squares ↔ c.2 = y := by
  rw [squares, Finset.mem_product, Finset.mem_singleton]
  exact and_iff_right (Finset.mem_univ c.1)

@[simp] theorem House.mem_column {x : Index s} {c : Coord s} :
    c ∈ (House.column x).squares ↔ c.1 = x := by
  rw [squares, Finset.mem_product, Finset.mem_singleton]
  exact and_iff_left (Finset.mem_univ c.2)

@[simp] theorem House.mem_sector {x y : Fin s} {c : Coord s} :
    c ∈ (House.sector x y).squares ↔ band c.1 = x ∧ band c.2 = y := by
  rw [squares, Finset.mem_product, mem_bandIndices, mem_bandIndices]

theorem card_bandIndices (i : Fin s) : (bandIndices i).card = s := by
  have himage : bandIndices i =
      Finset.univ.map ⟨fun k : Fin s => finProdFinEquiv (i, k), by
        intro k l hkl
        simpa using hkl⟩ := by
    ext x
    simp only [mem_bandIndices, Finset.mem_map, Finset.mem_univ, true_and]
    constructor
    · intro hx
      refine ⟨x.modNat, ?_⟩
      rw [← hx]
      exact finProdFinEquiv.apply_symm_apply x
    · rintro ⟨k, rfl⟩
      exact congrArg Prod.fst (finProdFinEquiv.symm_apply_apply (i, k))
  rw [himage, Finset.card_map, Finset.card_univ, Fintype.card_fin]

/-- Every house has as many squares as there are digits. -/
theorem House.card_squares (h : House s) : h.squares.card = s * s := by
  cases h with
  | row y => simp [squares]
  | column x => simp [squares]
  | sector x y =>
      rw [squares, Finset.card_product, card_bandIndices, card_bandIndices]

/-- Two different squares that share a row, a column or a sector. -/
def Peer (c d : Coord s) : Prop :=
  c ≠ d ∧ (c.2 = d.2 ∨ c.1 = d.1 ∨
    (band c.1 = band d.1 ∧ band c.2 = band d.2))

instance (c d : Coord s) : Decidable (Peer c d) :=
  inferInstanceAs (Decidable (c ≠ d ∧ (c.2 = d.2 ∨ c.1 = d.1 ∨
    (band c.1 = band d.1 ∧ band c.2 = band d.2))))

theorem Peer.symm {c d : Coord s} (h : Peer c d) : Peer d c := by
  obtain ⟨hne, hshare⟩ := h
  refine ⟨hne.symm, ?_⟩
  rcases hshare with h | h | ⟨hx, hy⟩
  · exact Or.inl h.symm
  · exact Or.inr (Or.inl h.symm)
  · exact Or.inr (Or.inr ⟨hx.symm, hy.symm⟩)

theorem Peer.irrefl (c : Coord s) : ¬Peer c c := fun h => h.1 rfl

theorem peer_iff_exists_house {c d : Coord s} :
    Peer c d ↔ c ≠ d ∧ ∃ h : House s, c ∈ h.squares ∧ d ∈ h.squares := by
  constructor
  · rintro ⟨hne, hrow | hcolumn | ⟨hx, hy⟩⟩
    · exact ⟨hne, House.row d.2, by simpa using hrow, by simp⟩
    · exact ⟨hne, House.column d.1, by simpa using hcolumn, by simp⟩
    · exact ⟨hne, House.sector (band d.1) (band d.2),
        by simpa using ⟨hx, hy⟩, by simp⟩
  · rintro ⟨hne, h, hc, hd⟩
    refine ⟨hne, ?_⟩
    cases h with
    | row y => exact Or.inl (by simp_all)
    | column x => exact Or.inr (Or.inl (by simp_all))
    | sector x y => exact Or.inr (Or.inr (by simp_all))

/-- A value is left in no other square of some house of `c` when it is left in
no other square of its row, of its column or of its sector. -/
theorem exists_house_iff (m : Candidates (Coord s) V) (c : Coord s) (p : V) :
    (∃ h : House s, c ∈ h.squares ∧ ∀ d ∈ h.squares, d ≠ c → p ∉ m d) ↔
      (∀ x, x ≠ c.1 → p ∉ m (x, c.2)) ∨ (∀ y, y ≠ c.2 → p ∉ m (c.1, y)) ∨
        ∀ d, band d.1 = band c.1 ∧ band d.2 = band c.2 → d ≠ c → p ∉ m d := by
  constructor
  · rintro ⟨h, hc, honly⟩
    cases h with
    | row y =>
        refine Or.inl fun x hx => ?_
        exact honly (x, c.2) (by simpa using hc)
          fun heq => hx (congrArg Prod.fst heq)
    | column x =>
        refine Or.inr (Or.inl fun y hy => ?_)
        exact honly (c.1, y) (by simpa using hc)
          fun heq => hy (congrArg Prod.snd heq)
    | sector x y =>
        refine Or.inr (Or.inr fun d hd => ?_)
        rw [House.mem_sector] at hc
        exact honly d (by simpa [hc] using hd)
  · rintro (hrow | hcolumn | hsector)
    · refine ⟨House.row c.2, by simp, fun d hd hne => ?_⟩
      obtain ⟨x, y⟩ := d
      rw [House.mem_row] at hd
      subst hd
      exact hrow x fun heq => hne (Prod.ext heq rfl)
    · refine ⟨House.column c.1, by simp, fun d hd hne => ?_⟩
      obtain ⟨x, y⟩ := d
      rw [House.mem_column] at hd
      subst hd
      exact hcolumn y fun heq => hne (Prod.ext rfl heq)
    · exact ⟨House.sector (band c.1) (band c.2), by simp,
        fun d hd => hsector d (House.mem_sector.mp hd)⟩

/-- The squares of a house hold every digit exactly once. -/
def IsCompletion (digits : Finset V) (S : Coord s → V) : Prop :=
  ∀ h : House s, Set.BijOn S h.squares digits

theorem IsCompletion.mem_digits {digits : Finset V} {S : Coord s → V}
    (hS : IsCompletion digits S) (c : Coord s) : S c ∈ digits :=
  Finset.mem_coe.mp ((hS (House.row c.2)).mapsTo (by simp))

theorem IsCompletion.fills {digits : Finset V} {S : Coord s → V}
    (hS : IsCompletion digits S) : Fills Peer House.squares digits S := by
  constructor
  · intro c d hpeer heq
    obtain ⟨hne, h, hc, hd⟩ := peer_iff_exists_house.mp hpeer
    exact hne ((hS h).injOn hc hd heq)
  · intro h v hv
    obtain ⟨d, hd, hdv⟩ := (hS h).surjOn hv
    exact ⟨d, hd, hdv⟩

/-- Different digits on peers make a completion, since a house has as many
squares as there are digits. -/
theorem isCompletion_of_distinct {digits : Finset V}
    (hcard : digits.card = s * s) {S : Coord s → V}
    (hdigits : ∀ c, S c ∈ digits) (hS : ∀ c d, Peer c d → S c ≠ S d) :
    IsCompletion digits S := by
  intro h
  have hmaps : Set.MapsTo S h.squares digits := fun c _ => hdigits c
  have hinj : Set.InjOn S h.squares := by
    intro c hc d hd heq
    by_contra hne
    exact hS c d (peer_iff_exists_house.mpr ⟨hne, h, hc, hd⟩) heq
  refine ⟨hmaps, hinj, ?_⟩
  exact Finset.surjOn_of_injOn_of_card_le S hmaps hinj
    (by rw [h.card_squares, hcard])

theorem fills_of_distinct {digits : Finset V} (hcard : digits.card = s * s)
    (S : Coord s → V) (hdigits : ∀ c, S c ∈ digits)
    (hS : ∀ c d, Peer c d → S c ≠ S d) :
    Fills Peer House.squares digits S :=
  (isCompletion_of_distinct hcard hdigits hS).fills

theorem isCompletion_iff {digits : Finset V} (hcard : digits.card = s * s)
    {S : Coord s → V} :
    IsCompletion digits S ↔
      Fills Peer House.squares digits S ∧ ∀ c, S c ∈ digits :=
  ⟨fun hS => ⟨hS.fills, hS.mem_digits⟩,
    fun ⟨hfills, hdigits⟩ =>
      isCompletion_of_distinct hcard hdigits hfills.distinct⟩

@[simp] theorem card_values (s : ℕ) :
    (Finset.univ : Finset (Value s)).card = s * s := by
  rw [Finset.card_univ, Fintype.card_coe, Nat.card_Icc]
  omega

theorem within_univ (m : Candidates (Coord s) (Value s)) :
    Within Finset.univ m := fun c => Finset.subset_univ (m c)

/-! ## Walking over the board -/

/-- The next square row by row, starting again after the last one. -/
def nextCoord (c : Coord s) : Coord s :=
  if hx : c.1.1 + 1 < s * s then (⟨c.1.1 + 1, hx⟩, c.2)
  else if hy : c.2.1 + 1 < s * s then (⟨0, c.1.pos⟩, ⟨c.2.1 + 1, hy⟩)
  else (⟨0, c.1.pos⟩, ⟨0, c.1.pos⟩)

/-- The place of a square, row by row. -/
def place (c : Coord s) : ℕ := (finProdFinEquiv (c.2, c.1)).1

theorem place_lt (c : Coord s) : place c < s * s * (s * s) :=
  (finProdFinEquiv (c.2, c.1)).isLt

theorem place_injective : Function.Injective (place (s := s)) := by
  intro c d h
  have heq := finProdFinEquiv.injective (Fin.ext h)
  exact Prod.ext (congrArg Prod.snd heq) (congrArg Prod.fst heq)

/-- The square at a place. -/
def coordAt (k : Fin (s * s * (s * s))) : Coord s := (finProdFinEquiv.symm k).swap

@[simp] theorem place_coordAt (k : Fin (s * s * (s * s))) :
    place (coordAt k) = k.1 :=
  congrArg Fin.val (finProdFinEquiv.apply_symm_apply k)

@[simp] theorem coordAt_place (c : Coord s) : coordAt ⟨place c, place_lt c⟩ = c :=
  place_injective (place_coordAt _)

/-- All squares, row by row. -/
def rowMajor (s : ℕ) : List (Coord s) :=
  (List.finRange (s * s * (s * s))).map coordAt

theorem nodup_rowMajor (s : ℕ) : (rowMajor s).Nodup :=
  (List.nodup_finRange _).map fun k l h => Fin.ext <| by
    rw [← place_coordAt k, ← place_coordAt l, h]

theorem length_rowMajor (s : ℕ) : (rowMajor s).length = s ^ 4 := by
  rw [rowMajor, List.length_map, List.length_finRange, ← pow_two, ← pow_two,
    ← pow_mul]

/-- The squares of one row after the other. -/
theorem rowMajor_eq_flatMap (s : ℕ) :
    rowMajor s = (List.finRange (s * s)).flatMap fun y =>
      (List.finRange (s * s)).map fun x => (x, y) := by
  have hcoord : ∀ (y x : Index s)
      (h : y.1 * (s * s) + x.1 < s * s * (s * s)),
      coordAt ⟨y.1 * (s * s) + x.1, h⟩ = (x, y) := by
    intro y x h
    apply place_injective
    have hplace : place (x, y) = x.1 + s * s * y.1 := rfl
    have hcomm : y.1 * (s * s) = s * s * y.1 := Nat.mul_comm _ _
    rw [place_coordAt, hplace]
    dsimp only
    omega
  rw [rowMajor, ← List.ofFn_eq_map, List.ofFn_mul, List.flatMap_def,
    ← List.ofFn_eq_map]
  simp only [hcoord, List.ofFn_eq_map]

/-- Two nested loops over the rows and the columns visit the squares row by
row. -/
theorem foldl_range_range {G : Type*} (step : G → ℕ → ℕ → G) (g : G) :
    (List.range (s * s)).foldl (fun g y =>
        (List.range (s * s)).foldl (fun g x => step g x y) g) g =
      (rowMajor s).foldl (fun g c => step g c.1.1 c.2.1) g := by
  rw [rowMajor_eq_flatMap, List.foldl_flatMap, ← List.map_coe_finRange_eq_range]
  simp only [List.foldl_map]

theorem mem_rowMajor (c : Coord s) : c ∈ rowMajor s :=
  List.mem_map.mpr ⟨_, List.mem_finRange _, coordAt_place c⟩

theorem place_nextCoord (c : Coord s) :
    place (nextCoord c) = (place c + 1) % (s * s * (s * s)) := by
  obtain ⟨⟨x, hx⟩, ⟨y, hy⟩⟩ := c
  have hplace : ∀ (x y : Index s), place (x, y) = x.1 + s * s * y.1 :=
    fun _ _ => rfl
  rw [nextCoord]
  split_ifs with hx' hy'
  · rw [hplace, hplace, Nat.mod_eq_of_lt]
    · dsimp only
      omega
    · have hlt := place_lt ((⟨x + 1, hx'⟩, ⟨y, hy⟩) : Coord s)
      rw [hplace] at hlt
      dsimp only at hlt ⊢
      omega
  · have hlast : x + 1 = s * s := by
      dsimp only at hx'
      omega
    rw [hplace, hplace, Nat.mod_eq_of_lt]
    · dsimp only
      rw [Nat.mul_succ]
      omega
    · have hlt := place_lt ((⟨0, by omega⟩, ⟨y + 1, hy'⟩) : Coord s)
      rw [hplace, Nat.mul_succ] at hlt
      dsimp only at hlt ⊢
      omega
  · have hlast : x + s * s * y + 1 = s * s * (s * s) := by
      dsimp only at hx' hy'
      have hx'' : x + 1 = s * s := by omega
      have hy'' : s * s = y + 1 := by omega
      calc
        x + s * s * y + 1 = s * s * y + s * s := by omega
        _ = s * s * (y + 1) := (Nat.mul_succ _ _).symm
        _ = s * s * (s * s) := by rw [← hy'']
    rw [hplace, hplace]
    dsimp only
    rw [hlast, Nat.mod_self, Nat.mul_zero]

theorem place_iterate (n : ℕ) (c : Coord s) :
    place (nextCoord^[n] c) = (place c + n) % (s * s * (s * s)) := by
  induction n with
  | zero => exact (Nat.mod_eq_of_lt (place_lt c)).symm
  | succ n ih =>
      rw [Function.iterate_succ_apply', place_nextCoord, ih, Nat.mod_add_mod,
        Nat.add_assoc]

/-- A lap over the board, row by row. -/
def boardLap (s : ℕ) : Lap (Coord s) where
  next := nextCoord
  cyclic c d := by
    refine ⟨s * s * (s * s) - place c + place d, place_injective ?_⟩
    have hc := place_lt c
    have hd := place_lt d
    rw [place_iterate, ← Nat.add_assoc, Nat.add_sub_cancel' hc.le,
      Nat.add_mod_left, Nat.mod_eq_of_lt hd]

/-! ## Values in ascending order -/

/-- The list `[1 .. s * s]`. -/
def oneTo (s : ℕ) : List (Value s) :=
  (List.finRange (s * s)).map fun i =>
    ⟨i.1 + 1, Finset.mem_Icc.mpr ⟨Nat.le_add_left 1 i.1, i.isLt⟩⟩

@[simp] theorem mem_oneTo (v : Value s) : v ∈ oneTo s := by
  obtain ⟨v, hv⟩ := v
  obtain ⟨hpos, hle⟩ := Finset.mem_Icc.mp hv
  refine List.mem_map.mpr ⟨⟨v - 1, by omega⟩, List.mem_finRange _, ?_⟩
  exact Subtype.ext (Nat.sub_add_cancel hpos)

theorem nodup_oneTo (s : ℕ) : (oneTo s).Nodup := by
  refine (List.nodup_finRange _).map fun i j h => ?_
  exact Fin.ext (Nat.succ.inj (congrArg Subtype.val h))

/-- The elements of a set of values in ascending order. -/
def ascending (values : Finset (Value s)) : List (Value s) :=
  (oneTo s).filter fun v => decide (v ∈ values)

@[simp] theorem mem_ascending {values : Finset (Value s)} {v : Value s} :
    v ∈ ascending values ↔ v ∈ values := by
  simp [ascending]

theorem nodup_ascending (values : Finset (Value s)) :
    (ascending values).Nodup := (nodup_oneTo s).filter _

@[simp] theorem toFinset_ascending (values : Finset (Value s)) :
    (ascending values).toFinset = values := by
  ext v
  rw [List.mem_toFinset, mem_ascending]

@[simp] theorem length_ascending (values : Finset (Value s)) :
    (ascending values).length = values.card := by
  rw [← List.toFinset_card_of_nodup (nodup_ascending values),
    toFinset_ascending]

/-- The elements of a set with a single value. -/
@[simp] theorem ascending_singleton (v : Value s) : ascending {v} = [v] := by
  have hlength : (ascending {v}).length = 1 := by simp
  obtain ⟨w, hw⟩ := List.length_eq_one_iff.mp hlength
  have hmem : w ∈ ascending {v} := by rw [hw]; exact List.mem_singleton_self w
  rw [hw, Finset.mem_singleton.mp (mem_ascending.mp hmem)]

/-! ## Puzzles -/

/-- A completion that agrees with every clue. -/
def Completes (digits : Finset V) (clues : List (Coord s × V))
    (S : Coord s → V) : Prop :=
  IsCompletion digits S ∧ Agrees clues S

/-- A board on which every square may still take every digit has no decided
square, unless it consists of a single square. -/
theorem closed_full {digits : Finset V} (hcard : digits.card = s * s) :
    Closed Peer (fun _ : Coord s => digits) := by
  intro c v hv d hpeer
  have hone : s * s = 1 := by
    rw [← hcard, ← Finset.card_singleton v]
    exact congrArg Finset.card hv
  obtain ⟨⟨x, hx⟩, ⟨y, hy⟩⟩ := c
  obtain ⟨⟨x', hx'⟩, ⟨y', hy'⟩⟩ := d
  refine absurd ?_ hpeer.1
  simp only [Prod.mk.injEq, Fin.mk.injEq]
  omega

section Clues

variable {G : Type*} [DecidableEq V] {digits : Finset V} {g : G}
variable {clues : List (Coord s × V)}
variable (store : CandidateStore G (Coord s) V)
variable (order : PeerOrder (Peer (s := s)))

theorem closed_puzzle (clues : List (Coord s × V))
    (hcard : digits.card = s * s)
    (hfull : store.candidates g = fun _ => digits) :
    Closed Peer (store.candidates (store.setSquares order clues g)) :=
  store.closed_setSquares order clues (hfull ▸ closed_full hcard)

theorem within_puzzle (hvalues : ∀ clue ∈ clues, clue.2 ∈ digits)
    (hfull : store.candidates g = fun _ => digits) :
    Within digits (store.candidates (store.setSquares order clues g)) :=
  store.within_setSquares order hvalues (hfull ▸ fun _ => subset_rfl)

/-- The fillings left by the clues of a puzzle are its completions. -/
theorem fills_puzzle_iff (hcard : digits.card = s * s)
    (hvalues : ∀ clue ∈ clues, clue.2 ∈ digits)
    (hnodup : (clues.map Prod.fst).Nodup)
    (hfull : store.candidates g = fun _ => digits) {S : Coord s → V} :
    (Fills Peer House.squares digits S ∧
      Admits (store.candidates (store.setSquares order clues g)) S) ↔
      Completes digits clues S := by
  have hagrees : (∀ c, S c ∈ digits) → (∀ c d, Peer c d → S c ≠ S d) →
      (Admits (store.candidates (store.setSquares order clues g)) S ↔
        Agrees clues S) := by
    intro hdigits hdistinct
    have hadm : Admits (store.candidates g) S := by rwa [hfull]
    exact store.admits_setSquares_iff order hdistinct hnodup hadm
  constructor
  · rintro ⟨hfills, hadm⟩
    have hdigits : ∀ c, S c ∈ digits :=
      fun c => within_puzzle store order hvalues hfull c (hadm c)
    exact ⟨(isCompletion_iff hcard).mpr ⟨hfills, hdigits⟩,
      (hagrees hdigits hfills.distinct).mp hadm⟩
  · rintro ⟨hS, hclues⟩
    exact ⟨hS.fills, (hagrees hS.mem_digits hS.fills.distinct).mpr hclues⟩

end Clues

/-- A completed board of sector size two. -/
def smallCompletion (c : Coord 2) : Value 2 :=
  ⟨(c.1.1 + 2 * c.2.1 + c.2.1 / 2) % 4 + 1, by
    rw [Finset.mem_Icc]
    omega⟩

theorem completes_smallCompletion :
    Completes Finset.univ [((0, 0), ⟨1, by decide⟩)] smallCompletion := by
  refine ⟨isCompletion_of_distinct (card_values 2)
    (fun c => Finset.mem_univ (smallCompletion c)) ?_, ?_⟩
  · decide +kernel
  · rw [agrees_cons]
    exact ⟨rfl, agrees_nil _⟩

end SudokuSolver
