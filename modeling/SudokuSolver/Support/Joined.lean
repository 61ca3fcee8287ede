import Mathlib.Data.List.Basic

/-!
# Joined lists

Lists joined by a separator.  A list that is cut into pieces and joined twice is
joined once with a longer separator, and the shape of a joined list only depends
on the shapes of its pieces.
-/

namespace SudokuSolver.Joined

variable {α β : Type*}

theorem map_intercalate (f : α → β) (sep : List α) (L : List (List α)) :
    (sep.intercalate L).map f = (sep.map f).intercalate (L.map (List.map f)) := by
  induction L with
  | nil => rfl
  | cons l L ih =>
      by_cases hL : L = []
      · rw [hL, List.intercalate_singleton, List.map_singleton,
          List.intercalate_singleton]
      · rw [List.intercalate_cons_of_ne_nil hL, List.map_append,
          List.map_append, ih, List.map_cons,
          List.intercalate_cons_of_ne_nil (by simpa using hL)]

theorem mem_intercalate {sep : List α} {L : List (List α)} {a : α}
    (h : a ∈ sep.intercalate L) : a ∈ sep ∨ ∃ l ∈ L, a ∈ l := by
  induction L with
  | nil => exact absurd h (by simp)
  | cons l L ih =>
      by_cases hL : L = []
      · rw [hL, List.intercalate_singleton] at h
        exact Or.inr ⟨l, List.mem_cons_self, h⟩
      · rw [List.intercalate_cons_of_ne_nil hL, List.append_assoc,
          List.mem_append, List.mem_append] at h
        rcases h with hl | hsep | hrest
        · exact Or.inr ⟨l, List.mem_cons_self, hl⟩
        · exact Or.inl hsep
        · rcases ih hrest with hsep | ⟨l', hl', ha⟩
          · exact Or.inl hsep
          · exact Or.inr ⟨l', List.mem_cons_of_mem l hl', ha⟩

theorem intercalate_append {sep : List α} {L M : List (List α)}
    (hL : L ≠ []) (hM : M ≠ []) :
    sep.intercalate (L ++ M) = sep.intercalate L ++ sep ++ sep.intercalate M := by
  induction L with
  | nil => exact absurd rfl hL
  | cons l L ih =>
      rw [List.cons_append, List.intercalate_cons_of_ne_nil (by simp [hM])]
      by_cases hrest : L = []
      · rw [hrest, List.nil_append, List.intercalate_singleton]
      · rw [ih hrest, List.intercalate_cons_of_ne_nil hrest]
        simp only [List.append_assoc]

theorem intercalate_ne_nil (sep : List α) {L : List (List α)} (hL : L ≠ [])
    (hne : ∀ l ∈ L, l ≠ []) : sep.intercalate L ≠ [] := by
  obtain ⟨l, L, rfl⟩ := List.exists_cons_of_ne_nil hL
  have hl := hne l List.mem_cons_self
  by_cases hrest : L = []
  · rwa [hrest, List.intercalate_singleton]
  · rw [List.intercalate_cons_of_ne_nil hrest]
    simp [hl]

/-- Pieces joined by one separator, and the joins joined by another one, are
joined by both. -/
theorem intercalate_intercalate (sep mid : List α)
    {L : List (List (List α))} (hL : ∀ l ∈ L, l ≠ []) :
    sep.intercalate ([mid].intercalate L) =
      (sep ++ mid ++ sep).intercalate (L.map sep.intercalate) := by
  induction L with
  | nil => rfl
  | cons l L ih =>
      by_cases hrest : L = []
      · rw [hrest, List.intercalate_singleton, List.map_singleton,
          List.intercalate_singleton]
      · have hL' : ∀ l' ∈ L, l' ≠ [] := fun l' hl' =>
          hL l' (List.mem_cons_of_mem l hl')
        rw [List.intercalate_cons_of_ne_nil hrest, List.map_cons,
          List.intercalate_cons_of_ne_nil (by simpa using hrest),
          List.append_assoc,
          intercalate_append (hL l List.mem_cons_self) (by simp),
          List.singleton_append,
          List.intercalate_cons_of_ne_nil (intercalate_ne_nil _ hrest hL'),
          ih hL']
        simp only [List.append_assoc]

/-- Joined lists of items, and all their entries. -/
theorem flatten_intercalate (mid : List α) (L : List (List (List α))) :
    ([mid].intercalate L).flatten = mid.intercalate (L.map List.flatten) := by
  induction L with
  | nil => rfl
  | cons l L ih =>
      by_cases hrest : L = []
      · rw [hrest, List.intercalate_singleton, List.map_singleton,
          List.intercalate_singleton]
      · rw [List.intercalate_cons_of_ne_nil hrest, List.map_cons,
          List.intercalate_cons_of_ne_nil (by simpa using hrest),
          List.flatten_append, List.flatten_append, ih, List.flatten_singleton]

/-- Joined runs of one entry are a run of this entry. -/
theorem intercalate_replicate (a : α) (n w : ℕ) :
    [a].intercalate (List.replicate (n + 1) (List.replicate w a)) =
      List.replicate ((n + 1) * w + n) a := by
  induction n with
  | zero => simp
  | succ n ih =>
      rw [List.replicate_succ, List.intercalate_cons_of_ne_nil (by simp), ih,
        ← List.replicate_one, List.replicate_append_replicate,
        List.replicate_append_replicate]
      congr 1
      rw [Nat.succ_mul (n + 1)]
      omega

/-- A list of `m * n` entries cut into `m` pieces of length `n`. -/
theorem exists_pieces {m n : ℕ} {l : List α} (h : l.length = m * n) :
    ∃ L : List (List α), L.length = m ∧ (∀ piece ∈ L, piece.length = n) ∧
      L.flatten = l := by
  induction m generalizing l with
  | zero =>
      rw [Nat.zero_mul, List.length_eq_zero_iff] at h
      exact ⟨[], rfl, by simp, h.symm⟩
  | succ m ih =>
      rw [Nat.succ_mul] at h
      obtain ⟨L, hL, hpieces, hflatten⟩ :=
        ih (l := l.drop n) (by rw [List.length_drop]; omega)
      refine ⟨l.take n :: L, by rw [List.length_cons, hL], ?_, ?_⟩
      · intro piece hpiece
        rcases List.mem_cons.mp hpiece with rfl | hpiece
        · rw [List.length_take]
          omega
        · exact hpieces piece hpiece
      · rw [List.flatten_cons, hflatten, List.take_append_drop]

/-- Pieces of known lengths can be told apart after they are joined. -/
theorem eq_of_intercalate_eq {sep : List α} {L M : List (List α)}
    (hlengths : L.map List.length = M.map List.length)
    (h : sep.intercalate L = sep.intercalate M) : L = M := by
  induction L generalizing M with
  | nil => exact (List.map_eq_nil_iff.mp hlengths.symm).symm
  | cons l L ih =>
      obtain ⟨m, M, rfl⟩ : ∃ m M', M = m :: M' := by
        cases M with
        | nil => exact absurd hlengths (by simp)
        | cons m M => exact ⟨m, M, rfl⟩
      rw [List.map_cons, List.map_cons, List.cons.injEq] at hlengths
      obtain ⟨hlength, hlengths⟩ := hlengths
      by_cases hL : L = []
      · subst hL
        obtain rfl : M = [] := List.map_eq_nil_iff.mp hlengths.symm
        rw [List.intercalate_singleton, List.intercalate_singleton] at h
        rw [h]
      · have hM : M ≠ [] := by
          rintro rfl
          exact hL (List.map_eq_nil_iff.mp hlengths)
        rw [List.intercalate_cons_of_ne_nil hL,
          List.intercalate_cons_of_ne_nil hM, List.append_assoc,
          List.append_assoc] at h
        obtain ⟨rfl, hrest⟩ := List.append_inj h hlength
        rw [ih hlengths (List.append_cancel_left hrest)]

/-! ## Separators between pieces -/

/-- The items of one piece, counted from the first one of the list: only the
first item of the piece has a number that leaves one. -/
private theorem flatMap_zipIdx_piece (sep : α) {n : ℕ} (k : ℕ) (hn : 1 < n)
    {piece : List α} (hpiece : piece.length = n) :
    (piece.zipIdx (n * k + 1)).flatMap (fun item =>
        if item.2 ≠ 1 ∧ item.2 % n = 1 then [sep, item.1] else [item.1]) =
      (if k = 0 then [] else [sep]) ++ piece := by
  have hrest : ∀ (l : List α) (i : ℕ), 0 < i → i + l.length ≤ n →
      (l.zipIdx (n * k + 1 + i)).flatMap (fun item =>
        if item.2 ≠ 1 ∧ item.2 % n = 1 then [sep, item.1] else [item.1]) =
        l := by
    intro l
    induction l with
    | nil => exact fun _ _ _ => rfl
    | cons a l ih =>
        intro i hi hlen
        rw [List.length_cons] at hlen
        have hmod : (n * k + 1 + i) % n ≠ 1 := by
          rw [Nat.add_assoc, Nat.mul_add_mod]
          by_cases hlast : 1 + i = n
          · rw [hlast, Nat.mod_self]
            omega
          · rw [Nat.mod_eq_of_lt (by omega)]
            omega
        rw [List.zipIdx_cons, List.flatMap_cons, if_neg fun h => hmod h.2,
          Nat.add_assoc _ i, ih (i + 1) (by omega) (by omega)]
        rfl
  cases piece with
  | nil =>
      rw [List.length_nil] at hpiece
      omega
  | cons a l =>
      rw [List.length_cons] at hpiece
      have hmod : (n * k + 1) % n = 1 := by
        rw [Nat.mul_add_mod, Nat.mod_eq_of_lt hn]
      rw [List.zipIdx_cons, List.flatMap_cons,
        hrest l 1 Nat.one_pos (by omega)]
      by_cases hk : k = 0
      · simp [hk]
      · have hpos : 0 < n * k := Nat.mul_pos (by omega) (by omega)
        rw [if_pos ⟨by dsimp only; omega, hmod⟩, if_neg hk]
        rfl

/-- A separator in front of each item that begins a piece, apart from the
first one.  A single piece needs no separator. -/
theorem flatMap_zipIdx_eq_intercalate (sep : α) {n : ℕ} {L : List (List α)}
    (hpieces : ∀ piece ∈ L, piece.length = n)
    (hn : 1 < n ∨ n = 1 ∧ L.length = 1) :
    (L.flatten.zipIdx 1).flatMap (fun item =>
        if item.2 ≠ 1 ∧ item.2 % n = 1 then [sep, item.1] else [item.1]) =
      [sep].intercalate L := by
  rcases hn with hn | ⟨rfl, hL⟩
  · have hrest : ∀ (M : List (List α)) (k : ℕ),
        (∀ piece ∈ M, piece.length = n) →
        (M.flatten.zipIdx (n * (k + 1) + 1)).flatMap (fun item =>
          if item.2 ≠ 1 ∧ item.2 % n = 1 then [sep, item.1] else [item.1]) =
          M.flatMap fun piece => sep :: piece := by
      intro M
      induction M with
      | nil => exact fun _ _ => rfl
      | cons piece M ih =>
          intro k hM
          have hpiece := hM piece List.mem_cons_self
          have hnext := ih (k + 1) fun p hp => hM p (List.mem_cons_of_mem _ hp)
          rw [List.flatten_cons, List.zipIdx_append, List.flatMap_append,
            flatMap_zipIdx_piece sep (k + 1) hn hpiece, hpiece, Nat.add_right_comm,
            ← Nat.mul_succ, hnext, List.flatMap_cons, if_neg (by omega)]
          rfl
    have hjoin : ∀ (l : List α) (M : List (List α)),
        [sep].intercalate (l :: M) = l ++ M.flatMap fun piece => sep :: piece := by
      intro l M
      induction M generalizing l with
      | nil => simp
      | cons m M ih =>
          rw [List.intercalate_cons_of_ne_nil (by simp), ih m,
            List.flatMap_cons]
          simp
    cases L with
    | nil => rfl
    | cons piece L =>
        have hpiece := hpieces piece List.mem_cons_self
        have hfirst := flatMap_zipIdx_piece sep 0 hn hpiece
        have hothers := hrest L 0 fun p hp =>
          hpieces p (List.mem_cons_of_mem _ hp)
        rw [Nat.mul_zero, Nat.zero_add] at hfirst
        rw [Nat.zero_add, Nat.mul_one] at hothers
        rw [List.flatten_cons, List.zipIdx_append, List.flatMap_append, hfirst,
          hpiece, Nat.add_comm 1 n, hothers, hjoin]
        rfl
  · obtain ⟨piece, rfl⟩ := List.length_eq_one_iff.mp hL
    obtain ⟨a, ha⟩ := List.length_eq_one_iff.mp
      (hpieces piece List.mem_cons_self)
    rw [ha]
    rfl

/-- The item is put into the list, in front of the one that has the index. -/
def insertAt (item : α) (l : List α) (index : ℕ) : List α :=
  l.take index ++ item :: l.drop index

/-- Separators that are put in from the last piece on do not move the places of
the others. -/
theorem foldl_insertAt_eq_intercalate (sep : α) {n : ℕ} {l : List α}
    {L : List (List α)} (hpieces : ∀ piece ∈ l :: L, piece.length = n) :
    ((List.range L.length).reverse.map fun k => n * (k + 1)).foldl
        (insertAt sep) (l :: L).flatten =
      [sep].intercalate (l :: L) := by
  induction L generalizing l with
  | nil => simp
  | cons m L ih =>
      have hl := hpieces l List.mem_cons_self
      have hrest := ih fun p hp => hpieces p (List.mem_cons_of_mem l hp)
      have hshift : ∀ (indexes : List ℕ) (rest : List α),
          (indexes.map fun index => n + index).foldl (insertAt sep)
              (l ++ rest) =
            l ++ indexes.foldl (insertAt sep) rest := by
        intro indexes
        induction indexes with
        | nil => exact fun _ => rfl
        | cons index indexes ih =>
            intro rest
            have hinsert : insertAt sep (l ++ rest) (n + index) =
                l ++ insertAt sep rest index := by
              rw [insertAt, insertAt, ← hl, List.take_length_add_append,
                List.drop_length_add_append, List.append_assoc]
            rw [List.map_cons, List.foldl_cons, List.foldl_cons, hinsert, ih]
      have hindexes : (List.range (m :: L).length).reverse.map
            (fun k => n * (k + 1)) =
          ((List.range L.length).reverse.map fun k => n * (k + 1)).map
            (fun index => n + index) ++ [n] := by
        rw [List.length_cons, List.range_succ_eq_map, List.reverse_cons,
          List.map_append, ← List.map_reverse, List.map_map, List.map_map]
        congr 1
        · exact List.map_congr_left fun k _ => by
            simp only [Function.comp_apply, Nat.mul_succ]
            omega
        · simp
      rw [hindexes, List.foldl_append, List.flatten_cons, hshift, hrest,
        List.intercalate_cons_of_ne_nil (List.cons_ne_nil m L)]
      simp [insertAt, ← hl]

end SudokuSolver.Joined
