import SudokuSolver.Draco.EventLoop

/-!
# The verdicts of Draco

What `eventLoop` says about a puzzle follows from its counters, which stand for
the solutions that were shown and the grids that were lost.  Every solution that
is shown completes the values that were entered, and a verdict is right whatever
calls of `cloneGrid` fail.
-/

namespace SudokuSolver.Draco

open Propagation

/-! ## Solutions -/

variable {s : ℕ} {pSquareGadgets : SquareGadgets} {fails : ℕ → Bool}

/-- A valid completion of the values that are entered. -/
def Solves (pSquareGadgets : SquareGadgets) (S : Coord s → Value s) : Prop :=
  IsCompletion Finset.univ S ∧ Extends pSquareGadgets S

/-- The map that the clues lead to. -/
noncomputable def startMap (s : ℕ) (pSquareGadgets : SquareGadgets) :
    Candidates (Coord s) (Value s) :=
  mapStore.setSquares (visitOrder s) (clues s pSquareGadgets)
    fun _ => Finset.univ

/-- All solutions, as decided maps. -/
noncomputable def solutions (s : ℕ) (pSquareGadgets : SquareGadgets) :
    Multiset (Candidates (Coord s) (Value s)) :=
  completions Peer House.squares Finset.univ (startMap s pSquareGadgets)

theorem mem_solutions_iff (h : InRange s pSquareGadgets)
    {m : Candidates (Coord s) (Value s)} :
    m ∈ solutions s pSquareGadgets ↔
      ∃ S : Coord s → Value s, Solves pSquareGadgets S ∧ pointwise S = m := by
  have hiff : ∀ S : Coord s → Value s,
      S ∈ fillings Peer House.squares Finset.univ (startMap s pSquareGadgets) ↔
        Solves pSquareGadgets S := by
    intro S
    rw [mem_fillings, and_comm]
    refine (fills_puzzle_iff mapStore (visitOrder s) (card_values s)
      (fun clue _ => Finset.mem_univ clue.2) (nodup_clues pSquareGadgets)
      rfl).trans ?_
    rw [Completes, agrees_clues_iff h, Solves]
  rw [solutions, completions, Multiset.mem_map]
  simp only [Finset.mem_val, hiff]

theorem nodup_solutions (s : ℕ) (pSquareGadgets : SquareGadgets) :
    (solutions s pSquareGadgets).Nodup :=
  (Finset.nodup _).map pointwise_injective

/-- The search of a puzzle has shown only solutions, and all of them unless a
grid was lost. -/
abbrev Searching (s : ℕ) (pSquareGadgets : SquareGadgets)
    (b : Backlog (Coord s) (Value s)) : Prop :=
  Backlog.Truthful Peer House.squares Finset.univ
    (solutions s pSquareGadgets) b

section Searching

variable {b : Backlog (Coord s) (Value s)}

theorem Searching.solves (hrange : InRange s pSquareGadgets)
    (h : Searching s pSquareGadgets b) {m : Candidates (Coord s) (Value s)}
    (hm : m ∈ b.displayed) : ∃ S, Solves pSquareGadgets S ∧ pointwise S = m :=
  (mem_solutions_iff hrange).mp <|
    Multiset.mem_of_le h.found_le
      (Multiset.mem_add.mpr (Or.inl (Multiset.mem_coe.mpr hm)))

/-- At the end of a search that lost no grid all solutions have been shown. -/
theorem Searching.displayed_eq (h : Searching s pSquareGadgets b)
    (hwaiting : b.waiting = []) (hlost : b.lost = 0) :
    ↑b.displayed = solutions s pSquareGadgets := by
  have heq := h.found_eq hlost
  rwa [hwaiting, Backlog.pending_nil, add_zero] at heq

theorem Searching.unique (hrange : InRange s pSquareGadgets)
    (h : Searching s pSquareGadgets b) (hwaiting : b.waiting = [])
    (hlost : b.lost = 0) (hone : b.displayed.length = 1) :
    ∃! S : Coord s → Value s, Solves pSquareGadgets S := by
  obtain ⟨m, hm⟩ := List.length_eq_one_iff.mp hone
  obtain ⟨S, hS, hSm⟩ := h.solves hrange (m := m) (by rw [hm]; simp)
  refine ⟨S, hS, fun T hT => ?_⟩
  have hmem := (mem_solutions_iff hrange).mpr ⟨T, hT, rfl⟩
  rw [← h.displayed_eq hwaiting hlost, hm, Multiset.mem_coe,
    List.mem_singleton, ← hSm] at hmem
  exact pointwise_injective hmem

theorem Searching.none (hrange : InRange s pSquareGadgets)
    (h : Searching s pSquareGadgets b) (hwaiting : b.waiting = [])
    (hlost : b.lost = 0) (hzero : b.displayed = []) (S : Coord s → Value s) :
    ¬Solves pSquareGadgets S := by
  intro hS
  have hmem := (mem_solutions_iff hrange).mpr ⟨S, hS, rfl⟩
  rw [← h.displayed_eq hwaiting hlost, hzero] at hmem
  exact Multiset.notMem_zero _ hmem

theorem Searching.two (hrange : InRange s pSquareGadgets)
    (h : Searching s pSquareGadgets b) (htwo : b.displayed.length = 2) :
    ∃ S T : Coord s → Value s, S ≠ T ∧ Solves pSquareGadgets S ∧
      Solves pSquareGadgets T := by
  obtain ⟨m, m', hm⟩ := List.length_eq_two.mp htwo
  obtain ⟨S, hS, rfl⟩ := h.solves hrange (m := m) (by rw [hm]; simp)
  obtain ⟨T, hT, rfl⟩ := h.solves hrange (m := m') (by rw [hm]; simp)
  refine ⟨S, T, ?_, hS, hT⟩
  rintro rfl
  have hnodup := Multiset.nodup_of_le
    ((Multiset.le_add_right _ _).trans h.found_le)
    (nodup_solutions s pSquareGadgets)
  rw [Multiset.coe_nodup, hm] at hnodup
  simp at hnodup

end Searching

/-! ## What holds between the rounds -/

/-- The counters and the gadgets tell how far the search has come. -/
structure Solving (s : ℕ) (fails : ℕ → Bool) (pSquareGadgets : SquareGadgets)
    (b : Backlog (Coord s) (Value s)) (st : EventLoop) : Prop where
  list : ∃ l, st.pGridList = l.head? ∧ st.mem.Represents s l [] b.waiting []
  searching : Searching s pSquareGadgets b
  bounded : Backlog.Bounded (s * s * (s * s) * (s * s)) b.lost b.waiting
  gridsLost : st.counters.c_GridsLost = BitVec.ofNat 32 b.lost
  never : (∀ i, fails i = false) → b.lost = 0
  solutions : st.counters.c_Solutions = BitVec.ofNat 32 b.displayed.length
  few : b.displayed.length ≤ 2
  shows : ∀ S rest, b.displayed = pointwise S :: rest →
    Shows st.pSquareGadgets S

/-- A verdict, and what it means. -/
inductive Verdict (s : ℕ) (fails : ℕ → Bool) (pSquareGadgets : SquareGadgets)
    (text : Option String) : Prop
  | unique (htext : text = some "Solution is unique")
      (h : ∃! S : Coord s → Value s, Solves pSquareGadgets S)
  | none (htext : text = some "Puzzle has no solutions")
      (h : ∀ S : Coord s → Value s, ¬Solves pSquareGadgets S)
  | two (htext : text = some "Solution is not unique")
      (h : ∃ S T : Coord s → Value s, S ≠ T ∧ Solves pSquareGadgets S ∧
        Solves pSquareGadgets T)
  | failed (htext : text = some "Failed to check for uniqueness" ∨
        text = some "Failed to find solution")
      (h : ∃ i, fails i = true)

/-- The rounds are over. -/
structure Ended (s : ℕ) (fails : ℕ → Bool) (pSquareGadgets : SquareGadgets)
    (st : EventLoop) : Prop where
  pGridList : st.pGridList = none
  verdict : Verdict s fails pSquareGadgets st.text
  shows : st.counters.c_Solutions ≠ 0 →
    ∃ S : Coord s → Value s, Solves pSquareGadgets S ∧
      Shows st.pSquareGadgets S

/-- Cleaning up changes neither the verdict nor the values. -/
theorem EventLoop.cleanup_ok {st : EventLoop} {l : List ℕ}
    {ms : List (Candidates (Coord s) (Value s))}
    (h : st.mem.Represents s l [] ms []) (hlist : st.pGridList = l.head?) :
    ∃ st', st.cleanupAfterSolver (s * s) = some st' ∧
      st'.text = st.text ∧ st'.pGridList = st.pGridList ∧
      st'.counters = st.counters ∧
      ∀ S : Coord s → Value s, Shows st.pSquareGadgets S →
        Shows st'.pSquareGadgets S := by
  obtain ⟨mem', hfree, -⟩ := h.holds.freeGridList
  rw [cleanupAfterSolver, hlist, hfree]
  refine ⟨_, rfl, rfl, rfl, rfl, fun S hS c => ?_⟩
  exact (si_LongInt_toggleSquareGadgetsEnabled c).trans (hS c)

theorem ofNat_eq_zero_iff {n : ℕ} (hn : n < 2 ^ 32) :
    BitVec.ofNat 32 n = 0 ↔ n = 0 := by
  constructor
  · intro h
    have hnat := congrArg BitVec.toNat h
    rw [BitVec.toNat_ofNat, Nat.mod_eq_of_lt hn] at hnat
    exact hnat
  · rintro rfl
    rfl

/-- Cleaning up after a verdict. -/
theorem Ended.of_verdict (st : EventLoop) {l : List ℕ}
    {ms : List (Candidates (Coord s) (Value s))}
    (hrep : st.mem.Represents s l [] ms []) (hlist : st.pGridList = l.head?)
    (hverdict : Verdict s fails pSquareGadgets st.text)
    (hshows : st.counters.c_Solutions ≠ 0 →
      ∃ S : Coord s → Value s, Solves pSquareGadgets S ∧
        Shows st.pSquareGadgets S) :
    ∃ st', st.cleanupAfterSolver (s * s) = some st' ∧
      st'.pGridList = st.pGridList ∧
      Ended s fails pSquareGadgets { st' with pGridList := none } := by
  obtain ⟨st', hcleanup, htext, hlist', hcounters, hkeeps⟩ :=
    EventLoop.cleanup_ok hrep hlist
  refine ⟨st', hcleanup, hlist', rfl, htext ▸ hverdict, fun hsolutions => ?_⟩
  obtain ⟨S, hS, hshown⟩ := hshows (hcounters ▸ hsolutions)
  exact ⟨S, hS, hkeeps S hshown⟩

/-- The same where no grid is left. -/
theorem Ended.of_nil (st : EventLoop)
    {ms : List (Candidates (Coord s) (Value s))}
    (hrep : st.mem.Represents s [] [] ms []) (hlist : st.pGridList = none)
    (hverdict : Verdict s fails pSquareGadgets st.text)
    (hshows : st.counters.c_Solutions ≠ 0 →
      ∃ S : Coord s → Value s, Solves pSquareGadgets S ∧
        Shows st.pSquareGadgets S) :
    ∃ st', st.cleanupAfterSolver (s * s) = some st' ∧
      Ended s fails pSquareGadgets st' := by
  obtain ⟨st', hcleanup, hlist', hended⟩ :=
    Ended.of_verdict st hrep hlist hverdict hshows
  have hsame : { st' with pGridList := none } = st' := by
    rw [← hlist, ← hlist']
  exact ⟨st', hcleanup, hsame ▸ hended⟩

section Rounds

variable {b : Backlog (Coord s) (Value s)} {st : EventLoop}

theorem Solving.c_GridsLost_iff (hs' : s ≤ 5)
    (h : Solving s fails pSquareGadgets b st) :
    st.counters.c_GridsLost = 0 ↔ b.lost = 0 := by
  have hlength := h.bounded.length_le
  have hbound : s * s * (s * s) * (s * s) ≤ 15625 := by
    interval_cases s <;> decide
  rw [h.gridsLost]
  exact ofNat_eq_zero_iff (by omega)

/-- A grid that was lost is one for which there was no memory. -/
theorem Solving.exists_failure (h : Solving s fails pSquareGadgets b st)
    (hlost : b.lost ≠ 0) : ∃ i, fails i = true := by
  by_contra hnone
  refine hlost (h.never fun i => ?_)
  exact Bool.eq_false_iff.mpr fun hi => hnone ⟨i, hi⟩

/-- The solution that is shown. -/
theorem Solving.exists_shown (hrange : InRange s pSquareGadgets)
    (h : Solving s fails pSquareGadgets b st)
    (hsolutions : st.counters.c_Solutions ≠ 0) :
    ∃ S : Coord s → Value s, Solves pSquareGadgets S ∧
      Shows st.pSquareGadgets S := by
  cases hdisplayed : b.displayed with
  | nil =>
      refine absurd ?_ hsolutions
      rw [h.solutions, hdisplayed]
      rfl
  | cons m rest =>
      obtain ⟨S, hS, rfl⟩ := h.searching.solves hrange (m := m)
        (by rw [hdisplayed]; exact List.mem_cons_self)
      exact ⟨S, hS, h.shows S rest hdisplayed⟩

/-- No grid is left. -/
theorem Solving.noMoreSolutions (hs' : s ≤ 5) (hrange : InRange s pSquareGadgets)
    (h : Solving s fails pSquareGadgets b st) (hfew : b.displayed.length ≤ 1)
    (hwaiting : b.waiting = []) :
    ∃ st', st.noMoreSolutions (s * s) = some st' ∧
      Ended s fails pSquareGadgets st' := by
  obtain ⟨l, hlist, hrep⟩ := h.list
  obtain rfl : l = [] := by
    have hmaps := hrep.maps
    rwa [hwaiting, List.map_eq_nil_iff] at hmaps
  rw [EventLoop.noMoreSolutions]
  have hshown := h.exists_shown hrange
  have hlost := h.c_GridsLost_iff hs'
  rcases Nat.le_one_iff_eq_zero_or_eq_one.mp hfew with hzero | hone
  · have hsolutions : st.counters.c_Solutions = 0 := by
      rw [h.solutions, hzero]
      rfl
    rw [if_neg (by rw [hsolutions]; decide)]
    by_cases hnone : st.counters.c_GridsLost = 0
    · rw [if_pos hnone]
      refine Ended.of_nil _ hrep hlist (Verdict.none rfl ?_)
        fun hne => absurd hsolutions hne
      exact h.searching.none hrange hwaiting (hlost.mp hnone)
        (List.eq_nil_of_length_eq_zero hzero)
    · rw [if_neg hnone]
      exact Ended.of_nil _ hrep hlist (Verdict.failed (Or.inr rfl)
        (h.exists_failure (mt hlost.mpr hnone)))
        fun hne => absurd hsolutions hne
  · have hsolutions : st.counters.c_Solutions = 1 := by
      rw [h.solutions, hone]
      rfl
    rw [if_pos hsolutions]
    by_cases hnone : st.counters.c_GridsLost = 0
    · rw [if_pos hnone]
      exact Ended.of_nil _ hrep hlist (Verdict.unique rfl
        (h.searching.unique hrange hwaiting (hlost.mp hnone) hone)) hshown
    · rw [if_neg hnone]
      exact Ended.of_nil _ hrep hlist (Verdict.failed (Or.inl rfl)
        (h.exists_failure (mt hlost.mpr hnone))) hshown

theorem Solving.setText (h : Solving s fails pSquareGadgets b st)
    (pText : Option String) :
    Solving s fails pSquareGadgets b (st.setText pText) :=
  ⟨h.list, h.searching, h.bounded, h.gridsLost, h.never, h.solutions, h.few,
    h.shows⟩

/-- The first solution was counted, and the rounds go on if there are grids
left; or the second one was. -/
theorem Solving.solutionCounted (hs' : s ≤ 5) (hrange : InRange s pSquareGadgets)
    (h : Solving s fails pSquareGadgets b st) (hsome : b.displayed ≠ []) :
    ∃ st', st.solutionCounted (s * s) = some st' ∧
      (Ended s fails pSquareGadgets st' ∨
        Solving s fails pSquareGadgets b st' ∧ b.displayed.length ≤ 1 ∧
          st'.pGridList ≠ none) := by
  obtain ⟨l, hlist, hrep⟩ := h.list
  have hshown := h.exists_shown hrange
  have hlost := h.c_GridsLost_iff hs'
  have hpos := List.length_pos_of_ne_nil hsome
  rw [EventLoop.solutionCounted]
  rcases (by have hfew := h.few; omega :
    b.displayed.length = 2 ∨ b.displayed.length = 1) with htwo | hone
  · have hmany : st.counters.c_Solutions > 1 := by
      rw [h.solutions, htwo]
      decide
    have hverdict : Verdict s fails pSquareGadgets
        (some "Solution is not unique") :=
      Verdict.two rfl (h.searching.two hrange htwo)
    obtain ⟨st', hcleanup, -, hended⟩ := Ended.of_verdict
      (st.setText (some "Solution is not unique")) hrep hlist hverdict hshown
    rw [if_pos hmany]
    refine ⟨{ st' with pGridList := none }, ?_, Or.inl hended⟩
    simp only [hcleanup, Option.bind_eq_bind, Option.bind_some]
    rfl
  · have hfirst : ¬st.counters.c_Solutions > 1 := by
      rw [h.solutions, hone]
      decide
    rw [if_neg hfirst]
    cases l with
    | cons p l =>
        rw [if_pos (by rw [hlist]; rfl)]
        refine ⟨_, rfl, Or.inr ⟨h.setText _, hone.le, ?_⟩⟩
        change st.pGridList ≠ none
        rw [hlist]
        exact Option.some_ne_none p
    | nil =>
        have hwaiting : b.waiting = [] := hrep.maps.symm
        rw [if_neg (by rw [hlist]; exact Bool.false_ne_true)]
        by_cases hnone : st.counters.c_GridsLost = 0
        · rw [if_pos hnone]
          have hverdict : Verdict s fails pSquareGadgets
              (some "Solution is unique") :=
            Verdict.unique rfl
              (h.searching.unique hrange hwaiting (hlost.mp hnone) hone)
          obtain ⟨st', hcleanup, hended⟩ := Ended.of_nil
            (st.setText (some "Solution is unique")) hrep hlist hverdict hshown
          exact ⟨st', hcleanup, Or.inl hended⟩
        · rw [if_neg hnone]
          have hverdict : Verdict s fails pSquareGadgets
              (some "Failed to check for uniqueness") :=
            Verdict.failed (Or.inl rfl) (h.exists_failure (mt hlost.mpr hnone))
          obtain ⟨st', hcleanup, hended⟩ := Ended.of_nil
            (st.setText (some "Failed to check for uniqueness")) hrep hlist
            hverdict hshown
          exact ⟨st', hcleanup, Or.inl hended⟩

/-- The rounds go on with less work, or they are over. -/
def GoesOn (s : ℕ) (fails : ℕ → Bool) (pSquareGadgets : SquareGadgets)
    (b : Backlog (Coord s) (Value s)) (st' : EventLoop) : Prop :=
  Ended s fails pSquareGadgets st' ∨
    ∃ b', Solving s fails pSquareGadgets b' st' ∧
      b'.displayed.length ≤ 1 ∧ st'.pGridList ≠ none ∧
      Backlog.load b'.waiting < Backlog.load b.waiting

/-- A complete grid is shown, and counted. -/
theorem Solving.solutionFound (hs' : s ≤ 5) (hrange : InRange s pSquareGadgets)
    (h : Solving s fails pSquareGadgets b st) (hfew : b.displayed.length ≤ 1)
    {p : ℕ} {grid : Grid} (hlist : st.pGridList = some p)
    (hgrid : st.mem.grids p = some grid)
    (hcomplete : isComplete grid.block = true) :
    ∃ st', st.solutionFound (s * s) p grid.block = some st' ∧
      GoesOn s fails pSquareGadgets b st' := by
  obtain ⟨⟨l, hhead, hrep⟩, hsearching, hbounded, hgridsLost, hnever,
    hsolutions, -, -⟩ := h
  obtain ⟨ms, displayed, lost⟩ := b
  dsimp only at hrep hbounded hgridsLost hnever hsolutions hfew
  obtain ⟨l, rfl⟩ := List.head?_eq_some_iff.mp (hhead.symm.trans hlist)
  obtain ⟨m, ms, rfl⟩ := hrep.exists_cons
  obtain ⟨block, hblock, hvalid, hm⟩ := hrep.exists_front
  obtain rfl : block = grid.block := by
    rw [Memory.blocks, hgrid, Option.map_some, Option.some.injEq] at hblock
    exact hblock.symm
  have hdecided : Decided m := hm ▸ hvalid.isComplete_iff.mp hcomplete
  have hstep : Backlog.Step Peer House.squares ⟨m :: ms, displayed, lost⟩
      ⟨ms, m :: displayed, lost⟩ :=
    Backlog.Step.display ms displayed lost hdecided
  obtain ⟨mem', hfree, hrep'⟩ := hrep.freeFrontGrid
  generalize hnext : ({ st with
    pSquareGadgets := updateSquareGadgetValues st.pSquareGadgets grid.block
    pGridList := l.head?
    mem := mem'
    counters := { st.counters with
      c_Solutions := st.counters.c_Solutions + 1 } } : EventLoop) = next
  have hnextSolving : Solving s fails pSquareGadgets
      ⟨ms, m :: displayed, lost⟩ next := by
    subst hnext
    refine ⟨⟨l, rfl, hrep'⟩, hstep.truthful (fills_of_distinct (card_values s))
      hsearching, hbounded.2, hgridsLost, hnever, ?_, ?_, ?_⟩
    · dsimp only
      rw [hsolutions, List.length_cons, BitVec.ofNat_add]
      rfl
    · exact Nat.succ_le_succ hfew
    · intro S rest hS
      exact shows_updateSquareGadgetValues hvalid
        (hm.trans (List.cons.inj hS).1)
  have hload : Backlog.load ms < Backlog.load (m :: ms) := by
    rw [Backlog.load_cons]
    exact Nat.lt_add_of_pos_left (weight_pos m)
  obtain ⟨st', hresult, hgoes⟩ := hnextSolving.solutionCounted hs' hrange
    (List.cons_ne_nil m displayed)
  refine ⟨st', ?_, ?_⟩
  · rw [EventLoop.solutionFound, hfree, ← hresult, ← hnext]
    rfl
  · rcases hgoes with hended | ⟨hsolving, hone, hlist'⟩
    · exact Or.inl hended
    · exact Or.inr ⟨_, hsolving, hone, hlist', hload⟩

/-- The search has advanced, and nothing has been shown yet. -/
theorem Solving.advanced (h : Solving s fails pSquareGadgets b st)
    {b' : Backlog (Coord s) (Value s)} {l : List ℕ} {mem : Memory}
    {counters : Counters} (hrep : mem.Represents s l [] b'.waiting [])
    (hadvanced : Advanced fails st.counters counters b b') :
    Solving s fails pSquareGadgets b'
      { st with pGridList := l.head?, mem := mem, counters := counters } where
  list := ⟨l, rfl, hrep⟩
  searching := hadvanced.steps.truthful (fills_of_distinct (card_values s))
    h.searching
  bounded := hadvanced.steps.bounded h.bounded
  gridsLost := by
    obtain ⟨n, hn, hcounter, -⟩ := hadvanced.gridsLost
    rw [hn, BitVec.ofNat_add, ← h.gridsLost]
    exact hcounter
  never hnever := by
    obtain ⟨n, hn, -, hnone⟩ := hadvanced.gridsLost
    rw [hn, h.never hnever, hnone hnever]
  solutions := by
    rw [hadvanced.displayed, ← h.solutions]
    exact hadvanced.solutions
  few := by
    rw [hadvanced.displayed]
    exact h.few
  shows S rest hS := h.shows S rest (hadvanced.displayed ▸ hS)

/-- The gadgets may change as long as no solution is shown. -/
theorem Solving.updateSquareGadgets (h : Solving s fails pSquareGadgets b st)
    (hnone : b.displayed = []) (shown : SquareGadgets) :
    Solving s fails pSquareGadgets b { st with pSquareGadgets := shown } :=
  ⟨h.list, h.searching, h.bounded, h.gridsLost, h.never, h.solutions, h.few,
    fun S rest hS => by
      rw [hnone] at hS
      cases hS⟩

theorem Solving.solvingStep (hs' : s ≤ 5) (hrange : InRange s pSquareGadgets)
    (h : Solving s fails pSquareGadgets b st)
    (hfew : b.displayed.length ≤ 1) :
    ∃ st', st.solvingStep fails s = some st' ∧
      GoesOn s fails pSquareGadgets b st' := by
  obtain ⟨l, hlist, hrep⟩ := h.list
  obtain ⟨l', b', mem, counters, hadvance, hrep', hadvanced, hprogress⟩ :=
    hrep.advanceSolving fails st.counters
  have h' := h.advanced hrep' hadvanced
  have hfew' : b'.displayed.length ≤ 1 := by
    rw [hadvanced.displayed]
    exact hfew
  rw [EventLoop.solvingStep, hlist, hadvance]
  simp only [Option.bind_eq_bind, Option.bind_some]
  cases l' with
  | nil =>
      obtain ⟨st', hresult, hended⟩ :=
        h'.noMoreSolutions hs' hrange hfew' hrep'.maps.symm
      exact ⟨st', hresult, Or.inl hended⟩
  | cons p l' =>
      obtain ⟨m, ms, hms⟩ := hrep'.exists_cons
      rw [hms] at hrep'
      obtain ⟨block, hblock, hvalid, hm⟩ := hrep'.exists_front
      obtain ⟨grid, hgrid, rfl⟩ := Memory.grids_of_blocks hblock
      rw [List.head?_cons]
      simp only [hgrid, Option.bind_some]
      by_cases hcomplete : isComplete grid.block = true
      · rw [if_pos hcomplete]
        obtain ⟨st', hresult, hgoes⟩ :=
          h'.solutionFound hs' hrange hfew' rfl hgrid hcomplete
        refine ⟨st', hresult, ?_⟩
        rcases hgoes with hended | ⟨b'', hsolving, hone, hlist', hload⟩
        · exact Or.inl hended
        · exact Or.inr ⟨b'', hsolving, hone, hlist',
            hload.trans_le hadvanced.steps.load_le⟩
      · have hload : Backlog.load b'.waiting < Backlog.load b.waiting := by
          rcases hprogress with hnil | hload | ⟨k, ks, hk, hdecided⟩
          · rw [hms] at hnil
            cases hnil
          · exact hload
          · rw [hms] at hk
            obtain ⟨rfl, -⟩ := List.cons.inj hk
            exact absurd (hvalid.isComplete_iff.mpr (hm ▸ hdecided)) hcomplete
        rw [if_neg hcomplete]
        by_cases hnone : counters.c_Solutions = 0
        · rw [if_pos hnone]
          have hempty : b'.displayed = [] := by
            refine List.eq_nil_of_length_eq_zero
              ((ofNat_eq_zero_iff (by omega)).mp ?_)
            rw [← h'.solutions]
            exact hnone
          exact ⟨_, rfl, Or.inr ⟨b', h'.updateSquareGadgets hempty _, hfew',
            Option.some_ne_none p, hload⟩⟩
        · rw [if_neg hnone]
          exact ⟨_, rfl, Or.inr ⟨b', h', hfew', Option.some_ne_none p, hload⟩⟩

/-- The rounds end. -/
theorem Solving.solve (hs' : s ≤ 5) (hrange : InRange s pSquareGadgets)
    (h : Solving s fails pSquareGadgets b st) (hfew : b.displayed.length ≤ 1)
    (hlist : st.pGridList ≠ none) :
    ∃ last, st.solve fails s = some last ∧
      Ended s fails pSquareGadgets last := by
  induction hn : Backlog.load b.waiting using Nat.strongRecOn
    generalizing b st with
  | _ n ih =>
      obtain ⟨p, hp⟩ := Option.ne_none_iff_exists'.mp hlist
      obtain ⟨st', hstep, hgoes⟩ := h.solvingStep hs' hrange hfew
      have hround : st.solvingRound fails s = some (.inl st') := by
        rw [EventLoop.solvingRound, hp]
        exact congrArg (Option.map Sum.inl) hstep
      have hunfold : st.solve fails s = st'.solve fails s := loop_next hround
      rw [hunfold]
      rcases hgoes with hended | ⟨b', h', hfew', hlist', hload⟩
      · refine ⟨st', loop_done ?_, hended⟩
        rw [EventLoop.solvingRound, hended.pGridList]
      · exact ih _ (hn ▸ hload) h' hfew' hlist' rfl

/-- Between the rounds the search goes on, until it has ended. -/
theorem Solving.rounds (hs' : s ≤ 5) (hrange : InRange s pSquareGadgets)
    (h : Solving s fails pSquareGadgets b st) (hfew : b.displayed.length ≤ 1)
    {st' : EventLoop} (hrounds : EventLoop.Rounds fails s st st') :
    Ended s fails pSquareGadgets st' ∨
      ∃ b', Solving s fails pSquareGadgets b' st' ∧
        b'.displayed.length ≤ 1 := by
  induction hrounds with
  | refl => exact Or.inr ⟨b, h, hfew⟩
  | tail _ hstep ih =>
      obtain ⟨hlist, hstep⟩ := hstep
      rcases ih with hended | ⟨b', h', hfew'⟩
      · exact absurd hended.pGridList hlist
      · obtain ⟨st₁, hresult, hgoes⟩ := h'.solvingStep hs' hrange hfew'
        rw [hstep] at hresult
        cases hresult
        rcases hgoes with hended | ⟨b₁, h₁, hfew₁, -⟩
        · exact Or.inl hended
        · exact Or.inr ⟨b₁, h₁, hfew₁⟩

end Rounds

/-! ## From the click to the verdict -/

/-- Disabling the gadgets leaves their values. -/
theorem si_LongInt_disabled (pSquareGadgets : SquareGadgets) (c : Coord s) :
    (gadgetAt (toggleSquareGadgetsEnabled (s * s)
      (stashCurrentValues (s * s) pSquareGadgets)) c).si_LongInt =
      (gadgetAt pSquareGadgets c).si_LongInt := by
  rw [si_LongInt_toggleSquareGadgetsEnabled, si_LongInt_stashCurrentValues]

theorem EventLoop.gadgetUp_start (hs : 2 ≤ s) (hs' : s ≤ 5)
    (fails : ℕ → Bool) {st : EventLoop} {mallocs : ℕ}
    (hlist : st.pGridList = none) (hmem : st.mem = Memory.noGrids mallocs)
    (hvalid : valuesAreValid (s * s) st.pSquareGadgets = .ok ()) :
    ∃ start, st.gadgetUp fails s = some start ∧
      (start.pGridList = none ∧ fails mallocs = true ∨
        start.pGridList ≠ none ∧
          Solving s fails (toggleSquareGadgetsEnabled (s * s)
            (stashCurrentValues (s * s) st.pSquareGadgets))
            ⟨[startMap s (toggleSquareGadgetsEnabled (s * s)
              (stashCurrentValues (s * s) st.pSquareGadgets))], [], 0⟩
            start) := by
  generalize hgadgets : toggleSquareGadgetsEnabled (s * s)
    (stashCurrentValues (s * s) st.pSquareGadgets) = pSquareGadgets
  have hrange : InRange s pSquareGadgets := by
    intro c
    rw [← hgadgets, si_LongInt_disabled]
    exact inRange_of_valid hvalid c
  rw [gadgetUp, hlist]
  simp only [startSolving, hvalid, hgadgets, hmem]
  rcases represents_createGridFromSquareGadgets hs hs' hrange fails mallocs with
    ⟨hfails, hnone⟩ | ⟨p, mem, hsome, hrep⟩
  · rw [hnone]
    exact ⟨_, rfl, Or.inl ⟨rfl, hfails⟩⟩
  · rw [hsome]
    refine ⟨_, rfl, Or.inr ⟨Option.some_ne_none p, ⟨[p], rfl, hrep⟩, ?_, ?_,
      rfl, fun _ => rfl, rfl, Nat.zero_le 2, fun S rest hS => by cases hS⟩⟩
    · exact Backlog.truthful_start
        (closed_puzzle mapStore (visitOrder s) _ (card_values s) rfl)
        (within_univ _)
    · exact ⟨size_le _, Nat.zero_le _⟩

/-- Solving from a click on the button, without an event in between: if a grid
can be created, the rounds end with a verdict; once a solution has been counted
the gadgets show a completion of the values that were entered; a verdict on the
solutions is right, and there is one unless there was no memory for a clone. -/
theorem solve_verdict (hs : 2 ≤ s) (hs' : s ≤ 5) (fails : ℕ → Bool)
    {st : EventLoop} {mallocs : ℕ} (hlist : st.pGridList = none)
    (hmem : st.mem = Memory.noGrids mallocs)
    (hvalid : valuesAreValid (s * s) st.pSquareGadgets = .ok ()) :
    ∃ start, st.gadgetUp fails s = some start ∧
      (start.pGridList = none ∧ fails mallocs = true ∨
        start.pGridList ≠ none ∧
        (∀ st', EventLoop.Rounds fails s start st' →
          st'.counters.c_Solutions ≠ 0 →
            ∃ S : Coord s → Value s, Solves st.pSquareGadgets S ∧
              Shows st'.pSquareGadgets S) ∧
        ∃ last, start.solve fails s = some last ∧
          (last.text = some "Solution is unique" →
            ∃! S : Coord s → Value s, Solves st.pSquareGadgets S) ∧
          (last.text = some "Puzzle has no solutions" →
            ∀ S : Coord s → Value s, ¬Solves st.pSquareGadgets S) ∧
          (last.text = some "Solution is not unique" →
            ∃ S T : Coord s → Value s, S ≠ T ∧
              Solves st.pSquareGadgets S ∧ Solves st.pSquareGadgets T) ∧
          (last.text = some "Solution is unique" ∨
            last.text = some "Puzzle has no solutions" ∨
            last.text = some "Solution is not unique" ∨
            (last.text = some "Failed to check for uniqueness" ∨
              last.text = some "Failed to find solution") ∧
            ∃ i, fails i = true)) := by
  obtain ⟨start, hstart, hcases⟩ :=
    EventLoop.gadgetUp_start hs hs' fails hlist hmem hvalid
  refine ⟨start, hstart, ?_⟩
  rcases hcases with hnone | ⟨hsome, hsolving⟩
  · exact Or.inl hnone
  right
  generalize hgadgets : toggleSquareGadgetsEnabled (s * s)
    (stashCurrentValues (s * s) st.pSquareGadgets) = pSquareGadgets at hsolving
  have hvalue : ∀ c : Coord s, (gadgetAt pSquareGadgets c).si_LongInt =
      (gadgetAt st.pSquareGadgets c).si_LongInt := by
    intro c
    rw [← hgadgets, si_LongInt_disabled]
  have hrange : InRange s pSquareGadgets := by
    intro c
    rw [hvalue]
    exact inRange_of_valid hvalid c
  have hsolves : ∀ S : Coord s → Value s,
      Solves pSquareGadgets S ↔ Solves st.pSquareGadgets S := by
    intro S
    simp only [Solves, Extends, hvalue]
  refine ⟨hsome, fun st' hrounds hsolutions => ?_, ?_⟩
  · rcases hsolving.rounds hs' hrange (Nat.zero_le 1) hrounds with
      hended | ⟨b', h', -⟩
    · obtain ⟨S, hS, hshows⟩ := hended.shows hsolutions
      exact ⟨S, (hsolves S).mp hS, hshows⟩
    · obtain ⟨S, hS, hshows⟩ := h'.exists_shown hrange hsolutions
      exact ⟨S, (hsolves S).mp hS, hshows⟩
  · obtain ⟨last, hlast, hended⟩ :=
      hsolving.solve hs' hrange (Nat.zero_le 1) hsome
    refine ⟨last, hlast, ?_⟩
    have hverdict := hended.verdict
    simp only [← hsolves]
    cases hverdict with
    | unique htext h => simp [htext, h]
    | none htext h => simp [htext, h]
    | two htext h => simp [htext, h]
    | failed htext h =>
        rcases htext with htext | htext
        · simp [htext, h]
        · simp [htext, h]

/-- A puzzle without values, where there is always memory. -/
theorem solve_verdict_empty :
    ∃ start last, emptyWindow.gadgetUp (fun _ => false) 3 = some start ∧
      start.solve (fun _ => false) 3 = some last ∧
      (last.text = some "Solution is unique" ∨
        last.text = some "Puzzle has no solutions" ∨
        last.text = some "Solution is not unique") := by
  have hlist : emptyWindow.pGridList = none := rfl
  obtain ⟨start, hstart, hcases⟩ := solve_verdict (s := 3) (by decide)
    (by decide) (fun _ => false) hlist rfl (by decide)
  rcases hcases with ⟨-, hfails⟩ | ⟨-, -, last, hlast, -, -, -, hverdict⟩
  · exact absurd hfails Bool.false_ne_true
  · refine ⟨start, last, hstart, hlast, ?_⟩
    rcases hverdict with hunique | hnone | htwo | ⟨-, -, hfails⟩
    · exact Or.inl hunique
    · exact Or.inr (Or.inl hnone)
    · exact Or.inr (Or.inr htwo)
    · exact absurd hfails Bool.false_ne_true

end SudokuSolver.Draco
