import SudokuSolver.Support.Fillings

/-!
# Clues

A puzzle is given by deciding some cells one after the other.  The order of the
clues, clues for cells that were decided or emptied by earlier ones, and clues
that contradict each other are all allowed: what is left are the fillings that
agree with every clue.
-/

namespace SudokuSolver.Propagation

variable {G ι V κ : Type*} {peer : ι → ι → Prop} {houses : κ → Finset ι}
variable {digits : Finset V}

/-- A choice that has the value of every clue. -/
def Agrees (clues : List (ι × V)) (S : ι → V) : Prop :=
  ∀ clue ∈ clues, S clue.1 = clue.2

@[simp] theorem agrees_nil (S : ι → V) : Agrees [] S := by
  simp [Agrees]

@[simp] theorem agrees_cons {c : ι} {v : V} {clues : List (ι × V)} {S : ι → V} :
    Agrees ((c, v) :: clues) S ↔ S c = v ∧ Agrees clues S := by
  simp [Agrees]

variable [DecidableEq ι] [DecidableEq V] [Fintype ι]

namespace CandidateStore

variable (store : CandidateStore G ι V) (order : PeerOrder peer)

/-- Decide one cell after the other. -/
def setSquares (clues : List (ι × V)) (g : G) : G :=
  clues.foldl (fun g clue => store.setSquare order clue.2 clue.1 g) g

@[simp] theorem setSquares_nil (g : G) : store.setSquares order [] g = g := rfl

@[simp] theorem setSquares_cons (c : ι) (v : V) (clues : List (ι × V)) (g : G) :
    store.setSquares order ((c, v) :: clues) g =
      store.setSquares order clues (store.setSquare order v c g) := rfl

theorem closed_setSquares (clues : List (ι × V)) {g : G}
    (hclosed : Closed peer (store.candidates g)) :
    Closed peer (store.candidates (store.setSquares order clues g)) := by
  induction clues generalizing g with
  | nil => exact hclosed
  | cons clue clues ih =>
      exact ih (store.closed_setSquare order clue.2 clue.1 hclosed)

theorem within_setSquare {g : G} {c : ι} {v : V} (hv : v ∈ digits)
    (hwithin : Within digits (store.candidates g)) :
    Within digits (store.candidates (store.setSquare order v c g)) := by
  intro d
  by_cases hdc : d = c
  · subst d
    exact (store.setSquare_self_subset order v c g).trans
      (Finset.singleton_subset_iff.mpr hv)
  · exact (store.setSquare_le_of_ne order v hdc g).trans (hwithin d)

theorem within_setSquares {clues : List (ι × V)} {g : G}
    (hclues : ∀ clue ∈ clues, clue.2 ∈ digits)
    (hwithin : Within digits (store.candidates g)) :
    Within digits (store.candidates (store.setSquares order clues g)) := by
  induction clues generalizing g with
  | nil => exact hwithin
  | cons clue clues ih =>
      refine ih (fun c hc => hclues c (List.mem_cons_of_mem clue hc)) ?_
      exact store.within_setSquare order (hclues clue List.mem_cons_self) hwithin

/-- A cell without a clue only loses candidates. -/
theorem setSquares_subset_of_notMem {clues : List (ι × V)} {c : ι} (g : G)
    (hc : c ∉ clues.map Prod.fst) :
    store.candidates (store.setSquares order clues g) c ⊆
      store.candidates g c := by
  induction clues generalizing g with
  | nil => exact subset_rfl
  | cons clue clues ih =>
      rw [List.map_cons, List.mem_cons, not_or] at hc
      exact (ih _ hc.2).trans (store.setSquare_le_of_ne order clue.2 hc.1 g)

/-- A cell with one clue keeps at most the value of the clue. -/
theorem setSquares_subset_of_mem {clues : List (ι × V)} {c : ι} {v : V} (g : G)
    (hnodup : (clues.map Prod.fst).Nodup) (hclue : (c, v) ∈ clues) :
    store.candidates (store.setSquares order clues g) c ⊆ {v} := by
  induction clues generalizing g with
  | nil => simp at hclue
  | cons clue clues ih =>
      rw [List.map_cons, List.nodup_cons] at hnodup
      rcases List.mem_cons.mp hclue with rfl | hclue
      · exact (store.setSquares_subset_of_notMem order _ hnodup.1).trans
          (store.setSquare_self_subset order v c g)
      · exact ih _ hnodup.2 hclue

theorem admits_setSquares {clues : List (ι × V)} {g : G} {S : ι → V}
    (hS : ∀ c d, peer c d → S c ≠ S d)
    (hadm : Admits (store.candidates g) S) (hclues : Agrees clues S) :
    Admits (store.candidates (store.setSquares order clues g)) S := by
  induction clues generalizing g with
  | nil => exact hadm
  | cons clue clues ih =>
      obtain ⟨hclue, hclues⟩ := agrees_cons.mp hclues
      exact ih (store.admits_setSquare order hS hadm hclue) hclues

/-- After clues for different cells, exactly the choices that agree with them
are left. -/
theorem admits_setSquares_iff {clues : List (ι × V)} {g : G} {S : ι → V}
    (hS : ∀ c d, peer c d → S c ≠ S d)
    (hnodup : (clues.map Prod.fst).Nodup)
    (hadm : Admits (store.candidates g) S) :
    Admits (store.candidates (store.setSquares order clues g)) S ↔
      Agrees clues S := by
  constructor
  · intro hfinal clue hclue
    exact Finset.mem_singleton.mp
      (store.setSquares_subset_of_mem order g hnodup hclue (hfinal clue.1))
  · exact store.admits_setSquares order hS hadm

/-- The value of a clue is gone from the undecided peers of its cell. -/
theorem notMem_setSquares {clues : List (ι × V)} {c d : ι} {v : V} (g : G)
    (hclue : (c, v) ∈ clues) (hpeer : peer c d)
    (hd : d ∉ clues.map Prod.fst) :
    v ∉ store.candidates (store.setSquares order clues g) d := by
  induction clues generalizing g with
  | nil => simp at hclue
  | cons clue clues ih =>
      rw [List.map_cons, List.mem_cons, not_or] at hd
      rcases List.mem_cons.mp hclue with rfl | hclue
      · exact fun hmem => store.notMem_setSquare order g hpeer
          (store.setSquares_subset_of_notMem order _ hd.2 hmem)
      · exact ih _ hclue hd.2

/-- A closed, live map that has the clues among its decided cells stays below
the grid while the clues are set. -/
theorem keeps_setSquares {clues : List (ι × V)} {g : G} {h : Candidates ι V}
    (hclosed : Closed peer h) (hlive : Live h)
    (hclues : ∀ clue ∈ clues, h clue.1 = {clue.2})
    (hle : h ≤ store.candidates g) :
    h ≤ store.candidates (store.setSquares order clues g) := by
  induction clues generalizing g with
  | nil => exact hle
  | cons clue clues ih =>
      refine ih (fun c hc => hclues c (List.mem_cons_of_mem clue hc)) ?_
      refine (store.eliminates_setSquare order clue.2 clue.1 g).keeps
        hclosed hlive ?_
      intro d
      by_cases hd : d = clue.1
      · subst d
        rw [decideAt_self, hclues clue List.mem_cons_self]
      · rw [decideAt_of_ne _ hd]
        exact hle d

/-- Candidates are left everywhere after the clues exactly when some closed,
live map has them among its decided cells. -/
theorem live_setSquares_iff {clues : List (ι × V)} {g : G}
    (hnodup : (clues.map Prod.fst).Nodup)
    (hclosed : Closed peer (store.candidates g))
    (hfull : store.candidates g = fun _ => digits)
    (hdigits : ∀ clue ∈ clues, clue.2 ∈ digits) :
    Live (store.candidates (store.setSquares order clues g)) ↔
      ∃ h : Candidates ι V, Within digits h ∧ Closed peer h ∧ Live h ∧
        ∀ clue ∈ clues, h clue.1 = {clue.2} := by
  constructor
  · intro hlive
    refine ⟨_, store.within_setSquares order hdigits ?_,
      store.closed_setSquares order clues hclosed, hlive, ?_⟩
    · rw [hfull]
      exact fun _ => subset_rfl
    · intro clue hclue
      exact hlive.eq_singleton
        (store.setSquares_subset_of_mem order g hnodup hclue)
  · rintro ⟨h, hwithin, hclosed', hlive, hclues⟩
    refine hlive.mono (store.keeps_setSquares order hclosed' hlive hclues ?_)
    rw [hfull]
    exact hwithin

/-- While clues are set that leave candidates everywhere in the end, each clue
finds its value among the candidates of its cell. -/
theorem mem_setSquares_before {before after : List (ι × V)} {clue : ι × V}
    {g : G} (hnodup : ((before ++ clue :: after).map Prod.fst).Nodup)
    (hclosed : Closed peer (store.candidates g))
    (hfull : store.candidates g = fun _ => digits)
    (hdigits : ∀ clue' ∈ before ++ clue :: after, clue'.2 ∈ digits)
    (hlive : Live (store.candidates
      (store.setSquares order (before ++ clue :: after) g))) :
    clue.2 ∈ store.candidates (store.setSquares order before g) clue.1 := by
  obtain ⟨h, hwithin, hclosed', hlive', hclues⟩ :=
    (store.live_setSquares_iff order hnodup hclosed hfull hdigits).mp hlive
  have hle := store.keeps_setSquares order hclosed' hlive'
    (fun clue' hmem => hclues clue' (List.mem_append_left _ hmem))
    (show h ≤ store.candidates g by
      rw [hfull]
      exact hwithin)
  have hclue := hclues clue
    (List.mem_append_right _ List.mem_cons_self)
  exact hle clue.1 (hclue ▸ Finset.mem_singleton_self clue.2)

/-- The order of clues does not matter where they leave candidates
everywhere. -/
theorem setSquares_perm {clues clues' : List (ι × V)} {g : G}
    (hperm : clues.Perm clues') (hnodup : (clues.map Prod.fst).Nodup)
    (hclosed : Closed peer (store.candidates g))
    (hfull : store.candidates g = fun _ => digits)
    (hdigits : ∀ clue ∈ clues, clue.2 ∈ digits)
    (hlive : Live (store.candidates (store.setSquares order clues g))) :
    store.candidates (store.setSquares order clues' g) =
      store.candidates (store.setSquares order clues g) := by
  -- What either order leaves is kept by the other.
  have hkeeps : ∀ l l' : List (ι × V), l.Perm l' → (l.map Prod.fst).Nodup →
      (∀ clue ∈ l, clue.2 ∈ digits) →
      Live (store.candidates (store.setSquares order l g)) →
      store.candidates (store.setSquares order l g) ≤
        store.candidates (store.setSquares order l' g) := by
    intro l l' hperm hnodup hdigits hlive
    refine store.keeps_setSquares order
      (store.closed_setSquares order l hclosed) hlive ?_ ?_
    · intro clue hclue
      exact hlive.eq_singleton (store.setSquares_subset_of_mem order g hnodup
        (hperm.mem_iff.mpr hclue))
    · have hwithin := store.within_setSquares order hdigits
        (show Within digits (store.candidates g) by
          rw [hfull]
          exact fun _ => subset_rfl)
      rw [hfull]
      exact hwithin
  have hle := hkeeps clues clues' hperm hnodup hdigits hlive
  refine le_antisymm ?_ hle
  refine hkeeps clues' clues hperm.symm ((hperm.map Prod.fst).nodup_iff.mp hnodup)
    (fun clue hclue => hdigits clue (hperm.mem_iff.mpr hclue)) ?_
  exact hlive.mono hle

end CandidateStore

/-! ## Replaying the decided cells of a map -/

/-- Every digit that an undecided cell has lost is the only value some peer
can hold. -/
def Justified (peer : ι → ι → Prop) (digits : Finset V)
    (m : Candidates ι V) : Prop :=
  ∀ d, 1 < (m d).card → ∀ v ∈ digits, v ∉ m d → ∃ c, peer c d ∧ m c ⊆ {v}

omit [DecidableEq ι] [DecidableEq V] [Fintype ι] in
theorem justified_full : Justified peer digits fun _ : ι => digits :=
  fun _ _ _ hv hnot => absurd hv hnot

namespace CandidateStore

variable (store : CandidateStore G ι V) (order : PeerOrder peer)

/-- Deciding a cell for one of its own candidates keeps every removal
justified. -/
theorem justified_setSquare {g : G} {c : ι} {v : V}
    (hv : v ∈ store.candidates g c)
    (hjust : Justified peer digits (store.candidates g)) :
    Justified peer digits
      (store.candidates (store.setSquare order v c g)) := by
  intro d hcard w hw hnew
  have hle := store.setSquare_le order hv
  have hdc : d ≠ c := by
    rintro rfl
    have hself := Finset.card_le_card (store.setSquare_self_subset order v d g)
    rw [Finset.card_singleton] at hself
    omega
  by_cases hold : w ∈ store.candidates g d
  · rw [← decideAt_of_ne (store.candidates g) hdc v] at hold
    exact (store.eliminates_setSquare order v c g).justified hold hnew
  · obtain ⟨e, hpeer, he⟩ :=
      hjust d (hcard.trans_le (Finset.card_le_card (hle d))) w hw hold
    exact ⟨e, hpeer, (hle e).trans he⟩

/-- So does a lap, which decides cells for values that are left in them. -/
theorem justified_refineLap {κ : Type*} {houses : κ → Finset ι}
    (deducer : Deducer store houses) (lap : Lap ι) (isPossible : G → Bool)
    (last : Option ι) (cur : ι) (g : G)
    (hjust : Justified peer digits (store.candidates g)) :
    Justified peer digits (store.candidates
      (refineLap store order deducer lap isPossible last cur g)) := by
  fun_induction refineLap store order deducer lap isPossible last cur g with
  | case1 => exact hjust
  | case2 _ _ _ _ _ hded _ ih =>
      exact ih (store.justified_setSquare order
        (deducer.deduce_some hded).2.1 hjust)
  | case3 _ _ _ _ _ hded =>
      exact store.justified_setSquare order (deducer.deduce_some hded).2.1 hjust
  | case4 _ _ _ _ _ ih => exact ih hjust

/-- Setting the decided cells of a closed, live and justified map, in any
order, gives back the whole map. -/
theorem replay {clues : List (ι × V)} {g : G} {h : Candidates ι V}
    (hfull : store.candidates g = fun _ => digits)
    (hclosed : Closed peer h) (hlive : Live h) (hwithin : Within digits h)
    (hjust : Justified peer digits h)
    (hnodup : (clues.map Prod.fst).Nodup)
    (hclues : ∀ c v, (c, v) ∈ clues ↔ h c = {v}) :
    store.candidates (store.setSquares order clues g) = h := by
  apply le_antisymm
  · intro d v hv
    by_cases hcard : 1 < (h d).card
    · by_contra hnot
      have hd : d ∉ clues.map Prod.fst := by
        intro hmem
        obtain ⟨⟨c, w⟩, hclue, rfl⟩ := List.mem_map.mp hmem
        rw [(hclues c w).mp hclue, Finset.card_singleton] at hcard
        exact absurd hcard (lt_irrefl 1)
      have hdigit : v ∈ digits := by
        have hstart := store.setSquares_subset_of_notMem order g hd hv
        rwa [hfull] at hstart
      obtain ⟨c, hpeer, hc⟩ := hjust d hcard v hdigit hnot
      exact store.notMem_setSquares order g
        ((hclues c v).mpr (hlive.eq_singleton hc)) hpeer hd hv
    · have hone : (h d).card = 1 := by
        have hpos := Finset.card_pos.mpr (hlive d)
        omega
      obtain ⟨w, hw⟩ := Finset.card_eq_one.mp hone
      rw [hw]
      exact store.setSquares_subset_of_mem order g hnodup
        ((hclues d w).mpr hw) hv
  · refine store.keeps_setSquares order hclosed hlive
      (fun clue hclue => (hclues clue.1 clue.2).mp hclue) ?_
    rw [hfull]
    exact hwithin

end CandidateStore

end SudokuSolver.Propagation
