import SudokuSolver.Support.Candidates

/-!
# The removal cascade

Removing a candidate may leave a cell with a single value; that value is then
removed from every peer, which may decide further cells.  The cascade is the
pair of mutually recursive procedures that carries this out on some concrete
grid type.  It is parameterized by the operations of that type and by the order
in which the peers of a cell are visited; the cascade ends because every nested
call works on a grid with fewer candidates.
-/

namespace SudokuSolver.Propagation

variable {G ι V : Type*} [DecidableEq ι] [DecidableEq V]

/-- A grid type seen as a candidate map, with the operations a cascade uses
and what each of them does to the map. -/
structure CandidateStore (G ι V : Type*) [DecidableEq ι] [DecidableEq V] where
  candidates : G → Candidates ι V
  remove : G → ι → V → G
  assign : G → ι → V → G
  value : G → ι → Option V
  candidates_remove : ∀ g c v,
    candidates (remove g c v) = eraseAt (candidates g) c v
  candidates_assign : ∀ g c v,
    candidates (assign g c v) = decideAt (candidates g) c v
  value_eq_some_iff : ∀ g c v, value g c = some v ↔ candidates g c = {v}

/-- A symmetric, irreflexive peer relation together with the order in which
the peers of a cell are visited. -/
structure PeerOrder (peer : ι → ι → Prop) where
  related : ι → List ι
  mem_related : ∀ c d, d ∈ related c ↔ peer c d
  symm : ∀ c d, peer c d → peer d c
  irrefl : ∀ c, ¬peer c c

variable {peer : ι → ι → Prop}

omit [DecidableEq ι] in
theorem PeerOrder.eq_of_related {order order' : PeerOrder peer}
    (h : ∀ c, order.related c = order'.related c) : order = order' := by
  obtain ⟨related, _, _, _⟩ := order
  obtain ⟨related', _, _, _⟩ := order'
  have heq : related = related' := funext h
  subst heq
  rfl

variable (store : CandidateStore G ι V) (order : PeerOrder peer)

namespace CandidateStore

/-- The cascade with the fact that it only removes candidates, which is what
its termination rests on. -/
def cascade [Fintype ι] (v : V) (g : G) (c : ι) :
    {r : G // store.candidates r ≤ store.candidates g} :=
  if hv : v ∈ store.candidates g c then
    have hremove :
        store.candidates (store.remove g c v) ≤ store.candidates g := by
      rw [store.candidates_remove]
      exact eraseAt_le _ c v
    match store.value (store.remove g c v) c with
    | none => ⟨store.remove g c v, hremove⟩
    | some w =>
        let swept := (order.related c).foldl
          (fun (r : {r : G // store.candidates r ≤
              store.candidates (store.remove g c v)}) d =>
            ⟨(cascade w r.1 d).1, (cascade w r.1 d).2.trans r.2⟩)
          ⟨store.remove g c v, le_rfl⟩
        ⟨swept.1, swept.2.trans hremove⟩
  else ⟨g, le_rfl⟩
termination_by size (store.candidates g)
decreasing_by
  all_goals
    have hlt : size (store.candidates (store.remove g c v)) <
        size (store.candidates g) := by
      rw [store.candidates_remove]
      exact size_eraseAt_lt hv
    exact (size_mono r.2).trans_lt hlt

variable [Fintype ι]

/-- Remove a candidate and everything that follows from the removal. -/
def removePossibility (v : V) (g : G) (c : ι) : G :=
  (store.cascade order v g c).1

/-- Remove a candidate from every peer of `c`, in the order they are
visited. -/
def removeRelated (v : V) (c : ι) (g : G) : G :=
  (order.related c).foldl (store.removePossibility order v) g

/-- Decide `c` and remove its value from every peer. -/
def setSquare (v : V) (c : ι) (g : G) : G :=
  store.removeRelated order v c (store.assign g c v)

theorem removePossibility_le (v : V) (g : G) (c : ι) :
    store.candidates (store.removePossibility order v g c) ≤
      store.candidates g :=
  (store.cascade order v g c).2

private theorem foldl_cascade_val (w : V) (g₁ : G) (l : List ι)
    (r : {r : G // store.candidates r ≤ store.candidates g₁}) :
    (l.foldl (fun (r : {r : G // store.candidates r ≤
        store.candidates g₁}) d =>
      (⟨(store.cascade order w r.1 d).1,
        (store.cascade order w r.1 d).2.trans r.2⟩ :
        {r : G // store.candidates r ≤ store.candidates g₁})) r).1 =
      l.foldl (store.removePossibility order w) r.1 := by
  induction l generalizing r with
  | nil => rfl
  | cons d l ih =>
      simp only [List.foldl_cons]
      rw [ih]
      rfl

/-- The recursive equation of the cascade. -/
theorem removePossibility_eq (v : V) (g : G) (c : ι) :
    store.removePossibility order v g c =
      if v ∈ store.candidates g c then
        match store.value (store.remove g c v) c with
        | none => store.remove g c v
        | some w => store.removeRelated order w c (store.remove g c v)
      else g := by
  rw [removePossibility, cascade]
  by_cases hv : v ∈ store.candidates g c
  · simp only [hv, ↓reduceDIte, ↓reduceIte]
    cases store.value (store.remove g c v) c with
    | none => rfl
    | some w =>
        simp only
        rw [foldl_cascade_val]
        rfl
  · simp only [hv, ↓reduceDIte, ↓reduceIte]

/-! ## What a cascade removes -/

theorem foldl_removePossibility_le (v : V) (l : List ι) (g : G) :
    store.candidates (l.foldl (store.removePossibility order v) g) ≤
      store.candidates g := by
  induction l generalizing g with
  | nil => exact le_rfl
  | cons d l ih =>
      exact (ih _).trans (store.removePossibility_le order v g d)

theorem removeRelated_le (v : V) (c : ι) (g : G) :
    store.candidates (store.removeRelated order v c g) ≤
      store.candidates g :=
  store.foldl_removePossibility_le order v (order.related c) g

/-- After the requested removal, everything a cascade removes is a justified
elimination. -/
theorem eliminates_removePossibility (v : V) (g : G) (c : ι) :
    Eliminates peer (eraseAt (store.candidates g) c v)
      (store.candidates (store.removePossibility order v g c)) := by
  generalize hn : size (store.candidates g) = n
  induction n using Nat.strong_induction_on generalizing v g c with
  | h n ih =>
      rw [removePossibility_eq]
      by_cases hv : v ∈ store.candidates g c
      · rw [if_pos hv, ← store.candidates_remove]
        generalize hg₁ : store.remove g c v = g₁
        have hlt : size (store.candidates g₁) < n := by
          rw [← hg₁, store.candidates_remove, ← hn]
          exact size_eraseAt_lt hv
        cases hw : store.value g₁ c with
        | none => exact Relation.ReflTransGen.refl
        | some w =>
            have hdecided := (store.value_eq_some_iff g₁ c w).mp hw
            -- every visited peer is a peer of `c`, which holds `w` at most
            have hfold : ∀ l : List ι, (∀ d ∈ l, peer c d) → ∀ r,
                Eliminates peer (store.candidates g₁) (store.candidates r) →
                Eliminates peer (store.candidates g₁) (store.candidates
                  (l.foldl (store.removePossibility order w) r)) := by
              intro l
              induction l with
              | nil => exact fun _ r hr => hr
              | cons d l ihl =>
                  intro hpeers r hr
                  have hsize : size (store.candidates r) < n :=
                    (size_mono hr.le).trans_lt hlt
                  have hstep : Elimination peer (store.candidates r)
                      (eraseAt (store.candidates r) d w) :=
                    ⟨c, d, w, hpeers d List.mem_cons_self,
                      (hr.le c).trans hdecided.le, rfl⟩
                  have hcall := ih _ hsize w r d rfl
                  exact ihl (fun e he => hpeers e (List.mem_cons_of_mem d he))
                    _ ((hr.tail hstep).trans hcall)
            exact hfold (order.related c)
              (fun d hd => (order.mem_related c d).mp hd) g₁
              Relation.ReflTransGen.refl
      · rw [if_neg hv, eraseAt_of_notMem hv]

theorem notMem_removePossibility (v : V) (g : G) (c : ι) :
    v ∉ store.candidates (store.removePossibility order v g c) c := by
  intro hmem
  have hle := (store.eliminates_removePossibility order v g c).le c hmem
  simp at hle

theorem notMem_foldl_removePossibility (v : V) (l : List ι) (g : G)
    {d : ι} (hd : d ∈ l) :
    v ∉ store.candidates
      (l.foldl (store.removePossibility order v) g) d := by
  induction l generalizing g with
  | nil => simp at hd
  | cons e l ih =>
      rw [List.foldl_cons]
      rcases List.mem_cons.mp hd with rfl | hd
      · intro hmem
        exact store.notMem_removePossibility order v g d
          (store.foldl_removePossibility_le order v l _ d hmem)
      · exact ih _ hd

theorem notMem_removeRelated {v : V} {c d : ι} (g : G) (hpeer : peer c d) :
    v ∉ store.candidates (store.removeRelated order v c g) d :=
  store.notMem_foldl_removePossibility order v (order.related c) g
    ((order.mem_related c d).mpr hpeer)

/-- Removing the value of `c` from its peers, where `c` can hold nothing else,
is a sequence of justified eliminations. -/
theorem eliminates_removeRelated {v : V} {c : ι} {g : G}
    (hc : store.candidates g c ⊆ {v}) :
    Eliminates peer (store.candidates g)
      (store.candidates (store.removeRelated order v c g)) := by
  have hfold : ∀ l : List ι, (∀ d ∈ l, peer c d) → ∀ r,
      Eliminates peer (store.candidates g) (store.candidates r) →
      Eliminates peer (store.candidates g) (store.candidates
        (l.foldl (store.removePossibility order v) r)) := by
    intro l
    induction l with
    | nil => exact fun _ r hr => hr
    | cons d l ihl =>
        intro hpeers r hr
        have hstep : Elimination peer (store.candidates r)
            (eraseAt (store.candidates r) d v) :=
          ⟨c, d, v, hpeers d List.mem_cons_self, (hr.le c).trans hc, rfl⟩
        exact ihl (fun e he => hpeers e (List.mem_cons_of_mem d he)) _
          ((hr.tail hstep).trans
            (store.eliminates_removePossibility order v r d))
  exact hfold (order.related c)
    (fun d hd => (order.mem_related c d).mp hd) g Relation.ReflTransGen.refl

/-! ## What a cascade settles -/

private theorem settles_foldl (v : V) (l : List ι) (g : G)
    (hcall : ∀ d r, store.candidates r ≤ store.candidates g →
      Settles peer (store.candidates r)
        (store.candidates (store.removePossibility order v r d))) :
    Settles peer (store.candidates g) (store.candidates
      (l.foldl (store.removePossibility order v) g)) := by
  have hfold : ∀ l : List ι, ∀ r,
      Settles peer (store.candidates g) (store.candidates r) →
      Settles peer (store.candidates g) (store.candidates
        (l.foldl (store.removePossibility order v) r)) := by
    intro l
    induction l with
    | nil => exact fun r hr => hr
    | cons d l ihl => exact fun r hr => ihl _ (hr.trans (hcall d r hr.1))
  exact hfold l g (Settles.refl _)

/-- Every cell that a cascade decides is settled when the cascade returns. -/
theorem settles_removePossibility (v : V) (g : G) (c : ι) :
    Settles peer (store.candidates g)
      (store.candidates (store.removePossibility order v g c)) := by
  generalize hn : size (store.candidates g) = n
  induction n using Nat.strong_induction_on generalizing v g c with
  | h n ih =>
      refine ⟨store.removePossibility_le order v g c, ?_⟩
      rw [removePossibility_eq]
      by_cases hv : v ∈ store.candidates g c
      · rw [if_pos hv]
        generalize hg₁ : store.remove g c v = g₁
        have hcand : store.candidates g₁ =
            eraseAt (store.candidates g) c v := by
          rw [← hg₁, store.candidates_remove]
        have hlt : size (store.candidates g₁) < n := by
          rw [hcand, ← hn]
          exact size_eraseAt_lt hv
        cases hw : store.value g₁ c with
        | none =>
            intro e u he
            by_cases hec : e = c
            · subst e
              have hsome := (store.value_eq_some_iff g₁ c u).mpr he
              rw [hw] at hsome
              exact absurd hsome (by simp)
            · rw [hcand, eraseAt_of_ne _ hec] at he
              exact Or.inl he
        | some w =>
            have hdecided := (store.value_eq_some_iff g₁ c w).mp hw
            have hsweep : Settles peer (store.candidates g₁)
                (store.candidates (store.removeRelated order w c g₁)) :=
              store.settles_foldl order w (order.related c) g₁
                fun d r hr => ih _ ((size_mono hr).trans_lt hlt) w r d rfl
            intro e u he
            by_cases hec : e = c
            · subst e
              have huw : u = w := by
                have hsub := hsweep.1 c
                rw [he, hdecided] at hsub
                exact Finset.mem_singleton.mp
                  (hsub (Finset.mem_singleton_self u))
              subst u
              right
              intro x hx d hpeer
              have hxw : x = w :=
                (Finset.singleton_injective (he.symm.trans hx)).symm
              subst x
              exact store.notMem_removeRelated order g₁ hpeer
            · rcases hsweep.2 e u he with hold | hset
              · rw [hcand, eraseAt_of_ne _ hec] at hold
                exact Or.inl hold
              · exact Or.inr hset
      · rw [if_neg hv]
        exact fun _ _ h => Or.inl h

theorem settles_removeRelated (v : V) (c : ι) (g : G) :
    Settles peer (store.candidates g)
      (store.candidates (store.removeRelated order v c g)) :=
  store.settles_foldl order v (order.related c) g
    fun d r _ => store.settles_removePossibility order v r d

theorem closed_removePossibility {v : V} {g : G} {c : ι}
    (hclosed : Closed peer (store.candidates g)) :
    Closed peer (store.candidates (store.removePossibility order v g c)) :=
  (store.settles_removePossibility order v g c).closed hclosed

/-! ## Deciding a cell -/

theorem setSquare_le_decideAt (v : V) (c : ι) (g : G) :
    store.candidates (store.setSquare order v c g) ≤
      decideAt (store.candidates g) c v := by
  rw [← store.candidates_assign]
  exact store.removeRelated_le order v c _

theorem setSquare_self_subset (v : V) (c : ι) (g : G) :
    store.candidates (store.setSquare order v c g) c ⊆ {v} := by
  simpa using store.setSquare_le_decideAt order v c g c

theorem setSquare_le_of_ne (v : V) {c d : ι} (hdc : d ≠ c) (g : G) :
    store.candidates (store.setSquare order v c g) d ⊆
      store.candidates g d := by
  have hle := store.setSquare_le_decideAt order v c g d
  rwa [decideAt_of_ne _ hdc] at hle

theorem setSquare_le {v : V} {c : ι} {g : G}
    (hv : v ∈ store.candidates g c) :
    store.candidates (store.setSquare order v c g) ≤ store.candidates g :=
  (store.setSquare_le_decideAt order v c g).trans (decideAt_le hv)

theorem notMem_setSquare {v : V} {c d : ι} (g : G) (hpeer : peer c d) :
    v ∉ store.candidates (store.setSquare order v c g) d :=
  store.notMem_removeRelated order _ hpeer

theorem eliminates_setSquare (v : V) (c : ι) (g : G) :
    Eliminates peer (decideAt (store.candidates g) c v)
      (store.candidates (store.setSquare order v c g)) := by
  have hc : store.candidates (store.assign g c v) c ⊆ {v} := by
    rw [store.candidates_assign, decideAt_self]
  have hsteps := store.eliminates_removeRelated order hc
  rwa [store.candidates_assign] at hsteps

/-- Deciding a cell restores closedness, also when it overwrites a cell that
was already decided or had lost all of its candidates. -/
theorem closed_setSquare (v : V) (c : ι) {g : G}
    (hclosed : Closed peer (store.candidates g)) :
    Closed peer (store.candidates (store.setSquare order v c g)) := by
  have hsettles := store.settles_removeRelated order v c (store.assign g c v)
  intro e w he
  rcases hsettles.2 e w he with hold | hset
  · rw [store.candidates_assign] at hold
    by_cases hec : e = c
    · subst e
      have hwv : w = v := by
        rw [decideAt_self] at hold
        exact (Finset.singleton_injective hold).symm
      subst w
      exact fun d hpeer => store.notMem_setSquare order g hpeer
    · rw [decideAt_of_ne _ hec] at hold
      intro d hpeer hmem
      by_cases hdc : d = c
      · subst d
        have hwv : w = v := Finset.mem_singleton.mp
          (store.setSquare_self_subset order v c g hmem)
        subst w
        have hnot := store.notMem_setSquare (v := v) order g
          (order.symm e c hpeer)
        rw [he] at hnot
        exact hnot (Finset.mem_singleton_self v)
      · exact hclosed e w hold d hpeer
          (store.setSquare_le_of_ne order v hdc g hmem)
  · exact hset w he

/-- A choice that agrees with the decided value and gives peers different
values survives. -/
theorem admits_setSquare {v : V} {c : ι} {g : G} {S : ι → V}
    (hS : ∀ c d, peer c d → S c ≠ S d)
    (hadm : Admits (store.candidates g) S) (hc : S c = v) :
    Admits (store.candidates (store.setSquare order v c g)) S :=
  (store.eliminates_setSquare order v c g).admits hS (hadm.decideAt hc)

theorem size_setSquare (v : V) (c : ι) (g : G) :
    size (store.candidates (store.setSquare order v c g)) +
      (store.candidates g c).card ≤ size (store.candidates g) + 1 := by
  have hle := size_mono (store.setSquare_le_decideAt order v c g)
  have hdecide := size_decideAt (store.candidates g) c v
  omega

end CandidateStore

/-! ## Maps alone -/

/-- Candidate maps as a store of their own: the cascade without a
representation. -/
noncomputable def mapStore : CandidateStore (Candidates ι V) ι V where
  candidates m := m
  remove := eraseAt
  assign := decideAt
  value m c := by
    classical
    exact if h : ∃ v, m c = {v} then some h.choose else none
  candidates_remove _ _ _ := rfl
  candidates_assign _ _ _ := rfl
  value_eq_some_iff m c v := by
    classical
    constructor
    · intro h
      split at h
      · next hv =>
        cases h
        exact hv.choose_spec
      · cases h
    · intro h
      have hv : ∃ v, m c = {v} := ⟨v, h⟩
      rw [dif_pos hv, Option.some.injEq]
      exact Finset.singleton_injective (hv.choose_spec.symm.trans h)

end SudokuSolver.Propagation
