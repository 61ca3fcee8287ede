import SudokuSolver.Support.Fillings

/-!
# Search with a limited memory

The maps of a search wait in a list.  The first of them is worked on: it is
deduced from, it is displayed when it is decided, and otherwise one of its cells
is split into a value and the remaining ones.  A map that has become impossible
is dropped wherever it stands, and the last one is given up when the memory is
exhausted.  Whatever the order of these steps, no filling is displayed twice,
all of them are found as long as no map is given up, and the maps that wait and
those given up are never more than the candidates at the beginning.
-/

namespace SudokuSolver.Propagation

variable {ι V κ : Type*} [Fintype ι]

/-- The maps that wait, those that have been displayed, and how many have been
given up. -/
structure Backlog (ι V : Type*) where
  waiting : List (Candidates ι V)
  displayed : List (Candidates ι V)
  lost : ℕ

namespace Backlog

/-! ## How much can wait -/

/-- Every map that waits has at most as many candidates as the bound leaves it
after the maps behind it and those given up. -/
def Bounded (bound lost : ℕ) : List (Candidates ι V) → Prop
  | [] => lost ≤ bound
  | m :: ms => size m + ms.length + lost ≤ bound ∧ Bounded bound lost ms

theorem Bounded.length_le {bound lost : ℕ} {ms : List (Candidates ι V)}
    (h : Bounded bound lost ms) : ms.length + lost ≤ bound + 1 := by
  cases ms with
  | nil =>
      rw [List.length_nil, Nat.zero_add]
      exact Nat.le_succ_of_le h
  | cons m ms =>
      have hhead := h.1
      rw [List.length_cons]
      omega

theorem Bounded.drop {bound lost : ℕ} {before : List (Candidates ι V)}
    {m : Candidates ι V} {after : List (Candidates ι V)}
    (h : Bounded bound lost (before ++ m :: after)) :
    Bounded bound lost (before ++ after) := by
  induction before with
  | nil => exact h.2
  | cons k before ih =>
      obtain ⟨hhead, htail⟩ := h
      refine ⟨?_, ih htail⟩
      simp only [List.append_eq, List.length_append, List.length_cons]
        at hhead ⊢
      omega

theorem Bounded.lose {bound lost : ℕ} {m last : Candidates ι V}
    {ms : List (Candidates ι V)} (h : Bounded bound lost (m :: ms ++ [last])) :
    Bounded bound (lost + 1) (m :: ms) := by
  induction ms generalizing m with
  | nil =>
      obtain ⟨hhead, -⟩ := h
      simp only [List.append_eq, List.length_append, List.length_cons,
        List.length_nil] at hhead
      refine ⟨?_, ?_⟩
      · rw [List.length_nil]
        omega
      · change lost + 1 ≤ bound
        omega
  | cons k ms ih =>
      obtain ⟨hhead, htail⟩ := h
      refine ⟨?_, ih htail⟩
      simp only [List.append_eq, List.length_append, List.length_cons,
        List.length_nil] at hhead ⊢
      omega

/-! ## How much work waits -/

/-- The weight of all maps that wait. -/
def load (ms : List (Candidates ι V)) : ℕ := (ms.map weight).sum

@[simp] theorem load_cons (m : Candidates ι V) (ms : List (Candidates ι V)) :
    load (m :: ms) = weight m + load ms := by
  rw [load, load, List.map_cons, List.sum_cons]

@[simp] theorem load_append (ms ms' : List (Candidates ι V)) :
    load (ms ++ ms') = load ms + load ms' := by
  rw [load, List.map_append, List.sum_append, load, load]

theorem weight_lt {m m' : Candidates ι V} (hle : m' ≤ m) (hne : m' ≠ m) :
    weight m' < weight m := by
  obtain ⟨c, hc⟩ := Function.ne_iff.mp hne
  have hcard : (m' c).card < (m c).card :=
    Finset.card_lt_card ((hle c).ssubset_of_ne hc)
  refine Nat.pow_lt_pow_right (by norm_num) ?_
  exact Finset.sum_lt_sum (fun d _ => Finset.card_le_card (hle d))
    ⟨c, Finset.mem_univ c, hcard⟩

/-! ## What can be found -/

variable [DecidableEq ι]

/-- All fillings of the maps that wait. -/
noncomputable def pending (peer : ι → ι → Prop) (houses : κ → Finset ι)
    (digits : Finset V) (ms : List (Candidates ι V)) :
    Multiset (Candidates ι V) :=
  (↑ms : Multiset (Candidates ι V)).bind (completions peer houses digits)

variable {peer : ι → ι → Prop} {houses : κ → Finset ι} {digits : Finset V}
variable {b b' : Backlog ι V}

@[simp] theorem pending_nil : pending peer houses digits [] = 0 := rfl

@[simp] theorem pending_cons (m : Candidates ι V)
    (ms : List (Candidates ι V)) :
    pending peer houses digits (m :: ms) =
      completions peer houses digits m + pending peer houses digits ms := by
  rw [pending, pending, ← Multiset.cons_coe, Multiset.cons_bind]

@[simp] theorem pending_append (ms ms' : List (Candidates ι V)) :
    pending peer houses digits (ms ++ ms') =
      pending peer houses digits ms + pending peer houses digits ms' := by
  rw [pending, pending, pending, ← Multiset.coe_add, Multiset.add_bind]

/-- What has been displayed and what can still be found are among the fillings
of the beginning, and are all of them if nothing has been given up. -/
structure Truthful (peer : ι → ι → Prop) (houses : κ → Finset ι)
    (digits : Finset V) (all : Multiset (Candidates ι V))
    (b : Backlog ι V) : Prop where
  closed : ∀ m ∈ b.waiting, Closed peer m ∧ Within digits m
  found_le : ↑b.displayed + pending peer houses digits b.waiting ≤ all
  found_eq : b.lost = 0 →
    ↑b.displayed + pending peer houses digits b.waiting = all

theorem truthful_start {m : Candidates ι V} (hclosed : Closed peer m)
    (hwithin : Within digits m) :
    Truthful peer houses digits (completions peer houses digits m)
      ⟨[m], [], 0⟩ := by
  have heq : (↑([] : List (Candidates ι V)) : Multiset (Candidates ι V)) +
      pending peer houses digits [m] = completions peer houses digits m := by
    rw [pending_cons, pending_nil, add_zero, Multiset.coe_nil, zero_add]
  refine ⟨?_, heq.le, fun _ => heq⟩
  intro k hk
  rw [List.mem_singleton.mp hk]
  exact ⟨hclosed, hwithin⟩

/-- A step after which the same fillings are left. -/
theorem Truthful.of_eq {all : Multiset (Candidates ι V)}
    (hb : Truthful peer houses digits all b) (hlost : b'.lost = b.lost)
    (hclosed : ∀ m ∈ b'.waiting, Closed peer m ∧ Within digits m)
    (heq : ↑b'.displayed + pending peer houses digits b'.waiting =
      ↑b.displayed + pending peer houses digits b.waiting) :
    Truthful peer houses digits all b' where
  closed := hclosed
  found_le := heq ▸ hb.found_le
  found_eq hzero := heq ▸ hb.found_eq (hlost ▸ hzero)

/-! ## Splitting a cell in two -/

variable [DecidableEq V]

/-- Taking the candidate `v` from `c`, followed by justified eliminations that
keep the map closed, leads to `m'`. -/
structure Excludes (peer : ι → ι → Prop) (m : Candidates ι V) (c : ι) (v : V)
    (m' : Candidates ι V) : Prop where
  eliminates : Eliminates peer (eraseAt m c v) m'
  closed : Closed peer m → Closed peer m'

section Split

variable {m m₁ m₂ : Candidates ι V} {c : ι} {v : V}

omit [Fintype ι] in
theorem Excludes.le (h : Excludes peer m c v m₂) : m₂ ≤ m :=
  h.eliminates.le.trans (eraseAt_le m c v)

theorem Excludes.size_lt (h : Excludes peer m c v m₂) (hv : v ∈ m c) :
    size m₂ < size m :=
  (size_mono h.eliminates.le).trans_lt (size_eraseAt_lt hv)

theorem size_decides_lt (hcard : 1 < (m c).card) (h : Decides peer m c v m₁) :
    size m₁ < size m := by
  have hsize := h.size_le
  omega

theorem weight_split_lt (hcard : 1 < (m c).card) (hv : v ∈ m c)
    (hdecides : Decides peer m c v m₁) (hexcludes : Excludes peer m c v m₂) :
    weight m₁ + weight m₂ < weight m := by
  have hsize₁ := size_decides_lt hcard hdecides
  have hsize₂ := hexcludes.size_lt hv
  obtain ⟨n, hn⟩ := Nat.exists_eq_add_one_of_ne_zero (Nat.ne_zero_of_lt hsize₁)
  have h₁ : weight m₁ ≤ 3 ^ n :=
    Nat.pow_le_pow_right (by norm_num) (by omega)
  have h₂ : weight m₂ ≤ 3 ^ n :=
    Nat.pow_le_pow_right (by norm_num) (by omega)
  have hpos : 0 < 3 ^ n := by positivity
  have hweight : weight m = 3 ^ n * 3 := by rw [weight, hn, pow_succ]
  omega

theorem Excludes.completions_eq (h : Excludes peer m c v m₂) :
    completions peer houses digits m₂ =
      completions peer houses digits (eraseAt m c v) :=
  completions_congr fun _ hS => h.eliminates.admits_iff hS.distinct

/-- A removal is the first of the eliminations that follow from it. -/
theorem excludes_removePossibility {G : Type*} (store : CandidateStore G ι V)
    (order : PeerOrder peer) (v : V) (g : G) (c : ι) :
    Excludes peer (store.candidates g) c v
      (store.candidates (store.removePossibility order v g c)) where
  eliminates := store.eliminates_removePossibility order v g c
  closed := store.closed_removePossibility order

/-- The fillings with a value in a cell, and those without it. -/
theorem completions_split_two (hv : v ∈ m c) (hdecides : Decides peer m c v m₁)
    (hexcludes : Excludes peer m c v m₂) :
    completions peer houses digits m =
      completions peer houses digits m₁ +
        completions peer houses digits m₂ := by
  have hrest : ∀ w, w ∈ ((m c).erase v).toList ↔ w ∈ eraseAt m c v c := by
    intro w
    rw [Finset.mem_toList, eraseAt_self]
  have hall : ∀ w, w ∈ v :: ((m c).erase v).toList ↔ w ∈ m c := by
    intro w
    rw [List.mem_cons, Finset.mem_toList, Finset.mem_erase]
    by_cases hw : w = v
    · simp [hw, hv]
    · simp [hw]
  have hnodup : (v :: ((m c).erase v).toList).Nodup := by
    refine List.nodup_cons.mpr ⟨?_, Finset.nodup_toList _⟩
    rw [Finset.mem_toList]
    exact Finset.notMem_erase v (m c)
  have hdecide : ∀ w, decideAt (eraseAt m c v) c w = decideAt m c w :=
    fun w => Function.update_idem ..
  rw [completions_split hnodup hall, hdecides.completions_eq,
    hexcludes.completions_eq,
    completions_split (Finset.nodup_toList _) hrest, ← Multiset.cons_coe,
    Multiset.cons_bind]
  simp only [hdecide]

end Split

/-! ## Steps -/

/-- One step of the search. -/
inductive Step (peer : ι → ι → Prop) (houses : κ → Finset ι) :
    Backlog ι V → Backlog ι V → Prop
  | deduce {m m' : Candidates ι V} (ms displayed : List (Candidates ι V))
      (lost : ℕ) (hdeduces : Deduces peer houses m m')
      (hclosed : Closed peer m → Closed peer m') :
      Step peer houses ⟨m :: ms, displayed, lost⟩ ⟨m' :: ms, displayed, lost⟩
  | drop (before : List (Candidates ι V)) {m : Candidates ι V}
      (after displayed : List (Candidates ι V)) (lost : ℕ) (hdead : ¬Live m) :
      Step peer houses ⟨before ++ m :: after, displayed, lost⟩
        ⟨before ++ after, displayed, lost⟩
  | split {m m₁ m₂ : Candidates ι V} {c : ι} {v : V}
      (ms displayed : List (Candidates ι V)) (lost : ℕ)
      (hcard : 1 < (m c).card) (hv : v ∈ m c) (hdecides : Decides peer m c v m₁)
      (hexcludes : Excludes peer m c v m₂) :
      Step peer houses ⟨m :: ms, displayed, lost⟩
        ⟨m₁ :: m₂ :: ms, displayed, lost⟩
  | lose (m : Candidates ι V) (ms : List (Candidates ι V))
      (last : Candidates ι V) (displayed : List (Candidates ι V)) (lost : ℕ) :
      Step peer houses ⟨m :: ms ++ [last], displayed, lost⟩
        ⟨m :: ms, displayed, lost + 1⟩
  | display {m : Candidates ι V} (ms displayed : List (Candidates ι V))
      (lost : ℕ) (hdecided : Decided m) :
      Step peer houses ⟨m :: ms, displayed, lost⟩ ⟨ms, m :: displayed, lost⟩

/-- Any number of steps. -/
abbrev Steps (peer : ι → ι → Prop) (houses : κ → Finset ι) :
    Backlog ι V → Backlog ι V → Prop :=
  Relation.ReflTransGen (Step peer houses)

theorem Step.bounded {bound : ℕ} (h : Step peer houses b b')
    (hb : Bounded bound b.lost b.waiting) :
    Bounded bound b'.lost b'.waiting := by
  cases h with
  | deduce ms displayed lost hdeduces =>
      have hsize := size_mono hdeduces.le
      obtain ⟨hhead, htail⟩ := hb
      refine ⟨?_, htail⟩
      dsimp only at hhead ⊢
      omega
  | drop before after displayed lost hdead => exact hb.drop
  | split ms displayed lost hcard hv hdecides hexcludes =>
      have hsize₁ := size_decides_lt hcard hdecides
      have hsize₂ := hexcludes.size_lt hv
      obtain ⟨hhead, htail⟩ := hb
      dsimp only at hhead
      refine ⟨?_, ?_, htail⟩
      · rw [List.length_cons]
        dsimp only
        omega
      · dsimp only
        omega
  | lose m ms last displayed lost => exact hb.lose
  | display ms displayed lost hdecided => exact hb.2

theorem Steps.bounded {bound : ℕ} (h : Steps peer houses b b')
    (hb : Bounded bound b.lost b.waiting) :
    Bounded bound b'.lost b'.waiting := by
  induction h with
  | refl => exact hb
  | tail _ hstep ih => exact hstep.bounded ih

theorem Step.load_le (h : Step peer houses b b') :
    load b'.waiting ≤ load b.waiting := by
  cases h with
  | deduce ms displayed lost hdeduces =>
      simp only [load_cons]
      exact Nat.add_le_add_right (weight_mono hdeduces.le) _
  | drop before after displayed lost hdead =>
      simp only [load_append, load_cons]
      omega
  | split ms displayed lost hcard hv hdecides hexcludes =>
      have hlt := weight_split_lt hcard hv hdecides hexcludes
      simp only [load_cons]
      omega
  | lose m ms last displayed lost =>
      simp only [load_append]
      omega
  | display ms displayed lost hdecided =>
      simp only [load_cons]
      omega

theorem Steps.load_le (h : Steps peer houses b b') :
    load b'.waiting ≤ load b.waiting := by
  induction h with
  | refl => exact le_rfl
  | tail _ hstep ih => exact hstep.load_le.trans ih

theorem Step.truthful
    (hfills : ∀ S : ι → V, (∀ c, S c ∈ digits) →
      (∀ c d, peer c d → S c ≠ S d) → Fills peer houses digits S)
    {all : Multiset (Candidates ι V)} (h : Step peer houses b b')
    (hb : Truthful peer houses digits all b) :
    Truthful peer houses digits all b' := by
  have hwaiting := hb.closed
  cases h with
  | @deduce m m' ms displayed lost hdeduces hclosed =>
      obtain ⟨hm, hms⟩ := List.forall_mem_cons.mp hwaiting
      refine hb.of_eq rfl ?_ ?_
      · exact List.forall_mem_cons.mpr
          ⟨⟨hclosed hm.1, hm.2.mono hdeduces.le⟩, hms⟩
      · have heq : completions peer houses digits m' =
            completions peer houses digits m :=
          completions_congr fun _ hS => hdeduces.admits_iff hS hm.2
        simp only [pending_cons, heq]
  | drop before after displayed lost hdead =>
      refine hb.of_eq rfl ?_ ?_
      · intro k hk
        rcases List.mem_append.mp hk with hk | hk
        · exact hwaiting k (List.mem_append_left _ hk)
        · exact hwaiting k
            (List.mem_append_right _ (List.mem_cons_of_mem _ hk))
      · simp only [pending_append, pending_cons,
          completions_of_not_live hdead, zero_add]
  | split ms displayed lost hcard hv hdecides hexcludes =>
      obtain ⟨hm, hms⟩ := List.forall_mem_cons.mp hwaiting
      refine hb.of_eq rfl ?_ ?_
      · refine List.forall_mem_cons.mpr ⟨?_, List.forall_mem_cons.mpr
          ⟨?_, hms⟩⟩
        · exact ⟨hdecides.closed hm.1, hm.2.mono (hdecides.le hv)⟩
        · exact ⟨hexcludes.closed hm.1, hm.2.mono hexcludes.le⟩
      · simp only [pending_cons, completions_split_two hv hdecides hexcludes,
          add_assoc]
  | lose m ms last displayed lost =>
      refine ⟨fun k hk => hwaiting k (List.mem_append_left _ hk), ?_, ?_⟩
      · refine le_trans (Multiset.add_le_add_left ?_) hb.found_le
        simp only [pending_append]
        exact Multiset.le_add_right ..
      · intro hzero
        exact absurd hzero (Nat.succ_ne_zero lost)
  | display ms displayed lost hdecided =>
      obtain ⟨hm, hms⟩ := List.forall_mem_cons.mp hwaiting
      refine hb.of_eq rfl hms ?_
      simp only [pending_cons, completions_decided hfills hm.1 hm.2 hdecided]
      rw [← Multiset.cons_coe, ← Multiset.singleton_add, add_assoc,
        add_left_comm]

/-- However the search goes on, it stays truthful. -/
theorem Steps.truthful
    (hfills : ∀ S : ι → V, (∀ c, S c ∈ digits) →
      (∀ c d, peer c d → S c ≠ S d) → Fills peer houses digits S)
    {all : Multiset (Candidates ι V)} (h : Steps peer houses b b')
    (hb : Truthful peer houses digits all b) :
    Truthful peer houses digits all b' := by
  induction h with
  | refl => exact hb
  | tail _ hstep ih => exact hstep.truthful hfills ih

/-! ## Rounds -/

/-- A map is put in front of others, unless it is impossible. -/
def Kept (m : Candidates ι V) (ms ms' : List (Candidates ι V)) : Prop :=
  ms' = m :: ms ∨ ms' = ms ∧ ¬Live m

section Rounds

variable {m m₁ m₂ : Candidates ι V} {ms ms' ms'' : List (Candidates ι V)}
variable {c : ι} {v : V}

omit [Fintype ι] in
theorem Kept.steps (h : Kept m ms ms') (before displayed : List (Candidates ι V))
    (lost : ℕ) :
    Steps peer houses ⟨before ++ m :: ms, displayed, lost⟩
      ⟨before ++ ms', displayed, lost⟩ := by
  rcases h with rfl | ⟨rfl, hdead⟩
  · exact Relation.ReflTransGen.refl
  · exact Relation.ReflTransGen.single (Step.drop before ms' displayed lost hdead)

/-- The two halves of a split go to the front. -/
theorem steps_split (hcard : 1 < (m c).card) (hv : v ∈ m c)
    (hdecides : Decides peer m c v m₁) (hexcludes : Excludes peer m c v m₂)
    (h₂ : Kept m₂ ms ms') (h₁ : Kept m₁ ms' ms'')
    (displayed : List (Candidates ι V)) (lost : ℕ) :
    Steps peer houses ⟨m :: ms, displayed, lost⟩ ⟨ms'', displayed, lost⟩ ∧
      load ms'' < load (m :: ms) := by
  have hsplit : Step peer houses ⟨m :: ms, displayed, lost⟩
      ⟨m₁ :: m₂ :: ms, displayed, lost⟩ :=
    Step.split ms displayed lost hcard hv hdecides hexcludes
  have hkept : Steps peer houses ⟨m₁ :: m₂ :: ms, displayed, lost⟩
      ⟨ms'', displayed, lost⟩ :=
    (h₂.steps [m₁] displayed lost).trans (h₁.steps [] displayed lost)
  refine ⟨Relation.ReflTransGen.head hsplit hkept, ?_⟩
  have hle := hkept.load_le
  have hlt := weight_split_lt hcard hv hdecides hexcludes
  simp only [load_cons] at hle ⊢
  omega

/-- A split of the only map of which one half is given up. -/
theorem steps_split_lose (hcard : 1 < (m c).card) (hv : v ∈ m c)
    (hdecides : Decides peer m c v m₁) (hexcludes : Excludes peer m c v m₂)
    (h₁ : Kept m₁ [] ms'') (displayed : List (Candidates ι V)) (lost : ℕ) :
    Steps peer houses ⟨[m], displayed, lost⟩ ⟨ms'', displayed, lost + 1⟩ ∧
      load ms'' < load [m] := by
  have hsplit : Step peer houses ⟨[m], displayed, lost⟩
      ⟨[m₁, m₂], displayed, lost⟩ :=
    Step.split [] displayed lost hcard hv hdecides hexcludes
  have hlose : Step peer houses ⟨[m₁, m₂], displayed, lost⟩
      ⟨[m₁], displayed, lost + 1⟩ := Step.lose m₁ [] m₂ displayed lost
  have hkept : Steps peer houses ⟨[m₁], displayed, lost + 1⟩
      ⟨ms'', displayed, lost + 1⟩ := h₁.steps [] displayed (lost + 1)
  refine ⟨Relation.ReflTransGen.head hsplit
    (Relation.ReflTransGen.head hlose hkept), ?_⟩
  have hle := hkept.load_le
  have hlt := weight_split_lt hcard hv hdecides hexcludes
  simp only [load_cons] at hle ⊢
  omega

end Rounds

end Backlog

end SudokuSolver.Propagation
