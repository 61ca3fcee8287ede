import Mathlib.Data.Fintype.Pi
import Mathlib.Tactic.NormNum
import Mathlib.Tactic.Positivity
import SudokuSolver.Support.Deduction
import SudokuSolver.Support.Worklist

/-!
# Counting fillings

The fillings a candidate map admits, as a multiset of fully decided maps.
Splitting a cell by its candidates splits this multiset, deductions keep it,
a map without candidates somewhere has none, and a closed, fully decided map has
exactly itself.  These are the facts an exhaustive search needs, together with
a weight that falls whenever a grid is replaced by its splits.
-/

namespace SudokuSolver.Propagation

variable {G ι V κ : Type*} {peer : ι → ι → Prop} {houses : κ → Finset ι}
variable {digits : Finset V}

/-- The list shows every choice with property `P` exactly once, as a decided
map, and nothing else. -/
def Enumerates (l : List (Candidates ι V)) (P : (ι → V) → Prop) : Prop :=
  l.Nodup ∧ ∀ m, m ∈ l ↔ ∃ S, P S ∧ m = pointwise S

theorem pointwise_injective :
    Function.Injective (pointwise : (ι → V) → Candidates ι V) := by
  intro S T h
  funext c
  exact Finset.singleton_injective (congrFun h c)

/-- Everything is shown once, and there is one filling: one map is shown. -/
theorem Enumerates.eq_singleton {l : List (Candidates ι V)}
    {P : (ι → V) → Prop} (h : Enumerates l P) {S : ι → V}
    (hS : ∀ T, P T ↔ T = S) : l = [pointwise S] := by
  rw [← List.perm_singleton, List.perm_ext_iff_of_nodup h.1
    (List.nodup_singleton _)]
  intro m
  rw [h.2, List.mem_singleton]
  simp only [hS, exists_eq_left]

/-- If one map is shown, there is one filling. -/
theorem Enumerates.exists_unique {m : Candidates ι V} {P : (ι → V) → Prop}
    (h : Enumerates [m] P) : ∃ S, m = pointwise S ∧ ∀ T, P T ↔ T = S := by
  obtain ⟨S, hS, rfl⟩ := (h.2 m).mp (List.mem_singleton_self m)
  refine ⟨S, rfl, fun T => ⟨fun hT => ?_, fun hTS => hTS ▸ hS⟩⟩
  have hmem := (h.2 (pointwise T)).mpr ⟨T, hT, rfl⟩
  exact pointwise_injective (List.mem_singleton.mp hmem)

/-- Every cell has exactly one candidate. -/
def Decided (m : Candidates ι V) : Prop :=
  ∀ c, (m c).card = 1

theorem Decided.exists_eq_pointwise {m : Candidates ι V} (h : Decided m) :
    ∃ S, m = pointwise S := by
  choose S hS using fun c => Finset.card_eq_one.mp (h c)
  exact ⟨S, funext hS⟩

variable [DecidableEq ι] [Fintype ι]

section Fillings

variable (peer houses digits)

/-- The fillings that choose only candidates of `m`. -/
noncomputable def fillings (m : Candidates ι V) : Finset (ι → V) := by
  classical
  exact (Fintype.piFinset m).filter (Fills peer houses digits)

/-- The fillings as decided maps, counted with multiplicity. -/
noncomputable def completions (m : Candidates ι V) :
    Multiset (Candidates ι V) :=
  (fillings peer houses digits m).val.map pointwise

end Fillings

@[simp] theorem mem_fillings {m : Candidates ι V} {S : ι → V} :
    S ∈ fillings peer houses digits m ↔
      Admits m S ∧ Fills peer houses digits S := by
  simp [fillings, Admits]

theorem completions_congr {m m' : Candidates ι V}
    (h : ∀ S, Fills peer houses digits S → (Admits m' S ↔ Admits m S)) :
    completions peer houses digits m' = completions peer houses digits m := by
  have hfillings : fillings peer houses digits m' =
      fillings peer houses digits m := by
    ext S
    simp only [mem_fillings]
    exact and_congr_left (h S)
  rw [completions, hfillings, completions]

theorem completions_of_not_live {m : Candidates ι V} (hdead : ¬Live m) :
    completions peer houses digits m = 0 := by
  have hempty : fillings peer houses digits m = ∅ := by
    ext S
    simp only [mem_fillings, Finset.notMem_empty, iff_false, not_and]
    exact fun hadm _ => hdead hadm.live
  rw [completions, hempty]
  rfl

/-- Splitting a cell by its candidates distributes the fillings over the
splits. -/
theorem completions_split {m : Candidates ι V} {c : ι} {values : List V}
    (hnodup : values.Nodup) (hmem : ∀ v, v ∈ values ↔ v ∈ m c) :
    completions peer houses digits m =
      (↑values : Multiset V).bind fun v =>
        completions peer houses digits (decideAt m c v) := by
  have hval : (fillings peer houses digits m).val =
      (↑values : Multiset V).bind fun v =>
        (fillings peer houses digits (decideAt m c v)).val := by
    refine (Multiset.Nodup.ext (Finset.nodup _) ?_).mpr ?_
    · rw [Multiset.nodup_bind]
      refine ⟨fun v _ => Finset.nodup _, ?_⟩
      refine Multiset.coe_nodup.mpr hnodup |>.pairwise ?_
      intro v _ w _ hvw
      rw [Function.onFun, Multiset.disjoint_left]
      intro S hv hw
      have hSv := (mem_fillings.mp (Finset.mem_def.mpr hv)).1 c
      have hSw := (mem_fillings.mp (Finset.mem_def.mpr hw)).1 c
      rw [decideAt_self, Finset.mem_singleton] at hSv hSw
      exact hvw (hSv.symm.trans hSw)
    · intro S
      simp only [Finset.mem_val, Multiset.mem_bind, Multiset.mem_coe,
        mem_fillings]
      constructor
      · rintro ⟨hadm, hfills⟩
        exact ⟨S c, (hmem _).mpr (hadm c), hadm.decideAt rfl, hfills⟩
      · rintro ⟨v, hv, hadm, hfills⟩
        exact ⟨hadm.mono (decideAt_le ((hmem v).mp hv)), hfills⟩
  rw [completions, hval, Multiset.map_bind]
  rfl

/-- A closed map with one digit left in every cell completes to itself only. -/
theorem completions_decided
    (hfills : ∀ S : ι → V, (∀ c, S c ∈ digits) →
      (∀ c d, peer c d → S c ≠ S d) → Fills peer houses digits S)
    {m : Candidates ι V} (hclosed : Closed peer m)
    (hwithin : Within digits m) (hdecided : Decided m) :
    completions peer houses digits m = {m} := by
  obtain ⟨S, rfl⟩ := hdecided.exists_eq_pointwise
  have hS : Fills peer houses digits S := by
    refine hfills S (fun c => hwithin c (Finset.mem_singleton_self _)) ?_
    intro c d hpeer heq
    exact hclosed c (S c) rfl d hpeer (heq ▸ Finset.mem_singleton_self _)
  have hfillings : fillings peer houses digits (pointwise S) = {S} := by
    ext T
    simp only [mem_fillings, Finset.mem_singleton]
    constructor
    · rintro ⟨hadm, -⟩
      exact funext fun c => Finset.mem_singleton.mp (hadm c)
    · rintro rfl
      exact ⟨fun c => Finset.mem_singleton_self _, hS⟩
  rw [completions, hfillings]
  rfl

/-- A list that counts like the completions of `m` shows every filling of `m`
once. -/
theorem enumerates_of_eq_completions {m : Candidates ι V}
    {l : List (Candidates ι V)}
    (h : (↑l : Multiset (Candidates ι V)) =
      completions peer houses digits m) :
    Enumerates l fun S => Fills peer houses digits S ∧ Admits m S := by
  constructor
  · rw [← Multiset.coe_nodup, h]
    exact (Finset.nodup _).map pointwise_injective
  · intro k
    rw [← Multiset.mem_coe, h, completions, Multiset.mem_map]
    simp only [Finset.mem_val, mem_fillings]
    constructor
    · rintro ⟨S, ⟨hadm, hfills⟩, rfl⟩
      exact ⟨S, ⟨hfills, hadm⟩, rfl⟩
    · rintro ⟨S, ⟨hfills, hadm⟩, rfl⟩
      exact ⟨S, ⟨hadm, hfills⟩, rfl⟩

/-! ## Splits -/

/-- Deciding `c` for `v` in `m`, followed by justified eliminations that keep
the map closed, leads to `m'`. -/
structure Decides [DecidableEq V] (peer : ι → ι → Prop) (m : Candidates ι V)
    (c : ι) (v : V) (m' : Candidates ι V) : Prop where
  eliminates : Eliminates peer (decideAt m c v) m'
  closed : Closed peer m → Closed peer m'

section Decides

variable [DecidableEq V] {m m' : Candidates ι V} {c : ι} {v : V}

theorem CandidateStore.decides_setSquare (store : CandidateStore G ι V)
    (order : PeerOrder peer) (v : V) (c : ι) (g : G) :
    Decides peer (store.candidates g) c v
      (store.candidates (store.setSquare order v c g)) where
  eliminates := store.eliminates_setSquare order v c g
  closed := store.closed_setSquare order v c

omit [Fintype ι] in
theorem Decides.le (h : Decides peer m c v m') (hv : v ∈ m c) : m' ≤ m :=
  h.eliminates.le.trans (decideAt_le hv)

theorem Decides.completions_eq (h : Decides peer m c v m') :
    completions peer houses digits m' =
      completions peer houses digits (decideAt m c v) :=
  completions_congr fun _ hS => h.eliminates.admits_iff hS.distinct

theorem Decides.size_le (h : Decides peer m c v m') :
    size m' + (m c).card ≤ size m + 1 :=
  (Nat.add_le_add_right (size_mono h.eliminates.le) _).trans
    (size_decideAt m c v).le

end Decides

/-- The weight of a map in a search. -/
def weight (m : Candidates ι V) : ℕ := 3 ^ size m

omit [DecidableEq ι] in
theorem weight_pos (m : Candidates ι V) : 0 < weight m := by
  rw [weight]
  positivity

omit [DecidableEq ι] in
theorem weight_mono {m m' : Candidates ι V} (hle : m' ≤ m) :
    weight m' ≤ weight m :=
  Nat.pow_le_pow_right (by norm_num) (size_mono hle)

private theorem add_two_lt_three_pow (j : ℕ) : j + 2 < 3 ^ (j + 1) := by
  induction j with
  | zero => norm_num
  | succ j ih =>
      rw [pow_succ]
      omega

private theorem mul_three_pow_lt {k n : ℕ} (hk : 1 < k) (hn : k ≤ n + 1) :
    k * 3 ^ (n + 1 - k) < 3 ^ n := by
  obtain ⟨j, rfl⟩ := Nat.exists_eq_add_of_le' hk
  calc
    (j + 2) * 3 ^ (n + 1 - (j + 2)) <
        3 ^ (j + 1) * 3 ^ (n + 1 - (j + 2)) :=
      Nat.mul_lt_mul_of_pos_right (add_two_lt_three_pow j) (by positivity)
    _ = 3 ^ n := by
      rw [← pow_add]
      congr 1
      omega

section Splits

variable [DecidableEq V] {candidates : G → Candidates ι V}
variable {m : Candidates ι V} {c : ι} {values : List V} {splits : List G}

/-- The grids obtained by deciding one cell in all possible ways. -/
theorem completions_children
    (hnodup : values.Nodup) (hmem : ∀ v, v ∈ values ↔ v ∈ m c)
    (hsplits : List.Forall₂ (fun v x => Decides peer m c v (candidates x))
      values splits) :
    completions peer houses digits m =
      (↑splits : Multiset G).bind fun x =>
        completions peer houses digits (candidates x) := by
  rw [completions_split hnodup hmem]
  clear hnodup hmem
  induction hsplits with
  | nil => rfl
  | cons hdecides _ ih =>
      rw [← Multiset.cons_coe, ← Multiset.cons_coe, Multiset.cons_bind,
        Multiset.cons_bind, ih, hdecides.completions_eq]

omit [Fintype ι] in
/-- Every split decides the cell for one of the values. -/
theorem exists_decides
    (hsplits : List.Forall₂ (fun v x => Decides peer m c v (candidates x))
      values splits) {x : G} (hx : x ∈ splits) :
    ∃ v ∈ values, Decides peer m c v (candidates x) := by
  induction hsplits with
  | nil => simp at hx
  | @cons v y values splits hdecides _ ih =>
      rcases List.mem_cons.mp hx with rfl | hx
      · exact ⟨v, List.mem_cons_self, hdecides⟩
      · obtain ⟨w, hw, hdecides'⟩ := ih hx
        exact ⟨w, List.mem_cons_of_mem v hw, hdecides'⟩

omit [Fintype ι] in
/-- The splits of a closed grid are closed, and have digits only. -/
theorem splits_invariant (hclosed : Closed peer m) (hwithin : Within digits m)
    (hmem : ∀ v, v ∈ values ↔ v ∈ m c)
    (hsplits : List.Forall₂ (fun v x => Decides peer m c v (candidates x))
      values splits) {x : G} (hx : x ∈ splits) :
    Closed peer (candidates x) ∧ Within digits (candidates x) := by
  obtain ⟨v, hv, hdecides⟩ := exists_decides hsplits hx
  exact ⟨hdecides.closed hclosed,
    hwithin.mono (hdecides.le ((hmem v).mp hv))⟩

/-- Some of the splits of a cell weigh less than the grid that is split. -/
theorem sum_weight_splits_lt (keep : G → Bool)
    (hlength : values.length = (m c).card) (hcard : 1 < (m c).card)
    (hsplits : List.Forall₂ (fun v x => Decides peer m c v (candidates x))
      values splits) :
    ((splits.filter keep).map fun x => weight (candidates x)).sum <
      weight m := by
  have hbound : ∀ w ∈ splits.map fun x => weight (candidates x),
      w ≤ 3 ^ (size m + 1 - (m c).card) := by
    intro w hw
    obtain ⟨x, hx, rfl⟩ := List.mem_map.mp hw
    obtain ⟨v, -, hdecides⟩ := exists_decides hsplits hx
    have hsize := hdecides.size_le
    exact Nat.pow_le_pow_right (by norm_num) (by omega)
  have hle : (m c).card ≤ size m :=
    Finset.single_le_sum (f := fun d => (m d).card)
      (fun _ _ => Nat.zero_le _) (Finset.mem_univ c)
  have hsum := List.sum_le_card_nsmul _ _ hbound
  rw [List.length_map, ← hsplits.length_eq, hlength, smul_eq_mul] at hsum
  have hsublist := (List.filter_sublist (p := keep) (l := splits)).map
    fun x => weight (candidates x)
  exact (hsublist.sum_le_sum fun _ _ => Nat.zero_le _).trans_lt
    (hsum.trans_lt (mul_three_pow_lt hcard (by omega)))

end Splits

/-! ## Sorting the splits into solutions and pending grids -/

/-- Handing out the complete items and keeping those of the others that may
still be completed loses nothing. -/
theorem bind_partition {C : Type*} {f : G → Multiset C} {val : G → C}
    {complete keep : G → Bool} (l : List G)
    (hcomplete : ∀ x ∈ l, complete x = true → f x = {val x})
    (hdrop : ∀ x ∈ l, complete x = false → keep x = false → f x = 0) :
    (↑l : Multiset G).bind f =
      ↑((l.filter complete).map val) +
        (↑(l.filter fun x => !complete x && keep x) :
          Multiset G).bind f := by
  induction l with
  | nil => simp
  | cons x l ih =>
      have ih' := ih
        (fun y hy => hcomplete y (List.mem_cons_of_mem x hy))
        (fun y hy => hdrop y (List.mem_cons_of_mem x hy))
      rw [← Multiset.cons_coe, Multiset.cons_bind, ih']
      cases hx : complete x with
      | true =>
          rw [hcomplete x List.mem_cons_self hx]
          simp only [List.filter_cons, hx, ↓reduceIte, List.map_cons,
            Bool.not_true, Bool.false_and, Bool.false_eq_true]
          rw [← Multiset.cons_coe, ← add_assoc, Multiset.singleton_add]
      | false =>
          cases hk : keep x with
          | true =>
              simp only [List.filter_cons, hx, hk, ↓reduceIte,
                Bool.not_false, Bool.and_self, Bool.false_eq_true]
              rw [← Multiset.cons_coe, Multiset.cons_bind, add_left_comm]
          | false =>
              rw [hdrop x List.mem_cons_self hx hk, zero_add]
              simp [hx, hk]

/-- Splitting a cell, handing out the complete splits and keeping those of the
others that are still possible shows every filling once. -/
theorem completions_partition [DecidableEq V]
    (hfills : ∀ S : ι → V, (∀ c, S c ∈ digits) →
      (∀ c d, peer c d → S c ≠ S d) → Fills peer houses digits S)
    (candidates : G → Candidates ι V) (complete keep : G → Bool)
    (hcomplete : ∀ g, Within digits (candidates g) →
      (complete g = true ↔ Decided (candidates g)))
    (hkeep : ∀ g, Live (candidates g) → keep g = true)
    {m : Candidates ι V} {c : ι} {values : List V} {splits : List G}
    (hclosed : Closed peer m) (hwithin : Within digits m)
    (hnodup : values.Nodup) (hmem : ∀ v, v ∈ values ↔ v ∈ m c)
    (hsplits : List.Forall₂ (fun v x => Decides peer m c v (candidates x))
      values splits) :
    completions peer houses digits m =
      ↑((splits.filter complete).map candidates) +
        (↑(splits.filter fun x => !complete x && keep x) : Multiset G).bind
          fun x => completions peer houses digits (candidates x) := by
  rw [completions_children hnodup hmem hsplits]
  apply bind_partition
  · intro x hx hdone
    obtain ⟨hxclosed, hxwithin⟩ :=
      splits_invariant hclosed hwithin hmem hsplits hx
    exact completions_decided hfills hxclosed hxwithin
      ((hcomplete x hxwithin).mp hdone)
  · intro x _ _ hdrop
    refine completions_of_not_live fun hlive => ?_
    rw [hkeep x hlive] at hdrop
    exact absurd hdrop (by simp)

end SudokuSolver.Propagation
