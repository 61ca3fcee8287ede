import Mathlib.Order.WellFoundedSet
import SudokuSolver.Support.GenericFor

/-!
# Recursion over a graph

A function that visits an item and then calls itself for each of the next ones,
without a note of where it has been.  With a bound on the nested calls it ends
if no chain of next items is longer, and so some bound is enough if and only if
no cycle can be reached.  Then exactly the items that can be reached have been
visited.
-/

namespace SudokuSolver

variable {α σ : Type}

/-! ## The walk -/

/-- Visits the item and walks on from each of the next ones.  The bound is on
the nested calls, and there is no result if it is too small. -/
def walk (next : α → List α) (visit : α → σ → σ) : ℕ → α → σ → Option σ
  | 0, _, _ => none
  | depth + 1, a, st =>
      (next a).foldlM (fun st b => walk next visit depth b st) (visit a st)

/-- No chain of next items is as long as the bound. -/
def Ends (next : α → List α) : ℕ → α → Prop
  | 0, _ => False
  | depth + 1, a => ∀ b ∈ next a, Ends next depth b

/-- The items in the order in which they are visited. -/
def visited (next : α → List α) : ℕ → α → List α
  | 0, _ => []
  | depth + 1, a => a :: (next a).flatMap (visited next depth)

variable {next : α → List α} {visit : α → σ → σ} {depth : ℕ} {a b : α}
variable {st st' : σ}

theorem foldlM_eq_some_iff {step : σ → α → Option σ} {ends : α → Prop}
    {order : α → List α}
    (hstep : ∀ a st st', step st a = some st' ↔
      ends a ∧ (order a).foldl (fun st b => visit b st) st = st')
    (l : List α) (st st' : σ) :
    l.foldlM step st = some st' ↔
      (∀ a ∈ l, ends a) ∧
        (l.flatMap order).foldl (fun st b => visit b st) st = st' := by
  induction l generalizing st with
  | nil => simp [pure]
  | cons a l ih =>
      rw [List.foldlM_cons, List.forall_mem_cons, List.flatMap_cons,
        List.foldl_append]
      constructor
      · intro h
        obtain ⟨mid, hmid, h⟩ := Option.bind_eq_some_iff.mp h
        obtain ⟨ha, rfl⟩ := (hstep a st mid).mp hmid
        obtain ⟨hl, h⟩ := (ih _).mp h
        exact ⟨⟨ha, hl⟩, h⟩
      · rintro ⟨⟨ha, hl⟩, h⟩
        apply Option.bind_eq_some_iff.mpr
        exact ⟨_, (hstep a st _).mpr ⟨ha, rfl⟩, (ih _).mpr ⟨hl, h⟩⟩

/-- The walk visits the items one after another, if the bound is enough. -/
theorem walk_eq_some_iff :
    walk next visit depth a st = some st' ↔
      Ends next depth a ∧
        (visited next depth a).foldl (fun st b => visit b st) st = st' := by
  induction depth generalizing a st st' with
  | zero => simp [walk, Ends]
  | succ depth ih =>
      rw [walk, visited, List.foldl_cons]
      apply foldlM_eq_some_iff
      intro b st st'
      exact ih

theorem isSome_walk_iff :
    (walk next visit depth a st).isSome = true ↔ Ends next depth a := by
  rw [Option.isSome_iff_exists]
  constructor
  · rintro ⟨st', h⟩
    exact (walk_eq_some_iff.mp h).1
  · intro h
    exact ⟨_, walk_eq_some_iff.mpr ⟨h, rfl⟩⟩

/-- A loop ends if each of its steps does, in whatever state it comes to. -/
theorem isSome_foldlM_iff {step : σ → α → Option σ} {ends : α → Prop}
    (hstep : ∀ a st, (step st a).isSome = true ↔ ends a) (l : List α) (st : σ) :
    (l.foldlM step st).isSome = true ↔ ∀ a ∈ l, ends a := by
  induction l generalizing st with
  | nil => simp [pure]
  | cons a l ih =>
      rw [List.foldlM_cons, List.forall_mem_cons, ← hstep a st]
      rcases step st a with _ | mid
      · simp
      · simpa using ih mid

/-! ## What is visited -/

/-- The items that are visited are those that can be reached. -/
theorem mem_visited_iff (h : Ends next depth a) :
    b ∈ visited next depth a ↔ Relation.ReflTransGen (Appends next) a b := by
  induction depth generalizing a with
  | zero => cases h
  | succ depth ih =>
      rw [visited, List.mem_cons, List.mem_flatMap,
        Relation.ReflTransGen.cases_head_iff]
      constructor
      · rintro (rfl | ⟨c, hc, hb⟩)
        · exact Or.inl rfl
        · exact Or.inr ⟨c, hc, (ih (h c hc)).mp hb⟩
      · rintro (rfl | ⟨c, hc, hb⟩)
        · exact Or.inl rfl
        · exact Or.inr ⟨c, hc, (ih (h c hc)).mpr hb⟩

theorem head?_visited (h : Ends next depth a) :
    (visited next depth a).head? = some a := by
  cases depth with
  | zero => cases h
  | succ depth => rfl

theorem Ends.mono {depth' : ℕ} (hle : depth ≤ depth')
    (h : Ends next depth a) : Ends next depth' a := by
  induction depth generalizing a depth' with
  | zero => cases h
  | succ depth ih =>
      obtain ⟨k, rfl⟩ := Nat.exists_eq_succ_of_ne_zero
        (Nat.pos_iff_ne_zero.mp (Nat.zero_lt_of_lt hle))
      exact fun b hb => ih (Nat.le_of_succ_le_succ hle) (h b hb)

/-- If some bound is enough for each item of a list, one is enough for all of
them. -/
theorem exists_forall_of_mono {ends : ℕ → α → Prop}
    (hmono : ∀ a d d', d ≤ d' → ends d a → ends d' a) {l : List α}
    (h : ∀ a ∈ l, ∃ depth, ends depth a) : ∃ depth, ∀ a ∈ l, ends depth a := by
  induction l with
  | nil => exact ⟨0, fun a ha => absurd ha List.not_mem_nil⟩
  | cons a l ih =>
      obtain ⟨hhead, htail⟩ := List.forall_mem_cons.mp h
      obtain ⟨d, hd⟩ := hhead
      obtain ⟨d', hd'⟩ := ih htail
      refine ⟨max d d', List.forall_mem_cons.mpr ⟨?_, fun b hb => ?_⟩⟩
      · exact hmono a d _ (le_max_left d d') hd
      · exact hmono b d' _ (le_max_right d d') (hd' b hb)

/-! ## Cycles -/

theorem exists_ends_iff_acc :
    (∃ depth, Ends next depth a) ↔ Acc (fun b a => Appends next a b) a := by
  constructor
  · rintro ⟨depth, h⟩
    induction depth generalizing a with
    | zero => cases h
    | succ depth ih => exact Acc.intro a fun b hb => ih (h b hb)
  · intro h
    induction h with
    | intro a _ ih =>
        have hnext : ∃ depth, ∀ b ∈ next a, Ends next depth b := by
          apply exists_forall_of_mono
          · exact fun _ _ _ => Ends.mono
          · exact ih
        obtain ⟨depth, hdepth⟩ := hnext
        exact ⟨depth + 1, hdepth⟩

variable {r : α → α → Prop}

theorem not_transGen_of_acc (h : Acc (fun b a => r a b) a) :
    ¬Relation.TransGen r a a := by
  induction h with
  | intro a _ ih =>
      intro hcycle
      obtain ⟨b, hab, hba⟩ := Relation.TransGen.head'_iff.mp hcycle
      exact ih b hab (Relation.TransGen.tail' hba hab)

/-- Where finitely many items can be reached, the recursion is well-founded
exactly when none of them leads back to itself. -/
theorem acc_iff_acyclic
    (hfinite : {b | Relation.ReflTransGen r a b}.Finite) :
    Acc (fun b a => r a b) a ↔
      ∀ b, Relation.ReflTransGen r a b → ¬Relation.TransGen r b b := by
  constructor
  · intro h b hab
    have hb : Acc (fun b a => r a b) b := by
      induction hab with
      | refl => exact h
      | tail _ hstep ih => exact ih.inv hstep
    exact not_transGen_of_acc hb
  · intro hacyclic
    let below : α → α → Prop := fun c b =>
      Relation.ReflTransGen r a b ∧ Relation.TransGen r b c
    have hirrefl : Std.Irrefl below := ⟨fun b h => hacyclic b h.1 h.2⟩
    have htrans : IsTrans α below :=
      ⟨fun _ _ _ hcb hba => ⟨hba.1, hba.2.trans hcb.2⟩⟩
    have hstrict : IsStrictOrder α below := {}
    have hwf := Set.wellFoundedOn_iff.mp (hfinite.wellFoundedOn (r := below))
    have hacc : ∀ b, Relation.ReflTransGen r a b →
        Acc (fun b a => r a b) b := by
      intro b
      induction b using hwf.induction with
      | h b ih =>
          intro hb
          apply Acc.intro
          intro c hbc
          have hc := hb.tail hbc
          exact ih c ⟨⟨hb, Relation.TransGen.single hbc⟩, hc, hb⟩ hc
    exact hacc a Relation.ReflTransGen.refl

/-- Only finitely many items can be reached if the next ones are in a list. -/
theorem finite_reachable {l : List α} (h : ∀ a, ∀ b ∈ next a, b ∈ l) (a : α) :
    {b | Relation.ReflTransGen (Appends next) a b}.Finite := by
  apply (List.finite_toSet (a :: l)).subset
  intro b hb
  rcases Relation.ReflTransGen.cases_tail hb with rfl | ⟨c, -, hc⟩
  · exact List.mem_cons_self
  · exact List.mem_cons_of_mem a (h c b hc)

/-- Some bound is enough exactly when no cycle can be reached. -/
theorem exists_ends_iff
    (hfinite : {b | Relation.ReflTransGen (Appends next) a b}.Finite) :
    (∃ depth, Ends next depth a) ↔
      ∀ b, Relation.ReflTransGen (Appends next) a b →
        ¬Relation.TransGen (Appends next) b b := by
  rw [exists_ends_iff_acc, acc_iff_acyclic hfinite]

end SudokuSolver
