import Mathlib.Data.List.Cycle
import Mathlib.Logic.Function.Basic

/-!
# Rings of linked nodes

A circular doubly linked list, by the two link fields of its nodes.  A node that
is not there has no links.  Taking a node out of a ring and putting one into it
are two writes and four writes; the links of all other nodes stay as they are.
-/

namespace SudokuSolver.LinkedList

variable {P : Type*} {next prev next' prev' : P → Option P}

/-- The second node follows the first one, in both directions. -/
def Linked (next prev : P → Option P) (p q : P) : Prop :=
  next p = some q ∧ prev q = some p

/-- The nodes of a ring, beginning with any of them. -/
structure IsRing (next prev : P → Option P) (l : List P) : Prop where
  nodup : l.Nodup
  linked : Cycle.Chain (Linked next prev) (l : Cycle P)

theorem isRing_nil : IsRing next prev [] := ⟨List.nodup_nil, trivial⟩

/-- A ring has no first node. -/
theorem isRing_concat_iff {p : P} {l : List P} :
    IsRing next prev (l ++ [p]) ↔ IsRing next prev (p :: l) := by
  have hperm : (l ++ [p]).Perm (p :: l) := List.perm_append_singleton p l
  have hcycle : ((p :: l : List P) : Cycle P) = (l ++ [p] : List P) :=
    Cycle.coe_cons_eq_coe_append l p
  constructor
  · rintro ⟨hnodup, hlinked⟩
    exact ⟨hperm.nodup_iff.mp hnodup, hcycle ▸ hlinked⟩
  · rintro ⟨hnodup, hlinked⟩
    exact ⟨hperm.nodup_iff.mpr hnodup, hcycle ▸ hlinked⟩

/-- A ring is a row of linked nodes that is closed by one more link. -/
theorem isRing_cons_iff {p : P} {l : List P} :
    IsRing next prev (p :: l) ↔
      (p :: l).Nodup ∧ List.IsChain (Linked next prev) (p :: l) ∧
        Linked next prev ((p :: l).getLast (List.cons_ne_nil p l)) p := by
  have hsplit : List.IsChain (Linked next prev) (p :: (l ++ [p])) ↔
      List.IsChain (Linked next prev) (p :: l) ∧
        Linked next prev ((p :: l).getLast (List.cons_ne_nil p l)) p := by
    rw [← List.cons_append, List.isChain_append]
    simp [List.getLast?_eq_some_getLast (List.cons_ne_nil p l)]
  constructor
  · rintro ⟨hnodup, hlinked⟩
    exact ⟨hnodup, hsplit.mp hlinked⟩
  · rintro ⟨hnodup, hlinked⟩
    exact ⟨hnodup, hsplit.mpr hlinked⟩

/-- A row of different nodes reads neither the last link forwards nor the first
one backwards. -/
theorem isChain_congr {l : List P} (hne : l ≠ []) (hnodup : l.Nodup)
    (hnext : ∀ p ∈ l, p ≠ l.getLast hne → next' p = next p)
    (hprev : ∀ p ∈ l, p ≠ l.head hne → prev' p = prev p)
    (h : List.IsChain (Linked next prev) l) :
    List.IsChain (Linked next' prev') l := by
  rw [List.isChain_iff_forall_rel_of_append_cons_cons] at h ⊢
  intro a b l₁ l₂ heq
  obtain ⟨hab, hba⟩ := h heq
  subst heq
  obtain ⟨-, hnodup', hapart⟩ := List.nodup_append.mp hnodup
  obtain ⟨ha, -⟩ := List.nodup_cons.mp hnodup'
  constructor
  · rw [hnext a (by simp) ?_, hab]
    intro hlast
    rw [List.getLast_append_of_right_ne_nil _ _ (List.cons_ne_nil a _),
      List.getLast_cons (List.cons_ne_nil b l₂)] at hlast
    exact ha (hlast ▸ List.getLast_mem _)
  · rw [hprev b (by simp) ?_, hba]
    intro hhead
    cases l₁ with
    | nil => exact ha (hhead ▸ List.mem_cons_self)
    | cons c l₁ => exact hapart c List.mem_cons_self b (by simp) hhead.symm

/-- Links of other nodes do not matter. -/
theorem IsRing.congr {l : List P} (h : IsRing next prev l)
    (hnext : ∀ p ∈ l, next' p = next p) (hprev : ∀ p ∈ l, prev' p = prev p) :
    IsRing next' prev' l := by
  cases l with
  | nil => exact isRing_nil
  | cons p l =>
      obtain ⟨hnodup, hchain, hfirst, hlast⟩ := isRing_cons_iff.mp h
      refine isRing_cons_iff.mpr ⟨hnodup, ?_, ?_, ?_⟩
      · exact isChain_congr (List.cons_ne_nil p l) hnodup
          (fun q hq _ => hnext q hq) (fun q hq _ => hprev q hq) hchain
      · rw [hnext _ (List.getLast_mem _), hfirst]
      · rw [hprev p List.mem_cons_self, hlast]

/-- A node that is linked to itself. -/
theorem isRing_singleton {p : P} (hnext : next p = some p)
    (hprev : prev p = some p) : IsRing next prev [p] :=
  isRing_cons_iff.mpr
    ⟨List.nodup_singleton p, List.isChain_singleton p, hnext, hprev⟩

/-- The first node has links, and the one backwards is to the last node. -/
theorem IsRing.exists_links {p : P} {l : List P}
    (h : IsRing next prev (p :: l)) :
    (∃ q, next p = some q) ∧
      prev p = some ((p :: l).getLast (List.cons_ne_nil p l)) := by
  obtain ⟨-, hchain, hnext, hprev⟩ := isRing_cons_iff.mp h
  refine ⟨?_, hprev⟩
  cases l with
  | nil => exact ⟨p, hnext⟩
  | cons q l => exact ⟨q, (List.isChain_cons_cons.mp hchain).1.1⟩

/-- A ring begins with any of its nodes. -/
theorem IsRing.exists_rotation {p : P} {l : List P} (h : IsRing next prev l)
    (hp : p ∈ l) :
    ∃ l', IsRing next prev (p :: l') ∧ ∀ q, q ∈ p :: l' ↔ q ∈ l := by
  obtain ⟨l₁, l₂, rfl⟩ := List.append_of_mem hp
  have hcycle : ((l₁ ++ p :: l₂ : List P) : Cycle P) =
      (p :: l₂ ++ l₁ : List P) :=
    Cycle.coe_eq_coe.mpr List.isRotated_append
  have hperm : (l₁ ++ p :: l₂).Perm (p :: l₂ ++ l₁) := List.perm_append_comm
  refine ⟨l₂ ++ l₁, ⟨?_, ?_⟩, fun q => hperm.mem_iff.symm⟩
  · exact hperm.nodup_iff.mp h.nodup
  · exact hcycle ▸ h.linked

/-- Following the links forwards and backwards leads back. -/
theorem IsRing.next_eq_some_iff {p q : P} {l : List P} (h : IsRing next prev l)
    (hp : p ∈ l) : next p = some q ↔ q ∈ l ∧ prev q = some p := by
  constructor
  · intro hq
    obtain ⟨l', hring, hmem⟩ := h.exists_rotation hp
    cases l' with
    | nil =>
        obtain ⟨-, -, hnext, hprev⟩ := isRing_cons_iff.mp hring
        obtain rfl : p = q := Option.some.inj (hnext.symm.trans hq)
        exact ⟨hp, hprev⟩
    | cons a l' =>
        obtain ⟨-, hchain, -⟩ := isRing_cons_iff.mp hring
        obtain ⟨hnext, hprev⟩ := (List.isChain_cons_cons.mp hchain).1
        obtain rfl : a = q := Option.some.inj (hnext.symm.trans hq)
        exact ⟨(hmem a).mp (by simp), hprev⟩
  · rintro ⟨hq, hprev⟩
    obtain ⟨l', hring, -⟩ := h.exists_rotation hq
    obtain ⟨-, -, hnext, hlast⟩ := isRing_cons_iff.mp hring
    rw [hprev] at hlast
    exact Option.some.inj hlast ▸ hnext

/-- The links of the first of several nodes. -/
theorem IsRing.links {p q : P} {l : List P}
    (h : IsRing next prev (p :: q :: l)) :
    next p = some q ∧
      prev p = some ((q :: l).getLast (List.cons_ne_nil q l)) := by
  obtain ⟨-, hchain, hlast⟩ := isRing_cons_iff.mp h
  rw [List.getLast_cons (List.cons_ne_nil q l)] at hlast
  exact ⟨(List.isChain_cons_cons.mp hchain).1.1, hlast.2⟩

variable [DecidableEq P]

/-- Taking the first node out of a ring. -/
theorem IsRing.unlink {p q r : P} {l : List P}
    (h : IsRing next prev (p :: q :: l)) (hr : prev p = some r) :
    IsRing (Function.update next r (some q)) (Function.update prev q (some r))
      (q :: l) := by
  have hlast : (q :: l).getLast (List.cons_ne_nil q l) = r :=
    Option.some.inj (h.links.2.symm.trans hr)
  obtain ⟨hnodup, hchain, -⟩ := isRing_cons_iff.mp h
  obtain ⟨-, hnodup⟩ := List.nodup_cons.mp hnodup
  refine isRing_cons_iff.mpr ⟨hnodup, ?_, ?_⟩
  · refine isChain_congr (List.cons_ne_nil q l) hnodup ?_ ?_
      (List.isChain_cons_cons.mp hchain).2
    · intro a _ ha
      rw [hlast] at ha
      exact Function.update_of_ne ha _ _
    · intro a _ ha
      exact Function.update_of_ne ha _ _
  · rw [hlast]
    exact ⟨Function.update_self .., Function.update_self ..⟩

/-- Putting a node in front of the first one of a ring. -/
theorem IsRing.push {p q r : P} {l : List P} (h : IsRing next prev (q :: l))
    (hp : p ∉ q :: l) (hr : prev q = some r) :
    IsRing
      (Function.update (Function.update next p (some q)) r (some p))
      (Function.update (Function.update prev p (some r)) q (some p))
      (p :: q :: l) := by
  obtain ⟨hnodup, hchain, hclosed⟩ := isRing_cons_iff.mp h
  have hlast : (q :: l).getLast (List.cons_ne_nil q l) = r :=
    Option.some.inj (hclosed.2.symm.trans hr)
  have hmem : r ∈ q :: l := hlast ▸ List.getLast_mem _
  have hpr : p ≠ r := fun heq => hp (heq ▸ hmem)
  have hpq : p ≠ q := fun heq => hp (heq ▸ List.mem_cons_self)
  refine isRing_cons_iff.mpr
    ⟨List.nodup_cons.mpr ⟨hp, hnodup⟩, List.isChain_cons_cons.mpr ⟨?_, ?_⟩, ?_⟩
  · refine ⟨?_, Function.update_self ..⟩
    rw [Function.update_of_ne hpr, Function.update_self]
  · refine isChain_congr (List.cons_ne_nil q l) hnodup ?_ ?_ hchain
    · intro a ha hne
      rw [hlast] at hne
      rw [Function.update_of_ne hne, Function.update_of_ne]
      exact fun heq => hp (heq ▸ ha)
    · intro a ha hne
      rw [List.head_cons] at hne
      rw [Function.update_of_ne hne, Function.update_of_ne]
      exact fun heq => hp (heq ▸ ha)
  · rw [List.getLast_cons (List.cons_ne_nil q l), hlast]
    refine ⟨Function.update_self .., ?_⟩
    rw [Function.update_of_ne hpq, Function.update_self]

end SudokuSolver.LinkedList
