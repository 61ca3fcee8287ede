import Mathlib.Data.List.Basic
import Mathlib.Logic.Hydra
import SudokuSolver.Support.Loop

/-!
# The generic `for` of Lua

The generic `for` and `ipairs`.  The iterator is called in the state that the
body has left behind, so it sees what the body has changed: a loop over a list
to which its body appends comes to the appended items too.  Such a loop ends when
the items appended for an item are below it in a well-founded relation, and then
the list is closed.
-/

namespace SudokuSolver

variable {σ κ ν ρ : Type}

/-! ## The loop -/

/-- One round of a generic `for`: a call of the iterator with the control value
and a run of the body on what the call returns.  The body can leave the loop
with a result, and the round fails when the call does. -/
def forRound (iterator : σ → κ → Option (Option (κ × ν)))
    (body : ν → σ → Except ρ σ) (p : κ × σ) :
    Option ((κ × σ) ⊕ Except ρ σ) :=
  (iterator p.2 p.1).map fun next =>
    match next with
    | none => .inr (.ok p.2)
    | some (newControl, values) =>
        match body values p.2 with
        | .ok newState => .inl (newControl, newState)
        | .error result => .inr (.error result)

/-- The generic `for`. -/
def genericFor (iterator : σ → κ → Option (Option (κ × ν)))
    (body : ν → σ → Except ρ σ) (control : κ) (start : σ) :
    Option (Except ρ σ) :=
  have : Nonempty (Except ρ σ) := ⟨.ok start⟩
  loop (forRound iterator body) (control, start)

section Rules

variable {iterator : σ → κ → Option (Option (κ × ν))}
  {body : ν → σ → Except ρ σ} {control newControl : κ} {values : ν}
  {state newState : σ} {result : ρ}

theorem genericFor_done (h : iterator state control = some none) :
    genericFor iterator body control state = some (.ok state) := by
  have : Nonempty (Except ρ σ) := ⟨.ok state⟩
  apply loop_done
  rw [forRound, h, Option.map_some]

theorem genericFor_next
    (h : iterator state control = some (some (newControl, values)))
    (hbody : body values state = .ok newState) :
    genericFor iterator body control state =
      genericFor iterator body newControl newState := by
  have : Nonempty (Except ρ σ) := ⟨.ok state⟩
  apply loop_next
  rw [forRound, h, Option.map_some]
  simp only [hbody]

theorem genericFor_return
    (h : iterator state control = some (some (newControl, values)))
    (hbody : body values state = .error result) :
    genericFor iterator body control state = some (.error result) := by
  have : Nonempty (Except ρ σ) := ⟨.ok state⟩
  apply loop_done
  rw [forRound, h, Option.map_some]
  simp only [hbody]

end Rules

/-! ## `ipairs` -/

variable {β : Type}

/-- The iterator of `ipairs`, which returns an index and the item there until
it comes to an index without an item. -/
def ipairs (array : σ → List β) (state : σ) (index : ℕ) :
    Option (Option (ℕ × (ℕ × β))) :=
  some ((array state)[index]?.map fun item => (index + 1, index + 1, item))

/-- The items that `ipairs` comes to from an index on, with their indices. -/
theorem genericFor_ipairs_drop (l : List β) (body : ℕ × β → σ → Except ρ σ)
    (index : ℕ) (start : σ) :
    genericFor (ipairs fun _ => l) body index start =
      some (((l.drop index).zipIdx (index + 1)).foldlM
        (fun st p => body (p.2, p.1) st) start) := by
  generalize hrest : l.drop index = rest
  induction rest generalizing index start with
  | nil =>
      apply genericFor_done
      rw [ipairs, List.getElem?_eq_none (List.drop_eq_nil_iff.mp hrest),
        Option.map_none]
  | cons item rest ih =>
      have hitem : l[index]? = some item := by
        rw [← List.head?_drop, hrest, List.head?_cons]
      have hcall : ipairs (fun _ => l) start index =
          some (some (index + 1, index + 1, item)) := by
        rw [ipairs, hitem, Option.map_some]
      have hnext : l.drop (index + 1) = rest := by
        rw [← List.tail_drop, hrest, List.tail_cons]
      rw [List.zipIdx_cons, List.foldlM_cons]
      rcases hbody : body (index + 1, item) start with result | next
      · exact genericFor_return hcall hbody
      · rw [genericFor_next hcall hbody, ih (index + 1) next hnext]
        rfl

/-- A loop over a list that its body does not change. -/
theorem genericFor_ipairs (l : List β) (body : ℕ × β → σ → Except ρ σ)
    (start : σ) :
    genericFor (ipairs fun _ => l) body 0 start =
      some ((l.zipIdx 1).foldlM (fun st p => body (p.2, p.1) st) start) :=
  genericFor_ipairs_drop l body 0 start

/-! ## A list that grows under the loop -/

variable {next : β → List β}

/-- The relation whose steps go from an item to what is appended for it. -/
def Appends (next : β → List β) (a b : β) : Prop := b ∈ next a

/-- From an index on, every item comes to have what is appended for it in the
list, and nothing else is appended. -/
theorem genericFor_ipairs_grow_drop
    (hnext : WellFounded fun b a => Appends next a b) (index : ℕ)
    (l : List β) :
    ∃ appended, genericFor (ipairs id) (fun p list =>
          (.ok (list ++ next p.2) : Except ρ (List β))) index l =
        some (.ok (l ++ appended)) ∧
      (∀ b ∈ appended, ∃ a ∈ l.drop index,
        Relation.ReflTransGen (Appends next) a b) ∧
      ∀ a ∈ l.drop index ++ appended, ∀ b ∈ next a, b ∈ l ++ appended := by
  -- every round replaces an item by items below it
  generalize hpending : (l.drop index : Multiset β) = pending
  induction pending using hnext.cutExpand.induction generalizing index l with
  | h pending ih =>
      rcases hrest : l.drop index with _ | ⟨item, rest⟩
      · refine ⟨[], ?_, by simp, by simp⟩
        rw [List.append_nil]
        apply genericFor_done
        rw [ipairs, id, List.getElem?_eq_none (List.drop_eq_nil_iff.mp hrest),
          Option.map_none]
      · have hitem : l[index]? = some item := by
          rw [← List.head?_drop, hrest, List.head?_cons]
        have hlt : index < l.length := (List.getElem?_eq_some_iff.mp hitem).1
        have hdrop : (l ++ next item).drop (index + 1) = rest ++ next item := by
          rw [List.drop_append_of_le_length hlt, ← List.tail_drop, hrest,
            List.tail_cons]
        have hcut : Relation.CutExpand (fun b a => Appends next a b)
            ((l ++ next item).drop (index + 1) : Multiset β) pending := by
          refine ⟨(next item : Multiset β), item, fun b hb => hb, ?_⟩
          rw [← hpending, hdrop, hrest, ← Multiset.coe_add, add_right_comm]
          congr 1
          rw [add_comm, Multiset.singleton_add, Multiset.cons_coe]
        obtain ⟨appended, hrun, hreached, hclosed⟩ :=
          ih _ hcut (index + 1) (l ++ next item) rfl
        rw [hdrop] at hreached hclosed
        refine ⟨next item ++ appended, ?_, ?_, ?_⟩
        · rw [← List.append_assoc, ← hrun]
          apply genericFor_next
          · rw [ipairs, id, hitem, Option.map_some]
          · rfl
        · intro b hb
          rcases List.mem_append.mp hb with hb | hb
          · exact ⟨item, List.mem_cons_self, Relation.ReflTransGen.single hb⟩
          · obtain ⟨a, ha, hab⟩ := hreached b hb
            rcases List.mem_append.mp ha with ha | ha
            · exact ⟨a, List.mem_cons_of_mem item ha, hab⟩
            · exact ⟨item, List.mem_cons_self,
                Relation.ReflTransGen.head ha hab⟩
        · intro a ha b hb
          rw [← List.append_assoc]
          rw [List.cons_append, ← List.append_assoc] at ha
          rcases List.mem_cons.mp ha with rfl | ha
          · exact List.mem_append_left _ (List.mem_append_right _ hb)
          · exact hclosed a ha b hb

/-- A loop that appends to the list it goes over ends with the closure of the
list. -/
theorem genericFor_ipairs_grow
    (hnext : WellFounded fun b a => Appends next a b) (l : List β) :
    ∃ closed, genericFor (ipairs id) (fun p list =>
          (.ok (list ++ next p.2) : Except ρ (List β))) 0 l =
        some (.ok closed) ∧
      ∀ b, b ∈ closed ↔
        ∃ a ∈ l, Relation.ReflTransGen (Appends next) a b := by
  obtain ⟨appended, hrun, hreached, hclosed⟩ :=
    genericFor_ipairs_grow_drop (ρ := ρ) hnext 0 l
  refine ⟨l ++ appended, hrun, fun b => ⟨fun hb => ?_, ?_⟩⟩
  · rcases List.mem_append.mp hb with hb | hb
    · exact ⟨b, hb, Relation.ReflTransGen.refl⟩
    · exact hreached b hb
  · rintro ⟨a, ha, hab⟩
    induction hab with
    | refl => exact List.mem_append_left _ ha
    | tail _ hstep ih => exact hclosed _ ih _ hstep

end SudokuSolver
