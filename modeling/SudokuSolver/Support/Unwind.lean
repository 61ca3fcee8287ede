import Mathlib.Data.List.Basic

/-!
# Code that throws, and destructors

Code with a state either returns or throws, and a destructor runs however its
block is left.  A triple has a postcondition for either end, and there is a rule
for each way to compose code.
-/

namespace SudokuSolver.Unwind

variable {σ ε α β : Type}

/-- Code with a state that may throw. -/
abbrev Code (σ ε α : Type) := ExceptT ε (StateM σ) α

/-- How the code ends, and the state then. -/
def exec (code : Code σ ε α) (st : σ) : Except ε α × σ := code.run.run st

/-- Code that starts where `P` holds returns where `Q` holds, or throws where
`E` holds. -/
def Triple (P : σ → Prop) (code : Code σ ε α) (Q : α → σ → Prop)
    (E : ε → σ → Prop) : Prop :=
  ∀ st, P st →
    (∀ a st', exec code st = (.ok a, st') → Q a st') ∧
    ∀ e st', exec code st = (.error e, st') → E e st'

/-! ## Running -/

theorem exec_bind_ok {code : Code σ ε α} {next : α → Code σ ε β} {st st' : σ}
    {a : α} (h : exec code st = (.ok a, st')) :
    exec (code >>= next) st = exec (next a) st' := by
  have hrun : exec (code >>= next) st =
      match exec code st with
      | (r, st) => exec (ExceptT.mk (ExceptT.bindCont next r)) st := rfl
  rw [hrun, h]
  rfl

theorem exec_bind_error {code : Code σ ε α} {next : α → Code σ ε β}
    {st st' : σ} {e : ε} (h : exec code st = (.error e, st')) :
    exec (code >>= next) st = (.error e, st') := by
  have hrun : exec (code >>= next) st =
      match exec code st with
      | (r, st) => exec (ExceptT.mk (ExceptT.bindCont next r)) st := rfl
  rw [hrun, h]
  rfl

/-- A destructor that does not throw leaves the way a block ends. -/
theorem exec_tryFinally {block : Code σ ε α} {destructor : Code σ ε β}
    {st st' st'' : σ} {r : Except ε α} {b : β}
    (hblock : exec block st = (r, st'))
    (hdestructor : exec destructor st' = (.ok b, st'')) :
    exec (tryFinally block destructor) st = (r, st'') := by
  have hb : block st = (r, st') := hblock
  have hd : destructor st' = (.ok b, st'') := hdestructor
  cases r with
  | ok a =>
      simp only [exec, tryFinally, tryFinally', StateT.run, ExceptT.run,
        Functor.map, ExceptT.map, ExceptT.mk, bind, StateT.bind, hb, hd]
      rfl
  | error e =>
      simp only [exec, tryFinally, tryFinally', StateT.run, ExceptT.run,
        Functor.map, ExceptT.map, ExceptT.mk, bind, StateT.bind, hb, hd]
      rfl

namespace Triple

variable {P P' : σ → Prop} {Q Q' : α → σ → Prop} {E E' : ε → σ → Prop}

theorem pure {a : α} (h : ∀ st, P st → Q a st) :
    Triple P (pure a : Code σ ε α) Q E := by
  intro st hst
  refine ⟨fun b st' hend => ?_, fun e st' hend => ?_⟩
  · cases hend
    exact h st hst
  · cases hend

theorem throw {e : ε} (h : ∀ st, P st → E e st) :
    Triple P (throw e : Code σ ε α) Q E := by
  intro st hst
  refine ⟨fun b st' hend => ?_, fun e st' hend => ?_⟩
  · cases hend
  · cases hend
    exact h st hst

theorem modifyGet {f : σ → α × σ} (h : ∀ st, P st → Q (f st).1 (f st).2) :
    Triple P (modifyGet f : Code σ ε α) Q E := by
  intro st hst
  refine ⟨fun b st' hend => ?_, fun e st' hend => ?_⟩
  · cases hend
    exact h st hst
  · cases hend

theorem update {f : σ → σ} {Q : PUnit → σ → Prop}
    (h : ∀ st, P st → Q PUnit.unit (f st)) :
    Triple P (modify f : Code σ ε PUnit) Q E :=
  modifyGet h

/-- A weaker precondition and stronger postconditions do. -/
theorem consequence {code : Code σ ε α} (h : Triple P' code Q' E')
    (hP : ∀ st, P st → P' st) (hQ : ∀ a st, Q' a st → Q a st)
    (hE : ∀ e st, E' e st → E e st) : Triple P code Q E := by
  intro st hst
  obtain ⟨hreturn, hthrow⟩ := h st (hP st hst)
  exact ⟨fun a st' hend => hQ a st' (hreturn a st' hend),
    fun e st' hend => hE e st' (hthrow e st' hend)⟩

/-- What is known besides the state. -/
theorem known {code : Code σ ε α} {p : Prop} (h : p → Triple P code Q E) :
    Triple (fun st => P st ∧ p) code Q E :=
  fun st hst => h hst.2 st hst.1

/-- One of two preconditions holds. -/
theorem either {code : Code σ ε α} (h : Triple P code Q E)
    (h' : Triple P' code Q E) : Triple (fun st => P st ∨ P' st) code Q E := by
  intro st hst
  rcases hst with hst | hst
  · exact h st hst
  · exact h' st hst

theorem bind {code : Code σ ε α} {next : α → Code σ ε β} {R : α → σ → Prop}
    {Q : β → σ → Prop} (hcode : Triple P code R E)
    (hnext : ∀ a, Triple (R a) (next a) Q E) :
    Triple P (code >>= next) Q E := by
  intro st hst
  obtain ⟨hreturn, hthrow⟩ := hcode st hst
  rcases hcase : exec code st with ⟨e | a, st'⟩
  · rw [exec_bind_error hcase]
    refine ⟨fun b st'' hend => ?_, fun e' st'' hend => ?_⟩
    · cases hend
    · cases hend
      exact hthrow e st' hcase
  · rw [exec_bind_ok hcase]
    exact hnext a st' (hreturn a st' hcase)

/-- Nothing comes after code that always throws. -/
theorem bind_throw {code : Code σ ε α} {next : α → Code σ ε β}
    {Q : β → σ → Prop} (hcode : Triple P code (fun _ _ => False) E) :
    Triple P (code >>= next) Q E :=
  bind hcode fun _ _ => False.elim

/-- A result is compared with the one that it should be. -/
theorem check {γ : Type} [DecidableEq γ] {c good : γ}
    {failing code : Code σ ε α} (hcode : c = good → Triple P code Q E)
    (hfailing : c ≠ good → Triple P failing Q E) :
    Triple P (if c ≠ good then failing else code) Q E := by
  by_cases hc : c = good
  · rw [if_neg (not_not.mpr hc)]
    exact hcode hc
  · rw [if_pos hc]
    exact hfailing hc

/-- An assignment comes before. -/
theorem assign {f : σ → σ} {code : Code σ ε α} {R : σ → Prop}
    (hcode : Triple R code Q E) (hf : ∀ st, P st → R (f st)) :
    Triple P (do
      modify f
      code) Q E :=
  bind (R := fun _ => R) (update hf) fun _ => hcode

/-- The state is read before. -/
theorem read {next : σ → Code σ ε β} {Q : β → σ → Prop}
    (hnext : ∀ st, P st → Triple (fun st' => st' = st) (next st) Q E) :
    Triple P (do
      let st ← get
      next st) Q E := by
  intro st hst
  have hget : exec (get : Code σ ε σ) st = (.ok st, st) := rfl
  rw [exec_bind_ok hget]
  exact hnext st hst st rfl

/-- A destructor runs after a return and after a throw. -/
theorem tryFinally {block : Code σ ε α} {destructor : Code σ ε β}
    (hblock : Triple P block Q' E')
    (hreturn : ∀ a, Triple (Q' a) destructor (fun _ => Q a) fun _ _ => False)
    (hthrow : ∀ e, Triple (E' e) destructor (fun _ => E e) fun _ _ => False) :
    Triple P (tryFinally block destructor) Q E := by
  intro st hst
  obtain ⟨hreturned, hthrown⟩ := hblock st hst
  rcases hcase : exec block st with ⟨e | a, st'⟩
  · obtain ⟨hdone, hfails⟩ := hthrow e st' (hthrown e st' hcase)
    rcases hend : exec destructor st' with ⟨e' | b, st''⟩
    · exact (hfails e' st'' hend).elim
    · rw [exec_tryFinally hcase hend]
      refine ⟨fun a st₁ heq => ?_, fun e₁ st₁ heq => ?_⟩
      · cases heq
      · cases heq
        exact hdone b st'' hend
  · obtain ⟨hdone, hfails⟩ := hreturn a st' (hreturned a st' hcase)
    rcases hend : exec destructor st' with ⟨e' | b, st''⟩
    · exact (hfails e' st'' hend).elim
    · rw [exec_tryFinally hcase hend]
      refine ⟨fun a₁ st₁ heq => ?_, fun e₁ st₁ heq => ?_⟩
      · cases heq
        exact hdone b st'' hend
      · cases heq

/-- A loop with an invariant about the items it has gone through. -/
theorem forM {f : β → Code σ ε PUnit} {I : List β → σ → Prop} {l : List β}
    (hstep : ∀ visited b, b ∈ l →
      Triple (I visited) (f b) (fun _ => I (visited ++ [b])) E)
    (visited : List β) :
    Triple (I visited) (l.forM f) (fun _ => I (visited ++ l)) E := by
  induction l generalizing visited with
  | nil =>
      refine pure fun st hst => ?_
      rwa [List.append_nil]
  | cons b l ih =>
      refine bind (hstep visited b List.mem_cons_self) fun _ => ?_
      have hrest := ih (fun visited c hc =>
        hstep visited c (List.mem_cons_of_mem b hc)) (visited ++ [b])
      rwa [List.append_assoc, List.singleton_append] at hrest

end Triple

end SudokuSolver.Unwind
