import Mathlib.Data.Sum.Basic

/-!
# Loops

A loop whose body either goes on with another state or ends with a result.  The
body can fail, and then so does the loop.  All that is known of the loop is that
it is the first round and then the loop again: a result that the rounds come to
is its result, and nothing follows where they go on for ever.
-/

namespace SudokuSolver

variable {α β : Type} [Nonempty β] {body : α → Option (α ⊕ β)} {a a' : α}
  {b : β}

/-- Repeats the body until it ends with a result. -/
def loop (body : α → Option (α ⊕ β)) (a : α) : Option β := repeatM body a

theorem loop_eq (body : α → Option (α ⊕ β)) (a : α) :
    loop body a = (body a).bind (Sum.elim (loop body) some) := by
  rw [loop, repeatM_eq_of_monadTail a, repeatM.body, Option.bind_eq_bind]
  refine congrArg _ (funext fun next => ?_)
  cases next with
  | inl a' => rfl
  | inr b => rfl

theorem loop_next (h : body a = some (.inl a')) :
    loop body a = loop body a' := by
  rw [loop_eq, h, Option.bind_some, Sum.elim_inl]

theorem loop_done (h : body a = some (.inr b)) : loop body a = some b := by
  rw [loop_eq, h, Option.bind_some, Sum.elim_inr]

end SudokuSolver
