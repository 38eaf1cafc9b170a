import FerroHttp.Lib.Interleave
import Mathlib.Algebra.BigOperators.Group.Finset.Basic
import Mathlib.Data.Fintype.BigOperators

/-!
# Adders — tasks that add to shared cells

Every task has a list of amounts to add, each to one of the cells, and one addition is one
step. What is in a cell and what is still to be added to it is the same in all states of a
run (`conserved`), so when all tasks are done no amount is lost, in whatever order they
were added (`run_done`).
-/

namespace Interleave

open scoped BigOperators

section Adders

variable {ι κ M : Type} [DecidableEq ι] [DecidableEq κ] [AddCommMonoid M]

/-- Add the next amount to its cell. -/
def addStep (_ : Unit) (cells : κ → M) : List (κ × M) → List (κ × M) × (κ → M)
  | [] => ([], cells)
  | (k, m) :: rest => (rest, Function.update cells k (cells k + m))

/-- All that a list of amounts adds to a cell. -/
def amount (k : κ) (l : List (κ × M)) : M := (l.map fun e => if e.1 = k then e.2 else 0).sum

variable {k : κ} {s : System ι (κ → M) (List (κ × M))} {events : List (ι × Unit)} {e : ι × Unit}

@[simp] theorem amount_nil : amount k ([] : List (κ × M)) = 0 := rfl

theorem amount_cons (entry : κ × M) (l : List (κ × M)) :
    amount k (entry :: l) = (if entry.1 = k then entry.2 else 0) + amount k l := by
  rw [amount, List.map_cons, List.sum_cons]
  rfl

theorem amount_append (l l' : List (κ × M)) : amount k (l ++ l') = amount k l + amount k l' := by
  rw [amount, List.map_append, List.sum_append]
  rfl

/-- An addition moves an amount from the task to the cell. -/
theorem addStep_amount (cells : κ → M) (l : List (κ × M)) :
    (addStep () cells l).2 k + amount k (addStep () cells l).1 = cells k + amount k l := by
  cases l with
  | nil => rfl
  | cons entry rest =>
    rw [amount_cons]
    show Function.update cells entry.1 (cells entry.1 + entry.2) k + amount k rest = _
    by_cases hk : entry.1 = k
    · subst hk
      rw [Function.update_self, if_pos rfl, add_assoc]
    · rw [Function.update_of_ne (Ne.symm hk), if_neg hk, zero_add]

/-- Additions without interruption. -/
theorem foldl_amount (cells : κ → M) (l : List (κ × M)) :
    l.foldl (fun cells e => Function.update cells e.1 (cells e.1 + e.2)) cells k =
      cells k + amount k l := by
  induction l generalizing cells with
  | nil => rw [amount_nil, add_zero]; rfl
  | cons entry rest ih =>
    rw [List.foldl_cons, ih]
    exact addStep_amount cells (entry :: rest)

variable [Fintype ι]

/-- A cell, with all that is still to be added to it. -/
def settled (s : System ι (κ → M) (List (κ × M))) (k : κ) : M :=
  s.shared k + ∑ i, amount k (s.tasks i)

theorem settled_step : settled (s.step addStep e) k = settled s k := by
  have hothers : ∑ i ∈ {e.1}ᶜ, amount k ((s.step addStep e).tasks i) =
      ∑ i ∈ {e.1}ᶜ, amount k (s.tasks i) := by
    apply Finset.sum_congr rfl
    intro i hi
    rw [System.tasks_step_ne (by simpa using hi)]
  have hself := addStep_amount s.shared (s.tasks e.1) (k := k)
  unfold settled
  rw [Fintype.sum_eq_add_sum_compl e.1, Fintype.sum_eq_add_sum_compl e.1, hothers,
    System.tasks_step_self, ← add_assoc, ← add_assoc]
  exact congrArg (· + _) hself

/-- In every state of a run, the cell and what is still to be added come to the same. -/
theorem conserved (s : System ι (κ → M) (List (κ × M))) (events : List (ι × Unit)) (k : κ) :
    settled (s.run addStep events) k = settled s k := by
  induction events generalizing s with
  | nil => rfl
  | cons e events ih => exact (ih (s.step addStep e)).trans settled_step

/-- When all tasks are done, every amount is in its cell. -/
theorem run_done (hdone : ∀ i, (s.run addStep events).tasks i = []) (k : κ) :
    (s.run addStep events).shared k = s.shared k + ∑ i, amount k (s.tasks i) := by
  have hconserved := conserved s events k
  unfold settled at hconserved
  simp only [hdone, amount_nil, Finset.sum_const_zero, add_zero] at hconserved
  exact hconserved

end Adders

end Interleave
