import Mathlib

/-! # Watches

A watch delivers changes in the order in which they were made.  What it will say of a key in the end
is what the last of its events says that is about the key: `lastSome` finds it among the events that
are still to come.
-/
namespace Go

variable {α β : Type}

/-- The value of `f` at the last element where it has one. -/
def lastSome (f : α → Option β) : List α → Option β
  | [] => none
  | x :: xs => (lastSome f xs).or (f x)

theorem lastSome_concat (f : α → Option β) (xs : List α) (x : α) :
    lastSome f (xs ++ [x]) = (f x).or (lastSome f xs) := by
  induction xs with
  | nil => simp [lastSome]
  | cons y xs ih => rw [List.cons_append, lastSome, ih, lastSome, Option.or_assoc]

theorem lastSome_eq_none {f : α → Option β} {xs : List α} :
    lastSome f xs = none ↔ ∀ x ∈ xs, f x = none := by
  induction xs with
  | nil => simp [lastSome]
  | cons x xs ih => rw [lastSome, Option.or_eq_none_iff, ih, List.forall_mem_cons, and_comm]

theorem exists_of_lastSome {f : α → Option β} {xs : List α} {y : β} (h : lastSome f xs = some y) :
    ∃ x ∈ xs, f x = some y := by
  induction xs with
  | nil => cases h
  | cons x xs ih =>
    rcases Option.or_eq_some_iff.mp h with hrest | ⟨-, hx⟩
    · obtain ⟨x', hmem, hx'⟩ := ih hrest
      exact ⟨x', List.mem_cons_of_mem x hmem, hx'⟩
    · exact ⟨x, List.mem_cons_self, hx⟩

end Go
