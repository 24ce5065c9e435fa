import Mathlib

/-! # First come and best ranked

Two ways in which a pass over a list decides who gets something scarce.

A key belongs to the value of the first live item that names it, and later items have the key only if
they name the same value (`Wins`).  An item that is inserted into the list changes this for others
only if it comes first (`wins_insert_iff`).

Of a sorted list, only so many places are kept.  What is dropped is outranked by all that is kept
(`rel_of_mem_keep_of_mem_drop`), so a place is lost only to as many others as there are places.
-/
namespace Ranking

open List

section First

variable {α κ ν : Type} [DecidableEq κ] (live : α → Bool) (key : α → κ) (value : α → ν)

/-- The first live item of a key. -/
def first (k : κ) (l : List α) : Option α := l.find? fun x => live x && key x = k

/-- The item is live and names the value of the first item of its key. -/
def Wins (l : List α) (x : α) : Prop :=
  live x = true ∧ ∀ f, first live key (key x) l = some f → value f = value x

variable {live key value} {k : κ} {l l₁ l₂ : List α} {x b f : α}

theorem mem_of_first (h : first live key k l = some f) : f ∈ l ∧ live f = true ∧ key f = k :=
  ⟨mem_of_find?_eq_some h, by simpa using List.find?_some h⟩

theorem first_eq_none_iff :
    first live key k l = none ↔ ∀ y ∈ l, ¬ (live y = true ∧ key y = k) := by
  simp [first, not_and]

theorem first_append : first live key k (l₁ ++ l₂) = (first live key k l₁).or (first live key k l₂) :=
  List.find?_append

/-- What an insertion does to the first item of a key. -/
theorem first_insert : first live key k (l₁ ++ b :: l₂) =
    if first live key k l₁ = none ∧ live b = true ∧ key b = k then some b
    else first live key k (l₁ ++ l₂) := by
  rw [first_append, first_append]
  cases h : first live key k l₁ with
  | some f => simp
  | none =>
    by_cases hb : live b = true ∧ key b = k
    · simp [first, hb.1, hb.2]
    · have hskip : (live b && decide (key b = k)) = false := by simpa using hb
      simp [first, hskip, hb]

/-- **An insertion and the others.**  An item that wins still does so after an insertion, unless the
new item is the first of its key and names another value. -/
theorem wins_insert_iff (h : Wins live key value (l₁ ++ l₂) x) :
    Wins live key value (l₁ ++ b :: l₂) x ↔
      ¬ (first live key (key x) l₁ = none ∧ (live b = true ∧ key b = key x) ∧ value b ≠ value x) := by
  unfold Wins
  rw [first_insert]
  split_ifs with hb
  · simp [h.1, hb.1, hb.2.1, hb.2.2]
  · constructor
    · rintro - ⟨hnone, hlive, -⟩
      exact hb ⟨hnone, hlive⟩
    · exact fun _ => h

/-- An item that wins after an insertion did so before, unless the new item is the first of its key
and names the same value. -/
theorem Wins.of_insert (h : Wins live key value (l₁ ++ b :: l₂) x)
    (hb : ¬ ((live b = true ∧ key b = key x) ∧ value b = value x)) :
    Wins live key value (l₁ ++ l₂) x := by
  obtain ⟨hlive, hfirst⟩ := h
  rw [first_insert] at hfirst
  split_ifs at hfirst with hfirst'
  · exact absurd ⟨hfirst'.2, hfirst b rfl⟩ hb
  · exact ⟨hlive, hfirst⟩

/-- A key is won for one value. -/
theorem Wins.value_eq {y : α} (hx : Wins live key value l x) (hy : Wins live key value l y) (hmem : x ∈ l)
    (hkey : key x = key y) : value x = value y := by
  obtain ⟨f, hf⟩ : ∃ f, first live key (key x) l = some f := Option.ne_none_iff_exists'.mp fun hnone =>
    first_eq_none_iff.mp hnone x hmem ⟨hx.1, rfl⟩
  exact (hx.2 f hf).symm.trans (hy.2 f (hkey ▸ hf))

theorem wins_map {β : Type} {g : β → α} {l : List β} {x : β} :
    Wins live key value (l.map g) (g x) ↔ Wins (live ∘ g) (key ∘ g) (value ∘ g) l x := by
  unfold Wins first
  simp [Function.comp_def]

/-- Whether an item wins is settled once the list has reached it. -/
theorem wins_append_iff (hx : x ∈ l₁) :
    Wins live key value (l₁ ++ l₂) x ↔ Wins live key value l₁ x := by
  refine and_congr_right fun hlive => ?_
  have hsome : first live key (key x) l₁ ≠ none := fun hnone =>
    first_eq_none_iff.mp hnone x hx ⟨hlive, rfl⟩
  obtain ⟨f, hf⟩ := Option.ne_none_iff_exists'.mp hsome
  rw [first_append, hf, Option.some_or]

end First

section Keep

variable {ρ : Type} (r : ρ → ρ → Prop) [DecidableRel r] (n : Nat)

/-- The best `n`. -/
def keep (l : List ρ) : List ρ := (l.insertionSort r).take n

/-- The others. -/
def drop (l : List ρ) : List ρ := (l.insertionSort r).drop n

variable {r n} {l : List ρ} {x y : ρ}

theorem length_keep_le : (keep r n l).length ≤ n := by
  rw [keep, length_take]
  exact Nat.min_le_left _ _

theorem mem_keep_or_mem_drop : x ∈ l ↔ x ∈ keep r n l ∨ x ∈ drop r n l := by
  rw [keep, drop, ← mem_append, take_append_drop, mem_insertionSort]

/-- What is kept outranks what is dropped. -/
theorem rel_of_mem_keep_of_mem_drop [Std.Total r] [IsTrans ρ r] (hx : x ∈ keep r n l) (hy : y ∈ drop r n l) : r x y := by
  have hsorted := pairwise_insertionSort r l
  rw [← take_append_drop n (l.insertionSort r)] at hsorted
  exact (pairwise_append.mp hsorted).2.2 x hx y hy

/-- Something is dropped only if all places are taken. -/
theorem length_keep_of_mem_drop (hx : x ∈ drop r n l) : (keep r n l).length = n := by
  have hpos : 0 < (drop r n l).length := length_pos_of_mem hx
  rw [drop, length_drop] at hpos
  rw [keep, length_take]
  omega

theorem disjoint_keep_drop (hl : l.Nodup) (hx : x ∈ keep r n l) (hy : x ∈ drop r n l) : False := by
  have hnodup := (perm_insertionSort r l).nodup_iff.mpr hl
  rw [← take_append_drop n (l.insertionSort r)] at hnodup
  exact disjoint_of_nodup_append hnodup hx hy

end Keep

end Ranking
