import Mathlib

/-! # Greedy admission with a fallback

Items are taken one after the other into a state with limited room.  An item that does not fit may
have a fallback, which is tried in its place; an item that fits in neither form ends the pass.
`Selects` is the outcome of a pass as a relation: which form each item was taken in.
-/
namespace Greedy

variable {σ α : Type} (accept : σ → α → Option σ) (fallback : α → Option α)

/-- Take one item, in the form that is returned. -/
def place (s : σ) (a : α) : Option (α × σ) :=
  match accept s a with
  | some t => some (a, t)
  | none => (fallback a).bind fun b => (accept s b).map fun t => (b, t)

/-- Take items as they are, one after the other. -/
def acceptAll : σ → List α → Option σ
  | s, [] => some s
  | s, a :: as => (accept s a).bind fun t => acceptAll t as

/-- The items `as` are taken in the forms `bs`: each one as it is if it still fits, and otherwise as
its fallback. -/
inductive Selects : σ → List α → List α → σ → Prop
  | nil (s : σ) : Selects s [] [] s
  | keep {s t u : σ} {a : α} {as bs : List α} (h : accept s a = some t) (hrest : Selects t as bs u) :
    Selects s (a :: as) (a :: bs) u
  | fall {s t u : σ} {a b : α} {as bs : List α} (hfull : accept s a = none)
      (hfallback : fallback a = some b) (h : accept s b = some t) (hrest : Selects t as bs u) :
    Selects s (a :: as) (b :: bs) u

variable {accept fallback} {s t u : σ} {a b : α} {as bs : List α}

theorem place_eq_some : place accept fallback s a = some (b, t) ↔
    (b = a ∧ accept s a = some t) ∨
      (accept s a = none ∧ fallback a = some b ∧ accept s b = some t) := by
  unfold place
  cases h : accept s a with
  | some t' => simp [eq_comm]
  | none =>
    simp only [Option.bind_eq_some_iff, Option.map_eq_some_iff, Prod.mk.injEq, reduceCtorEq, and_false,
      true_and, false_or]
    constructor
    · rintro ⟨c, hc, t', ht', rfl, rfl⟩
      exact ⟨hc, ht'⟩
    · rintro ⟨hb, ht⟩
      exact ⟨b, hb, t, ht, rfl, rfl⟩

/-- A pass goes item by item. -/
theorem selects_cons : Selects accept fallback s (a :: as) (b :: bs) u ↔
    ∃ t, place accept fallback s a = some (b, t) ∧ Selects accept fallback t as bs u := by
  constructor
  · rintro (_ | ⟨h, hrest⟩ | ⟨hfull, hfallback, h, hrest⟩)
    · exact ⟨_, place_eq_some.mpr (.inl ⟨rfl, h⟩), hrest⟩
    · exact ⟨_, place_eq_some.mpr (.inr ⟨hfull, hfallback, h⟩), hrest⟩
  · rintro ⟨t, hplace, hrest⟩
    rcases place_eq_some.mp hplace with ⟨rfl, h⟩ | ⟨hfull, hfallback, h⟩
    · exact .keep h hrest
    · exact .fall hfull hfallback h hrest

/-- Items that all fit as they are, are taken as they are. -/
theorem selects_of_acceptAll (h : acceptAll accept s as = some u) : Selects accept fallback s as as u := by
  induction as generalizing s with
  | nil =>
    obtain rfl := Option.some.inj h
    exact .nil s
  | cons a as ih =>
    rw [acceptAll, Option.bind_eq_some_iff] at h
    obtain ⟨t, ht, hrest⟩ := h
    exact .keep ht (ih hrest)

end Greedy
