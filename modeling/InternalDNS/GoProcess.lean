import InternalDNS.GoControl

/-! # Processes

A Go method that changes the fields of its receiver, calls the outside world, returns an error at
many places and can be killed at any of them.  `Prog σ ε α` is such a computation over a state
`σ`.  Unlike in an error monad, what was done before an error stays done; and a crash, other than
an error, cannot be handled.

Two notions of correctness are used.  `Always R p` says that `p`, however it ends, moves the state
along the relation `R`; it composes without looking at results.  `Triple P p Q F` is a Hoare
triple with a second postcondition `F` for everything but a normal return.  `triple_of_always`
carries a condition that `R` cannot break through a computation that stays in `R`.
-/
namespace Go

/-- How a computation ended. -/
inductive Exit (ε α : Type) where
  | ok (a : α)
  | error (e : ε)
  | crash

/-- A computation with effects on a state. -/
def Prog (σ ε α : Type) : Type := σ → Exit ε α × σ

namespace Prog

variable {σ ε α β : Type}

instance : Monad (Prog σ ε) where
  pure a := fun s => (.ok a, s)
  bind p f := fun s =>
    match p s with
    | (.ok a, t) => f a t
    | (.error e, t) => (.error e, t)
    | (.crash, t) => (.crash, t)

/-- The state, read without changing it. -/
def get : Prog σ ε σ := fun s => (.ok s, s)

/-- Change the state. -/
def modify (f : σ → σ) : Prog σ ε Unit := fun s => (.ok (), f s)

/-- Return an error. -/
def fail (e : ε) : Prog σ ε α := fun s => (.error e, s)

/-- Run `p` and look at the error it returns. -/
def attempt (p : Prog σ ε α) : Prog σ ε (Except ε α) := fun s =>
  match p s with
  | (.ok a, t) => (.ok (.ok a), t)
  | (.error e, t) => (.ok (.error e), t)
  | (.crash, t) => (.crash, t)

/-- A computation that has no effect and may return an error. -/
def lift (x : Except ε α) : Prog σ ε α :=
  match x with
  | .ok a => pure a
  | .error e => fail e

/-- Run `p` if the condition holds. -/
def when (c : Prop) [Decidable c] (p : Prog σ ε Unit) : Prog σ ε Unit := if c then p else pure ()

/-- Run `f` on each element, up to the first error. -/
def each (f : α → Prog σ ε Unit) : List α → Prog σ ε Unit
  | [] => pure ()
  | x :: xs => f x >>= fun _ => each f xs

theorem each_append (f : α → Prog σ ε Unit) (xs ys : List α) :
    each f (xs ++ ys) = each f xs >>= fun _ => each f ys := by
  induction xs with
  | nil => rfl
  | cons x xs ih =>
    funext s
    simp only [List.cons_append, each, ih, bind]
    rcases f x s with ⟨_ | _ | _, t⟩ <;> rfl

/-! ## Moving along a relation -/

/-- However `p` ends, it has moved the state along `R`. -/
def Always (R : σ → σ → Prop) (p : Prog σ ε α) : Prop := ∀ s, R s (p s).2

section Always

variable {R : σ → σ → Prop} {p : Prog σ ε α}

theorem always_modify {f : σ → σ} (h : ∀ s, R s (f s)) : Always R (modify f : Prog σ ε Unit) := h

theorem always_get_bind {g : σ → Prog σ ε β} (h : ∀ s, Always R (g s)) : Always R (get >>= g) :=
  fun s => h s s

theorem Always.ite {c : Prop} [Decidable c] {q : Prog σ ε α} (hp : Always R p) (hq : Always R q) :
    Always R (if c then p else q) := by
  split
  · exact hp
  · exact hq

theorem always_attempt (hp : Always R p) : Always R (attempt p) := by
  intro s
  have h := hp s
  unfold attempt
  rcases hps : p s with ⟨_ | _ | _, t⟩ <;> rwa [hps] at h

theorem Always.bind [IsTrans σ R] {f : α → Prog σ ε β} (hp : Always R p)
    (hf : ∀ a, Always R (f a)) : Always R (p >>= f) := by
  intro s
  have h := hp s
  change R s (match p s with
    | (.ok a, t) => f a t
    | (.error e, t) => (.error e, t)
    | (.crash, t) => (.crash, t)).2
  match hps : p s with
  | (.ok a, t) =>
    rw [hps] at h
    exact trans_of R h (hf a t)
  | (.error _, t) | (.crash, t) => rwa [hps] at h

/-- A handled error. -/
theorem Always.attempt [IsTrans σ R] {g : Except ε α → Prog σ ε β} (hp : Always R p)
    (hok : ∀ a, Always R (g (.ok a))) (herror : ∀ e, Always R (g (.error e))) :
    Always R (attempt p >>= g) := by
  refine (always_attempt hp).bind fun r => ?_
  cases r with
  | ok a => exact hok a
  | error e => exact herror e

variable [Std.Refl R]

theorem always_pure (a : α) : Always R (pure a : Prog σ ε α) := refl_of R

theorem always_fail (e : ε) : Always R (fail e : Prog σ ε α) := refl_of R

theorem Always.when {c : Prop} [Decidable c] {p : Prog σ ε Unit} (hp : Always R p) :
    Always R (when c p) := .ite hp (always_pure ())

/-- An error is handled by `p`, and returned. -/
theorem Always.rethrow [IsTrans σ R] {p : Prog σ ε Unit} (hp : Always R p) (e : ε) :
    Always R (p >>= fun _ => (fail e : Prog σ ε α)) := hp.bind fun _ => always_fail e

theorem always_each [IsTrans σ R] {f : α → Prog σ ε Unit} (hf : ∀ x, Always R (f x))
    (xs : List α) : Always R (each f xs) := by
  induction xs with
  | nil => exact always_pure ()
  | cons x xs ih => exact (hf x).bind fun _ => ih

end Always

/-! ## Triples -/

/-- From a state in `P`, `p` returns normally in `Q` or ends in `F`. -/
def Triple (P : σ → Prop) (p : Prog σ ε α) (Q : α → σ → Prop) (F : σ → Prop) : Prop :=
  ∀ s, P s →
    match p s with
    | (.ok a, t) => Q a t
    | (.error _, t) => F t
    | (.crash, t) => F t

/-- `p` keeps `P`, however it ends. -/
abbrev Invariant (P : σ → Prop) (p : Prog σ ε α) : Prop := Triple P p (fun _ => P) P

section Triple

variable {P P' F : σ → Prop} {Q : α → σ → Prop} {S : β → σ → Prop} {p : Prog σ ε α}

theorem triple_bind {f : α → Prog σ ε β} (hp : Triple P p Q F) (hf : ∀ a, Triple (Q a) (f a) S F) :
    Triple P (p >>= f) S F := by
  intro s hs
  have h := hp s hs
  change match (match p s with
    | (.ok a, t) => f a t
    | (.error e, t) => (.error e, t)
    | (.crash, t) => (.crash, t)) with
    | (.ok b, t) => S b t
    | (.error _, t) => F t
    | (.crash, t) => F t
  match hps : p s with
  | (.ok a, t) =>
    rw [hps] at h
    exact hf a t h
  | (.error _, t) | (.crash, t) => rwa [hps] at h

/-- What follows a look at the state may use everything that is known of it. -/
theorem triple_get_bind {f : σ → Prog σ ε β} (h : ∀ s, P s → Triple (· = s) (f s) S F) :
    Triple P (get >>= f) S F := fun s hs => h s hs s rfl

/-- A look at the state, which is in `P` before and after. -/
theorem triple_look {f : σ → Prog σ ε β} (h : ∀ s, P s → Triple P (f s) S F) :
    Triple P (get >>= f) S F := fun s hs => h s hs s hs

theorem triple_pure (a : α) (h : ∀ s, P s → Q a s) : Triple P (pure a : Prog σ ε α) Q F := h

theorem triple_fail (e : ε) (h : ∀ s, P s → F s) : Triple P (fail e : Prog σ ε α) Q F := h

theorem triple_modify {f : σ → σ} {Q : Unit → σ → Prop} (h : ∀ s, P s → Q () (f s)) :
    Triple P (modify f : Prog σ ε Unit) Q F := h

theorem triple_attempt (hp : Triple P p Q F) :
    Triple P (attempt p) (fun r t => match r with | .ok a => Q a t | .error _ => F t) F := by
  intro s hs
  have h := hp s hs
  unfold attempt
  rcases hps : p s with ⟨_ | _ | _, t⟩ <;> rwa [hps] at h

variable {Q' : α → σ → Prop} {f : α → Prog σ ε Unit} {g : Except ε α → Prog σ ε β}

/-- An error that is handled: `g` goes on from `Q` after a normal return, and from `F` after an
error. -/
theorem Triple.attempt_bind (hp : Triple P p Q F) (hok : ∀ a, Triple (Q a) (g (.ok a)) S F)
    (herror : ∀ e, Triple F (g (.error e)) S F) :
    Triple P (attempt p >>= g) S F := by
  refine triple_bind (triple_attempt hp) fun r => ?_
  cases r with
  | ok a => exact hok a
  | error e => exact herror e

/-- A computation that always returns normally, in front of a test for its error. -/
theorem Triple.attempt_succeeds (hp : Triple P p Q fun _ => False)
    (hok : ∀ a, Triple (Q a) (g (.ok a)) S F) :
    Triple P (attempt p >>= g) S F := by
  refine triple_bind (Q := fun r t => ∃ a, r = .ok a ∧ Q a t) (fun s hs => ?_) fun r t => ?_
  · have h := hp s hs
    unfold attempt
    match hps : p s with
    | (.ok a, t) =>
      rw [hps] at h
      exact ⟨a, rfl, h⟩
    | (.error _, t) | (.crash, t) =>
      rw [hps] at h
      exact h.elim
  · rintro ⟨a, rfl, ht⟩
    exact hok a t ht

theorem triple_when {c : Prop} [Decidable c] {p : Prog σ ε Unit} {Q : σ → Prop}
    (hp : Triple P p (fun _ => Q) F) (hskip : ∀ s, P s → Q s) :
    Triple P (when c p) (fun _ => Q) F := by
  unfold when
  split
  · exact hp
  · exact hskip

theorem triple_ite {c : Prop} [Decidable c] {p q : Prog σ ε α} (hp : c → Triple P p Q F)
    (hq : ¬ c → Triple P q Q F) : Triple P (if c then p else q) Q F := by
  split
  case isTrue h => exact hp h
  case isFalse h => exact hq h

theorem Triple.weaken (h : Triple P p Q F) (hpre : ∀ s, P' s → P s) :
    Triple P' p Q F := fun s hs => h s (hpre s hs)

/-- Both postconditions may be weakened. -/
theorem Triple.relax {F' : σ → Prop} (h : Triple P p Q F) (hpost : ∀ a s, Q a s → Q' a s)
    (hfail : ∀ s, F s → F' s) : Triple P p Q' F' := by
  intro s hs
  have h := h s hs
  match hps : p s with
  | (.ok a, t) =>
    rw [hps] at h
    exact hpost a t h
  | (.error _, t) | (.crash, t) =>
    rw [hps] at h
    exact hfail t h

theorem Triple.imp (h : Triple P p Q F) (hpost : ∀ a s, Q a s → Q' a s) :
    Triple P p Q' F := h.relax hpost fun _ h => h

/-- An error that is ignored. -/
theorem Triple.attempt_ignore (hp : Triple P p (fun _ => F) F) :
    Triple P (attempt p) (fun _ => F) F := by
  refine (triple_attempt hp).imp fun r _ h => ?_
  cases r with
  | ok a => exact h
  | error e => exact h

/-- A computation without effects. -/
theorem triple_lift (x : Except ε α) (h : ∀ s, P s → F s) :
    Triple P (lift x : Prog σ ε α) (fun a s => x = .ok a ∧ P s) F := by
  cases x with
  | ok a => exact fun _ hs => ⟨rfl, hs⟩
  | error e => exact h

/-- A loop that keeps `P` at every iteration keeps it. -/
theorem triple_each (xs : List α) (hf : ∀ x ∈ xs, Triple P (f x) (fun _ => P) F) :
    Triple P (each f xs) (fun _ => P) F := by
  induction xs with
  | nil => exact fun _ hs => hs
  | cons x xs ih =>
    exact triple_bind (hf x (by simp)) fun _ => ih fun y hy => hf y (by simp [hy])

/-- A loop whose condition depends on the elements that are done. -/
theorem triple_each_done {P : List α → σ → Prop} (xs : List α)
    (hf : ∀ done x rest, xs = done ++ x :: rest →
      Triple (P done) (f x) (fun _ => P (done ++ [x])) F) :
    Triple (P []) (each f xs) (fun _ => P xs) F := by
  suffices main : ∀ rest done, xs = done ++ rest →
      Triple (P done) (each f rest) (fun _ => P xs) F from main xs [] rfl
  intro rest
  induction rest with
  | nil =>
    intro done hxs
    rw [hxs, List.append_nil]
    exact fun _ hs => hs
  | cons x rest ih =>
    intro done hxs
    exact triple_bind (hf done x rest hxs) fun _ => ih (done ++ [x]) (by rw [hxs, List.append_assoc]; rfl)

/-- **Frame.**  A condition that `R` cannot break holds after a computation that stays in `R`. -/
theorem triple_of_always {R : σ → σ → Prop} (hp : Always R p) (hP : ∀ s t, R s t → P s → P t)
    (hF : ∀ s, P s → F s) :
    Triple P p (fun _ => P) F := by
  intro s hs
  have h := hP s _ (hp s) hs
  match hps : p s with
  | (.ok a, t) => rwa [hps] at h
  | (.error _, t) | (.crash, t) =>
    rw [hps] at h
    exact hF t h

/-- A triple whose postconditions are all the same says where the computation can end. -/
theorem Triple.final (h : Triple P p (fun _ => F) F) {s : σ} (hs : P s) : F (p s).2 := by
  have h := h s hs
  rcases hps : p s with ⟨_ | _ | _, t⟩ <;> rwa [hps] at h

end Triple

end Prog

end Go
