import Mathlib

/-! # Objects under optimistic locking

An object of the API server has a resource version, which every update changes.  A writer sends the
version of the copy it has read, and the server refuses the update unless that is the stored version.
Copies may be old, from a cache or from before a pause: all that is known of a copy is that it agrees
with the stored object if the versions agree (`Versioned.Copy`), and that is all a writer needs.

The second part is about all objects of one kind.  They come and go, but the server never gives a
UID to a second object, so an object that is found under a known UID is a later state of the one that
had it before (`Collection.Later`).

The third part is the rule by which an invariant of a transition system holds in every state that
a run reaches.
-/
namespace Go

open List

/-- An object and its resource version. -/
structure Versioned (α : Type) where
  version : Nat
  value : α

namespace Versioned

variable {α : Type} {stored stored' copy : Versioned α} {seen : Nat} {value : α}

/-- The server's side of an update from the version `seen`; `none` is a conflict. -/
def update (stored : Versioned α) (seen : Nat) (value : α) : Option (Versioned α) :=
  if seen = stored.version then some ⟨stored.version + 1, value⟩ else none

/-- A copy that was read from the object, at this moment or earlier. -/
structure Copy (stored copy : Versioned α) : Prop where
  version : copy.version ≤ stored.version
  value : copy.version = stored.version → copy.value = stored.value

theorem Copy.refl (stored : Versioned α) : Copy stored stored := ⟨Nat.le_refl _, fun _ => rfl⟩

theorem update_eq_some : stored.update seen value = some stored' ↔
    seen = stored.version ∧ stored' = ⟨stored.version + 1, value⟩ := by
  unfold update
  split_ifs with h
  · simp [h, eq_comm]
  · simp [h]

/-- **An update that succeeds was made from the stored value.** -/
theorem Copy.of_update (h : Copy stored copy) (hupdate : stored.update copy.version value = some stored') :
    copy.value = stored.value ∧ stored'.value = value := by
  obtain ⟨hversion, rfl⟩ := update_eq_some.mp hupdate
  exact ⟨h.value hversion, rfl⟩

/-- Every other copy is old after an update. -/
theorem Copy.update (h : Copy stored copy) (hupdate : stored.update seen value = some stored') :
    Copy stored' copy ∧ copy.version ≠ stored'.version := by
  obtain ⟨-, rfl⟩ := update_eq_some.mp hupdate
  have hlt : copy.version < stored.version + 1 := Nat.lt_succ_of_le h.version
  exact ⟨⟨Nat.le_of_lt hlt, fun heq => absurd heq (Nat.ne_of_lt hlt)⟩, Nat.ne_of_lt hlt⟩

end Versioned

/-! ## Collections -/

/-- The objects of one kind, and the UIDs that were given out so far. -/
structure Collection {α U : Type} (uid : α → U) where
  objects : List α
  issued : List U
  distinct : (objects.map uid).Nodup
  known : ∀ o ∈ objects, uid o ∈ issued

namespace Collection

variable {α U : Type} {uid : α → U}

/-- Two objects with the same UID are the same. -/
theorem eq_of_uid (s : Collection uid) {a b : α} (ha : a ∈ s.objects) (hb : b ∈ s.objects)
    (h : uid a = uid b) : a = b :=
  inj_on_of_nodup_map s.distinct ha hb h

variable (born : α → Prop) (changes : α → α → Prop)

/-- A write of the server, for writers that create what is `born` and otherwise make `changes`. -/
inductive Write (s t : Collection uid) : Prop
  | create (o : α) (hborn : born o) (hfresh : uid o ∉ s.issued)
      (hobjects : t.objects = s.objects ++ [o]) (hissued : t.issued = uid o :: s.issued)
  | change (before after : List α) (old new : α) (hchange : changes old new) (huid : uid new = uid old)
      (hold : s.objects = before ++ old :: after) (hobjects : t.objects = before ++ new :: after)
      (hissued : t.issued = s.issued)
  | remove (before after : List α) (old : α) (hold : s.objects = before ++ old :: after)
      (hobjects : t.objects = before ++ after) (hissued : t.issued = s.issued)

variable {born}

/-- The collection `t` is a later state of `s`. -/
structure Later (s t : Collection uid) : Prop where
  issued : ∀ u ∈ s.issued, u ∈ t.issued
  earlier : ∀ o ∈ t.objects, uid o ∈ s.issued →
    ∃ o₀ ∈ s.objects, uid o₀ = uid o ∧ Relation.ReflTransGen changes o₀ o

variable {changes}

theorem Later.refl (s : Collection uid) : Later changes s s :=
  ⟨fun _ hu => hu, fun o ho _ => ⟨o, ho, rfl, .refl⟩⟩

theorem Later.trans {s t r : Collection uid} (hst : Later changes s t) (htr : Later changes t r) :
    Later changes s r := by
  refine ⟨fun u hu => htr.issued u (hst.issued u hu), fun o ho hknown => ?_⟩
  obtain ⟨o₁, ho₁, huid₁, hrun₁⟩ := htr.earlier o ho (hst.issued _ hknown)
  obtain ⟨o₀, ho₀, huid₀, hrun₀⟩ := hst.earlier o₁ ho₁ (huid₁ ▸ hknown)
  exact ⟨o₀, ho₀, huid₀.trans huid₁, hrun₀.trans hrun₁⟩

/-- **A write leads to a later state.** -/
theorem Write.later {s t : Collection uid} (h : Write born changes s t) : Later changes s t := by
  cases h with
  | create o hborn hfresh hobjects hissued =>
    refine ⟨fun u hu => hissued ▸ mem_cons_of_mem _ hu, fun o' ho' hknown => ?_⟩
    rw [hobjects] at ho'
    rcases mem_append.mp ho' with ho' | ho'
    · exact ⟨o', ho', rfl, .refl⟩
    · exact absurd hknown (mem_singleton.mp ho' ▸ hfresh)
  | change before after old new hchange huid hold hobjects hissued =>
    refine ⟨fun u hu => hissued ▸ hu, fun o ho _ => ?_⟩
    rw [hobjects] at ho
    rw [hold]
    rcases mem_append.mp ho with ho | ho
    · exact ⟨o, mem_append_left _ ho, rfl, .refl⟩
    · rcases mem_cons.mp ho with rfl | ho
      · exact ⟨old, by simp, huid.symm, .single hchange⟩
      · exact ⟨o, by simp [ho], rfl, .refl⟩
  | remove before after old hold hobjects hissued =>
    refine ⟨fun u hu => hissued ▸ hu, fun o ho _ => ⟨o, ?_, rfl, .refl⟩⟩
    rw [hobjects] at ho
    rw [hold]
    exact (sublist_cons_self old after).append_left before |>.subset ho

/-- What is true of every object that is born, and kept by every change, is true of all objects. -/
theorem Write.forall {P : α → Prop} {s t : Collection uid} (h : Write born changes s t)
    (hborn : ∀ o, born o → P o) (hchanges : ∀ old new, P old → changes old new → P new)
    (hs : ∀ o ∈ s.objects, P o) : ∀ o ∈ t.objects, P o := by
  cases h with
  | create o ho hfresh hobjects hissued =>
    rw [hobjects]
    exact forall_mem_append.mpr ⟨hs, fun x hx => mem_singleton.mp hx ▸ hborn o ho⟩
  | change before after old new hchange huid hold hobjects hissued =>
    rw [hold] at hs
    rw [hobjects]
    obtain ⟨hbefore, hrest⟩ := forall_mem_append.mp hs
    obtain ⟨hP, hafter⟩ := forall_mem_cons.mp hrest
    exact forall_mem_append.mpr ⟨hbefore, forall_mem_cons.mpr ⟨hchanges old new hP hchange, hafter⟩⟩
  | remove before after old hold hobjects hissued =>
    intro o ho
    refine hs o ?_
    rw [hobjects] at ho
    rw [hold]
    exact (sublist_cons_self old after).append_left before |>.subset ho

end Collection

/-! ## Runs -/

section Runs

variable {S : Type} (Init : S → Prop) (Step : S → S → Prop)

/-- The states that a run reaches. -/
def Reachable (s : S) : Prop := ∃ s₀, Init s₀ ∧ Relation.ReflTransGen Step s₀ s

variable {Init Step}

theorem Reachable.init {s : S} (h : Init s) : Reachable Init Step s := ⟨s, h, .refl⟩

theorem Reachable.step {s t : S} (h : Reachable Init Step s) (hstep : Step s t) :
    Reachable Init Step t := by
  obtain ⟨s₀, hinit, hrun⟩ := h
  exact ⟨s₀, hinit, hrun.tail hstep⟩

/-- **What holds at the start and is kept by every step holds in every state of every run.** -/
theorem Reachable.invariant {Inv : S → Prop} (hinit : ∀ s, Init s → Inv s)
    (hstep : ∀ s t, Inv s → Step s t → Inv t) {s : S} (h : Reachable Init Step s) : Inv s := by
  obtain ⟨s₀, hs₀, hrun⟩ := h
  induction hrun with
  | refl => exact hinit s₀ hs₀
  | tail _ hlast ih => exact hstep _ _ ih hlast

end Runs

end Go
