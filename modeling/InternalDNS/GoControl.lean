import InternalDNS.GoStrings

/-! # Errors, loops and maps

A Go function that returns `(T, error)` is a value of `Except GoString T`, the
error being its text.  This module has the inversion rules for such functions, the
rules for loops over a slice that carry an accumulator and may return early, and
the few facts about Go maps that Mathlib's association lists do not have.
-/
namespace Go

open List AList Option

/-! ## Early returns -/

/-- `if bad { return errors.New(msg) }`. -/
def failIf (bad : Prop) [Decidable bad] (msg : GoString) : Except GoString Unit :=
  if bad then .error msg else .ok ()

variable {msg : GoString}

section

variable {bad : Prop} {ε α β : Type} {o : Option α} {x : Except ε α} {f : α → Except ε β}

@[simp] theorem failIf_eq_ok [Decidable bad] {u : Unit} :
    failIf bad msg = .ok u ↔ ¬ bad := by
  unfold failIf
  split <;> simp_all

theorem failIf_eq_error [Decidable bad] {e : GoString} :
    failIf bad msg = .error e ↔ bad ∧ msg = e := by
  unfold failIf
  split <;> simp_all

/-- A check that is made only if the condition does not hold. -/
def skipIf (skip : Prop) [Decidable skip] (check : Except GoString Unit) : Except GoString Unit :=
  if skip then .ok () else check

@[simp] theorem skipIf_eq_ok {skip : Prop} [Decidable skip] {check : Except GoString Unit}
    {u : Unit} : skipIf skip check = .ok u ↔ (¬ skip → check = .ok ()) := by
  unfold skipIf
  split <;> simp_all

/-- The value of an optional result, or the error. -/
def orError {α : Type} (o : Option α) (msg : GoString) : Except GoString α :=
  match o with
  | some a => .ok a
  | none => .error msg

@[simp] theorem orError_eq_ok {a : α} :
    orError o msg = .ok a ↔ o = some a := by
  cases o <;> simp [orError]

/-- Put a prefix before an error. -/
def wrap {α : Type} (msg : GoString) : Except GoString α → Except GoString α
  | .ok a => .ok a
  | .error e => .error (msg ++ e)

@[simp] theorem wrap_eq_ok {x : Except GoString α} {a : α} :
    wrap msg x = .ok a ↔ x = .ok a := by
  cases x <;> simp [wrap]

@[simp] theorem Except.bind_eq_ok {b : β} :
    (x >>= f) = .ok b ↔ ∃ a, x = .ok a ∧ f a = .ok b := by
  cases x with
  | error e => simp [bind, Except.bind]
  | ok a => simp [bind, Except.bind]

theorem Except.bind_eq_error {e : ε} :
    (x >>= f) = .error e ↔ x = .error e ∨ ∃ a, x = .ok a ∧ f a = .error e := by
  cases x <;> simp [bind, Except.bind]

theorem Except.toOption_eq_some {a : α} :
    x.toOption = some a ↔ x = .ok a := by
  cases x <;> simp [Except.toOption]

/-- A result with a property is found by evaluation. -/
theorem exists_of_any {P : α → Prop} [DecidablePred P] (h : o.any (fun a => P a) = true) :
    ∃ a, o = some a ∧ P a := by
  obtain ⟨a, ha, h⟩ := (Option.any_eq_true ..).mp h
  exact ⟨a, ha, of_decide_eq_true h⟩

end

theorem exists_ok_of_any {ε α : Type} {o : Option (Except ε α)} {P : α → Prop} [DecidablePred P]
    (h : o.any (·.toOption.any fun a => P a) = true) : ∃ a, o = some (.ok a) ∧ P a := by
  obtain ⟨x, hx, h⟩ := (Option.any_eq_true ..).mp h
  obtain ⟨a, ha, h⟩ := exists_of_any h
  exact ⟨a, hx.trans (congrArg some (Except.toOption_eq_some.mp ha)), h⟩

/-! ## Loops over a slice -/

section Loops

variable {ε α σ : Type} {xs : List α} {f : σ → α → Except ε σ} {s : σ} {x : α} {K : Type}

/-- `for _, x := range xs { if err := f(x); err != nil { return err } }`. -/
def forEach (f : α → Except ε Unit) : List α → Except ε Unit
  | [] => .ok ()
  | x :: xs => f x >>= fun _ => forEach f xs

@[simp] theorem forEach_eq_ok {f : α → Except ε Unit} {u : Unit} :
    forEach f xs = .ok u ↔ ∀ x ∈ xs, f x = .ok () := by
  induction xs with
  | nil => simp [forEach]
  | cons x xs ih =>
    rw [forEach, Except.bind_eq_ok, forall_mem_cons, ih]
    exact ⟨fun ⟨_, hx, hxs⟩ => ⟨hx, hxs⟩, fun ⟨hx, hxs⟩ => ⟨(), hx, hxs⟩⟩

/-- A loop that appends what `f` returns for each element. -/
def collect {β : Type} (f : α → Except ε β) : List α → Except ε (List β)
  | [] => .ok []
  | x :: xs => do
    let y ← f x
    let ys ← collect f xs
    .ok (y :: ys)

variable {key : α → K} {β : Type}

section

variable {f : α → Except ε β} {g : α → β} {ys : List β}

theorem collect_eq_map (h : ∀ x ∈ xs, f x = .ok (g x)) :
    collect f xs = .ok (xs.map g) := by
  induction xs with
  | nil => rfl
  | cons x xs ih =>
    obtain ⟨hx, hxs⟩ := forall_mem_cons.mp h
    rw [collect, hx, ih hxs]
    rfl

/-- Each result belongs to an element. -/
theorem mem_of_collect (h : collect f xs = .ok ys) {y : β} (hy : y ∈ ys) :
    ∃ x ∈ xs, f x = .ok y := by
  induction xs generalizing ys with
  | nil =>
    cases h
    cases hy
  | cons x xs ih =>
    simp only [collect, Except.bind_eq_ok] at h
    obtain ⟨z, hz, zs, hzs, hout⟩ := h
    cases hout
    rcases mem_cons.mp hy with rfl | hy
    · exact ⟨x, by simp, hz⟩
    · obtain ⟨x', hx', hfx'⟩ := ih hzs hy
      exact ⟨x', by simp [hx'], hfx'⟩

/-- What a successful loop has collected, if every accepted element gives a known result. -/
theorem eq_map_of_collect (hf : ∀ x y, f x = .ok y → y = g x) (h : collect f xs = .ok ys) :
    ys = xs.map g := by
  induction xs generalizing ys with
  | nil => exact (Except.ok.inj h).symm
  | cons x xs ih =>
    simp only [collect, Except.bind_eq_ok] at h
    obtain ⟨z, hz, zs, hzs, hout⟩ := h
    cases hout
    rw [map_cons, hf x z hz, ih hzs]

end

section

variable {r : α → β → Prop} {ys : List β} {P : List α → σ → Prop}

/-- A loop that carries the accumulator `s` and may return early. -/
def loop (f : σ → α → Except ε σ) : σ → List α → Except ε σ
  | s, [] => .ok s
  | s, x :: xs => f s x >>= fun s' => loop f s' xs

@[simp] theorem loop_nil (f : σ → α → Except ε σ) (s : σ) : loop f s [] = .ok s := rfl

@[simp] theorem loop_cons (f : σ → α → Except ε σ) (s : σ) (x : α) (xs : List α) :
    loop f s (x :: xs) = f s x >>= fun s' => loop f s' xs := rfl

/-- **The loop rule.**  `P done s` relates the elements already visited to the
accumulator; if each accepted iteration carries it on, it holds of the whole slice
when the loop returns. -/
theorem loop_invariant {s s' : σ} (init : P [] s)
    (step : ∀ done x rest s s', xs = done ++ x :: rest → P done s → f s x = .ok s' →
      P (done ++ [x]) s')
    (h : loop f s xs = .ok s') : P xs s' := by
  suffices main : ∀ rest done s, xs = done ++ rest → P done s → loop f s rest = .ok s' →
      P xs s' from main xs [] s rfl init h
  intro rest
  induction rest with
  | nil =>
    intro done s hxs hp hl
    obtain rfl : s = s' := by simpa using hl
    simpa [hxs] using hp
  | cons x rest ih =>
    intro done s hxs hp hl
    obtain ⟨t, ht, hl⟩ := Except.bind_eq_ok.mp hl
    exact ih (done ++ [x]) t (by simp [hxs]) (step done x rest s t hxs hp ht) hl

/-- A loop has only the errors of its body. -/
theorem loop_ne_error {e : ε} (h : ∀ s, ∀ x ∈ xs, f s x ≠ .error e) : loop f s xs ≠ .error e := by
  induction xs generalizing s with
  | nil => nofun
  | cons x xs ih =>
    rw [loop_cons, Ne, Except.bind_eq_error, not_or]
    refine ⟨h s x mem_cons_self, fun ⟨t, _, ht⟩ => ?_⟩
    exact ih (fun s y hy => h s y (mem_cons_of_mem _ hy)) ht

/-- In a list without repeated keys, the next element's key is new. -/
theorem not_mem_map_of_nodup {key : α → β} {xs done rest : List α} (h : (xs.map key).Nodup)
    (hsplit : xs = done ++ x :: rest) : key x ∉ done.map key := by
  rw [hsplit, map_append, map_cons, nodup_append] at h
  exact fun hmem => h.2.2 (key x) hmem (key x) (by simp) rfl

/-- The loop rule for a loop that visits every element. -/
theorem foldl_invariant {f : σ → α → σ} {P : List α → σ → Prop} (init : P [] s)
    (step : ∀ done x rest s, xs = done ++ x :: rest → P done s → P (done ++ [x]) (f s x)) :
    P xs (xs.foldl f s) := by
  suffices main : ∀ rest done s, xs = done ++ rest → P done s → P xs (rest.foldl f s) from
    main xs [] s rfl init
  intro rest
  induction rest with
  | nil =>
    intro done s hxs hp
    simpa [hxs] using hp
  | cons x rest ih =>
    intro done s hxs hp
    exact ih (done ++ [x]) (f s x) (by simp [hxs]) (step done x rest s hxs hp)

/-- **The loop returns.**  If every iteration that starts in an accumulator
satisfying `P` is accepted and carries `P` on, the whole loop is accepted. -/
theorem loop_succeeds (init : P [] s)
    (step : ∀ done x rest s, xs = done ++ x :: rest → P done s →
      ∃ s', f s x = .ok s' ∧ P (done ++ [x]) s') :
    ∃ s', loop f s xs = .ok s' ∧ P xs s' := by
  suffices main : ∀ rest done s, xs = done ++ rest → P done s →
      ∃ s', loop f s rest = .ok s' ∧ P xs s' from main xs [] s rfl init
  intro rest
  induction rest with
  | nil =>
    intro done s hxs hp
    exact ⟨s, rfl, by simpa [hxs] using hp⟩
  | cons x rest ih =>
    intro done s hxs hp
    obtain ⟨t, ht, hp'⟩ := step done x rest s hxs hp
    obtain ⟨s', hs', hP⟩ := ih (done ++ [x]) t (by simp [hxs]) hp'
    exact ⟨s', Except.bind_eq_ok.mpr ⟨t, ht, hs'⟩, hP⟩

/-- A part of a slice either leaves out the last element or ends in it. -/
theorem sublist_concat_cases {l xs : List α} (h : l.Sublist (xs ++ [x])) :
    l.Sublist xs ∨ ∃ l', l = l' ++ [x] ∧ l'.Sublist xs := by
  obtain ⟨l₁, l₂, rfl, hl₁, hl₂⟩ := sublist_append_iff.mp h
  rcases sublist_singleton.mp hl₂ with rfl | rfl
  · exact .inl ((append_nil l₁).symm ▸ hl₁)
  · exact .inr ⟨l₁, rfl, hl₁⟩

theorem exists_of_forall₂_right (h : List.Forall₂ r xs ys) {y : β} (hy : y ∈ ys) :
    ∃ x ∈ xs, r x y := by
  induction h with
  | nil => cases hy
  | cons hxy _ ih =>
    rcases mem_cons.mp hy with rfl | hy
    · exact ⟨_, mem_cons_self .., hxy⟩
    · obtain ⟨x, hx, hr⟩ := ih hy
      exact ⟨x, mem_cons_of_mem _ hx, hr⟩

theorem exists_of_forall₂_left (h : List.Forall₂ r xs ys) (hx : x ∈ xs) : ∃ y ∈ ys, r x y :=
  exists_of_forall₂_right h.flip hx

end

section

variable {P : α → Prop} {ok : σ → α → Prop} {next : σ → α → σ}

/-- **The loop with a plain accumulator.**  If an iteration accepts `x` exactly when `ok s x` and
then moves the accumulator to `next s x`, the loop accepts a slice exactly when every element is
`ok` at the accumulator computed from the elements before it. -/
theorem loop_eq_ok_iff (hf : ∀ s x out, f s x = .ok out ↔ ok s x ∧ out = next s x) (s : σ)
    (xs : List α) (out : σ) :
    loop f s xs = .ok out ↔
      (∀ done x rest, xs = done ++ x :: rest → ok (done.foldl next s) x) ∧
        out = xs.foldl next s := by
  induction xs generalizing s with
  | nil => simp [eq_comm]
  | cons x xs ih =>
    rw [loop_cons, Except.bind_eq_ok]
    constructor
    · rintro ⟨t, hx, hrest⟩
      obtain ⟨hok, rfl⟩ := (hf _ _ _).mp hx
      obtain ⟨hall, rfl⟩ := (ih _).mp hrest
      refine ⟨fun done y rest hxs => ?_, rfl⟩
      cases done with
      | nil =>
        obtain ⟨rfl, -⟩ := cons.inj hxs
        exact hok
      | cons z done =>
        obtain ⟨rfl, hrest'⟩ := cons.inj hxs
        exact hall done y rest hrest'
    · rintro ⟨hall, rfl⟩
      refine ⟨next s x, (hf _ _ _).mpr ⟨hall [] x xs rfl, rfl⟩, (ih _).mpr ⟨?_, rfl⟩⟩
      intro done y rest hxs
      exact hall (x :: done) y rest (by rw [hxs]; rfl)

theorem loop_accepts_iff (hf : ∀ s x out, f s x = .ok out ↔ ok s x ∧ out = next s x) (s : σ)
    (xs : List α) :
    (∃ out, loop f s xs = .ok out) ↔
      ∀ done x rest, xs = done ++ x :: rest → ok (done.foldl next s) x :=
  ⟨fun ⟨out, hout⟩ => ((loop_eq_ok_iff hf s xs out).mp hout).1,
    fun h => ⟨_, (loop_eq_ok_iff hf s xs _).mpr ⟨h, rfl⟩⟩⟩

/-- What holds at every element of a slice, given the elements before it, holds at every element
of a longer slice if it also holds at the last. -/
theorem forall_split_concat {P : List α → α → Prop} :
    (∀ done y rest, xs ++ [x] = done ++ y :: rest → P done y) ↔
      (∀ done y rest, xs = done ++ y :: rest → P done y) ∧ P xs x := by
  constructor
  · intro h
    refine ⟨fun done y rest hxs => ?_, h xs x [] rfl⟩
    exact h done y (rest ++ [x]) (by simp [hxs])
  · rintro ⟨h, hx⟩ done y rest hxs
    cases rest using reverseRecOn with
    | nil =>
      obtain ⟨rfl, hyx⟩ := append_inj' hxs rfl
      rw [← (cons.inj hyx).1]
      exact hx
    | append_singleton rest z =>
      rw [← cons_append, ← append_assoc] at hxs
      exact h done y rest (append_inj' hxs rfl).1

theorem forall_split_mem :
    (∀ done x rest, xs = done ++ x :: rest → P x) ↔ ∀ x ∈ xs, P x := by
  constructor
  · intro h x hx
    obtain ⟨done, rest, hxs⟩ := append_of_mem hx
    exact h done x rest hxs
  · rintro h done x rest rfl
    exact h x (by simp)

theorem forall_mem_concat (h : ∀ y ∈ xs, P y) (hx : P x) : ∀ y ∈ xs ++ [x], P y :=
  forall_mem_append.mpr ⟨h, forall_mem_singleton.mpr hx⟩

end

theorem nodup_map_concat (h : (xs.map key).Nodup) (hx : ∀ y ∈ xs, key y ≠ key x) :
    ((xs ++ [x]).map key).Nodup := by
  rw [map_append, nodup_append]
  exact ⟨h, nodup_singleton _, by simpa using hx⟩

/-- Every key is new when it comes exactly if no two are the same. -/
theorem forall_split_fresh :
    (∀ done x rest, xs = done ++ x :: rest → key x ∉ done.map key) ↔ (xs.map key).Nodup := by
  induction xs using reverseRecOn with
  | nil => simp
  | append_singleton xs x ih =>
    refine (forall_split_concat.trans (and_congr_left' ih)).trans ⟨fun ⟨hnodup, hx⟩ => ?_, fun h => ?_⟩
    · exact nodup_map_concat hnodup fun y hy heq => hx (heq ▸ mem_map_of_mem hy)
    · exact ⟨(h.sublist ((sublist_append_left xs [x]).map key)), not_mem_map_of_nodup h rfl⟩

/-- A slice whose elements are each related to the one accepted before them is ordered. -/
theorem pairwise_of_prefix_getLast {r : α → α → Prop} (htrans : ∀ {a b c}, r a b → r b c → r a c)
    (h : ∀ done x rest, xs = done ++ x :: rest → ∀ y, done.getLast? = some y → r y x) :
    xs.Pairwise r := by
  induction xs using reverseRecOn with
  | nil => exact List.Pairwise.nil
  | append_singleton xs x ih =>
    obtain ⟨hinit, hlast⟩ := forall_split_concat.mp h
    have hxs : xs.Pairwise r := ih hinit
    refine pairwise_append.mpr ⟨hxs, pairwise_singleton .., fun y hy z hz => ?_⟩
    obtain rfl := mem_singleton.mp hz
    cases xs using reverseRecOn with
    | nil => cases hy
    | append_singleton ys w =>
      have hwz : r w z := hlast w (by simp)
      exact forall_mem_concat (fun y hy => htrans ((pairwise_append.mp hxs).2.2 y hy w (by simp)) hwz)
        hwz y hy

/-- Keys that always exist are as distinct as they are. -/
theorem nodup_map_some :
    (xs.map fun x => some (key x)).Nodup ↔ (xs.map key).Nodup := by
  have hcomp : (xs.map fun x => some (key x)) = (xs.map key).map some := by simp
  rw [hcomp]
  exact nodup_map_iff fun _ _ => some.inj

/-- **The loop that rejects repetitions.**  An iteration that accepts `x` if it is `ok` and
its key is new, and then remembers the key, accepts a slice exactly if all its elements are
`ok` and their keys are distinct. -/
theorem loop_distinct {f : List K → α → Except ε (List K)} {key : α → Option K} {ok : α → Prop}
    (hf : ∀ seen x out, f seen x = .ok out ↔
      ∃ k, key x = some k ∧ ok x ∧ k ∉ seen ∧ out = k :: seen) (xs : List α) :
    (∃ out, loop f [] xs = .ok out) ↔
      (∀ x ∈ xs, (key x).isSome ∧ ok x) ∧ (xs.map key).Nodup := by
  suffices main : ∀ seen, (∃ out, loop f seen xs = .ok out) ↔
      (∀ x ∈ xs, (key x).isSome ∧ ok x) ∧ (xs.map key).Nodup ∧
        ∀ x ∈ xs, ∀ k ∈ seen, key x ≠ some k by
    simpa using main []
  induction xs with
  | nil => simp
  | cons x xs ih =>
    intro seen
    constructor
    · rintro ⟨out, hout⟩
      obtain ⟨seen', hx, hrest⟩ := Except.bind_eq_ok.mp hout
      obtain ⟨k, hk, hok, hnew, rfl⟩ := (hf _ _ _).mp hx
      obtain ⟨hall, hnodup, hsep⟩ := (ih _).mp ⟨out, hrest⟩
      refine ⟨?_, ?_, ?_⟩
      · exact forall_mem_cons.mpr ⟨⟨by simp [hk], hok⟩, hall⟩
      · rw [map_cons, nodup_cons]
        refine ⟨fun hmem => ?_, hnodup⟩
        obtain ⟨y, hy, hyk⟩ := mem_map.mp hmem
        exact hsep y hy k (by simp) (hyk.trans hk)
      · refine forall_mem_cons.mpr ⟨fun j hj hxj => ?_, fun y hy j hj => ?_⟩
        · obtain rfl := mem_unique hk hxj
          exact hnew hj
        · exact hsep y hy j (by simp [hj])
    · rintro ⟨hall, hnodup, hsep⟩
      obtain ⟨⟨hsome, hok⟩, hall⟩ := forall_mem_cons.mp hall
      obtain ⟨hxsep, hsep⟩ := forall_mem_cons.mp hsep
      obtain ⟨k, hk⟩ := isSome_iff_exists.mp hsome
      rw [map_cons, nodup_cons] at hnodup
      have hstep : f seen x = .ok (k :: seen) :=
        (hf _ _ _).mpr ⟨k, hk, hok, fun hmem => hxsep k hmem hk, rfl⟩
      have hsep' : ∀ y ∈ xs, ∀ j ∈ k :: seen, key y ≠ some j := by
        intro y hy j hj
        rcases mem_cons.mp hj with rfl | hj
        · exact fun hyk => hnodup.1 (mem_map.mpr ⟨y, hy, hyk.trans hk.symm⟩)
        · exact hsep y hy j hj
      obtain ⟨out, hout⟩ := (ih (k :: seen)).mpr ⟨hall, hnodup.2, hsep'⟩
      exact ⟨out, Except.bind_eq_ok.mpr ⟨_, hstep, hout⟩⟩

/-- The same rule where every element has a key. -/
theorem loop_distinct_total {f : List K → α → Except ε (List K)} {key : α → K} {ok : α → Prop}
    (hf : ∀ seen x out, f seen x = .ok out ↔ ok x ∧ key x ∉ seen ∧ out = key x :: seen)
    (xs : List α) :
    (∃ out, loop f [] xs = .ok out) ↔ (∀ x ∈ xs, ok x) ∧ (xs.map key).Nodup := by
  have hstep : ∀ seen x out, f seen x = .ok out ↔
      ∃ k, some (key x) = some k ∧ ok x ∧ k ∉ seen ∧ out = k :: seen := by
    intro seen x out
    simp [hf, some.injEq]
  rw [loop_distinct hstep]
  simp [nodup_map_some]

/-- The usual iteration of such a loop: a check, then the key must be new. -/
theorem check_fresh_eq_ok {bad : Prop} [Decidable bad] {k : K} {seen out : List K}
    [Decidable (k ∈ seen)] {why again : GoString} :
    (failIf bad why >>= fun _ => failIf (k ∈ seen) again >>= fun _ => Except.ok (k :: seen)) =
      .ok out ↔ ¬ bad ∧ k ∉ seen ∧ out = k :: seen := by
  simp only [Except.bind_eq_ok, failIf_eq_ok]
  exact ⟨fun ⟨_, hb, _, hk, ho⟩ => ⟨hb, hk, (Except.ok.inj ho).symm⟩,
    fun ⟨hb, hk, ho⟩ => ⟨(), hb, (), hk, ho ▸ rfl⟩⟩

end Loops

/-- A separator that the ends do not contain marks where two texts were joined. -/
theorem append_sep_inj {α : Type} {x : α} {a b s t : List α} (hs : x ∉ s) (ht : x ∉ t)
    (h : a ++ x :: s = b ++ x :: t) : a = b ∧ s = t := by
  rcases append_eq_append_iff.mp h with ⟨mid, hb, hmid⟩ | ⟨mid, ha, hmid⟩
  · cases mid with
    | nil => exact ⟨by simpa using hb.symm, by simpa using hmid⟩
    | cons y mid =>
      have hcons := cons.inj hmid
      exact absurd (hcons.2 ▸ (by simp : x ∈ mid ++ x :: t)) hs
  · cases mid with
    | nil => exact ⟨by simpa using ha, by simpa using hmid.symm⟩
    | cons y mid =>
      have hcons := cons.inj hmid
      exact absurd (hcons.2 ▸ (by simp : x ∈ mid ++ x :: s)) ht

/-- A text that ends in an epoch and a revision tells both. -/
theorem append_numbers_inj {stem : GoString} {epoch revision epoch' revision' : Nat}
    (h : (stem ++ itoa epoch) ++ '-' :: 'r' :: itoa revision =
      (stem ++ itoa epoch') ++ '-' :: 'r' :: itoa revision') :
    epoch = epoch' ∧ revision = revision' := by
  have hdash : ∀ n, '-' ∉ 'r' :: itoa n := by
    intro n hmem
    rcases mem_cons.mp hmem with h | h
    · exact absurd h (by decide)
    · exact absurd (isDigit_of_mem_itoa h) (by decide)
  obtain ⟨hepoch, hrevision⟩ := append_sep_inj (hdash _) (hdash _) h
  exact ⟨itoa_injective (append_cancel_left hepoch), itoa_injective (cons.inj hrevision).2⟩

/-! ## Sorting by a key -/

/-- In a list where nothing with `p` comes after something without it, the elements with `p` come
first. -/
theorem filter_append_filter_not {α : Type} {p : α → Prop} [DecidablePred p] {l : List α}
    (h : l.Pairwise fun a b => p b → p a) : l.filter (p ·) ++ l.filter (¬ p ·) = l := by
  induction l with
  | nil => rfl
  | cons a l ih =>
    obtain ⟨ha, hl⟩ := pairwise_cons.mp h
    by_cases hp : p a
    · simpa [hp] using ih hl
    · have hnot : ∀ b ∈ l, ¬ p b := fun b hb hpb => hp (ha b hb hpb)
      have hnone : l.filter (p ·) = [] := by simpa using hnot
      simpa [hp, hnone] using hnot

/-- Elements with distinct keys are in strict order after sorting. -/
theorem sorted_by_key {α β : Type} [LinearOrder β] (key : α → β) {xs : List α}
    (h : (xs.map key).Nodup) :
    ((xs.insertionSort fun a b => key a ≤ key b).map key).Pairwise (· < ·) := by
  have hmap : (xs.insertionSort fun a b => key a ≤ key b).map key =
      (xs.map key).insertionSort (· ≤ ·) :=
    map_insertionSort _ _ key xs fun _ _ _ _ => Iff.rfl
  have hnodup : ((xs.map key).insertionSort (· ≤ ·)).Nodup :=
    (perm_insertionSort _ _).nodup_iff.mpr h
  rw [hmap]
  exact ((pairwise_insertionSort _ _).and hnodup).imp fun ⟨hle, hne⟩ => lt_of_le_of_ne hle hne

/-! ## Maps -/

/-- A Go map. -/
abbrev GoMap (K V : Type) := AList (fun _ : K => V)

namespace GoMap

variable {K V W : Type}

section Lookup

variable [DecidableEq K] {m : GoMap K V} {k j : K} {v x : V}

/-- What is stored after an insertion was stored before, or is what was inserted. -/
theorem of_lookup_insert (h : (m.insert k v).lookup j = some x) :
    (j = k ∧ x = v) ∨ m.lookup j = some x := by
  by_cases hj : j = k
  · subst hj
    rw [lookup_insert] at h
    exact .inl ⟨rfl, (some.inj h).symm⟩
  · rw [lookup_insert_ne hj] at h
    exact .inr h

theorem forall_insert {P : K → V → Prop} (h : ∀ j x, m.lookup j = some x → P j x) (hk : P k v) :
    ∀ j x, (m.insert k v).lookup j = some x → P j x := by
  intro j x hx
  rcases of_lookup_insert hx with ⟨rfl, rfl⟩ | hx
  · exact hk
  · exact h j x hx

/-- What is stored after a deletion was stored before. -/
theorem of_lookup_erase (h : (m.erase k).lookup j = some x) : j ≠ k ∧ m.lookup j = some x := by
  by_cases hj : j = k
  · subst hj
    rw [lookup_erase] at h
    cases h
  · rw [lookup_erase_ne hj] at h
    exact ⟨hj, h⟩

/-- An entry survives an insertion at a free key. -/
theorem lookup_insert_of_free (hfree : m.lookup k = none) (h : m.lookup j = some x) :
    (m.insert k v).lookup j = some x := by
  have hne : j ≠ k := by
    rintro rfl
    rw [hfree] at h
    cases h
  rwa [lookup_insert_ne hne]

/-- What is stored after the keys have been given one value. -/
theorem lookup_foldl_insert (keys : List K) :
    (keys.foldl (fun m k => m.insert k v) m).lookup j = if j ∈ keys then some v else m.lookup j := by
  induction keys generalizing m with
  | nil => simp
  | cons k keys ih =>
    rw [foldl_cons, ih]
    by_cases hj : j = k
    · subst hj
      simp [lookup_insert]
    · simp [hj, lookup_insert_ne hj]

end Lookup

section Values

variable [DecidableEq K] {m : GoMap K V} {key : V → K} (h : ∀ k v, m.lookup k = some v → key v = k)

include h

/-- The values of a map in which each is stored under its own key. -/
theorem mem_values {v : V} : v ∈ m.entries.map Sigma.snd ↔ m.lookup (key v) = some v := by
  rw [List.mem_map]
  constructor
  · rintro ⟨e, he, rfl⟩
    have hlookup : m.lookup e.1 = some e.2 := mem_lookup_iff.mpr he
    rwa [h _ _ hlookup]
  · exact fun hlookup => ⟨⟨_, v⟩, mem_lookup_iff.mp hlookup, rfl⟩

theorem nodup_map_values : ((m.entries.map Sigma.snd).map key).Nodup := by
  have hkeys : (m.entries.map Sigma.snd).map key = m.keys := by
    rw [List.map_map]
    exact map_congr_left fun e he => h e.1 e.2 (mem_lookup_iff.mpr he)
  exact hkeys ▸ keys_nodup m

end Values

/-- The map with every value replaced by `f` of it. -/
def mapValues (f : V → W) (m : GoMap K V) : GoMap K W where
  entries := m.entries.map fun e => ⟨e.1, f e.2⟩
  nodupKeys := .map₂ (fun _ => f) _ m.nodupKeys

theorem lookup_mapValues [DecidableEq K] (f : V → W) (m : GoMap K V) (k : K) :
    (mapValues f m).lookup k = (m.lookup k).map f :=
  dlookup_map₂ (f := fun _ => f) k

/-- The entries of `n` written over those of `m`. -/
def insertAll [DecidableEq K] (n m : GoMap K V) : GoMap K V :=
  n.entries.foldl (fun m e => m.insert e.1 e.2) m

theorem lookup_insertAll [DecidableEq K] (n m : GoMap K V) (k : K) :
    (insertAll n m).lookup k = (n.lookup k).or (m.lookup k) := by
  suffices h : ∀ (es : List (Sigma fun _ : K => V)), es.NodupKeys → ∀ m : GoMap K V,
      (es.foldl (fun m e => m.insert e.1 e.2) m).lookup k = (es.dlookup k).or (m.lookup k) from
    h n.entries n.nodupKeys m
  intro es hes
  induction es with
  | nil => intro m; rfl
  | cons e es ih =>
    intro m
    obtain ⟨a, v⟩ := e
    obtain ⟨hnot, hrest⟩ := nodupKeys_cons.mp hes
    rw [foldl_cons, ih hrest]
    by_cases hk : k = a
    · subst hk
      rw [dlookup_eq_none.mpr hnot, lookup_insert, dlookup_cons_eq]
      rfl
    · have hcons := dlookup_cons_ne (β := fun _ => V) es ⟨a, v⟩ hk
      rw [lookup_insert_ne hk, hcons]

/-- The entries of a map for which `p` holds. -/
def filter (p : K → V → Bool) (m : GoMap K V) : GoMap K V where
  entries := m.entries.filter fun e => p e.1 e.2
  nodupKeys := m.nodupKeys.sublist List.filter_sublist

theorem lookup_filter [DecidableEq K] (p : K → V → Bool) (m : GoMap K V) (k : K) :
    (filter p m).lookup k = (m.lookup k).filter (p k) := by
  ext v
  have hmem : v ∈ (filter p m).lookup k ↔ ⟨k, v⟩ ∈ m.entries ∧ p k v = true := by
    rw [mem_lookup_iff]
    exact mem_filter
  rw [← mem_def, hmem, ← mem_lookup_iff, filter_eq_some_iff, mem_def]

/-- The order in which maps are iterated, as far as a program can see it that stops at the first
entry it is looking for: which of the entries it finds. -/
structure MapOrder where
  first : {α : Type} → List α → Option α
  first_mem : ∀ {α : Type} {xs : List α} {x : α}, first xs = some x → x ∈ xs
  first_none : ∀ {α : Type} {xs : List α}, first xs = none → xs = []

/-- Iteration in the order of insertion. -/
def MapOrder.reference : MapOrder where
  first xs := xs.head?
  first_mem h := List.mem_of_head? h
  first_none h := List.head?_eq_none_iff.mp h

/-! ### Maps that only grow -/

section Grows

variable [DecidableEq K] {R : V → V → Prop} {m : GoMap K V}

/-- Every key of `m` is kept by `n`, with a value that `R` allows after the one in `m`. -/
def Grows (R : V → V → Prop) (m n : GoMap K V) : Prop :=
  ∀ k v, m.lookup k = some v → ∃ w, n.lookup k = some w ∧ R v w

theorem Grows.refl (hrefl : ∀ v, R v v) (m : GoMap K V) : Grows R m m :=
  fun _ v h => ⟨v, h, hrefl v⟩

theorem Grows.trans (htrans : ∀ a b c, R a b → R b c → R a c) {l m n : GoMap K V}
    (hlm : Grows R l m) (hmn : Grows R m n) : Grows R l n := by
  intro k v hv
  obtain ⟨w, hw, hvw⟩ := hlm k v hv
  obtain ⟨x, hx, hwx⟩ := hmn k w hw
  exact ⟨x, hx, htrans _ _ _ hvw hwx⟩

theorem Grows.empty (n : GoMap K V) : Grows R ∅ n := by
  intro k v hv
  simp at hv

/-- A map grows when the only changed entry is allowed to change. -/
theorem Grows.insert (hrefl : ∀ v, R v v) {k : K} {v : V}
    (h : ∀ old, m.lookup k = some old → R old v) : Grows R m (m.insert k v) := by
  intro j w hw
  by_cases hj : j = k
  · subst hj
    exact ⟨v, lookup_insert m, h w hw⟩
  · exact ⟨w, (lookup_insert_ne hj).trans hw, hrefl w⟩

/-- A map grows when the values are compared by something that no entry changes. -/
theorem Grows.of_map_eq {B : Type} {f : V → B} (hR : ∀ v w, f v = f w → R v w) {m n : GoMap K V}
    (h : ∀ k, (n.lookup k).map f = (m.lookup k).map f) : Grows R m n := by
  intro k v hv
  have hk := h k
  rw [hv, map_some] at hk
  obtain ⟨w, hw, hwv⟩ := map_eq_some_iff.mp hk
  exact ⟨w, hw, hR v w hwv.symm⟩

end Grows

/-! ### Groups -/

section Group

variable {α : Type} [DecidableEq K] (key : α → K)

/-- One more element of its group. -/
def addToGroup (m : GoMap K (List α)) (x : α) : GoMap K (List α) :=
  m.insert (key x) ((m.lookup (key x)).getD [] ++ [x])

/-- The elements of a list by their keys, each group in the order of the list. -/
def group (xs : List α) : GoMap K (List α) := xs.foldl (addToGroup key) ∅

variable {key}

theorem group_concat (xs : List α) (x : α) :
    group key (xs ++ [x]) = addToGroup key (group key xs) x := by
  simp [group, foldl_append]

/-- The group of a key is what the list has under that key. -/
theorem lookup_group (xs : List α) (k : K) :
    ((group key xs).lookup k).getD [] = xs.filter (key · = k) := by
  induction xs using reverseRecOn with
  | nil => rfl
  | append_singleton xs x ih =>
    rw [group_concat, addToGroup, filter_append]
    by_cases hk : k = key x
    · subst hk
      rw [lookup_insert, ih]
      simp
    · rw [lookup_insert_ne hk, ih]
      simp [Ne.symm hk]

/-- The group of an element is there. -/
theorem lookup_group_of_mem {xs : List α} {x : α} (h : x ∈ xs) :
    (group key xs).lookup (key x) = some (xs.filter (key · = key x)) := by
  have hmem : x ∈ ((group key xs).lookup (key x)).getD [] := by
    rw [lookup_group]
    exact mem_filter.mpr ⟨h, decide_eq_true rfl⟩
  cases hlookup : (group key xs).lookup (key x) with
  | none => simp [hlookup] at hmem
  | some ys => rw [← lookup_group, hlookup, getD_some]

/-- No group is empty. -/
theorem group_ne_nil {xs : List α} {k : K} {ys : List α} (h : (group key xs).lookup k = some ys) :
    ys ≠ [] := by
  induction xs using reverseRecOn with
  | nil => simp [group] at h
  | append_singleton xs x ih =>
    rw [group_concat, addToGroup] at h
    by_cases hk : k = key x
    · subst hk
      rw [lookup_insert, some.injEq] at h
      rw [← h]
      simp
    · rw [lookup_insert_ne hk] at h
      exact ih h

end Group

/-! ### The map that remembers the last use of a key -/

section LastUse

variable {α : Type} [DecidableEq K] (keys : α → List K) (val : α → V)

/-- Remember `val x` under each key of `x`. -/
def noteUse (m : GoMap K V) (x : α) : GoMap K V := (keys x).foldl (fun m k => m.insert k (val x)) m

/-- The map after the elements of a slice were noted one after the other. -/
def lastUse (xs : List α) : GoMap K V := xs.foldl (noteUse keys val) ∅

variable {keys val} {xs : List α} {k : K}

theorem lookup_noteUse (m : GoMap K V) (x : α) (k : K) :
    (noteUse keys val m x).lookup k = if k ∈ keys x then some (val x) else m.lookup k :=
  lookup_foldl_insert (keys x)

theorem lastUse_concat (xs : List α) (x : α) :
    lastUse keys val (xs ++ [x]) = noteUse keys val (lastUse keys val xs) x := by
  simp [lastUse, foldl_append]

/-- What is found under a key is the value of the last element that has the key. -/
theorem lookup_lastUse_some {v : V} (h : (lastUse keys val xs).lookup k = some v) :
    ∃ before x after, xs = before ++ x :: after ∧ k ∈ keys x ∧ val x = v ∧
      ∀ y ∈ after, k ∉ keys y := by
  induction xs using reverseRecOn with
  | nil => simp [lastUse] at h
  | append_singleton xs x ih =>
    rw [lastUse_concat, lookup_noteUse] at h
    split at h
    · rename_i hk
      exact ⟨xs, x, [], rfl, hk, some.inj h, by simp⟩
    · rename_i hk
      obtain ⟨before, y, after, rfl, hy, hv, hafter⟩ := ih h
      exact ⟨before, y, after ++ [x], by simp, hy, hv, forall_mem_concat hafter hk⟩

/-- Something is found under a key that an element has. -/
theorem exists_lookup_lastUse (val : α → V) {x : α} (hx : x ∈ xs) (hk : k ∈ keys x) :
    ∃ v, (lastUse keys val xs).lookup k = some v := by
  induction xs using reverseRecOn with
  | nil => cases hx
  | append_singleton xs y ih =>
    rw [lastUse_concat, lookup_noteUse]
    by_cases hy : k ∈ keys y
    · exact ⟨val y, by simp [hy]⟩
    · rcases mem_append.mp hx with hx | hx
      · simpa [hy] using ih hx
      · rw [mem_singleton.mp hx] at hk
        exact absurd hk hy

/-- A map that is filled from a slice holds only what the slice has. -/
theorem lookup_fill {key : α → K} {v : V}
    (h : (xs.foldl (fun m x => m.insert (key x) (val x)) (∅ : GoMap K V)).lookup k = some v) :
    ∃ x ∈ xs, key x = k ∧ val x = v := by
  have hlast : (lastUse (fun x => [key x]) val xs).lookup k = some v := h
  obtain ⟨before, x, after, rfl, hk, hv, -⟩ := lookup_lastUse_some hlast
  exact ⟨x, by simp, (mem_singleton.mp hk).symm, hv⟩

/-- It has something for each element. -/
theorem exists_lookup_fill (key : α → K) (val : α → V) {x : α} (hx : x ∈ xs) :
    ∃ v, (xs.foldl (fun m x => m.insert (key x) (val x)) (∅ : GoMap K V)).lookup (key x) = some v :=
  have hlast : ∃ v, (lastUse (fun x => [key x]) val xs).lookup (key x) = some v :=
    exists_lookup_lastUse val hx (mem_singleton_self _)
  hlast

/-- With different keys nothing is lost. -/
theorem lookup_fill_iff {key : α → K} (hkeys : (xs.map key).Nodup) {v : V} :
    (xs.foldl (fun m x => m.insert (key x) (val x)) (∅ : GoMap K V)).lookup k = some v ↔
      ∃ x ∈ xs, key x = k ∧ val x = v := by
  refine ⟨lookup_fill, ?_⟩
  rintro ⟨x, hx, rfl, rfl⟩
  obtain ⟨v, hv⟩ := exists_lookup_fill key val hx
  obtain ⟨y, hy, hkey, rfl⟩ := lookup_fill hv
  rwa [inj_on_of_nodup_map hkeys hy hx hkey] at hv

/-- **Comparing with the last use is comparing with every use.**  If the relation passes along
elements with a common key, a loop that compares each element only with the last one that had
the key compares it with all of them. -/
theorem forall_lastUse_iff_pairwise (keys : α → List K) (val : α → V) {R : V → α → Prop}
    (htrans : ∀ {a b c k}, k ∈ keys a → k ∈ keys b → k ∈ keys c →
      R (val a) b → R (val b) c → R (val a) c) (xs : List α) :
    (∀ done x rest, xs = done ++ x :: rest →
      ∀ k ∈ keys x, ∀ v, (lastUse keys val done).lookup k = some v → R v x) ↔
      xs.Pairwise fun a b => (∃ k ∈ keys a, k ∈ keys b) → R (val a) b := by
  induction xs using reverseRecOn with
  | nil => simp
  | append_singleton xs x ih =>
    refine (forall_split_concat.trans (and_congr_left' ih)).trans ?_
    rw [pairwise_append]
    constructor
    · rintro ⟨hpair, hx⟩
      refine ⟨hpair, pairwise_singleton .., fun a ha y hy ⟨k, hka, hky⟩ => ?_⟩
      obtain rfl := mem_singleton.mp hy
      obtain ⟨v, hv⟩ := exists_lookup_lastUse val ha hka
      have hRv := hx k hky v hv
      obtain ⟨before, c, after, rfl, hkc, rfl, hafter⟩ := lookup_lastUse_some hv
      rcases mem_append.mp ha with ha | ha
      · have hac := (pairwise_append.mp hpair).2.2 a ha c (by simp) ⟨k, hka, hkc⟩
        exact htrans hka hkc hky hac hRv
      · rcases mem_cons.mp ha with rfl | ha
        · exact hRv
        · exact absurd hka (hafter a ha)
    · rintro ⟨hpair, -, hx⟩
      refine ⟨hpair, fun k hk v hv => ?_⟩
      obtain ⟨before, c, after, rfl, hkc, rfl, -⟩ := lookup_lastUse_some hv
      exact hx c (by simp) x (by simp) ⟨k, hkc, hk⟩

end LastUse

end GoMap

end Go
