import InternalDNS.SerialRunner

/-! # The requests of the daemon queue

What each request may rely on by its place in `Run`, the invariant of all requests together, and
the main result: over every interleaving and every cancellation, commands run one at a time and in
order, and every request is answered by a run that was started after it was made.
-/
namespace InternalDNS.Serving

open Go List Function Option Nat SerialRunner

/-- What holds of a request by where it is; `asked` is its call. -/
def RunState.Fits {R : Type} (r : SerialRunner R) (started : List Nat) (asked : Option Nat) :
    RunState R → Prop
  | .idle | .cancelled => True
  | .waiting c | .following c => asked = some c ∧ (c ∈ r.queue ∨ c ∈ started)
  | .woken c => asked = some c ∧ (c ∈ r.queue ∨ c ∈ started) ∧ 0 < (r.calls c).ready
  | .running c => asked = some c ∧ c ∈ r.queue ∧ c ∈ started
  | .finishing c _ => asked = some c ∧ c ∉ r.queue ∧ c ∈ started
  | .leaving c abandoned => abandoned = true → c < r.made ∧ c ∉ r.queue ∧ c ∉ started
  | .returned out => out.isSome ∧ ∃ c, asked = some c ∧ c ∈ started

section Fits

variable {R : Type} {r r' : SerialRunner R} {started started' : List Nat} {asked : Option Nat}
  {state : RunState R} {c : Nat}

theorem RunState.Fits.of_waitsFor (h : state.Fits r started asked) (hc : state.waitsFor = some c) :
    asked = some c ∧ (c ∈ r.queue ∨ c ∈ started) := by
  cases state with
  | waiting d => cases hc; exact h
  | following d => cases hc; exact h
  | woken d => cases hc; exact ⟨h.1, h.2.1⟩
  | _ => cases hc

/-- **What the others do leaves a request where it is.**  Calls only enter the queue when they are
made, and only leave it when the request does not need it. -/
theorem RunState.Fits.mono (h : state.Fits r started asked) (hr : r.QueueInv started)
    (hmade : r.made ≤ r'.made) (hnew : ∀ d ∈ r'.queue, d < r.made → d ∈ r.queue)
    (hstarted : ∀ d ∈ started, d ∈ started')
    (hready : ∀ d, d < r.made → (r.calls d).ready ≤ (r'.calls d).ready)
    (hwait : ∀ d, state.waitsFor = some d → d ∈ r.queue → d ∈ r'.queue ∨ d ∈ started')
    (hrun : ∀ d, state = .running d → d ∈ r.queue → d ∈ r'.queue)
    (hstart : ∀ d, d ∉ r.queue → d ∈ started' → d ∈ started) : state.Fits r' started' asked := by
  have hwait' : ∀ d, state.waitsFor = some d → d ∈ r.queue ∨ d ∈ started →
      d ∈ r'.queue ∨ d ∈ started' := by
    intro d hd hmem
    rcases hmem with hmem | hmem
    · exact hwait d hd hmem
    · exact .inr (hstarted d hmem)
  cases state with
  | idle => trivial
  | cancelled => trivial
  | waiting c => exact ⟨h.1, hwait' c rfl h.2⟩
  | following c => exact ⟨h.1, hwait' c rfl h.2⟩
  | woken c =>
    have hlt : c < r.made := h.2.1.elim (hr.queue_lt c) (hr.started_lt c)
    exact ⟨h.1, hwait' c rfl h.2.1, lt_of_lt_of_le h.2.2 (hready c hlt)⟩
  | running c => exact ⟨h.1, hrun c rfl h.2.1, hstarted c h.2.2⟩
  | finishing c out =>
    exact ⟨h.1, fun hmem => h.2.1 (hnew c hmem (hr.started_lt c h.2.2)), hstarted c h.2.2⟩
  | leaving c abandoned =>
    intro habandoned
    obtain ⟨hlt, hqueue, hstarted⟩ := h habandoned
    exact ⟨lt_of_lt_of_le hlt hmade, fun hmem => hqueue (hnew c hmem hlt),
      fun hmem => hstarted (hstart c hqueue hmem)⟩
  | returned out =>
    obtain ⟨hout, c, hasked, hmem⟩ := h
    exact ⟨hout, c, hasked, hstarted c hmem⟩

end Fits

namespace SerialWorld

variable {I R : Type} {w w' : SerialWorld I R} {c : Nat}

/-- The call of a request. -/
def asked (w : SerialWorld I R) (i : I) : Option Nat := (w.request i).map Prod.fst

/-- **The invariant of the runner**: every request fits its place; one request runs a call; a call
counts its waiters; no request was given a call that had started; a call that is over has left the
queue, and has an outcome if it was started. -/
structure Inv (w : SerialWorld I R) : Prop where
  queue : w.runner.QueueInv w.started
  fits : ∀ i, (w.proc i).Fits w.runner w.started (w.asked i)
  one : ∀ i j c, w.proc i = .running c → w.proc j = .running c → i = j
  waiters : ∀ c, ∃ waiting : List I, waiting.length ≤ (w.runner.calls c).waiters ∧
    ∀ i, (w.proc i).waitsFor = some c → i ∈ waiting
  request : ∀ i c n, w.request i = some (c, n) →
    c < w.runner.made ∧ n ≤ w.started.length ∧ c ∉ w.started.take n
  settled : ∀ c, c < w.runner.made → 0 < (w.runner.calls c).done →
    c ∉ w.runner.queue ∧ (c ∈ w.started → (w.runner.calls c).out.isSome)

theorem Init.inv (h : w.Init) : Inv w := by
  constructor
  case queue =>
    constructor
    case ready_le => intro c; rw [h.ready]; exact zero_le 1
    case running_iff => intro c _; simp [h.running, h.started]
    all_goals simp [h.queue, h.started]
  case fits => intro i; rw [h.proc]; trivial
  case one => intro i j c hi; simp [h.proc] at hi
  case waiters =>
    intro c
    exact ⟨[], zero_le _, fun i hi => by simp [h.proc, RunState.waitsFor] at hi⟩
  case request => intro i c n hi; simp [h.request] at hi
  case settled => intro c _ hc; simp [h.done] at hc

/-- A change of a call that signals nobody and starts nothing. -/
theorem Inv.modify (h : Inv w) {f : SerialCall R → SerialCall R}
    (hready : (f (w.runner.calls c)).ready = (w.runner.calls c).ready)
    (hrunning : (f (w.runner.calls c)).running = (w.runner.calls c).running)
    (hwaiters : ∃ waiting : List I, waiting.length ≤ (f (w.runner.calls c)).waiters ∧
      ∀ i, (w.proc i).waitsFor = some c → i ∈ waiting)
    (hsettled : c < w.runner.made → 0 < (f (w.runner.calls c)).done →
      c ∉ w.runner.queue ∧ (c ∈ w.started → (f (w.runner.calls c)).out.isSome)) :
    Inv { w with runner := w.runner.modify c f } := by
  constructor
  case queue => exact h.queue.modify hready hrunning
  case fits =>
    intro i
    exact (h.fits i).mono h.queue (le_refl _) (fun d hd _ => hd) (fun d hd => hd)
      (fun d _ => (modify_same SerialCall.ready hready d).ge)
      (fun d _ hd => .inl hd) (fun d _ hd => hd) (fun d _ hd => hd)
  case one => exact h.one
  case waiters =>
    intro d
    simp only [modify_calls]
    split_ifs with hd
    · subst hd
      exact hwaiters
    · exact h.waiters d
  case request => exact h.request
  case settled =>
    intro d hlt hdone
    simp only [modify_calls] at hdone ⊢
    split_ifs at hdone ⊢ with hd
    · subst hd
      exact hsettled hlt hdone
    · exact h.settled d hlt hdone

/-- A removal of a call that nobody runs, and nobody waits for unless it was started. -/
theorem Inv.removeLocked (h : Inv w) (hwait : ∀ i, (w.proc i).waitsFor = some c → c ∈ w.started)
    (hrun : ∀ i, w.proc i ≠ .running c) :
    Inv { w with runner := (w.runner.removeLocked c).1 } := by
  have hcalls : ∀ d, ∃ ready, (w.runner.calls d).ready ≤ ready ∧
      (w.runner.removeLocked c).1.calls d = { w.runner.calls d with ready } :=
    fun d => removeLocked_calls
  have hstay : ∀ d, d ≠ c → d ∈ w.runner.queue → d ∈ (w.runner.removeLocked c).1.queue := by
    intro d hne hd
    rw [removeLocked_queue]
    exact (mem_erase_of_ne hne).mpr hd
  have hold : ∀ d ∈ (w.runner.removeLocked c).1.queue, d ∈ w.runner.queue := by
    intro d hd
    rw [removeLocked_queue] at hd
    exact mem_of_mem_erase hd
  constructor
  case queue => exact h.queue.removeLocked c
  case fits =>
    intro i
    refine (h.fits i).mono h.queue (le_of_eq removeLocked_made.symm)
      (fun d hd _ => hold d hd) (fun d hd => hd) ?_ ?_ ?_ (fun d _ hd => hd)
    · intro d _
      obtain ⟨ready, hle, heq⟩ := hcalls d
      rw [heq]
      exact hle
    · intro d hd hqueue
      by_cases hdc : d = c
      · exact .inr (hdc ▸ hwait i (hdc ▸ hd))
      · exact .inl (hstay d hdc hqueue)
    · intro d hd hqueue
      exact hstay d (fun hdc => hrun i (hdc ▸ hd)) hqueue
  case one => exact h.one
  case waiters =>
    intro d
    obtain ⟨ready, -, heq⟩ := hcalls d
    simp only [heq]
    exact h.waiters d
  case request =>
    simp only [removeLocked_made]
    exact h.request
  case settled =>
    intro d hlt hdone
    obtain ⟨ready, -, heq⟩ := hcalls d
    simp only [heq, removeLocked_made] at hlt hdone ⊢
    obtain ⟨hqueue, hout⟩ := h.settled d hlt hdone
    exact ⟨fun hmem => hqueue (hold d hmem), hout⟩

/-- A new call. -/
theorem Inv.append (h : Inv w) (identity : GoString) :
    Inv { w with runner := w.runner.append identity } := by
  have hcalls : ∀ d, d < w.runner.made → (w.runner.append identity).calls d = w.runner.calls d := by
    intro d hd
    rw [append_calls, if_neg (Nat.ne_of_lt hd)]
  have hqueue : ∀ d, d < w.runner.made →
      (d ∈ (w.runner.append identity).queue ↔ d ∈ w.runner.queue) := by
    intro d hd
    simp [Nat.ne_of_lt hd]
  constructor
  case queue => exact h.queue.append identity
  case fits =>
    intro i
    have hstay : ∀ d ∈ w.runner.queue, d ∈ (w.runner.append identity).queue :=
      fun d hd => (hqueue d (h.queue.queue_lt d hd)).mpr hd
    refine (h.fits i).mono h.queue (by simp) (fun d hd hlt => (hqueue d hlt).mp hd)
      (fun d hd => hd) ?_ (fun d _ hd => .inl (hstay d hd)) (fun d _ hd => hstay d hd)
      (fun d _ hd => hd)
    intro d hd
    rw [hcalls d hd]
  case one => exact h.one
  case waiters =>
    intro d
    by_cases hd : d = w.runner.made
    · refine ⟨[], Nat.zero_le _, fun i hi => ?_⟩
      -- nobody waits for a call that has not been made
      have hmem := ((h.fits i).of_waitsFor hi).2
      have hlt := hmem.elim (h.queue.queue_lt d) (h.queue.started_lt d)
      omega
    · simp only [append_calls, if_neg hd]
      exact h.waiters d
  case request =>
    intro i c n hi
    obtain ⟨hlt, hrest⟩ := h.request i c n hi
    exact ⟨by simpa using Nat.lt_succ_of_lt hlt, hrest⟩
  case settled =>
    intro d hlt hdone
    simp only [append_made] at hlt
    rcases Nat.lt_succ_iff_lt_or_eq.mp hlt with hlt | rfl
    · simp only [hcalls d hlt] at hdone ⊢
      obtain ⟨hnot, hout⟩ := h.settled d hlt hdone
      exact ⟨fun hmem => hnot ((hqueue d hlt).mp hmem), hout⟩
    · simp [append_calls] at hdone

/-- The start of a call that has been signalled. -/
theorem Inv.start (h : Inv w) (hqueue : c ∈ w.runner.queue) (hready : 0 < (w.runner.calls c).ready)
    (hfirst : (w.runner.calls c).running = false) :
    Inv { w with
      runner := w.runner.modify c fun call => { call with running := true }
      started := w.started ++ [c] } := by
  have hsame := modify_same (r := w.runner) (c := c)
    (f := fun call => { call with running := true }) SerialCall.ready rfl
  constructor
  case queue => exact h.queue.start hqueue hready hfirst
  case fits =>
    intro i
    refine (h.fits i).mono h.queue (le_refl _) (fun d hd _ => hd)
      (fun d hd => mem_append_left _ hd)
      (fun d _ => (hsame d).ge) (fun d _ hd => .inl hd) (fun d _ hd => hd) fun d hnot hd => ?_
    rcases mem_append.mp hd with hd | hd
    · exact hd
    · exact absurd (mem_singleton.mp hd ▸ hqueue) hnot
  case one => exact h.one
  case waiters =>
    intro d
    rw [modify_same SerialCall.waiters rfl]
    exact h.waiters d
  case request =>
    intro i d n hi
    obtain ⟨hlt, hle, hnot⟩ := h.request i d n hi
    refine ⟨hlt, ?_, ?_⟩
    · simp only [length_append]
      omega
    · rw [take_append_of_le_length hle]
      exact hnot
  case settled =>
    intro d hlt hdone
    simp only [modify_calls] at hdone ⊢
    split_ifs at hdone ⊢ with hd
    · subst hd
      exact absurd hqueue (h.settled d hlt hdone).1
    · obtain ⟨hnot, hout⟩ := h.settled d hlt hdone
      exact ⟨hnot, fun hmem => hout (by simpa [hd] using hmem)⟩

variable {i : I} {state : RunState R} {command : I → Command}

theorem waitsFor_of_select (h : w.proc i = .waiting c ∨ w.proc i = .following c) :
    (w.proc i).waitsFor = some c := by
  rcases h with h | h <;> rw [h] <;> rfl

theorem Inv.fits_of (h : Inv w) (hproc : w.proc i = state) :
    state.Fits w.runner w.started (w.asked i) := hproc ▸ h.fits i

theorem Inv.running_started (h : Inv w) (hrunning : w.proc i = .running c) : c ∈ w.started :=
  (h.fits_of hrunning).2.2

/-- Two commands that run at one time are the head's, and one request runs it. -/
theorem Inv.running_unique (h : Inv w) {j : I} {c d : Nat} (hi : w.proc i = .running c)
    (hj : w.proc j = .running d) : i = j := by
  have hfits := h.fits_of hi
  have hfits' := h.fits_of hj
  have hc := h.queue.head_of_started hfits.2.1 hfits.2.2
  have hd := h.queue.head_of_started hfits'.2.1 hfits'.2.2
  obtain rfl : c = d := mem_unique hc hd
  exact h.one i j c hi hj

/-- The call of a new request: queued, not started, and with room for one more waiter. -/
structure Offers (w : SerialWorld I R) (c : Nat) : Prop where
  queued : c ∈ w.runner.queue
  waits : c ∉ w.started
  room : ∃ waiting : List I, waiting.length + 1 ≤ (w.runner.calls c).waiters ∧
    ∀ j, (w.proc j).waitsFor = some c → j ∈ waiting

/-- **A request is given a call that has not started**: a new one, or one behind the head. -/
theorem Inv.request_spec (h : Inv w) {identity : GoString} {r : SerialRunner R}
    (hrequest : w.runner.request identity = (r, c)) :
    Inv { w with runner := r } ∧ Offers { w with runner := r } c := by
  have wait : ∀ {w : SerialWorld I R}, Inv w → ∀ {c : Nat}, c ∈ w.runner.queue → c ∉ w.started →
      Inv { w with runner := w.runner.modify c fun call => { call with waiters := call.waiters + 1 } } ∧
      Offers { w with runner :=
        w.runner.modify c fun call => { call with waiters := call.waiters + 1 } } c := by
    intro w h c hqueue hnot
    obtain ⟨waiting, hle, hmem⟩ := h.waiters c
    refine ⟨h.modify rfl rfl ⟨waiting, le_succ_of_le hle, hmem⟩ (h.settled c), hqueue, hnot,
      waiting, ?_, hmem⟩
    rw [SerialRunner.modify_calls, if_pos rfl]
    exact succ_le_succ hle
  unfold SerialRunner.request at hrequest
  cases hjoined : w.runner.joined identity with
  | some d =>
    simp only [hjoined] at hrequest
    obtain ⟨rfl, rfl⟩ := Prod.mk.inj hrequest
    have htail : d ∈ w.runner.queue.tail := SerialRunner.joined_spec hjoined
    refine wait h (mem_of_mem_tail htail) fun hstarted => ?_
    -- a started call is the head and signalled, and the call that is joined is not
    have hhead := h.queue.head_of_started (mem_of_mem_tail htail) hstarted
    have hone := h.queue.head d hhead
    have hzero := h.queue.tail d htail
    omega
  | none =>
    simp only [hjoined] at hrequest
    obtain ⟨rfl, rfl⟩ := Prod.mk.inj hrequest
    refine wait (h.append identity) ?_ fun hstarted => ?_
    · simp
    · exact lt_irrefl _ (h.queue.started_lt _ hstarted)

variable [DecidableEq I]

theorem goto_proc (j : I) : (w.goto i state).proc j = if j = i then state else w.proc j :=
  update_apply ..

section

variable (h : Inv w) (hfits : state.Fits w.runner w.started (w.asked i))
include h hfits

/-- A move of one request, to a place that it fits. -/
theorem Inv.goto
    (hwait : ∀ c, state.waitsFor = some c → ∃ waiting : List I,
      waiting.length ≤ (w.runner.calls c).waiters ∧ i ∈ waiting ∧
        ∀ j, (w.proc j).waitsFor = some c → j ∈ waiting)
    (hrun : ∀ c, state = .running c → ∀ j, w.proc j ≠ .running c) : Inv (w.goto i state) := by
  constructor
  case queue => exact h.queue
  case fits =>
    intro j
    rw [goto_proc]
    split_ifs with hj
    · subst hj
      exact hfits
    · exact h.fits j
  case one =>
    intro j k c hj hk
    rw [goto_proc] at hj hk
    split_ifs at hj hk with hji hki hki
    · rw [hji, hki]
    · exact absurd hk (hrun c hj k)
    · exact absurd hj (hrun c hk j)
    · exact h.one j k c hj hk
  case waiters =>
    intro c
    by_cases hstate : state.waitsFor = some c
    · obtain ⟨waiting, hle, hi, hothers⟩ := hwait c hstate
      refine ⟨waiting, hle, fun j hj => ?_⟩
      rw [goto_proc] at hj
      split_ifs at hj with hji
      · exact hji ▸ hi
      · exact hothers j hj
    · obtain ⟨waiting, hle, hothers⟩ := h.waiters c
      refine ⟨waiting, hle, fun j hj => ?_⟩
      rw [goto_proc] at hj
      split_ifs at hj with hji
      · exact absurd hj hstate
      · exact hothers j hj
  case request => exact h.request
  case settled => exact h.settled

/-- A move to a place where the request waits for nothing more, and runs nothing. -/
theorem Inv.goto_past (hwait : state.waitsFor = none) (hrun : ∀ c, state ≠ .running c) :
    Inv (w.goto i state) :=
  h.goto hfits (fun c hc => by simp [hwait] at hc) (fun c hc => absurd hc (hrun c))

/-- A move between two places where the request waits for one call. -/
theorem Inv.goto_wait (hwait : state.waitsFor = some c) (hbefore : (w.proc i).waitsFor = some c) :
    Inv (w.goto i state) := by
  refine h.goto hfits (fun d hd => ?_) (fun d hd => by simp [hd, RunState.waitsFor] at hwait)
  obtain rfl : c = d := mem_unique hwait hd
  obtain ⟨waiting, hle, hmem⟩ := h.waiters c
  exact ⟨waiting, hle, hmem i hbefore, hmem⟩

end

/-- A request that is about to move is taken out first: the others do not depend on its place. -/
theorem Inv.out (h : Inv w) (i : I) : Inv (w.goto i .cancelled) :=
  h.goto_past trivial rfl (fun _ => nofun)

theorem goto_out (r : SerialRunner R) : { (w.goto i state) with runner := r } =
    SerialWorld.goto { (w.goto i .cancelled) with runner := r } i state := by
  simp [SerialWorld.goto]

/-- The request waits for the call that it was given. -/
theorem Inv.ask (h : Inv w) (hoffers : Offers w c) (hidle : w.proc i = .idle) :
    Inv { (w.goto i (.waiting c)) with
      request := Function.update w.request i (some (c, w.started.length)) } := by
  have hasked : Inv { w with
      request := update w.request i (some (c, w.started.length)) } := by
    refine ⟨h.queue, fun j => ?_, h.one, h.waiters, fun j d n hj => ?_, h.settled⟩
    · by_cases hj : j = i
      · subst hj
        rw [hidle]
        trivial
      · simpa [asked, update_of_ne hj] using h.fits j
    · by_cases hji : j = i
      · subst hji
        simp only [update_self, some.injEq, Prod.mk.injEq] at hj
        obtain ⟨rfl, rfl⟩ := hj
        exact ⟨h.queue.queue_lt c hoffers.queued, le_refl _,
          fun hmem => hoffers.waits (mem_of_mem_take hmem)⟩
      · simp only [update_of_ne hji] at hj
        exact h.request j d n hj
  refine hasked.goto ⟨?_, .inl hoffers.queued⟩ (fun d hd => ?_) (fun _ => nofun)
  · simp [asked]
  · obtain rfl : c = d := some.inj hd
    obtain ⟨waiting, hle, hmem⟩ := hoffers.room
    exact ⟨i :: waiting, hle, mem_cons_self, fun j hj => mem_cons_of_mem _ (hmem j hj)⟩

/-- **A waiter that leaves takes its call along only if it was the last one.** -/
theorem Inv.leave (h : Inv w) (hwait : (w.proc i).waitsFor = some c) {r : SerialRunner R}
    {abandoned : Bool} (hleave : w.runner.leave c = (r, abandoned)) :
    Inv { (w.goto i (.leaving c abandoned)) with runner := r } := by
  have hmade : c < w.runner.made :=
    ((h.fits i).of_waitsFor hwait).2.elim (h.queue.queue_lt c) (h.queue.started_lt c)
  obtain ⟨waiting, hle, hmem⟩ := h.waiters c
  have hothers : ∀ j, ((w.goto i .cancelled).proc j).waitsFor = some c → j ∈ waiting.erase i := by
    intro j hj
    rw [goto_proc] at hj
    split_ifs at hj with hji
    · cases hj
    · exact (mem_erase_of_ne hji).mpr (hmem j hj)
  have hcount : (waiting.erase i).length ≤ (w.runner.calls c).waiters - 1 := by
    rw [length_erase_of_mem (hmem i hwait)]
    exact Nat.sub_le_sub_right hle 1
  have hleft : Inv { (w.goto i .cancelled) with
      runner := w.runner.modify c fun call => { call with waiters := call.waiters - 1 } } :=
    (h.out i).modify rfl rfl ⟨_, hcount, hothers⟩ ((h.out i).settled c)
  rw [goto_out]
  simp only [SerialRunner.leave] at hleave
  split_ifs at hleave with hlast
  · obtain ⟨hzero, hrunning⟩ := hlast
    simp only [SerialRunner.modify_calls, ↓reduceIte] at hzero hrunning
    have hnone : waiting.erase i = [] := eq_nil_of_length_eq_zero (by omega)
    have hnot : c ∉ w.started := by
      intro hstarted
      simp [(h.queue.running_iff c hmade).mpr hstarted] at hrunning
    have hremoved := hleft.removeLocked (c := c)
      (fun j hj => absurd (hothers j hj) (by simp [hnone]))
      (fun j hj => hnot (hleft.running_started hj))
    rw [hleave] at hremoved
    refine hremoved.goto_past (fun _ => ?_) rfl (fun _ => nofun)
    have hr : r = ((w.runner.modify c fun call =>
      { call with waiters := call.waiters - 1 }).removeLocked c).1 := by rw [hleave]
    rw [hr, SerialRunner.removeLocked_made, SerialRunner.removeLocked_queue]
    exact ⟨hmade, h.queue.sorted.nodup.not_mem_erase, hnot⟩
  · obtain ⟨rfl, rfl⟩ := Prod.mk.inj hleave
    exact hleft.goto_past (fun hfalse => by cases hfalse) rfl (fun _ => nofun)

/-- **Every step keeps the invariant.** -/
theorem Step.inv (hstep : Step command w w') (h : Inv w) : Inv w' := by
  cases hstep with
  | cancel i => exact ⟨h.queue, h.fits, h.one, h.waiters, h.request, h.settled⟩
  | request i hidle hrequest =>
    obtain ⟨hinv, hoffers⟩ := h.request_spec hrequest
    exact hinv.ask hoffers hidle
  | wake i c hwaiting hready =>
    have hwait : (w.proc i).waitsFor = some c := waitsFor_of_select (.inl hwaiting)
    obtain ⟨hasked, hmem⟩ := (h.fits i).of_waitsFor hwait
    exact h.goto_wait ⟨hasked, hmem, hready⟩ rfl hwait
  | served i c hproc hdone =>
    obtain ⟨hasked, hmem⟩ := (h.fits i).of_waitsFor (waitsFor_of_select hproc)
    have hmade : c < w.runner.made := hmem.elim (h.queue.queue_lt c) (h.queue.started_lt c)
    -- a call that is over is not queued, so it was started and has an outcome
    obtain ⟨hqueue, hout⟩ := h.settled c hmade hdone
    have hstarted : c ∈ w.started := hmem.resolve_left hqueue
    exact h.goto_past ⟨hout hstarted, c, hasked, hstarted⟩ rfl (fun _ => nofun)
  | leave i c hproc hcancelled hleave => exact h.leave (waitsFor_of_select hproc) hleave
  | left i c hleaving => exact h.out i
  | abandon i c hleaving =>
    obtain ⟨-, hqueue, hnot⟩ := h.fits_of hleaving rfl
    rw [goto_out]
    exact ((h.out i).modify rfl rfl ((h.out i).waiters c)
      (fun _ _ => ⟨hqueue, fun hstarted => absurd hstarted hnot⟩)).out i
  | follow i c hwoken hnot =>
    have hwait : (w.proc i).waitsFor = some c := by rw [hwoken]; rfl
    exact h.goto_wait ((h.fits i).of_waitsFor hwait) rfl hwait
  | start i c hwoken hfirst hlive =>
    obtain ⟨hasked, hmem, hready⟩ := h.fits_of hwoken
    have hnot : c ∉ w.started := by
      intro hstarted
      simp [(h.queue.running_iff c (h.queue.started_lt c hstarted)).mpr hstarted] at hfirst
    have hqueue : c ∈ w.runner.queue := hmem.resolve_right hnot
    refine (h.start hqueue hready hfirst).goto ?_ (fun _ => nofun) ?_
    · exact ⟨hasked, hqueue, mem_append_right _ (mem_singleton_self c)⟩
    · rintro d hd j hj
      cases hd
      exact hnot (h.running_started hj)
  | finish i c out hrunning =>
    obtain ⟨hasked, hqueue, hstarted⟩ := h.fits_of hrunning
    rw [goto_out]
    refine Inv.goto_past ((h.out i).removeLocked (fun _ _ => hstarted) fun j hj => ?_)
      ⟨hasked, ?_, hstarted⟩ rfl (fun _ => nofun)
    · rw [goto_proc] at hj
      split_ifs at hj with hji
      exact hji (h.one j i c hj hrunning)
    · rw [removeLocked_queue]
      exact h.queue.sorted.nodup.not_mem_erase
  | publish i c out hfinishing =>
    obtain ⟨hasked, hqueue, hstarted⟩ := h.fits_of hfinishing
    rw [goto_out]
    have hout := (h.out i).modify (c := c) (f := fun call => { call with out := some out }) rfl rfl
      ((h.out i).waiters c) (fun _ _ => ⟨hqueue, fun _ => rfl⟩)
    have hdone := hout.modify (c := c) (f := fun call => { call with done := call.done + 1 }) rfl rfl
      (hout.waiters c) (fun _ _ => ⟨hqueue, fun _ => by simp [modify_calls]⟩)
    exact hdone.goto_past ⟨rfl, c, hasked, hstarted⟩ rfl (fun _ => nofun)

/-- **The invariant holds in every state of every run.** -/
theorem Inv.of_reachable (h : Reachable Init (Step command) w) : Inv w :=
  h.invariant (fun _ hinit => hinit.inv) (fun _ _ hinv hstep => hstep.inv hinv)

/-- **The queue serves its requests in order.**  In every state of every run, whatever joins and is
cancelled: one command runs at most; commands were started in the order in which their calls were
queued; a request's call was not among those that had been started when the request was made, and
when the request returns without being cancelled, it is with the outcome of a run that was started
since; no `ready` is closed twice; and the head of the queue has been signalled. -/
theorem requests_served_in_order (h : Reachable Init (Step command) w) :
    (∀ i j c d, w.proc i = .running c → w.proc j = .running d → i = j) ∧
      w.started.Pairwise (· < ·) ∧
      (∀ i c n, w.request i = some (c, n) → c ∉ w.started.take n ∧
        ∀ out, w.proc i = .returned out → c ∈ w.started.drop n ∧ out.isSome) ∧
      (∀ c, (w.runner.calls c).ready ≤ 1) ∧
      ∀ c, w.runner.queue.head? = some c → (w.runner.calls c).ready = 1 := by
  have hinv := Inv.of_reachable h
  refine ⟨fun i j c d => hinv.running_unique, hinv.queue.order, fun i c n hrequest => ?_,
    hinv.queue.ready_le, hinv.queue.head⟩
  obtain ⟨-, -, hnot⟩ := hinv.request i c n hrequest
  refine ⟨hnot, fun out hreturned => ?_⟩
  have hfits := hinv.fits_of hreturned
  rw [asked, hrequest] at hfits
  obtain ⟨hout, d, hd, hstarted⟩ := hfits
  obtain rfl : c = d := some.inj hd
  rw [← take_append_drop n w.started, mem_append] at hstarted
  exact ⟨hstarted.resolve_left hnot, hout⟩

end SerialWorld

/-! A run: a reload is queued, then a second command that two requests share.  The reload ends, the
first of the two is cancelled, and the other runs their call. -/

/-- The commands of the run. -/
def reloadThenGate (i : Fin 3) : Command :=
  if i = 0 then ⟨lit "pdns_control", [lit "reload"]⟩ else ⟨lit "dnsdist", [lit "gate"]⟩

def idleWorld : SerialWorld (Fin 3) Unit :=
  { runner := ⟨0, fun _ => { identity := [] }, []⟩
    proc := fun _ => .idle
    cancelled := fun _ => false
    started := []
    request := fun _ => none }

theorem cancelled_waiter_replaced : ∃ w : SerialWorld (Fin 3) Unit,
    Reachable SerialWorld.Init (SerialWorld.Step reloadThenGate) w ∧
      w.proc 2 = .running 1 ∧ w.started = [0, 1] ∧ w.request 2 = some (1, 0) ∧
      1 ∉ w.started.take 0 ∧ (w.runner.calls 1).ready ≤ 1 := by
  have h₀ : Reachable SerialWorld.Init (SerialWorld.Step reloadThenGate) idleWorld :=
    .init ⟨rfl, fun _ => rfl, fun _ => rfl, fun _ => rfl, fun _ => rfl, rfl, fun _ => rfl⟩
  have h₁ := h₀.step (.request 0 rfl rfl)
  have h₂ := h₁.step (.request 1 rfl rfl)
  have h₃ := h₂.step (.request 2 rfl rfl)
  have h₄ := h₃.step (.wake 0 0 rfl (by decide))
  have h₅ := h₄.step (.start 0 0 rfl rfl rfl)
  have h₆ := h₅.step (.finish 0 0 () rfl)
  have h₇ := h₆.step (.publish 0 0 () rfl)
  have h₈ := h₇.step (.wake 1 1 rfl (by decide))
  have h₉ := h₈.step (.cancel 1)
  have h₁₀ := h₉.step (.follow 1 1 rfl (.inr rfl))
  have h₁₁ := h₁₀.step (.leave 1 1 (.inr rfl) rfl rfl)
  have h₁₂ := h₁₁.step (.wake 2 1 rfl (by decide))
  have h₁₃ := h₁₂.step (.start 2 1 rfl rfl rfl)
  obtain ⟨-, -, hserved, hready, -⟩ := SerialWorld.requests_served_in_order h₁₃
  exact ⟨_, h₁₃, rfl, rfl, rfl, (hserved 2 1 0 rfl).1, hready 1⟩

end InternalDNS.Serving
