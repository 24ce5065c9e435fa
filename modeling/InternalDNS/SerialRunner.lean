import InternalDNS.GoStore
import InternalDNS.GoStrings

/-! # The queue of daemon commands

A member runs the commands of its daemons one at a time.  A request queues a call, or joins the
newest call when that is the same command and not at the head; whichever of the call's waiters is
still there when the call reaches the head runs the command for all of them.

A call is named by its number in the order in which the calls were queued, and a channel is the
number of times it has been closed.  Each step of a request is what it does under the mutex, or one
channel operation; between two steps the other requests go on, and a request is cancelled at any
moment.  `started` and `request` record the run: the calls whose commands were started, in that
order, and for each request its call and how many commands had been started when it was made.
-/
namespace InternalDNS.Serving

open Go List Nat

/-- `serving.Command`. -/
structure Command where
  path : GoString
  args : List GoString

/-- What makes two requests the same command. -/
def Command.identity (c : Command) : GoString :=
  c.path ++ ['\x00'] ++ List.intercalate ['\x00'] c.args

/-- `serialCall`; `out` is `none` until the command has ended. -/
structure SerialCall (R : Type) where
  identity : GoString
  waiters : Nat := 0
  running : Bool := false
  ready : Nat := 0
  done : Nat := 0
  out : Option R := none

/-- `serialRunner`, with the calls that were ever made. -/
structure SerialRunner (R : Type) where
  made : Nat
  calls : Nat → SerialCall R
  queue : List Nat

namespace SerialRunner

variable {R : Type} (r : SerialRunner R) (c : Nat)

def modify (f : SerialCall R → SerialCall R) : SerialRunner R :=
  { r with calls := Function.update r.calls c (f (r.calls c)) }

/-- `close(call.ready)`. -/
def closeReady : SerialRunner R := r.modify c fun call => { call with ready := call.ready + 1 }

/-- `close(call.done)`. -/
def closeDone : SerialRunner R := r.modify c fun call => { call with done := call.done + 1 }

/-- The call that a request joins. -/
def joined (identity : GoString) : Option Nat :=
  if 1 < r.queue.length then
    r.queue.getLast?.filter fun c => (r.calls c).identity = identity
  else none

def enqueue (call : SerialCall R) : SerialRunner R :=
  { made := r.made + 1
    calls := Function.update r.calls r.made call
    queue := r.queue ++ [r.made] }

/-- A new call at the end of the queue. -/
def append (identity : GoString) : SerialRunner R :=
  let added := r.enqueue { identity }
  if added.queue.length = 1 then added.closeReady r.made else added

/-- The first section of `Run` under the mutex: the runner after it, and the request's call. -/
def request (identity : GoString) : SerialRunner R × Nat :=
  let wait (call : SerialCall R) : SerialCall R := { call with waiters := call.waiters + 1 }
  match r.joined identity with
  | some c => (r.modify c wait, c)
  | none => ((r.append identity).modify r.made wait, r.made)

/-- The signal to the call at the head. -/
def signalHead : SerialRunner R :=
  match r.queue with
  | [] => r
  | head :: _ => r.closeReady head

def dequeue : SerialRunner R := { r with queue := r.queue.erase c }

/-- `removeLocked`, with whether the call was still queued. -/
def removeLocked : SerialRunner R × Bool :=
  if r.queue.head? = some c then ((r.dequeue c).signalHead, true)
  else (r.dequeue c, decide (c ∈ r.queue))

/-- The section of `leave` under the mutex, with whether the call is abandoned. -/
def leave : SerialRunner R × Bool :=
  let left := r.modify c fun call => { call with waiters := call.waiters - 1 }
  if (left.calls c).waiters = 0 ∧ (left.calls c).running = false then left.removeLocked c
  else (left, false)

end SerialRunner

/-- Where a request is in `Run`. -/
inductive RunState (R : Type) where
  | idle
  /-- At the first `select`. -/
  | waiting (c : Nat)
  /-- Signalled, and before the second section under the mutex. -/
  | woken (c : Nat)
  /-- At the second `select`. -/
  | following (c : Nat)
  /-- In the delegate's `Run`. -/
  | running (c : Nat)
  /-- In `finish`, after its section under the mutex. -/
  | finishing (c : Nat) (out : R)
  /-- In `leave`, after its section under the mutex. -/
  | leaving (c : Nat) (abandoned : Bool)
  | returned (out : Option R)
  | cancelled

/-- The call that a request waits for without running it. -/
def RunState.waitsFor {R : Type} : RunState R → Option Nat
  | .waiting c | .woken c | .following c => some c
  | _ => none

/-- The runner, the requests and the record of the run. -/
structure SerialWorld (I R : Type) where
  runner : SerialRunner R
  proc : I → RunState R
  cancelled : I → Bool
  started : List Nat
  request : I → Option (Nat × Nat)

namespace SerialWorld

variable {I R : Type} [DecidableEq I]

/-- A runner before its first request. -/
structure Init (w : SerialWorld I R) : Prop where
  queue : w.runner.queue = []
  ready : ∀ c, (w.runner.calls c).ready = 0
  running : ∀ c, (w.runner.calls c).running = false
  done : ∀ c, (w.runner.calls c).done = 0
  proc : ∀ i, w.proc i = .idle
  started : w.started = []
  request : ∀ i, w.request i = none

def goto (w : SerialWorld I R) (i : I) (state : RunState R) : SerialWorld I R :=
  { w with proc := Function.update w.proc i state }

/-- One step of a request, or a cancellation; `command` is what each request asks for. -/
inductive Step (command : I → Command) (w : SerialWorld I R) : SerialWorld I R → Prop
  | cancel (i : I) : Step command w { w with cancelled := Function.update w.cancelled i true }
  | request (i : I) (hidle : w.proc i = .idle) {r : SerialRunner R} {c : Nat}
      (hrequest : w.runner.request (command i).identity = (r, c)) :
      Step command w
        { (w.goto i (.waiting c)) with
          runner := r
          request := Function.update w.request i (some (c, w.started.length)) }
  | wake (i : I) (c : Nat) (hwaiting : w.proc i = .waiting c)
      (hready : 0 < (w.runner.calls c).ready) : Step command w (w.goto i (.woken c))
  | served (i : I) (c : Nat) (hproc : w.proc i = .waiting c ∨ w.proc i = .following c)
      (hdone : 0 < (w.runner.calls c).done) :
      Step command w (w.goto i (.returned (w.runner.calls c).out))
  | leave (i : I) (c : Nat) (hproc : w.proc i = .waiting c ∨ w.proc i = .following c)
      (hcancelled : w.cancelled i = true) {r : SerialRunner R} {abandoned : Bool}
      (hleave : w.runner.leave c = (r, abandoned)) :
      Step command w { (w.goto i (.leaving c abandoned)) with runner := r }
  | left (i : I) (c : Nat) (hleaving : w.proc i = .leaving c false) :
      Step command w (w.goto i .cancelled)
  | abandon (i : I) (c : Nat) (hleaving : w.proc i = .leaving c true) :
      Step command w { (w.goto i .cancelled) with runner := w.runner.closeDone c }
  | follow (i : I) (c : Nat) (hwoken : w.proc i = .woken c)
      (hnot : (w.runner.calls c).running = true ∨ w.cancelled i = true) :
      Step command w (w.goto i (.following c))
  | start (i : I) (c : Nat) (hwoken : w.proc i = .woken c)
      (hfirst : (w.runner.calls c).running = false) (hlive : w.cancelled i = false) :
      Step command w
        { (w.goto i (.running c)) with
          runner := w.runner.modify c fun call => { call with running := true }
          started := w.started ++ [c] }
  | finish (i : I) (c : Nat) (out : R) (hrunning : w.proc i = .running c) :
      Step command w
        { (w.goto i (.finishing c out)) with runner := (w.runner.removeLocked c).1 }
  | publish (i : I) (c : Nat) (out : R) (hfinishing : w.proc i = .finishing c out) :
      Step command w
        { (w.goto i (.returned (some out))) with
          runner := (w.runner.modify c fun call => { call with out := some out }).closeDone c }

end SerialWorld

/-! ## The queue -/

namespace SerialRunner

variable {R : Type} {r : SerialRunner R} {c d : Nat} {started : List Nat}
  (f : SerialCall R → SerialCall R)

theorem modify_calls :
    (r.modify c f).calls d = if d = c then f (r.calls c) else r.calls d := by
  simp only [modify, Function.update_apply]

/-- What a change leaves alone in its call is the same in all of them. -/
theorem modify_same {α : Type} (g : SerialCall R → α) {f : SerialCall R → SerialCall R}
    (h : g (f (r.calls c)) = g (r.calls c)) (d : Nat) : g ((r.modify c f).calls d) = g (r.calls d) := by
  rw [modify_calls]
  split_ifs with hd
  · rw [h, hd]
  · rfl

@[simp] theorem modify_queue : (r.modify c f).queue = r.queue := rfl

/-- **The invariant of the queue.**  Calls are queued and started in the order of their numbers, and
exactly the head of the queue has been signalled of those that are in it. -/
structure QueueInv (r : SerialRunner R) (started : List Nat) : Prop where
  queue_lt : ∀ c ∈ r.queue, c < r.made
  started_lt : ∀ c ∈ started, c < r.made
  sorted : r.queue.Pairwise (· < ·)
  order : started.Pairwise (· < ·)
  ahead : ∀ c ∈ started, ∀ d ∈ r.queue, c ≤ d
  running_iff : ∀ c, c < r.made → ((r.calls c).running = true ↔ c ∈ started)
  ready_le : ∀ c, (r.calls c).ready ≤ 1
  head : ∀ c, r.queue.head? = some c → (r.calls c).ready = 1
  tail : ∀ c ∈ r.queue.tail, (r.calls c).ready = 0

/-- A joined call is at the end of the queue and not at its head. -/
theorem joined_spec {identity : GoString} (h : r.joined identity = some c) : c ∈ r.queue.tail := by
  unfold joined at h
  split_ifs at h with hlen
  have hlast := (Option.filter_eq_some_iff.mp h).1
  match hq : r.queue with
  | [] => simp [hq] at hlen
  | [_] => simp [hq] at hlen
  | head :: next :: rest =>
    rw [hq, List.getLast?_cons_cons] at hlast
    exact mem_of_getLast? hlast

@[simp] theorem append_queue (identity : GoString) :
    (r.append identity).queue = r.queue ++ [r.made] := by
  simp only [append]
  split_ifs <;> rfl

@[simp] theorem append_made (identity : GoString) : (r.append identity).made = r.made + 1 := by
  simp only [append]
  split_ifs <;> rfl

theorem append_calls (identity : GoString) : (r.append identity).calls d =
    if d = r.made then { identity, ready := if r.queue = [] then 1 else 0 } else r.calls d := by
  have hlen : (r.queue ++ [r.made]).length = 1 ↔ r.queue = [] := by simp
  simp only [append, enqueue, hlen]
  by_cases hempty : r.queue = []
  · rw [if_pos hempty, if_pos hempty, closeReady, modify_calls]
    by_cases hd : d = r.made <;> simp [hd]
  · rw [if_neg hempty, if_neg hempty]
    by_cases hd : d = r.made <;> simp [hd]

@[simp] theorem signalHead_queue : r.signalHead.queue = r.queue := by
  unfold signalHead
  split <;> rfl

@[simp] theorem signalHead_made : r.signalHead.made = r.made := by
  unfold signalHead
  split <;> rfl

theorem signalHead_calls : r.signalHead.calls d =
    if r.queue.head? = some d then { r.calls d with ready := (r.calls d).ready + 1 }
    else r.calls d := by
  unfold signalHead
  split
  next hempty => simp [hempty]
  next head rest hcons =>
    by_cases hd : d = head
    · simp [closeReady, modify_calls, hcons, hd]
    · simp [closeReady, modify_calls, hcons, hd, Ne.symm hd]

@[simp] theorem removeLocked_queue : (r.removeLocked c).1.queue = r.queue.erase c := by
  unfold removeLocked
  split_ifs
  · exact signalHead_queue
  · rfl

@[simp] theorem removeLocked_made : (r.removeLocked c).1.made = r.made := by
  unfold removeLocked
  split_ifs
  · exact signalHead_made
  · rfl

/-- A removal changes nothing of a call but that it may have been signalled. -/
theorem removeLocked_calls : ∃ ready, (r.calls d).ready ≤ ready ∧
    (r.removeLocked c).1.calls d = { r.calls d with ready } := by
  unfold removeLocked
  split_ifs
  · rw [signalHead_calls]
    split_ifs
    · exact ⟨_, le_succ _, rfl⟩
    · exact ⟨_, le_refl _, rfl⟩
  · exact ⟨_, le_refl _, rfl⟩

section

variable (h : QueueInv r started)
include h

/-- A change of a call that leaves its `ready` and `running` alone. -/
theorem QueueInv.modify {f : SerialCall R → SerialCall R}
    (hready : (f (r.calls c)).ready = (r.calls c).ready)
    (hrunning : (f (r.calls c)).running = (r.calls c).running) :
    QueueInv (r.modify c f) started := by
  have hready' := modify_same SerialCall.ready hready
  refine { h with
    running_iff := fun d hd => ?_
    ready_le := fun d => hready' d ▸ h.ready_le d
    head := fun d hd => (hready' d).trans (h.head d hd)
    tail := fun d hd => (hready' d).trans (h.tail d hd) }
  rw [modify_same SerialCall.running hrunning]
  exact h.running_iff d hd

/-- A started call that is still queued is the head. -/
theorem QueueInv.head_of_started (hqueue : c ∈ r.queue) (hstarted : c ∈ started) :
    r.queue.head? = some c := by
  cases hq : r.queue with
  | nil => simp [hq] at hqueue
  | cons head rest =>
    have hle : c ≤ head := h.ahead c hstarted head (by simp [hq])
    have hsorted := h.sorted
    rw [hq] at hqueue hsorted
    rcases mem_cons.mp hqueue with rfl | hrest
    · rfl
    · exact absurd (rel_of_pairwise_cons hsorted hrest) (not_lt.mpr hle)

/-- A signalled call that is still queued is the head. -/
theorem QueueInv.head_of_ready (hqueue : c ∈ r.queue) (hready : 0 < (r.calls c).ready) :
    r.queue.head? = some c := by
  cases hq : r.queue with
  | nil => simp [hq] at hqueue
  | cons head rest =>
    rw [hq] at hqueue
    rcases mem_cons.mp hqueue with rfl | hrest
    · rfl
    · have := h.tail c (by rw [hq]; exact hrest)
      omega

theorem QueueInv.append (identity : GoString) :
    QueueInv (r.append identity) started := by
  have hcalls : ∀ d, d < r.made → (r.append identity).calls d = r.calls d := by
    intro d hd
    rw [append_calls, if_neg (Nat.ne_of_lt hd)]
  constructor
  case queue_lt =>
    intro d hd
    rw [append_queue, mem_append, mem_singleton] at hd
    rw [append_made]
    rcases hd with hd | rfl
    · exact Nat.lt_succ_of_lt (h.queue_lt d hd)
    · exact Nat.lt_succ_self _
  case started_lt =>
    intro d hd
    rw [append_made]
    exact Nat.lt_succ_of_lt (h.started_lt d hd)
  case sorted =>
    rw [append_queue, pairwise_append]
    refine ⟨h.sorted, pairwise_singleton _ _, fun d hd e he => ?_⟩
    rw [mem_singleton.mp he]
    exact h.queue_lt d hd
  case order => exact h.order
  case ahead =>
    intro s hs d hd
    rw [append_queue, mem_append, mem_singleton] at hd
    rcases hd with hd | rfl
    · exact h.ahead s hs d hd
    · exact Nat.le_of_lt (h.started_lt s hs)
  case running_iff =>
    intro d hd
    rw [append_made] at hd
    rcases Nat.lt_succ_iff_lt_or_eq.mp hd with hlt | rfl
    · rw [hcalls d hlt]
      exact h.running_iff d hlt
    · rw [append_calls, if_pos rfl]
      -- the new call has not been started, since only known calls have
      simpa using fun hs => Nat.lt_irrefl _ (h.started_lt _ hs)
  case ready_le =>
    intro d
    rw [append_calls]
    split_ifs
    · exact Nat.le_refl 1
    · exact Nat.zero_le 1
    · exact h.ready_le d
  case head =>
    intro d hd
    rw [append_queue] at hd
    cases hq : r.queue with
    | nil =>
      rw [hq] at hd
      obtain rfl : r.made = d := by simpa using hd
      simp [append_calls, hq]
    | cons head rest =>
      rw [hq] at hd
      obtain rfl : head = d := by simpa using hd
      rw [hcalls head (h.queue_lt head (by simp [hq]))]
      exact h.head head (by simp [hq])
  case tail =>
    intro d hd
    rw [append_queue] at hd
    cases hq : r.queue with
    | nil => simp [hq] at hd
    | cons head rest =>
      rw [hq, cons_append, tail_cons, mem_append, mem_singleton] at hd
      rcases hd with hd | rfl
      · rw [hcalls d (h.queue_lt d (by simp [hq, hd]))]
        exact h.tail d (by simp [hq, hd])
      · simp [append_calls, hq]

theorem QueueInv.dequeue_order (c : Nat) :
    (∀ d ∈ r.queue.erase c, d < r.made) ∧ (r.queue.erase c).Pairwise (· < ·) ∧
      ∀ s ∈ started, ∀ d ∈ r.queue.erase c, s ≤ d :=
  ⟨fun d hd => h.queue_lt d (mem_of_mem_erase hd), h.sorted.erase c,
    fun s hs d hd => h.ahead s hs d (mem_of_mem_erase hd)⟩

/-- A removal of a call behind the head signals nobody. -/
theorem QueueInv.ready_of_behind (hhead : r.queue.head? ≠ some c) :
    (∀ d, (r.queue.erase c).head? = some d → (r.calls d).ready = 1) ∧
      ∀ d ∈ (r.queue.erase c).tail, (r.calls d).ready = 0 := by
  cases hq : r.queue with
  | nil => simp
  | cons head rest =>
    have hne : head ≠ c := fun heq => hhead (by rw [hq, heq]; rfl)
    rw [erase_cons_tail (by simpa using hne)]
    refine ⟨fun d hd => h.head d (by rw [hq]; exact hd), fun d hd => h.tail d ?_⟩
    rw [hq]
    exact mem_of_mem_erase hd

/-- A removal of the head signals the call behind it, which had not been signalled. -/
theorem QueueInv.ready_of_head (hhead : r.queue.head? = some c) :
    (∀ d, (r.dequeue c).queue.head? = some d → (r.calls d).ready = 0) ∧
      ∀ d ∈ (r.dequeue c).queue.tail,
        (r.calls d).ready = 0 ∧ (r.dequeue c).queue.head? ≠ some d := by
  obtain ⟨rest, hq⟩ : ∃ rest, r.queue = c :: rest := List.head?_eq_some_iff.mp hhead
  have htail : ∀ d ∈ rest, (r.calls d).ready = 0 := fun d hd => h.tail d (by rw [hq]; exact hd)
  have hsorted : rest.Pairwise (· < ·) := (hq ▸ h.sorted).of_cons
  have hrest : (r.dequeue c).queue = rest := by rw [dequeue, hq, erase_cons_head]
  rw [hrest]
  refine ⟨fun d hd => htail d (mem_of_mem_head? hd), fun d hd => ?_⟩
  refine ⟨htail d (mem_of_mem_tail hd), fun hfirst => ?_⟩
  obtain ⟨behind, rfl⟩ := List.head?_eq_some_iff.mp hfirst
  exact lt_irrefl d (rel_of_pairwise_cons hsorted hd)

/-- **A removal keeps the invariant**: when the head goes, the next call is signalled. -/
theorem QueueInv.removeLocked (c : Nat) :
    QueueInv (r.removeLocked c).1 started := by
  have hkeep := h.dequeue_order c
  have hready : (∀ d, ((r.removeLocked c).1.calls d).ready ≤ 1) ∧
      (∀ d, (r.queue.erase c).head? = some d → ((r.removeLocked c).1.calls d).ready = 1) ∧
      ∀ d ∈ (r.queue.erase c).tail, ((r.removeLocked c).1.calls d).ready = 0 := by
    unfold SerialRunner.removeLocked
    split_ifs with hhead
    · obtain ⟨hnext, hbehind⟩ := h.ready_of_head hhead
      refine ⟨fun d => ?_, fun d hd => ?_, fun d hd => ?_⟩
      · rw [signalHead_calls]
        split_ifs with hd
        · exact succ_le_succ (le_of_eq (hnext d hd))
        · exact h.ready_le d
      · rw [signalHead_calls, if_pos (show (r.dequeue c).queue.head? = some d from hd)]
        exact congrArg succ (hnext d hd)
      · rw [signalHead_calls, if_neg (hbehind d hd).2]
        exact (hbehind d hd).1
    · exact ⟨h.ready_le, h.ready_of_behind hhead⟩
  constructor
  case queue_lt => simpa using hkeep.1
  case started_lt => simpa using h.started_lt
  case sorted => simpa using hkeep.2.1
  case order => exact h.order
  case ahead => simpa using hkeep.2.2
  case running_iff =>
    intro d hd
    obtain ⟨ready, -, hcalls⟩ := removeLocked_calls (r := r) (c := c) (d := d)
    rw [hcalls]
    exact h.running_iff d (by simpa using hd)
  case ready_le => exact hready.1
  case head => simpa using hready.2.1
  case tail => simpa using hready.2.2

/-- **The head may be started.** -/
theorem QueueInv.start (hqueue : c ∈ r.queue) (hready : 0 < (r.calls c).ready)
    (hfirst : (r.calls c).running = false) :
    QueueInv (r.modify c fun call => { call with running := true }) (started ++ [c]) := by
  have hmade : c < r.made := h.queue_lt c hqueue
  have hnew : c ∉ started := fun hmem => by simp [(h.running_iff c hmade).mpr hmem] at hfirst
  have hsame := modify_same (r := r) (c := c) (f := fun call => { call with running := true })
    SerialCall.ready rfl
  constructor
  case queue_lt => exact h.queue_lt
  case started_lt => exact forall_mem_append.mpr ⟨h.started_lt, forall_mem_singleton.mpr hmade⟩
  case sorted => exact h.sorted
  case order =>
    rw [pairwise_append]
    refine ⟨h.order, pairwise_singleton _ _, fun s hs d hd => ?_⟩
    rw [mem_singleton.mp hd]
    exact lt_of_le_of_ne (h.ahead s hs c hqueue) fun heq => hnew (heq ▸ hs)
  case ahead =>
    refine forall_mem_append.mpr ⟨h.ahead, forall_mem_singleton.mpr fun d hd => ?_⟩
    -- the started call is the head, and the queue is in the order of the numbers
    obtain ⟨rest, hq⟩ := List.head?_eq_some_iff.mp (h.head_of_ready hqueue hready)
    have hsorted := h.sorted
    rw [hq] at hsorted
    rw [modify_queue, hq] at hd
    rcases mem_cons.mp hd with rfl | hrest
    · exact le_refl d
    · exact le_of_lt (rel_of_pairwise_cons hsorted hrest)
  case running_iff =>
    intro d hd
    rw [modify_calls, mem_append, mem_singleton]
    split_ifs with hdc
    · simp [hdc]
    · simpa [hdc] using h.running_iff d hd
  case ready_le => exact fun d => hsame d ▸ h.ready_le d
  case head => exact fun d hd => (hsame d).trans (h.head d hd)
  case tail => exact fun d hd => (hsame d).trans (h.tail d hd)

end

end SerialRunner

end InternalDNS.Serving
