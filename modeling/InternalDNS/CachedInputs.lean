import InternalDNS.CompilerFences
import InternalDNS.NameOwnership

/-! # Compiling from cached inputs

A zone may be compiled from an informer cache, which can be behind the source API by any amount.  A
contribution that the cache does not show would be retired for good, so `compileCachedInputs` looks
up every contribution that the previous plan has seen and the cache has not, and compiles from the
source where the cache is behind the previous plan.

Whatever the cache shows, a contribution is retired only if its object is gone or being deleted
(`cached_plan_sound`).  Objects are read one after the other, so `source` says what the source API
holds at each read of a call; an object that is there at the end was there at each of them.
-/
namespace InternalDNS.Controlplane

open Go List Except DNSRecordContribution

variable (E : Externals)

/-! ## The code -/

/-- The objects of the zone's namespace in the source API. -/
structure Source where
  registrations : List DNSRegistration
  contributions : List DNSRecordContribution
  records : List DNSRecordSet

section

variable (a : Answers) (input : CompileInput)

/-- The reads of a call.  The caller has confirmed the contributions before, unless the inputs are
cached. -/
inductive Read where
  | confirmed
  | registrations
  | records
  | contributions
  | confirm
  | get (fence : GoString)
  deriving DecidableEq

/-- What the source API answers in a call. -/
structure Answers where
  source : Read → Source
  fails : Read → Option GoString
  /-- `pinZoneRegistrations`. -/
  pin : List DNSRegistration → Except GoString (GoMap GoString ObjectReference)

def Answers.read (r : Read) : Except GoString Source :=
  match a.fails r with
  | some e => .error e
  | none => .ok (a.source r)

/-- The fences of contributions that were not retired. -/
def CompileInput.liveFences : List ContributionFence :=
  input.previousContributions.filter fun f => !f.retired

/-- `confirmContributions`. -/
def confirmContributions (r : Read) (input : CompileInput) (listed : List DNSRecordContribution) :
    Except GoString (List DNSRecordContribution) := do
  forEach (fun f => failIf (f.sourceName = []) (lit "contribution " ++ f.uid ++
    lit " has no source identity for lifetime confirmation")) input.liveFences
  let names := listed.map DNSRecordContribution.name ++
    input.liveFences.map ContributionFence.sourceName
  let current ← a.read r
  .ok (current.contributions.filter (·.name ∈ names))

/-- `cacheConflict`. -/
def cacheConflict (zone : GoString) : GoString :=
  lit "Operation cannot be fulfilled on dnszones.dns.networking.miloapis.com " ++ quoted zone ++
    lit ": zone inputs changed during publication"

/-- One fence of the previous plan, in `cachedFencesCurrent`: the contributions with the one that was
looked up, or `none` if the cache is behind.  `cs` are the generations in the cache. -/
def confirmFence (zone : GoString) (cs : GoMap GoString Nat)
    (contributions : List DNSRecordContribution) (f : ContributionFence) :
    Except GoString (Option (List DNSRecordContribution)) :=
  match cs.lookup f.uid with
  | some generation => .ok (if generation < f.generation then none else some contributions)
  | none =>
    if f.sourceName = [] then .ok none
    else do
      let source ← a.read (.get f.uid)
      match source.contributions.find? (·.name = f.sourceName) with
      | none => .ok (some contributions)
      | some c =>
        failIf (c.uid = f.uid ∧ c.generation < f.generation) (cacheConflict zone)
        .ok (some (contributions.filter (·.name ≠ c.name) ++ [c]))

/-- The loop over the fences that are not retired. -/
def confirmFences (a : Answers) (zone : GoString) (cs : GoMap GoString Nat) :
    List DNSRecordContribution → List ContributionFence →
      Except GoString (Option (List DNSRecordContribution))
  | contributions, [] => .ok (some contributions)
  | contributions, f :: fs => do
    match ← confirmFence a zone cs contributions f with
    | none => .ok none
    | some contributions => confirmFences a zone cs contributions fs

/-- `cachedFencesCurrent`: the contributions to compile, or `none` if the cache is behind. -/
def cachedFencesCurrent :
    Except GoString (Option (List DNSRecordContribution)) :=
  let regs : GoMap GoString Nat :=
    input.registrations.foldl (fun m reg => m.insert reg.uid reg.generation) ∅
  let cs : GoMap GoString Nat :=
    input.contributions.foldl (fun m c => m.insert c.uid c.generation) ∅
  if (input.previous.elim [] PublicationPlan.registrations).all fun fence =>
      (regs.lookup fence.uid).any (fence.generation ≤ ·) then
    confirmFences a input.zone.name cs input.contributions input.liveFences
  else .ok none

/-- `losesAccepted`. -/
def losesAccepted (result : CompileResult) (accepted : List GoString) : Bool :=
  accepted.any (· ∉ result.accepted)

/-- The `zoneInputSession` of a call: whether its inputs are cached, what was accepted before, and
whether it is time to check the cache. -/
structure InputSession where
  cached : Bool
  accepted : List GoString
  resync : Bool

/-- The outcome of a call, or `none` if the compiler takes too many rounds. -/
abbrev Compiled := Option (Except GoString (CompileResult × CompileInput))

def compileWith : Compiled :=
  (compile E input).map fun result => result.map fun result => (result, input)

/-- The inputs from the source, as `readZoneInputs` reads and `confirmContributions` confirms
them. -/
def liveInputs : Except GoString CompileInput := do
  let registrations := (← a.read .registrations).registrations.filter
    (·.zoneRef = input.zone.name)
  let records := (← a.read .records).records.filter (·.zoneRef = input.zone.name)
  let listed := (← a.read .contributions).contributions.filter fun c =>
    c.registrationRef.name ∈ registrations.map DNSRegistration.name
  let pins ← a.pin registrations
  let contributions ← confirmContributions a .confirm input listed
  .ok { input with
    registrations, contributions
    staticRecords := records
    registrationZoneReferences := pins }

def compileLive : Compiled :=
  match liveInputs a input with
  | .error e => some (.error e)
  | .ok live => compileWith E live

/-- `compileCachedInputs`. -/
def compileCachedInputs (session : Option InputSession) (input : CompileInput) :
    Compiled :=
  match session.filter (·.cached) with
  | none => compileWith E input
  | some session =>
    match cachedFencesCurrent a input with
    | .error e => some (.error e)
    | .ok none => compileLive E a input
    | .ok (some contributions) =>
      match compile E { input with contributions } with
      | none => none
      | some (.error e) => some (.error e)
      | some (.ok result) =>
        if losesAccepted result session.accepted ∨ session.resync then
          compileLive E a { input with contributions }
        else some (.ok (result, { input with contributions }))

end

/-! ## What the source API promises -/

section Cached

variable {E} {a : Answers} {input : CompileInput} {r : Read} {cs : List DNSRecordContribution}

/-- A copy of a contribution that the call can see. -/
def Seen (a : Answers) (input : CompileInput) (c : DNSRecordContribution) : Prop :=
  c ∈ input.contributions ∨ ∃ r, c ∈ (a.source r).contributions

/-- Names and UIDs are unique at any time, an object keeps its name, and a deletion is not taken
back.  The previous plan has one fence for each contribution, under its name. -/
structure LawfulReads (a : Answers) (input : CompileInput) : Prop where
  cached : (input.contributions.map DNSRecordContribution.uid).Nodup
  uids : ∀ r, ((a.source r).contributions.map DNSRecordContribution.uid).Nodup
  names : ∀ r, ((a.source r).contributions.map DNSRecordContribution.name).Nodup
  named : ∀ c d, Seen a input c → Seen a input d → c.uid = d.uid → c.name = d.name
  marked : ∀ c ∈ input.contributions, c.deleted = true →
    ∀ r, ∀ d ∈ (a.source r).contributions, d.uid = c.uid → d.deleted = true
  fences : (input.previousContributions.map ContributionFence.uid).Nodup
  fenced : ∀ f ∈ input.previousContributions, f.uid ≠ [] ∧ (f.retired = false → f.sourceName ≠ [] →
    ∀ c, Seen a input c → c.uid = f.uid → c.name = f.sourceName)

/-- The object is in the source API throughout the call, and not being deleted. -/
def Alive (a : Answers) (uid : GoString) : Prop :=
  ∀ r, ∃ c ∈ (a.source r).contributions, c.uid = uid ∧ c.deleted = false

/-! ## The contributions that are compiled -/

/-- Distinct contributions that the call has seen. -/
structure Copies (a : Answers) (input : CompileInput) (cs : List DNSRecordContribution) : Prop where
  nodup : (cs.map DNSRecordContribution.uid).Nodup
  seen : ∀ c ∈ cs, Seen a input c

/-- What is alive in `cs` is in `cs'`. -/
def KeepsAlive (a : Answers) (cs cs' : List DNSRecordContribution) : Prop :=
  ∀ uid, Alive a uid → uid ∈ cs.map DNSRecordContribution.uid →
    uid ∈ cs'.map DNSRecordContribution.uid

/-- The inputs that are compiled: copies of contributions, with every live one that has a fence. -/
structure Confirmed (a : Answers) (input used : CompileInput) : Prop where
  previous : used.previous = input.previous
  copies : Copies a input used.contributions
  present : ∀ f ∈ input.liveFences, Alive a f.uid →
    f.uid ∈ used.contributions.map DNSRecordContribution.uid

theorem Answers.read_eq_ok {s : Source} (h : a.read r = .ok s) : s = a.source r := by
  unfold Answers.read at h
  split at h
  · cases h
  · exact (ok.inj h).symm

variable {result : CompileResult} {used : CompileInput}

theorem compileWith_eq_ok (hcompiled : compileWith E input = some (.ok (result, used))) :
    compile E input = some (.ok result) ∧ used = input := by
  obtain ⟨out, hout, heq⟩ := Option.map_eq_some_iff.mp hcompiled
  cases out with
  | error e => cases heq
  | ok out =>
    obtain ⟨rfl, rfl⟩ := Prod.mk.inj (ok.inj heq)
    exact ⟨hout, rfl⟩

section

variable (h : LawfulReads a input)
include h

/-- No copy of it is marked as deleted. -/
theorem LawfulReads.unmarked {c : DNSRecordContribution} (hc : Seen a input c)
    (halive : Alive a c.uid) : c.deleted = false := by
  rcases hc with hc | ⟨r, hc⟩
  · obtain ⟨d, hd, huid, hlive⟩ := halive .confirm
    by_contra hdeleted
    rw [h.marked c hc (by simpa using hdeleted) _ d hd huid] at hlive
    cases hlive
  · obtain ⟨d, hd, huid, hlive⟩ := halive r
    rwa [inj_on_of_nodup_map (h.uids r) hd hc huid] at hlive

/-- Confirmed contributions are copies, with every live one that has a fence. -/
theorem confirmContributions_spec {listed cs : List DNSRecordContribution}
    (hcs : confirmContributions a r input listed = .ok cs) :
    Copies a input cs ∧
      ∀ f ∈ input.liveFences, Alive a f.uid → f.uid ∈ cs.map uid := by
  simp only [confirmContributions, bind_eq_ok, forEach_eq_ok, failIf_eq_ok] at hcs
  obtain ⟨-, hnamed, source, hsource, hcs⟩ := hcs
  obtain rfl := Answers.read_eq_ok hsource
  cases hcs
  refine ⟨⟨(h.uids r).sublist (filter_sublist.map _), fun c hc =>
    .inr ⟨r, (mem_filter.mp hc).1⟩⟩, fun f hf halive => ?_⟩
  obtain ⟨c, hc, huid, -⟩ := halive r
  obtain ⟨hprevious, hlive⟩ := mem_filter.mp hf
  have hname := (h.fenced f hprevious).2 (by simpa using hlive) (hnamed f hf) c (.inr ⟨r, hc⟩) huid
  refine mem_map.mpr ⟨c, mem_filter.mpr ⟨hc, ?_⟩, huid⟩
  simp only [hname, decide_eq_true_eq, mem_append]
  exact .inr (mem_map_of_mem hf)

/-- The object of that name in the source takes the place of the cached one. -/
theorem Copies.replace {c : DNSRecordContribution} (hcs : Copies a input cs)
    (hc : c ∈ (a.source r).contributions) :
    Copies a input (cs.filter (·.name ≠ c.name) ++ [c]) ∧
      KeepsAlive a cs (cs.filter (·.name ≠ c.name) ++ [c]) := by
  have hseen : Seen a input c := .inr ⟨r, hc⟩
  refine ⟨⟨nodup_map_concat (hcs.nodup.sublist (filter_sublist.map _)) fun d hd huid => ?_,
    forall_mem_concat (fun d hd => hcs.seen d (mem_filter.mp hd).1) hseen⟩, fun uid halive huid => ?_⟩
  · obtain ⟨hd, hne⟩ := mem_filter.mp hd
    exact absurd (h.named d c (hcs.seen d hd) hseen huid) (by simpa using hne)
  · obtain ⟨d, hd, rfl⟩ := mem_map.mp huid
    by_cases hname : d.name = c.name
    · -- the live object has the name of the copy, so it is the one that was found
      obtain ⟨x, hx, hxuid, -⟩ := halive r
      have hxname := (h.named x d (.inr ⟨r, hx⟩) (hcs.seen d hd) hxuid).trans hname
      rw [← hxuid, inj_on_of_nodup_map (h.names r) hx hc hxname]
      simp
    · exact mem_map_of_mem (mem_append_left _ (mem_filter.mpr ⟨hd, by simpa using hname⟩))

section Confirm

variable {zone : GoString} {m : GoMap GoString Nat} {cs out : List DNSRecordContribution}
  (hm : ∀ uid n, m.lookup uid = some n → uid ∈ input.contributions.map DNSRecordContribution.uid)
  (hcs : Copies a input cs) (hcached : KeepsAlive a input.contributions cs)
include hm hcs hcached

/-- A fence that is passed has its contribution among those to compile, if it is alive. -/
theorem confirmFence_spec {f : ContributionFence} (hf : f ∈ input.liveFences)
    (hout : confirmFence a zone m cs f = .ok (some out)) :
    Copies a input out ∧ KeepsAlive a cs out ∧
      (Alive a f.uid → f.uid ∈ out.map uid) := by
  unfold confirmFence at hout
  split at hout
  · rename_i n hn
    split_ifs at hout
    · cases hout
    · cases hout
      exact ⟨hcs, fun _ _ => id, fun halive => hcached f.uid halive (hm f.uid n hn)⟩
  · by_cases hsource : f.sourceName = []
    · rw [if_pos hsource] at hout
      cases hout
    rw [if_neg hsource] at hout
    obtain ⟨source, hread, hout⟩ := bind_eq_ok.mp hout
    obtain rfl := Answers.read_eq_ok hread
    obtain ⟨hprevious, hlive⟩ := mem_filter.mp hf
    -- a live object is found under the name of the fence
    have hnamed : Alive a f.uid → ∃ c ∈ (a.source (.get f.uid)).contributions, c.uid = f.uid ∧
        c.name = f.sourceName := by
      intro halive
      obtain ⟨c, hc, huid, -⟩ := halive (.get f.uid)
      exact ⟨c, hc, huid,
        (h.fenced f hprevious).2 (by simpa using hlive) hsource c (.inr ⟨_, hc⟩) huid⟩
    split at hout
    · rename_i hnone
      cases hout
      refine ⟨hcs, fun _ _ => id, fun halive => ?_⟩
      obtain ⟨c, hc, -, hname⟩ := hnamed halive
      exact absurd hname (by simpa using List.find?_eq_none.mp hnone c hc)
    · rename_i c hfound
      obtain ⟨-, -, hout⟩ := bind_eq_ok.mp hout
      cases hout
      have hc := mem_of_find?_eq_some hfound
      obtain ⟨hcopies, hkeeps⟩ := hcs.replace h hc
      refine ⟨hcopies, hkeeps, fun halive => ?_⟩
      obtain ⟨x, hx, huid, hname⟩ := hnamed halive
      have hcname : c.name = f.sourceName := by simpa using List.find?_some hfound
      rw [← huid, inj_on_of_nodup_map (h.names _) hx hc (hname.trans hcname.symm)]
      simp

/-- So have all fences, after the loop. -/
theorem confirmFences_spec {fs : List ContributionFence} (hfs : ∀ f ∈ fs, f ∈ input.liveFences)
    (hout : confirmFences a zone m cs fs = .ok (some out)) :
    Copies a input out ∧ KeepsAlive a cs out ∧
      ∀ f ∈ fs, Alive a f.uid → f.uid ∈ out.map uid := by
  induction fs generalizing cs with
  | nil =>
    cases hout
    exact ⟨hcs, fun _ _ => id, nofun⟩
  | cons f fs ih =>
    obtain ⟨hf, hfs⟩ := forall_mem_cons.mp hfs
    obtain ⟨next, hnext, hout⟩ := bind_eq_ok.mp hout
    cases next with
    | none => cases hout
    | some next =>
      obtain ⟨hcopies, hkeeps, hpresent⟩ := confirmFence_spec h hm hcs hcached hf hnext
      obtain ⟨hcopies', hkeeps', hrest⟩ :=
        ih hcopies (fun uid halive huid => hkeeps uid halive (hcached uid halive huid)) hfs hout
      refine ⟨hcopies', fun uid halive huid => hkeeps' uid halive (hkeeps uid halive huid), ?_⟩
      exact forall_mem_cons.mpr ⟨fun halive => hkeeps' _ halive (hpresent halive), hrest⟩

end Confirm

theorem compileLive_spec
    (hlive : compileLive E a { input with contributions := cs } = some (.ok (result, used))) :
    compile E used = some (.ok result) ∧ Confirmed a input used := by
  unfold compileLive at hlive
  split at hlive
  · cases hlive
  · rename_i live hinputs
    obtain ⟨hcompile, rfl⟩ := compileWith_eq_ok hlive
    simp only [liveInputs, bind_eq_ok] at hinputs
    obtain ⟨_, -, _, -, _, -, _, -, _, hconfirm, hinputs⟩ := hinputs
    cases hinputs
    obtain ⟨hcopies, hpresent⟩ := confirmContributions_spec h hconfirm
    exact ⟨hcompile, rfl, hcopies, hpresent⟩

/-- However the inputs are read, they are confirmed. -/
theorem compileCachedInputs_spec {session : Option InputSession}
    (hconfirmed : session.filter (·.cached) = none → ∃ listed, confirmContributions a .confirmed input listed = .ok input.contributions)
    (hcompiled : compileCachedInputs E a session input = some (.ok (result, used))) :
    compile E used = some (.ok result) ∧ Confirmed a input used := by
  unfold compileCachedInputs at hcompiled
  split at hcompiled
  · rename_i hsession
    obtain ⟨hcompile, rfl⟩ := compileWith_eq_ok hcompiled
    obtain ⟨listed, hlisted⟩ := hconfirmed hsession
    obtain ⟨hcopies, hpresent⟩ := confirmContributions_spec h hlisted
    exact ⟨hcompile, rfl, hcopies, hpresent⟩
  split at hcompiled
  · cases hcompiled
  · exact compileLive_spec h hcompiled
  · rename_i cs hcurrent
    split at hcompiled
    · cases hcompiled
    · cases hcompiled
    rename_i out hcompile
    split_ifs at hcompiled
    · exact compileLive_spec h hcompiled
    · obtain ⟨rfl, rfl⟩ := Prod.mk.inj (ok.inj (Option.some.inj hcompiled))
      unfold cachedFencesCurrent at hcurrent
      simp only at hcurrent
      split_ifs at hcurrent
      swap
      · cases hcurrent
      have hcache : ∀ uid n, (input.contributions.foldl (fun m c => m.insert c.uid c.generation)
          (∅ : GoMap GoString Nat)).lookup uid = some n →
          uid ∈ input.contributions.map DNSRecordContribution.uid := by
        intro uid n hn
        obtain ⟨c, hc, rfl, -⟩ := GoMap.lookup_fill hn
        exact mem_map_of_mem hc
      obtain ⟨hcopies, -, hpresent⟩ := confirmFences_spec h hcache
        ⟨h.cached, fun c hc => .inl hc⟩ (fun _ _ => id) (fun f hf => hf) hcurrent
      exact ⟨hcompile, rfl, hcopies, hpresent⟩

/-! ## The plan -/

/-- The fence of a live contribution is not retired by a plan from confirmed inputs. -/
theorem Confirmed.retired (hused : Confirmed a input used) {rejected : GoMap GoString GoString}
    {f : ContributionFence} (hf : (roundFences E used rejected).lookup f.uid = some f)
    (hretired : f.retired = true) (halive : Alive a f.uid) :
    ∃ p ∈ input.previousContributions, p.uid = f.uid ∧ p.retired = true := by
  rcases lookup_fences (E := E) hused.copies.nodup rejected _ f.uid with
    ⟨hcarried, -⟩ | ⟨c, hc, huid, -, -, hmoved⟩
  · rw [roundFences, hcarried, lookup_carriedFences] at hf
    obtain ⟨p, hp, hf⟩ := Option.map_eq_some_iff.mp hf
    obtain ⟨hmem, huid⟩ := lookup_previousFences hp
    rw [CompileInput.previousContributions, hused.previous] at hmem
    refine ⟨p, hmem, huid, ?_⟩
    by_contra hlive
    -- a live contribution that was not retired is among those that are compiled
    have hpresent := hused.present p (mem_filter.mpr ⟨hmem, by simpa using hlive⟩) (huid ▸ halive)
    obtain ⟨c, hc, hcuid⟩ := mem_map.mp hpresent
    rw [if_pos (any_eq_true.mpr ⟨c, hc, by simpa using hcuid⟩)] at hf
    exact hlive (hf ▸ hretired)
  · rw [roundFences, hmoved] at hf
    cases hf
    have hmarked : c.deleted = true := hretired
    rw [h.unmarked (hused.copies.seen c hc) halive] at hmarked
    cases hmarked

end

/-- **No staleness of the cache retires a live contribution or lowers a fence.**  What the plan
retires was retired before, or its object is gone or being deleted; and each fence of the previous
plan is still there, not lower and not brought back. -/
theorem cached_plan_sound (h : LawfulReads a input) {session : Option InputSession}
    (hconfirmed : session.filter (·.cached) = none →
      ∃ listed, confirmContributions a .confirmed input listed = .ok input.contributions)
    (hcompiled : compileCachedInputs E a session input = some (.ok (result, used))) :
    (∀ f ∈ result.plan.contributions, f.retired = true → Alive a f.uid →
      ∃ p ∈ input.previousContributions, p.uid = f.uid ∧ p.retired = true) ∧
    ∀ p ∈ input.previousContributions, ∃ f ∈ result.plan.contributions, p.Below f := by
  obtain ⟨hcompile, hused⟩ := compileCachedInputs_spec h hconfirmed hcompiled
  obtain ⟨-, rejected, rfl⟩ := compile_eq_ok hcompile
  have hfence {f} : f ∈ (compilePlan E used rejected).plan.contributions ↔
      (roundFences E used rejected).lookup f.uid = some f :=
    mem_plan_contributions hused.copies.nodup
  refine ⟨fun f hf => hused.retired h (hfence.mp hf), fun p hp => ?_⟩
  have hprevious : used.previousContributions = input.previousContributions := by
    rw [CompileInput.previousContributions, hused.previous]
    rfl
  obtain ⟨g, hg, hbelow⟩ := fence_dominates (E := E) hused.copies.nodup rejected _
    (h.fenced p hp).1 (lookup_previousFences_of_mem (hprevious ▸ h.fences) (hprevious ▸ hp))
  exact ⟨g, hfence.mpr (hbelow.uid ▸ hg), hbelow⟩

end Cached

/-- A source that holds one contribution, and none of it in the cache. -/
def oneSource (c : DNSRecordContribution) : Answers where
  source _ := ⟨(managedInput [] []).registrations, [c], []⟩
  fails _ := none
  pin _ := .ok (managedInput [] []).registrationZoneReferences

def staleInput : CompileInput :=
  { managedInput [] [] with
    previous := some ⟨lit "zone-uid", lit "corp.test", [], [],
      [⟨lit "web-1", 1, 1, false, lit "web-1"⟩], []⟩ }

theorem lawful_oneSource {c : DNSRecordContribution} (hname : c.name = lit "web-1") :
    LawfulReads (oneSource c) staleInput := by
  have hseen : ∀ d, Seen (oneSource c) staleInput d → d = c := by
    rintro d (hd | ⟨_, hd⟩)
    · cases hd
    · exact mem_singleton.mp hd
  refine ⟨nodup_nil, fun _ => nodup_singleton _, fun _ => nodup_singleton _,
    fun d e hd he _ => by rw [hseen d hd, hseen e he], nofun, nodup_singleton _, fun f hf => ?_⟩
  obtain rfl := mem_singleton.mp hf
  exact ⟨by decide, fun _ _ d hd _ => by rw [hseen d hd, hname]⟩

/-- The compiler's answer, from the stale cache. -/
def staleCompiled (c : DNSRecordContribution) : Compiled :=
  compileCachedInputs .reference (oneSource c) (some ⟨true, [], false⟩) staleInput

theorem missed_contribution_kept : ∃ result used,
    staleCompiled scopeContribution = some (.ok (result, used)) ∧
      ∀ f ∈ result.plan.contributions, f.uid = lit "web-1" → f.retired = false := by
  obtain ⟨out, hout, -⟩ : ∃ out, staleCompiled scopeContribution = some (.ok out) ∧ True :=
    exists_ok_of_any (by decide +kernel)
  refine ⟨out.1, out.2, hout, fun f hf huid => ?_⟩
  have hsound := cached_plan_sound (lawful_oneSource rfl) (fun h => by cases h) hout
  by_contra hretired
  obtain ⟨p, hp, -, hpretired⟩ := hsound.1 f hf (by simpa using hretired)
    (fun _ => ⟨scopeContribution, mem_singleton_self _, huid.symm, rfl⟩)
  obtain rfl := mem_singleton.mp hp
  cases hpretired

/-- An object that waits for its finalizers is still there, and its contribution is retired. -/
theorem terminating_contribution_retired : ∃ c : DNSRecordContribution, c.uid = lit "web-1" ∧
    LawfulReads (oneSource c) staleInput ∧ (∀ r, c ∈ ((oneSource c).source r).contributions) ∧
    (∀ p ∈ staleInput.previousContributions, p.retired = false) ∧
    ∃ result used, staleCompiled c = some (.ok (result, used)) ∧
      ∃ f ∈ result.plan.contributions, f.uid = lit "web-1" ∧ f.retired = true := by
  refine ⟨{ scopeContribution with deleted := true }, rfl, lawful_oneSource rfl,
    fun _ => mem_singleton_self _, by decide, ?_⟩
  obtain ⟨out, hout, hfence⟩ : ∃ out, staleCompiled { scopeContribution with deleted := true } =
      some (.ok out) ∧ ∃ f ∈ out.1.plan.contributions, f.uid = lit "web-1" ∧ f.retired = true :=
    exists_ok_of_any (by decide +kernel)
  exact ⟨out.1, out.2, hout, hfence⟩

end InternalDNS.Controlplane
