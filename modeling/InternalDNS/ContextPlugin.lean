import InternalDNS.CoreDNSConfig
import InternalDNS.Identity

/-! # The context plugin

The CoreDNS plugin that answers every tenant.  `compile` turns an accepted configuration
into a map from destination addresses to contexts.  `serve` finds the context of a query,
then the zone of the context that is closest to the query name, and passes the query to
one handler: the zone's own data, the upstream of a forwarding context, or the public
resolver if no zone matches.
-/
namespace InternalDNS

open Go List AList Except Option DNS

/-- `coredns.contextState`.  A handler that does not exist is a `none` or `false`. -/
structure ContextState where
  pending : Bool
  pendingZones : GoMap GoString Bool
  zoneApexes : List GoString
  zoneFiles : GoMap GoString GoString
  next : Option (List GoString)
  hasPublic : Bool

/-- `coredns.snapshot`: the contexts by canonical destination address. -/
abbrev PluginState := GoMap GoString ContextState

variable (E : Externals)

/-- `snapshot.forward`: no upstreams make no handler. -/
def forward (upstreams : List GoString) : Option (List GoString) :=
  if upstreams = [] then none else some upstreams

/-- One zone of a context definition. -/
def compileZone (forwards : Bool) (state : ContextState) (zone : Zone) :
    Except GoString ContextState :=
  let apex := absoluteName E.cases zone.apex
  let state := { state with
    pendingZones := state.pendingZones.insert apex zone.pending
    zoneApexes := apex :: state.zoneApexes }
  if zone.pending ∨ forwards then .ok state
  else E.fileParse zone.data apex >>= fun _ =>
    .ok { state with zoneFiles := state.zoneFiles.insert apex zone.data }

/-- One context definition. -/
def compileContext (hasPublic : Bool) (definition : Context) : Except GoString ContextState := do
  let state ← loop (compileZone E (definition.upstreams ≠ []))
    { pending := definition.pending, pendingZones := ∅, zoneApexes := [], zoneFiles := ∅,
      next := none, hasPublic := false } definition.zones
  let next := forward definition.upstreams
  .ok { state with next := next, hasPublic := hasPublic && next.isNone }

/-- `coredns.compile`. -/
def compile (c : Config) : Except GoString PluginState := do
  c.validate E
  loop (fun (contexts : PluginState) definition => do
    let state ← compileContext E (forward c.publicUpstreams).isSome definition
    let key ← orError (addressKey definition.destination) (lit "ParseAddr " ++ definition.destination)
    .ok (contexts.insert key state)) ∅ c.contexts

/-! ## Serving a query -/

/-- The outcome labels of the query counter. -/
inductive Outcome where
  | servedZone | forwardedNext | forwardedPublic
  | refusedUnknownContext | refusedBadDestination | refusedBadIdentity | refusedUnsupported
  | refusedTransfer
  | servfailNoState | servfailContext | servfailZone | servfailNoUpstream
  | readinessCanary | servfailCanaryIdentity
  deriving DecidableEq

/-- The handler a query is passed to. -/
inductive Handler where
  | zoneFile (apex data : GoString)
  | zones
  | next (upstreams : List GoString)
  | publicUpstream
  deriving DecidableEq

/-- What became of a query: its outcome, and the handler and message it was passed on with. -/
structure Served where
  outcome : Outcome
  passed : Option (Handler × Msg)
  deriving DecidableEq

/-- The response code the plugin itself gives, where it does not leave that to a handler. -/
def Outcome.rcode : Outcome → Option Nat
  | .servedZone | .forwardedNext | .forwardedPublic => none
  | .readinessCanary => some 0
  | .servfailNoState | .servfailContext | .servfailZone | .servfailNoUpstream
  | .servfailCanaryIdentity => some 2
  | .refusedUnknownContext | .refusedBadDestination | .refusedBadIdentity | .refusedUnsupported
  | .refusedTransfer => some 5

/-- How a query arrived: over UDP, through a proxy that kept its destination, or otherwise. -/
inductive Remote where
  | udp
  | proxied (originalDestination : GoString)
  | other
  deriving DecidableEq

/-- The response writer of a query. -/
structure Writer where
  localAddr : GoString
  remote : Remote
  deriving DecidableEq

/-- `coredns.ContextPlugin`. -/
structure ContextPlugin where
  state : Option PluginState
  identityKey : Option (List UInt8)

/-- `dns.ClassINET`, `dns.ClassCHAOS`, `dns.OpcodeQuery` and the types the plugin names. -/
def classINET : Nat := 1
def classCHAOS : Nat := 3
def opcodeQuery : Nat := 0
def typeTXT : Nat := 16
def typeIXFR : Nat := 251
def typeAXFR : Nat := 252

/-- `coredns.ReadinessCanaryName`. -/
def readinessCanaryName : GoString := lit "ready.internal-dns."

/-- `coredns.IsReadinessCanary`. -/
def isReadinessCanary (r : Msg) : Bool :=
  match r.question with
  | [q] => r.opcode = opcodeQuery && q.qclass = classCHAOS && q.qtype = typeTXT &&
      equalFold q.name readinessCanaryName
  | _ => false

/-- `coredns.canonicalQueryName`. -/
def canonicalQueryName (name : GoString) : GoString := toLower E.cases (E.dns.fqdn name)

/-- The walk of `coredns.matchZone` over the label boundaries from `offset` on.  The library
moves the offset forward at every step, so the length of the name bounds the walk. -/
def matchZoneFrom (apexes : List GoString) (qname : GoString) :
    (fuel offset : Nat) → Option GoString
  | 0, _ => none
  | fuel + 1, offset =>
    if offset < qname.length then
      if qname.drop offset ∈ apexes then some (qname.drop offset)
      else match E.dns.nextLabel qname offset with
        | (_, true) => none
        | (next, false) => matchZoneFrom apexes qname fuel next
    else none

/-- `coredns.matchZone`; no match is the empty string in the source. -/
def matchZone (apexes : List GoString) (qname : GoString) : Option GoString :=
  match matchZoneFrom E apexes qname qname.length 0 with
  | some apex => some apex
  | none => if ['.'] ∈ apexes then some ['.'] else none

variable (text : List UInt8 → GoString)

/-- `ContextPlugin.destination`: the text under which the context is looked up, and the query
without its identity options.  `followUp` is the destination that an earlier query selected,
when CoreDNS runs a copy of it again. -/
def ContextPlugin.destination (p : ContextPlugin) (followUp : Option GoString) (w : Writer)
    (r : Msg) : Except Outcome (GoString × Msg) :=
  match followUp with
  | some host => .ok (host, r)
  | none =>
    let destination := match w.remote with
      | .proxied original => original
      | _ => w.localAddr
    match splitHostPort destination with
    | none => .error .refusedBadDestination
    | some (host, _) =>
      match p.identityKey with
      | none => .ok (host, r)
      | some key =>
        let (asserted, present, r') := identityDestination text key r
        if w.remote = .udp ∧ present = false then .error .refusedBadIdentity
        else if present then
          if asserted = .invalid then .error .refusedBadIdentity else .ok (asserted.string, r')
        else .ok (host, r')

/-- The end of `ContextPlugin.serve`, once the context is known. -/
def serveContext (selected : ContextState) (q : Question) (r : Msg) : Served :=
  if selected.pending then ⟨.servfailContext, none⟩
  else if r.opcode ≠ opcodeQuery then ⟨.refusedUnsupported, none⟩
  else if q.qtype = typeAXFR ∨ q.qtype = typeIXFR then ⟨.refusedTransfer, none⟩
  else match matchZone E selected.zoneApexes (canonicalQueryName E q.name) with
    | some apex =>
      if (selected.pendingZones.lookup apex).getD false then ⟨.servfailZone, none⟩
      else match selected.next with
        | some upstreams => ⟨.forwardedNext, some (.next upstreams, r)⟩
        | none =>
          match selected.zoneFiles.lookup apex with
          | some data => ⟨.servedZone, some (.zoneFile apex data, r)⟩
          | none => ⟨.servedZone, some (.zones, r)⟩
    | none =>
      match selected.next with
      | some upstreams => ⟨.forwardedNext, some (.next upstreams, r)⟩
      | none =>
        if selected.hasPublic then ⟨.forwardedPublic, some (.publicUpstream, r)⟩
        else ⟨.servfailNoUpstream, none⟩

/-- `ContextPlugin.serve`. -/
def ContextPlugin.serve (p : ContextPlugin) (followUp : Option GoString) (w : Writer) (r : Msg) :
    Served :=
  match p.state with
  | none => ⟨.servfailNoState, none⟩
  | some contexts =>
    if isReadinessCanary r then
      match p.identityKey with
      | none => ⟨.readinessCanary, none⟩
      | some key =>
        let (asserted, present, _) := identityDestination text key r
        if present = false ∨ asserted = .invalid then ⟨.servfailCanaryIdentity, none⟩
        else ⟨.readinessCanary, none⟩
    else match r.question with
      | [q] =>
        if q.qclass ≠ classINET then ⟨.refusedUnsupported, none⟩
        else match p.destination text followUp w r with
          | .error outcome => ⟨outcome, none⟩
          | .ok (host, r') =>
            match contexts.lookup host with
            | none => ⟨.refusedUnknownContext, none⟩
            | some selected => serveContext E selected q r'
      | _ => ⟨.refusedUnsupported, none⟩

/-! ## The closest zone -/

section Match

variable {E} {apexes : List GoString} {apex : GoString}

/-- A walk with fuel to reach the end of the name returns the first label suffix, from the offset
on, that is an apex, and nothing if there is none. -/
theorem matchZoneFrom_spec {qname : GoString} {fuel offset : Nat}
    (hoff : offset ∈ DNS.labelStarts qname) (hfuel : qname.length ≤ fuel + offset) :
    (matchZoneFrom E apexes qname fuel offset = none ∧
      ∀ j ∈ DNS.labelStarts qname, offset ≤ j → qname.drop j ∉ apexes) ∨
    ∃ k ∈ DNS.labelStarts qname, qname.drop k ∈ apexes ∧
      matchZoneFrom E apexes qname fuel offset = some (qname.drop k) ∧
      ∀ j ∈ DNS.labelStarts qname, offset ≤ j → qname.drop j ∈ apexes → k ≤ j := by
  have hlen : ∀ j ∈ labelStarts qname, j < qname.length := fun j hj =>
    mem_range.mp (mem_filter.mp hj).1
  induction fuel generalizing offset with
  | zero =>
    have := hlen offset hoff
    omega
  | succ fuel ih =>
    rw [matchZoneFrom, if_pos (hlen offset hoff)]
    by_cases hmem : qname.drop offset ∈ apexes
    · rw [if_pos hmem]
      exact .inr ⟨offset, hoff, hmem, rfl, fun j _ hj _ => hj⟩
    · rw [if_neg hmem]
      have hlater : ∀ j, offset ≤ j → qname.drop j ∈ apexes → offset < j := fun j hle hin =>
        Nat.lt_of_le_of_ne hle (by rintro rfl; exact hmem hin)
      cases hfind : (labelStarts qname).find? (offset < ·) with
      | none =>
        refine .inl ⟨?_, fun j hj hle hin => ?_⟩
        · have hend := E.dns.nextLabel_none qname offset hfind
          split <;> simp_all
        · simpa [hlater j hle hin] using List.find?_eq_none.mp hfind j hj
      | some k =>
        rw [E.dns.nextLabel_some qname offset k hfind]
        obtain ⟨hk, hlt, hleast⟩ := find_labelStarts_least hfind
        have hnext : ∀ j ∈ labelStarts qname, offset ≤ j → qname.drop j ∈ apexes → k ≤ j :=
          fun j hj hle hin => hleast j hj (hlater j hle hin)
        rcases ih hk (by omega) with ⟨hnone, hfree⟩ | ⟨i, hi, hin, hsome, hfirst⟩
        · exact .inl ⟨hnone, fun j hj hle hin => hfree j hj (hnext j hj hle hin) hin⟩
        · exact .inr ⟨i, hi, hin, hsome, fun j hj hle hin => hfirst j hj (hnext j hj hle hin) hin⟩

/-- The apex is a label suffix of the query name, in any letter case. -/
def BelowApex (E : Externals) (name apex : GoString) : Prop :=
  ∃ k ∈ DNS.labelStarts (E.dns.fqdn name), toLower E.cases ((E.dns.fqdn name).drop k) = apex

theorem belowApex_iff {name apex : GoString} :
    BelowApex E name apex ↔ DNS.IsLabelSuffix apex (canonicalQueryName E name) := by
  unfold BelowApex DNS.IsLabelSuffix canonicalQueryName
  rw [labelStarts_toLower]
  simp only [toLower, map_drop, eq_comm]

theorem canonicalQueryName_ne_nil (name : GoString) : canonicalQueryName E name ≠ [] := by
  have hne : E.dns.fqdn name ≠ [] := by
    rw [E.dns.fqdn_eq]
    split
    · rename_i h
      rintro rfl
      simp [isFqdn] at h
    · simp
  simpa [canonicalQueryName, toLower] using hne

/-- **The closest zone decides.**  If some apex is a label suffix of the query name, the match
is the longest such apex. -/
theorem matchZone_of_belowApex {name apex : GoString} (hmem : apex ∈ apexes)
    (hbelow : BelowApex E name apex) :
    ∃ longest ∈ apexes, matchZone E apexes (canonicalQueryName E name) = some longest ∧
      BelowApex E name longest ∧
      ∀ other ∈ apexes, BelowApex E name other → other.length ≤ longest.length := by
  have hzero := zero_mem_labelStarts (canonicalQueryName_ne_nil (E := E) name)
  rcases matchZoneFrom_spec (E := E) hzero (Nat.le_add_right ..) with
    ⟨-, hfree⟩ | ⟨k, hk, hin, hwalk, hfirst⟩
  · obtain ⟨k, hk, rfl⟩ := belowApex_iff.mp hbelow
    exact absurd hmem (hfree k hk (Nat.zero_le _))
  · refine ⟨_, hin, by simp only [matchZone, hwalk], belowApex_iff.mpr ⟨k, hk, rfl⟩, ?_⟩
    intro other hother hbo
    obtain ⟨j, hj, rfl⟩ := belowApex_iff.mp hbo
    have hle := hfirst j hj (Nat.zero_le _) hother
    simp only [length_drop]
    omega

end Match

/-! ## Compiled contexts -/

section Compiled

variable {E}

/-- What a context state keeps of its definition. -/
structure ContextState.CompiledFrom (E : Externals) (state : ContextState) (definition : Context) :
    Prop where
  pending : state.pending = definition.pending
  next : state.next = forward definition.upstreams
  apexes : ∀ a, a ∈ state.zoneApexes ↔
    ∃ zone ∈ definition.zones, absoluteName E.cases zone.apex = a
  pendingZones : ∀ zone ∈ definition.zones,
    state.pendingZones.lookup (absoluteName E.cases zone.apex) = some zone.pending
  zoneFiles : ∀ zone ∈ definition.zones, zone.pending = false → definition.upstreams = [] →
    state.zoneFiles.lookup (absoluteName E.cases zone.apex) = some zone.data

theorem compileZone_ok {forwards : Bool} {state state' : ContextState} {zone : Zone}
    (h : compileZone E forwards state zone = .ok state') :
    state'.pending = state.pending ∧
    state'.pendingZones = state.pendingZones.insert (absoluteName E.cases zone.apex) zone.pending ∧
    state'.zoneApexes = absoluteName E.cases zone.apex :: state.zoneApexes ∧
    state'.zoneFiles = (if zone.pending ∨ forwards then state.zoneFiles
      else state.zoneFiles.insert (absoluteName E.cases zone.apex) zone.data) := by
  unfold compileZone at h
  split at h
  · rename_i hskip
    cases h
    exact ⟨rfl, rfl, rfl, (if_pos hskip).symm⟩
  · rename_i hskip
    obtain ⟨-, -, h⟩ := bind_eq_ok.mp h
    cases h
    exact ⟨rfl, rfl, rfl, (if_neg hskip).symm⟩

/-- A context whose apices are distinct keeps every one of its zones. -/
theorem compileContext_compiledFrom {hasPublic : Bool} {definition : Context} {state : ContextState}
    (hnodup : (definition.zones.map fun zone => absoluteName E.cases zone.apex).Nodup)
    (h : compileContext E hasPublic definition = .ok state) :
    state.CompiledFrom E definition := by
  obtain ⟨mid, hloop, hend⟩ := bind_eq_ok.mp h
  cases hend
  have hinv := loop_invariant (P := fun done (state : ContextState) =>
      state.pending = definition.pending ∧
      (∀ a, a ∈ state.zoneApexes ↔ ∃ zone ∈ done, absoluteName E.cases zone.apex = a) ∧
      (∀ zone ∈ done, state.pendingZones.lookup (absoluteName E.cases zone.apex) =
        some zone.pending) ∧
      (∀ zone ∈ done, zone.pending = false → definition.upstreams = [] →
        state.zoneFiles.lookup (absoluteName E.cases zone.apex) = some zone.data))
    ⟨rfl, by simp, by simp, by simp⟩ ?step hloop
  case step =>
    intro done zone rest state state' hzones ⟨hpend, hapex, hpz, hzf⟩ hstep
    obtain ⟨hp, hpz', hapex', hzf'⟩ := compileZone_ok hstep
    -- the new apex differs from those before it, so the new entries hide none
    have hnew : ∀ old ∈ done, absoluteName E.cases old.apex ≠ absoluteName E.cases zone.apex :=
      fun old hold heq => not_mem_map_of_nodup hnodup hzones (mem_map.mpr ⟨old, hold, heq⟩)
    refine ⟨hp.trans hpend, fun a => ?_, fun z hz => ?_, fun z hz hzp hup => ?_⟩
    · rw [hapex', mem_cons, hapex a]
      simp only [mem_append, mem_singleton, or_and_right, exists_or, exists_eq_left]
      exact ⟨fun h => h.symm.imp id Eq.symm, fun h => h.symm.imp Eq.symm id⟩
    · rw [hpz']
      rcases mem_append.mp hz with hz | hz
      · rw [lookup_insert_ne (hnew z hz), hpz z hz]
      · rw [mem_singleton.mp hz, lookup_insert]
    · rw [hzf']
      rcases mem_append.mp hz with hz | hz
      · split
        · exact hzf z hz hzp hup
        · rw [lookup_insert_ne (hnew z hz), hzf z hz hzp hup]
      · obtain rfl := mem_singleton.mp hz
        rw [if_neg (by simp [hzp, hup]), lookup_insert]
  exact ⟨hinv.1, rfl, hinv.2.1, hinv.2.2.1, hinv.2.2.2⟩

/-- Every context of a compiled configuration is found under its destination. -/
theorem compile_lookup {c : Config} {contexts : PluginState} (h : compile E c = .ok contexts)
    {definition : Context} (hdef : definition ∈ c.contexts) {key : GoString}
    (hkey : addressKey definition.destination = some key) :
    ∃ state, contexts.lookup key = some state ∧ state.CompiledFrom E definition := by
  obtain ⟨⟨⟩, hvalid, hloop⟩ := bind_eq_ok.mp h
  obtain ⟨-, hserv, hnodup⟩ := Config.validate_eq_ok.mp hvalid
  have hinv := loop_invariant (P := fun done (contexts : PluginState) =>
      ∀ d ∈ done, ∀ key, addressKey d.destination = some key →
        ∃ state, contexts.lookup key = some state ∧ state.CompiledFrom E d)
    (by simp) ?step hloop
  case step =>
    intro done x rest contexts contexts' hcontexts hP hstep
    obtain ⟨state, hstate, hstep⟩ := bind_eq_ok.mp hstep
    obtain ⟨xkey, hxkey, hstep⟩ := bind_eq_ok.mp hstep
    rw [orError_eq_ok] at hxkey
    cases hstep
    have hx : x ∈ c.contexts := by rw [hcontexts]; simp
    intro d hd key hdkey
    rcases mem_append.mp hd with hd | hd
    · have hne : key ≠ xkey := by
        rintro rfl
        exact not_mem_map_of_nodup hnodup hcontexts (mem_map.mpr ⟨d, hd, hdkey.trans hxkey.symm⟩)
      rw [lookup_insert_ne hne]
      exact hP d hd key hdkey
    · obtain rfl := mem_singleton.mp hd
      obtain rfl := mem_unique hdkey hxkey
      exact ⟨state, lookup_insert _, compileContext_compiledFrom (hserv d hx).apices hstate⟩
  exact hinv definition hdef key hkey

end Compiled

/-! ## No query for a private name leaves through the public resolver -/

section Private

variable {E} {text}

/-- The answer of a context to a query whose closest zone is `zone`. -/
def closestZoneAnswer (E : Externals) (definition : Context) (zone : Zone) (q : Question)
    (r : Msg) : Served :=
  if definition.pending then ⟨.servfailContext, none⟩
  else if r.opcode ≠ opcodeQuery then ⟨.refusedUnsupported, none⟩
  else if q.qtype = typeAXFR ∨ q.qtype = typeIXFR then ⟨.refusedTransfer, none⟩
  else if zone.pending then ⟨.servfailZone, none⟩
  else if definition.upstreams ≠ [] then
    ⟨.forwardedNext, some (.next definition.upstreams, r)⟩
  else ⟨.servedZone, some (.zoneFile (absoluteName E.cases zone.apex) zone.data, r)⟩

theorem serveContext_eq {state : ContextState} {definition : Context} {zone : Zone} {q : Question}
    {r : Msg} (hstate : state.CompiledFrom E definition) (hzone : zone ∈ definition.zones)
    (hmatch : matchZone E state.zoneApexes (canonicalQueryName E q.name) =
      some (absoluteName E.cases zone.apex)) :
    serveContext E state q r = closestZoneAnswer E definition zone q r := by
  unfold serveContext closestZoneAnswer
  rw [hmatch, hstate.pending, hstate.next]
  simp only [hstate.pendingZones zone hzone, getD_some]
  refine if_congr Iff.rfl rfl (if_congr Iff.rfl rfl (if_congr Iff.rfl rfl ?_))
  by_cases hpend : zone.pending = true
  · simp [hpend]
  · rw [Bool.not_eq_true] at hpend
    by_cases hup : definition.upstreams = []
    · simp [hpend, hup, forward, hstate.zoneFiles zone hzone hpend hup]
    · simp [hpend, hup, forward]

/-- A query that selects a context is served by it. -/
theorem serve_of_selected {p : ContextPlugin} {contexts : PluginState} {followUp : Option GoString}
    {w : Writer} {r r' : Msg} {q : Question} {host : GoString} {state : ContextState}
    (hp : p.state = some contexts) (hq : r.question = [q]) (hinet : q.qclass = classINET)
    (hdest : p.destination text followUp w r = .ok (host, r'))
    (hsel : contexts.lookup host = some state) :
    p.serve E text followUp w r = serveContext E state q r' := by
  have hcanary : isReadinessCanary r = false := by
    simp [isReadinessCanary, hq, hinet, classINET, classCHAOS]
  simp [ContextPlugin.serve, hp, hcanary, hq, hinet, hdest, hsel]

/-- **A query for a private name is decided by its closest zone.**  If some apex of the
selected context is a label suffix of the query name, the answer is that of the longest such
apex: a failure if the zone is pending, otherwise the zone's own data or the upstream of a
forwarding context, and never the public resolver. -/
theorem closest_zone_decides {c : Config} {contexts : PluginState} {p : ContextPlugin}
    {followUp : Option GoString} {w : Writer} {r r' : Msg} {q : Question} {host : GoString}
    {definition : Context} (hc : compile E c = .ok contexts) (hp : p.state = some contexts)
    (hq : r.question = [q]) (hinet : q.qclass = classINET)
    (hdest : p.destination text followUp w r = .ok (host, r'))
    (hdef : definition ∈ c.contexts) (hhost : addressKey definition.destination = some host)
    (hbelow : ∃ zone ∈ definition.zones, BelowApex E q.name (absoluteName E.cases zone.apex)) :
    (∀ m, (p.serve E text followUp w r).passed ≠ some (.publicUpstream, m)) ∧
    ∃ zone ∈ definition.zones, BelowApex E q.name (absoluteName E.cases zone.apex) ∧
      (∀ other ∈ definition.zones, BelowApex E q.name (absoluteName E.cases other.apex) →
        (absoluteName E.cases other.apex).length ≤ (absoluteName E.cases zone.apex).length) ∧
      p.serve E text followUp w r = closestZoneAnswer E definition zone q r' ∧
      (zone.pending = true → (p.serve E text followUp w r).passed = none ∧
        ((p.serve E text followUp w r).outcome.rcode = some 2 ∨
          (p.serve E text followUp w r).outcome.rcode = some 5)) := by
  obtain ⟨state, hsel, hstate⟩ := compile_lookup hc hdef hhost
  obtain ⟨below, hbelow, hsuffix⟩ := hbelow
  obtain ⟨longest, hin, hmatch, hlbelow, hmax⟩ :=
    matchZone_of_belowApex ((hstate.apexes _).mpr ⟨below, hbelow, rfl⟩) hsuffix
  obtain ⟨zone, hzone, rfl⟩ := (hstate.apexes longest).mp hin
  rw [serve_of_selected hp hq hinet hdest hsel, serveContext_eq hstate hzone hmatch]
  refine ⟨fun m => ?_, zone, hzone, hlbelow, fun other hother hbo => ?_, rfl, fun hpend => ?_⟩
  · unfold closestZoneAnswer
    split_ifs <;> simp
  · exact hmax _ ((hstate.apexes _).mpr ⟨other, hother, rfl⟩) hbo
  · unfold closestZoneAnswer
    split_ifs <;> simp_all [Outcome.rcode]

/-- One tenant with a zone and a pending zone below it. -/
def nestedConfig : Config where
  listenAddress := lit "192.0.2.1:53"
  proxyPeers := [lit "192.0.2.2"]
  identityKeyFile := []
  udpReadBufferBytes := 0
  publicUpstreams := [lit "192.0.2.53:53"]
  contexts := [{
    id := lit "tenant", destination := lit "FD53::B", pending := false, upstreams := [],
    zones := [⟨lit "Example.internal", false, lit "data"⟩, ⟨lit "a.example.internal.", true, []⟩] }]

/-- A query for an address record, without options. -/
def addressQuery (name : GoString) : Msg :=
  ⟨opcodeQuery, [⟨name, 1, classINET⟩], []⟩

/-- A query below the pending zone, in mixed case: the enclosing zone does not answer it. -/
theorem closest_zone_decides_pending :
    ∃ contexts, compile .reference nestedConfig = .ok contexts ∧
      (∀ m, (ContextPlugin.serve .reference (fun _ => []) ⟨some contexts, none⟩ none
        ⟨lit "[fd53::b]:53", .other⟩ (addressQuery (lit "WWW.A.example.Internal"))).passed ≠
          some (.publicUpstream, m)) ∧
      ContextPlugin.serve .reference (fun _ => []) ⟨some contexts, none⟩ none
        ⟨lit "[fd53::b]:53", .other⟩ (addressQuery (lit "WWW.A.example.Internal")) =
          ⟨.servfailZone, none⟩ := by
  refine ⟨_, rfl, ?_, by decide +kernel⟩
  have hhost : addressKey (lit "FD53::B") = some (lit "fd53::b") := by decide
  exact (closest_zone_decides (c := nestedConfig) rfl rfl rfl rfl rfl
    (mem_singleton.mpr rfl) hhost ⟨_, mem_cons_self .., 6, by decide, by decide⟩).1

end Private

/-! ## The key decides which context a UDP query selects -/

section Keyed

variable {E} {text} {p : ContextPlugin} {key : List UInt8} {w : Writer} {r : Msg}

/-- The options that assert an address under the key. -/
def Msg.assertions (text : List UInt8 → GoString) (key : List UInt8) (r : Msg) : List EdnsOption :=
  r.options.filter fun o => (o.asserts text key).isSome

/-- The context a query selects. -/
def ContextPlugin.selected (text : List UInt8 → GoString) (p : ContextPlugin)
    (followUp : Option GoString) (w : Writer) (r : Msg) : Option ContextState :=
  match p.state, p.destination text followUp w r with
  | some contexts, .ok (host, _) => contexts.lookup host
  | _, _ => none

theorem Msg.asserted_eq (key : List UInt8) (r : Msg) :
    r.asserted text key = (r.assertions text key).filterMap (EdnsOption.asserts text key) := by
  rw [Msg.assertions, filterMap_filter, Msg.asserted]
  refine filterMap_congr fun o _ => ?_
  cases h : o.asserts text key <;> simp

theorem Msg.length_asserted (key : List UInt8) (r : Msg) :
    (r.asserted text key).length = (r.assertions text key).length := by
  rw [Msg.asserted, Msg.assertions, length_filterMap_eq_countP, countP_eq_length_filter]

/-- The destination of a UDP query, by the addresses asserted under the key. -/
theorem destination_of_udp (hkey : p.identityKey = some key) (hudp : w.remote = .udp) (r : Msg) :
    p.destination text none w r =
      (match splitHostPort w.localAddr with
        | none => .error .refusedBadDestination
        | some _ => if soleAddress (r.asserted text key) = .invalid then .error .refusedBadIdentity
            else .ok ((soleAddress (r.asserted text key)).string, r.strip)) := by
  simp only [ContextPlugin.destination, hudp, hkey, identityDestination_eq]
  cases splitHostPort w.localAddr with
  | none => rfl
  | some hostport =>
    obtain ⟨host, port⟩ := hostport
    cases hp : r.options.any EdnsOption.isIdentity with
    | true => simp
    | false =>
      -- no identity option, hence no assertion
      have hnone : r.asserted text key = [] := by
        refine eq_nil_iff_forall_not_mem.mpr fun a ha => ?_
        rw [Msg.any_isIdentity_of_asserted ha] at hp
        cases hp
      simp [hnone, soleAddress]

/-- Stripping keeps the other options of every record in their order. -/
theorem Msg.options_strip (r : Msg) :
    r.strip.options = r.options.filter fun o => !o.isIdentity := by
  unfold Msg.strip Msg.options
  induction r.extra with
  | nil => rfl
  | cons rr rrs ih =>
    rw [map_cons, flatMap_cons, flatMap_cons, filter_append]
    refine congrArg₂ (· ++ ·) ?_ ih
    cases rr <;> rfl

theorem serveContext_passed {state : ContextState} {q : Question} {r m : Msg} {handler : Handler}
    (h : (serveContext E state q r).passed = some (handler, m)) : r = m := by
  unfold serveContext at h
  repeat' split at h
  all_goals cases h
  all_goals rfl

/-- A query is passed on as `destination` leaves it. -/
theorem serve_passed {followUp : Option GoString} {r m : Msg} {handler : Handler}
    (h : (p.serve E text followUp w r).passed = some (handler, m)) :
    ∃ host, p.destination text followUp w r = .ok (host, m) := by
  unfold ContextPlugin.serve at h
  split at h
  · cases h
  split at h
  · -- the canary is answered by the plugin itself
    split at h
    · cases h
    · dsimp only at h
      split at h <;> cases h
  split at h
  · split at h
    · cases h
    split at h
    · cases h
    · rename_i host r' hdest
      split at h
      · cases h
      · exact ⟨host, by rw [hdest, serveContext_passed h]⟩
  · cases h

/-- Without exactly one assertion a UDP query has no destination. -/
theorem destination_refused (hkey : p.identityKey = some key) (hudp : w.remote = .udp)
    (hcount : (r.assertions text key).length ≠ 1) :
    ∃ outcome : Outcome, p.destination text none w r = .error outcome ∧
      outcome.rcode = some 5 := by
  rw [← Msg.length_asserted] at hcount
  rw [destination_of_udp hkey hudp r, soleAddress_of_length_ne_one hcount]
  cases splitHostPort w.localAddr with
  | none => exact ⟨_, rfl, rfl⟩
  | some hostport => exact ⟨_, rfl, rfl⟩

/-- Without exactly one assertion the canary is not answered. -/
theorem canary_refused (hkey : p.identityKey = some key) {followUp : Option GoString}
    (hcount : (r.assertions text key).length ≠ 1) (hcanary : isReadinessCanary r = true) :
    (p.serve E text followUp w r).outcome.rcode = some 2 := by
  rw [← Msg.length_asserted] at hcount
  unfold ContextPlugin.serve
  cases p.state with
  | none => rfl
  | some contexts =>
    simp only [hcanary, if_true, hkey, identityDestination_eq]
    rw [if_pos (.inr (soleAddress_of_length_ne_one hcount))]
    rfl

/-- **The key decides.**  With an identity key, the context of a UDP query depends only on the
options that assert an address under the key.  A query is passed on without any identity option
and with the other options in their order.  A query with no such assertion, or with more than
one, selects no context and is refused. -/
theorem keyed_assertion_decides {p : ContextPlugin} {key : List UInt8} {w : Writer}
    (hkey : p.identityKey = some key) (hudp : w.remote = .udp) (r : Msg) :
    (∀ r', r.assertions text key = r'.assertions text key →
      p.selected text none w r = p.selected text none w r') ∧
    (∀ handler m, (p.serve E text none w r).passed = some (handler, m) →
      m.extra = r.extra.map ExtraRR.strip ∧
        m.options = r.options.filter fun o => !o.isIdentity) ∧
    ((r.assertions text key).length ≠ 1 →
      p.selected text none w r = none ∧ (p.serve E text none w r).passed = none ∧
        (isReadinessCanary r = true → (p.serve E text none w r).outcome.rcode = some 2) ∧
        (isReadinessCanary r = false → p.state.isSome →
          (p.serve E text none w r).outcome.rcode = some 5)) ∧
    (∀ a contexts, r.asserted text key = [a] → p.state = some contexts →
      (splitHostPort w.localAddr).isSome →
      p.selected text none w r = contexts.lookup a.unmap.string) := by
  refine ⟨fun r' hsame => ?_, fun handler m hm => ?_, fun hcount => ?_,
    fun a contexts ha hstate hlocal => ?_⟩
  · have hasserted : r.asserted text key = r'.asserted text key := by
      rw [Msg.asserted_eq, Msg.asserted_eq, hsame]
    unfold ContextPlugin.selected
    rw [destination_of_udp hkey hudp r, destination_of_udp hkey hudp r', hasserted]
    cases p.state with
    | none => rfl
    | some contexts =>
      cases splitHostPort w.localAddr with
      | none => rfl
      | some hostport => split_ifs <;> rfl
  · obtain ⟨host, hdest⟩ := serve_passed hm
    rw [destination_of_udp hkey hudp r] at hdest
    split at hdest
    · cases hdest
    · split at hdest
      · cases hdest
      · obtain rfl := (Prod.mk.inj (ok.inj hdest)).2
        exact ⟨rfl, Msg.options_strip r⟩
  · obtain ⟨outcome, hdest, hrcode⟩ := destination_refused hkey hudp hcount
    refine ⟨?_, ?_, canary_refused hkey hcount, fun hcanary hstate => ?_⟩
    · unfold ContextPlugin.selected
      rw [hdest]
      cases p.state <;> rfl
    · cases hpassed : (p.serve E text none w r).passed with
      | none => rfl
      | some hm =>
        obtain ⟨handler, m⟩ := hm
        obtain ⟨host, hok⟩ := serve_passed hpassed
        rw [hdest] at hok
        cases hok
    · obtain ⟨contexts, hcontexts⟩ := isSome_iff_exists.mp hstate
      simp only [ContextPlugin.serve, hcontexts, hcanary, hdest]
      split
      · cases ‹false = true›
      split
      · split
        · rfl
        · exact hrcode
      · rfl
  · obtain ⟨o, -, ho⟩ := mem_filterMap.mp (show a ∈ r.asserted text key by simp [ha])
    obtain ⟨hostport, hlocal⟩ := isSome_iff_exists.mp hlocal
    simp [ContextPlugin.selected, hstate, destination_of_udp hkey hudp r, hlocal, ha, soleAddress,
      EdnsOption.unmap_ne_invalid_of_asserts ho]

/-- The key of 32 zero bytes in base64. -/
def zeroKey : List UInt8 := List.replicate 43 65 ++ [61]

/-- ASCII text as bytes, and bytes as text. -/
def asciiBytes (s : String) : List UInt8 := s.toList.map fun c => c.toNat.toUInt8
def asciiText (bs : List UInt8) : GoString := bs.map fun b => Char.ofNat b.toNat

/-- A query with the given identity options and a cookie. -/
def identityQuery (datas : List (List UInt8)) : Msg :=
  ⟨opcodeQuery, [⟨lit "www.example.internal.", 1, classINET⟩],
    [.opt 1232 (datas.map (.ednsLocal identityOption) ++ [.other 10 [1, 2]])]⟩

/-- The option is an identity option whose data starts with the key. -/
def EdnsOption.startsWithKey (key : List UInt8) : EdnsOption → Bool
  | .ednsLocal code data => code = identityOption && key.isPrefixOf data
  | .other _ _ => false

/-- A forged option before the keyed one changes nothing and is removed with it. -/
theorem keyed_assertion_decides_forged :
    ∃ contexts, compile .reference nestedConfig = .ok contexts ∧
      (∀ handler m, (ContextPlugin.serve .reference asciiText ⟨some contexts, some zeroKey⟩ none
          ⟨lit "192.0.2.1:53", .udp⟩
          (identityQuery [asciiBytes "fd53::a", zeroKey ++ asciiBytes "fd53::b"])).passed =
            some (handler, m) → m.options = [.other 10 [1, 2]]) ∧
      (ContextPlugin.serve .reference asciiText ⟨some contexts, some zeroKey⟩ none
          ⟨lit "192.0.2.1:53", .udp⟩
          (identityQuery [asciiBytes "fd53::a", zeroKey ++ asciiBytes "fd53::b"])).outcome =
        .servedZone := by
  refine ⟨_, rfl, fun handler m hm => ?_, by decide +kernel⟩
  exact ((keyed_assertion_decides rfl rfl _).2.1 handler m hm).2.trans (by decide +kernel)

/-- Two options start with the key, but what follows it in the second is no address: the query
is not refused. -/
theorem two_keyed_options_accepted :
    ∃ contexts, compile .reference nestedConfig = .ok contexts ∧
      ((identityQuery [zeroKey ++ asciiBytes "fd53::b", zeroKey ++ asciiBytes "x"]).options.filter
        (EdnsOption.startsWithKey zeroKey)).length = 2 ∧
      (ContextPlugin.serve .reference asciiText ⟨some contexts, some zeroKey⟩ none
          ⟨lit "192.0.2.1:53", .udp⟩
          (identityQuery [zeroKey ++ asciiBytes "fd53::b", zeroKey ++ asciiBytes "x"])).outcome =
        .servedZone :=
  ⟨_, rfl, by decide +kernel, by decide +kernel⟩

end Keyed

end InternalDNS
