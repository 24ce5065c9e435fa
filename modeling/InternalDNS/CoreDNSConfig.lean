import InternalDNS.Externals

/-! # The CoreDNS configuration

The configuration file that the serving agent renders and the CoreDNS member loads.  A
member refuses the whole file if any context in it is invalid, so `Config.validate` is
what one tenant's data must never fail for all the others.
-/
namespace InternalDNS

open Go Except

/-- `coredns.Zone`. -/
structure Zone where
  apex : GoString
  pending : Bool
  data : GoString
  deriving DecidableEq

/-- `coredns.Context`: what one destination address is answered from. -/
structure Context where
  id : GoString
  destination : GoString
  pending : Bool
  upstreams : List GoString
  zones : List Zone
  deriving DecidableEq

/-- `coredns.Config`. -/
structure Config where
  listenAddress : GoString
  proxyPeers : List GoString
  identityKeyFile : GoString
  udpReadBufferBytes : Int
  publicUpstreams : List GoString
  contexts : List Context
  deriving DecidableEq

variable (E : Externals)

/-- `coredns.endpoint`. -/
def endpoint (value : GoString) : Except GoString Unit := do
  let (host, port) ← orError (splitHostPort value) (lit "address " ++ value)
  let addr := Addr.parseAddr host
  let portNumber := parseUint port 16
  failIf (addr = none ∨ addr.any Addr.isUnspecified ∨ portNumber = none ∨ portNumber = some 0)
    (lit "concrete IP address and port required: " ++ value)

/-- `coredns.publicEndpoint`: a host name is accepted as well. -/
def publicEndpoint (value : GoString) : Except GoString Unit :=
  match endpoint value with
  | .ok _ => .ok ()
  | .error _ => do
    let (host, port) ← orError (splitHostPort value) (lit "address " ++ value)
    if (Addr.parseAddr host).isSome then endpoint value
    else
      let portNumber := parseUint port 16
      failIf (¬ E.dns.isDomainName host ∨ host = [] ∨ host = ['.'] ∨ portNumber = none ∨
          portNumber = some 0)
        (lit "public DNS upstream requires a hostname or IP and port: " ++ value)

/-- One zone of a context; `apices` are the apices of the zones before it. -/
def validateZone (forwards : Bool) (apices : List GoString) (zone : Zone) :
    Except GoString (List GoString) := do
  let apex := absoluteName E.cases zone.apex
  failIf (apex = ['.'] ∨ apex ∈ apices) (lit "CoreDNS context zones require unique private apices")
  skipIf (zone.pending ∨ forwards)
    (wrap (lit "CoreDNS zone " ++ apex ++ lit ": ") (E.fileParse zone.data apex))
  .ok (apex :: apices)

/-- The canonical text of an address, under which destinations are looked up. -/
def addressKey (raw : GoString) : Option GoString :=
  (Addr.parseAddr raw).map fun a => a.unmap.string

/-- One context; `seen` are the destinations of the contexts before it. -/
def validateContext (listenerKey : Option GoString) (seen : List GoString) (context : Context) :
    Except GoString (List GoString) := do
  let key ← orError (addressKey context.destination) (lit "ParseAddr " ++ context.destination)
  failIf (some key = listenerKey)
    (lit "CoreDNS management listener cannot identify a tenant context")
  failIf (context.id = [] ∨ key ∈ seen)
    (lit "CoreDNS contexts require an identity and a unique destination")
  forEach endpoint context.upstreams
  let _ ← loop (validateZone E (context.upstreams ≠ [])) [] context.zones
  .ok (key :: seen)

/-- The checks that do not look at any context. -/
def Config.validateMember (c : Config) : Except GoString Unit := do
  failIf (c.udpReadBufferBytes < 0) (lit "CoreDNS UDP read buffer must not be negative")
  failIf (c.udpReadBufferBytes > 0 ∧ c.identityKeyFile = [])
    (lit "CoreDNS UDP read buffer requires a keyed UDP listener")
  wrap (lit "CoreDNS listener: ") (endpoint c.listenAddress)
  failIf (c.proxyPeers = []) (lit "CoreDNS requires trusted proxy peers")
  forEach (fun peer => failIf (Addr.parseAddr peer = none)
    (lit "CoreDNS proxy peer: ParseAddr " ++ peer)) c.proxyPeers
  failIf (c.identityKeyFile ≠ [] ∧ ¬ hasPrefix c.identityKeyFile ['/'])
    (lit "CoreDNS identity key file must be an absolute path")
  forEach (fun upstream => wrap (lit "CoreDNS public upstream: ") (publicEndpoint E upstream))
    c.publicUpstreams

/-- The canonical text of the listener's own address. -/
def Config.listenerKey (c : Config) : Option GoString :=
  (splitHostPort c.listenAddress).bind fun (host, _) => addressKey host

/-- `Config.Validate`. -/
def Config.validate (c : Config) : Except GoString Unit := do
  c.validateMember E
  let _ ← loop (validateContext E c.listenerKey) [] c.contexts
  .ok ()

/-! ## What an accepted configuration is -/

section Accepted

variable {E}

/-- A zone the member can serve, apart from its apex being used only once. -/
def Zone.Servable (E : Externals) (forwards : Bool) (zone : Zone) : Prop :=
  absoluteName E.cases zone.apex ≠ ['.'] ∧
    (zone.pending = false → forwards = false →
      E.fileParse zone.data (absoluteName E.cases zone.apex) = .ok ())

/-- A context the member can serve, apart from its destination being used only once. -/
structure Context.Servable (E : Externals) (listenerKey : Option GoString) (context : Context) :
    Prop where
  destination : (addressKey context.destination).isSome
  listener : addressKey context.destination ≠ listenerKey
  identity : context.id ≠ []
  upstreams : ∀ upstream ∈ context.upstreams, endpoint upstream = .ok ()
  zones : ∀ zone ∈ context.zones, zone.Servable E (context.upstreams ≠ [])
  apices : (context.zones.map fun zone => absoluteName E.cases zone.apex).Nodup

theorem validateZone_eq_ok (forwards : Bool) (apices : List GoString) (zone : Zone)
    (out : List GoString) :
    validateZone E forwards apices zone = .ok out ↔
      zone.Servable E forwards ∧ absoluteName E.cases zone.apex ∉ apices ∧
        out = absoluteName E.cases zone.apex :: apices := by
  simp only [validateZone, bind_eq_ok, failIf_eq_ok, skipIf_eq_ok, wrap_eq_ok, not_or,
    Bool.not_eq_true, Zone.Servable]
  constructor
  · rintro ⟨-, ⟨hroot, hnew⟩, -, hparse, hout⟩
    exact ⟨⟨hroot, fun hp hf => hparse ⟨hp, hf⟩⟩, hnew, (ok.inj hout).symm⟩
  · rintro ⟨⟨hroot, hparse⟩, hnew, rfl⟩
    exact ⟨(), ⟨hroot, hnew⟩, (), fun h => hparse h.1 h.2, rfl⟩

theorem validateContext_eq_ok (listenerKey : Option GoString) (seen : List GoString)
    (context : Context) (out : List GoString) :
    validateContext E listenerKey seen context = .ok out ↔
      ∃ key, addressKey context.destination = some key ∧
        context.Servable E listenerKey ∧ key ∉ seen ∧ out = key :: seen := by
  have hzones := loop_distinct_total (validateZone_eq_ok (E := E) (context.upstreams ≠ []))
    context.zones
  simp only [validateContext, bind_eq_ok, orError_eq_ok, failIf_eq_ok, forEach_eq_ok, not_or]
  constructor
  · rintro ⟨key, hkey, -, hlisten, -, ⟨hid, hnew⟩, -, hup, apices, hloop, hout⟩
    obtain ⟨hserv, hapex⟩ := hzones.mp ⟨apices, hloop⟩
    refine ⟨key, hkey, ⟨by simp [hkey], by rwa [hkey], hid, hup, hserv, hapex⟩, hnew,
      (ok.inj hout).symm⟩
  · rintro ⟨key, hkey, hctx, hnew, rfl⟩
    obtain ⟨apices, hloop⟩ := hzones.mpr ⟨hctx.zones, hctx.apices⟩
    exact ⟨key, hkey, (), hkey ▸ hctx.listener, (), ⟨hctx.identity, hnew⟩, (), hctx.upstreams,
      apices, hloop, rfl⟩

/-- **Accepted configurations.**  The member settings are valid, every context is servable,
and no two contexts have the same destination address. -/
theorem Config.validate_eq_ok {c : Config} : c.validate E = .ok () ↔
      c.validateMember E = .ok () ∧ (∀ context ∈ c.contexts, context.Servable E c.listenerKey) ∧
        (c.contexts.map fun context => addressKey context.destination).Nodup := by
  have hcontexts := loop_distinct (validateContext_eq_ok (E := E) c.listenerKey) c.contexts
  simp only [Config.validate, bind_eq_ok]
  constructor
  · rintro ⟨⟨⟩, hmember, out, hloop, -⟩
    obtain ⟨hserv, hnodup⟩ := hcontexts.mp ⟨out, hloop⟩
    exact ⟨hmember, fun context hc => (hserv context hc).2, hnodup⟩
  · rintro ⟨hmember, hserv, hnodup⟩
    obtain ⟨out, hloop⟩ := hcontexts.mpr
      ⟨fun context hc => ⟨(hserv context hc).destination, hserv context hc⟩, hnodup⟩
    exact ⟨(), hmember, out, hloop, trivial⟩

end Accepted

end InternalDNS
