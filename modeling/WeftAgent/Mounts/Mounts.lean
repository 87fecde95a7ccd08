import WeftAgent.Nats.Stream

/-!
# Share mounts

`pkg/mounts/mounts.go`, with the message type and its validation (`pod.ShareMount`) and the registry
that applies it (`cubefs.Registry`). The outcomes of mounting and unmounting are parameters of
`Registry.apply`. The stream carries messages as `json.Unmarshal` decodes them.
-/

namespace WeftAgent.Mounts

open WeftAgent.Go WeftAgent.Nats

/-! ## Messages -/

structure CubeFSMount where
  volume : GoString
  masters : List GoString
  owner : GoString
  accessKey : GoString := []
  secretKey : GoString := []
  subDir : GoString := []
  deriving DecidableEq, Repr

structure ShareMount where
  id : GoString
  /-- `unmount`; anything else is a mount. -/
  action : GoString := []
  backend : GoString := []
  mountPoint : GoString
  readonly : Bool := false
  cubeFS : Option CubeFSMount := none
  deriving DecidableEq, Repr

def mountActionUnmount : GoString := lit "unmount"

def backendCubeFS : GoString := lit "cubefs"

namespace ShareMount

/-- `EffectiveBackend`: an empty backend is CubeFS. -/
def effectiveBackend (m : ShareMount) : GoString :=
  if m.backend = [] then backendCubeFS else m.backend

def validate (m : ShareMount) : Option GoError :=
  if m.id = [] then some (.errorf "id is required" [])
  else if m.action = mountActionUnmount then
    if m.mountPoint = [] then some (.errorf "unmount %q: mount_point is required" [.str m.id])
    else none
  else if m.mountPoint = [] then
    some (.errorf "mount %q: mount_point is required" [.str m.id])
  else if m.effectiveBackend = backendCubeFS then
    match m.cubeFS with
    | none => some (.errorf "mount %q: cubefs block is required" [.str m.id])
    | some c =>
      if c.volume = [] then some (.errorf "mount %q: cubefs.volume is required" [.str m.id])
      else if c.masters.length = 0 then
        some (.errorf "mount %q: cubefs.masters is required" [.str m.id])
      else if c.owner = [] then some (.errorf "mount %q: cubefs.owner is required" [.str m.id])
      else none
  else
    some (.errorf "mount %q: unsupported backend %q" [.str m.id, .str m.backend])

end ShareMount

/-! ## The registry -/

/-- A share that is mounted: where, and what `cfs-client` was configured with. -/
structure Mounted where
  mountPoint : GoString
  readonly : Bool
  cubeFS : Option CubeFSMount
  deriving DecidableEq, Repr

def mount (spec : ShareMount) : Mounted := ⟨spec.mountPoint, spec.readonly, spec.cubeFS⟩

/-- `cubefs.Registry`: the mounted shares by ID. -/
structure Registry where
  active : GoMap GoString Mounted := ∅

/-- `Registry.Apply`, with the outcomes of unmounting what is there and of mounting. -/
def Registry.apply (unmountErr mountErr : Option GoError) (r : Registry) (spec : ShareMount) :
    Registry × Option GoError :=
  match r.active.lookup spec.id, unmountErr with
  | some _, some e => (r, some e)
  | _, _ =>
    let r : Registry := ⟨r.active.erase spec.id⟩
    if spec.action = mountActionUnmount then (r, none)
    else
      match mountErr with
      | some e => (r, some e)
      | none => (⟨r.active.insert spec.id (mount spec)⟩, none)

/-- `HandleMessage`, from the outcome of `json.Unmarshal`, with the outcomes of unmounting what is
there and of mounting. -/
def handleMessage (unmountErr mountErr : Option GoError) (r : Registry)
    (unmarshalled : Except GoError ShareMount) : Registry × Option GoError :=
  match unmarshalled with
  | .error e => (r, some (.wrap "decode mount update: %w" [] e))
  | .ok m =>
    match m.validate with
    | some e => (r, some (.wrap "invalid mount update: %w" [] e))
    | none => r.apply unmountErr mountErr m

/-! ## The subscriber -/

def subject (vmID : GoString) : GoString := lit "weft.mounts." ++ vmID

/-- The stream that `ensureStream` adds. -/
def streamConfig : StreamConfig where
  subjects := [lit "weft.mounts.*"]
  maxMsgsPerSubject := 1

/-- A decoded message on its way to a VM. -/
abbrev Message := Except GoError ShareMount

/-- The two delivery modes of `Start`. -/
inductive Delivery where
  | jetStream
  | core
  deriving DecidableEq, Repr

/-- `Start`, from the outcomes of `JetStream`, `ensureStream` and `js.Subscribe`. -/
def start (jsErr streamErr subscribeErr : Option GoError) : Delivery :=
  if jsErr.isSome then .core
  else if streamErr.isSome then .core
  else if subscribeErr.isSome then .core
  else .jetStream

/-- What a subscriber that starts now is sent of the past. -/
def replayed (mode : Delivery) (vmID : GoString) (stream : Stream Message) : List Message :=
  match mode with
  | .jetStream => stream.lastPerSubject (subject vmID)
  | .core => []

/-- The registry after messages for which mounting and unmounting succeed. -/
def applyAll (msgs : List Message) : Registry :=
  msgs.foldl (fun r m => (handleMessage none none r m).1) {}

/-- The stream after messages to any VMs. -/
def stored (history : List (GoString × Message)) : Stream Message :=
  history.foldl (fun s p => s.publish streamConfig (subject p.1) p.2) []

def sentTo {α : Type} (vmID : GoString) (history : List (GoString × α)) : List α :=
  (history.filter (·.1 = vmID)).map Prod.snd

def wire (history : List (GoString × ShareMount)) : List (GoString × Message) :=
  history.map fun p => (p.1, .ok p.2)

/-- The registry of an agent that was subscribed from the start. -/
def liveRegistry (vmID : GoString) (history : List (GoString × ShareMount)) : Registry :=
  applyAll (sentTo vmID (wire history))

/-- The registry of an agent that subscribes after the whole history. -/
def lateRegistry (vmID : GoString) (history : List (GoString × ShareMount)) : Registry :=
  applyAll (replayed (start none none none) vmID (stored (wire history)))

end WeftAgent.Mounts
