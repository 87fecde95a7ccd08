import WeftAgent.Containers.Reconciler
import WeftAgent.Fs.Calls

/-!
# The crun runtime

`pkg/containers/runtime_crun.go`: the runtime that makes a bundle directory for each container and
drives `crun` and `ncl`. What `encoding/json` makes of a config is a parameter.
-/

namespace WeftAgent.Containers

open WeftAgent.Go WeftAgent.Go.Filepath WeftAgent.Effect WeftAgent.Fs WeftAgent.Pod

/-! ## Processes -/

/-- The calls of `os/exec`. -/
inductive ProcOp where
  | lookPath (file : GoString)
  /-- `exec.CommandContext(ctx, argv...).Run()`. -/
  | run (argv : List GoString)
  deriving DecidableEq, Repr

/-- The signature of the process calls: the error, `none` for nil. -/
abbrev procSig : Sig := ⟨ProcOp, fun _ => Option GoError⟩

/-- The signature of the crun runtime: file system and process calls. -/
abbrev crunSig : Sig := fsSig.sum procSig

def lookPath (file : GoString) : Prog crunSig (Option GoError) := .call (.inr (.lookPath file)) .ret

/-- `exec.CommandContext(...).Run()`. -/
def runCommand (argv : List GoString) : Prog crunSig (Option GoError) :=
  .call (.inr (.run argv)) .ret

/-! ## The OCI config -/

/-- A JSON value. -/
inductive Json where
  | str (s : GoString)
  | num (n : Int)
  | bool (b : Bool)
  | arr (elems : List Json)
  | obj (fields : List (String × Json))

def Json.strs (elems : List GoString) : Json := .arr (elems.map .str)

/-- `argv`: a container without a command sleeps forever. -/
def argv (c : WorkloadContainer) : List GoString :=
  if c.command.length = 0 then
    [lit "/bin/sh", lit "-c", lit "while true; do sleep 3600; done"]
  else c.command ++ c.args

/-- `env`: the defaults, then the variables of the container as the map is visited. -/
def env (c : WorkloadContainer) : List GoString :=
  [lit "PATH=/usr/local/sbin:/usr/local/bin:/usr/sbin:/usr/bin:/sbin:/bin", lit "HOME=/root",
    lit "TERM=xterm"] ++ c.env.entries.map fun e => e.1 ++ lit "=" ++ e.2

def cwd (c : WorkloadContainer) : GoString :=
  if c.workingDir ≠ [] then c.workingDir else lit "/workspace"

/-- `linuxNamespaces`: a network namespace of its own, unless the container uses the host's. -/
def linuxNamespaces (c : WorkloadContainer) : List GoString :=
  [lit "pid", lit "mount", lit "ipc", lit "uts"] ++
    if c.net ≠ lit "host" then [lit "network"] else []

def capabilities : List GoString :=
  [lit "CAP_AUDIT_WRITE", lit "CAP_KILL", lit "CAP_NET_BIND_SERVICE"]

/-- A mount of the config. -/
def mountEntry (destination type source : GoString) (options : List GoString) : Json :=
  .obj [("destination", .str destination), ("type", .str type), ("source", .str source),
    ("options", .strs options)]

/-- The mounts of every container. -/
def defaultMounts : List Json :=
  [.obj [("destination", .str (lit "/proc")), ("type", .str (lit "proc")),
      ("source", .str (lit "proc"))],
    mountEntry (lit "/sys") (lit "sysfs") (lit "sysfs")
      [lit "nosuid", lit "noexec", lit "nodev", lit "ro"],
    mountEntry (lit "/dev") (lit "tmpfs") (lit "tmpfs")
      [lit "nosuid", lit "strictatime", lit "mode=755", lit "size=65536k"],
    mountEntry (lit "/dev/pts") (lit "devpts") (lit "devpts")
      [lit "nosuid", lit "noexec", lit "newinstance", lit "ptmxmode=0666", lit "mode=0620"]]

/-- The bind mount of a mount of the container. -/
def bindMount (m : ContainerMount) : Json :=
  mountEntry m.mountPath (lit "bind") m.hostPath
    [lit "bind", lit "rprivate", if m.readonly then lit "ro" else lit "rw"]

/-- The OCI config of a container with the root file system `src`. -/
def ociSpec (c : WorkloadContainer) (src : GoString) : Json :=
  .obj [("ociVersion", .str (lit "1.0.2")),
    ("process", .obj [("terminal", .bool false),
      ("user", .obj [("uid", .num 0), ("gid", .num 0)]),
      ("args", .strs (argv c)), ("env", .strs (env c)), ("cwd", .str (cwd c)),
      ("capabilities", .obj [("bounding", .strs capabilities), ("effective", .strs capabilities),
        ("permitted", .strs capabilities)]),
      ("noNewPrivileges", .bool true)]),
    ("root", .obj [("path", .str src), ("readonly", .bool false)]),
    ("hostname", .str c.name),
    ("mounts", .arr (defaultMounts ++ c.mounts.map bindMount)),
    ("linux", .obj [("namespaces",
      .arr ((linuxNamespaces c).map fun n => .obj [("type", .str n)]))])]

/-! ## The runtime -/

structure CrunRuntime where
  bundleRoot : GoString
  nclImagePath : GoString
  deriving DecidableEq, Repr

/-- The runtime with the directories that the comments of its fields name. -/
def weftRuntime : CrunRuntime where
  bundleRoot := lit "/run/weft/containers"
  nclImagePath := lit "/run/weft/images"

/-- An image reference with `/`, `:` and `@` replaced by `-`. -/
def refSafe (image : GoString) : GoString :=
  image.map fun b => if b = 47 ∨ b = 58 ∨ b = 64 then 45 else b

namespace CrunRuntime

def bundle (r : CrunRuntime) (name : GoString) : GoString := join [r.bundleRoot, name]

/-- The root file system of a pulled image. -/
def imageRootfs (r : CrunRuntime) (image : GoString) : GoString :=
  join [r.nclImagePath, refSafe image, lit "rootfs"]

/-- The root file system that a container gets, by what `Stat` says about that of its image. Without
a staged image it is the root file system of the agent. -/
def rootfsSource (r : CrunRuntime) (image : GoString) : Except Errno Kind → GoString
  | .ok .dir => r.imageRootfs image
  | _ => lit "/"

/-- `CrunRuntime.Pull`: without `ncl` on the path it does nothing. -/
def pull (r : CrunRuntime) (image : GoString) : Prog crunSig (Option GoError) := do
  match ← lookPath (lit "ncl") with
  | some _ => pure none
  | none => runCommand [lit "ncl", lit "pull", lit "--cache", r.nclImagePath, image]

def start (marshalIndent : Json → Except GoError GoString) (r : CrunRuntime)
    (c : WorkloadContainer) : Prog crunSig (Option GoError) := do
  match ← (osMkdirAll (join [r.bundle c.name, lit "rootfs"])).left with
  | some e => pure (some (.wrap "mkdir bundle %s: %w" [.str (r.bundle c.name)] (.errno e)))
  | none =>
    let info ← (osStat (r.imageRootfs c.image)).left
    match marshalIndent (ociSpec c (r.rootfsSource c.image info)) with
    | .error e => pure (some (.wrap "marshal config.json: %w" [] e))
    | .ok configBytes =>
      match ← (osWriteFile (join [r.bundle c.name, lit "config.json"]) configBytes).left with
      | some e => pure (some (.wrap "write config.json: %w" [] (.errno e)))
      | none =>
        match ← runCommand [lit "crun", lit "run", lit "--detach", lit "--bundle",
            r.bundle c.name, c.name] with
        | some e => pure (some (.wrap "crun run %s: %w" [.str c.name] e))
        | none => pure none

/-- `CrunRuntime.Stop`: every step is best effort. -/
def stop (r : CrunRuntime) (name : GoString) : Prog crunSig (Option GoError) := do
  let _ ← runCommand [lit "crun", lit "kill", name, lit "SIGTERM"]
  let _ ← runCommand [lit "crun", lit "delete", lit "-f", name]
  let _ ← (osRemoveAll (r.bundle name)).left
  pure none

/-- The methods of the runtime that the reconciler calls. -/
def serve (marshalIndent : Json → Except GoError GoString) (r : CrunRuntime) :
    RuntimeOp → Prog crunSig (Option GoError)
  | .pull image => r.pull image
  | .start c => r.start marshalIndent c
  | .stop name => r.stop name

end CrunRuntime

end WeftAgent.Containers
