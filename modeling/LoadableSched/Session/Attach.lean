import LoadableSched.Policy.Shipped
import LoadableSched.Session.Extension
import LoadableSched.Session.Holdings

/-!
Attaching the programs of an extension to their hooks. What is attached is among the holdings before
the next step can fail, so a later failure loses nothing.
-/

namespace LoadableSched

structure HostSettings where
  cgroupRoot : Path
  cgroupRetries : Nat
  cgroupBackoff : Nat
  cpus : Nat
deriving DecidableEq, Repr

def HostSettings.default : HostSettings := ⟨⟨"/sys/fs/cgroup"⟩, 3, 100, 4⟩

abbrev Attached (α : Type) := Except Failure α × Holdings × Kernel

namespace Attach

def hold (s : Holdings) (k : Kernel) (h : Holding) : Attached Holding := (.ok h, s.register h, k)

def forEach {α : Type} (one : Holdings → Kernel → α → Attached Holding) (s : Holdings)
    (k : Kernel) : List α → Attached (List Holding)
  | [] => (.ok [], s, k)
  | a :: rest =>
    match one s k a with
    | (.error e, s, k) => (.error e, s, k)
    | (.ok h, s, k) =>
      match forEach one s k rest with
      | (.error e, s, k) => (.error e, s, k)
      | (.ok hs, s, k) => (.ok (h :: hs), s, k)

def program (s : Holdings) (k : Kernel) (p : ProgramHandle) : Attached Holding :=
  if !p.hook.isAutoAttachable then
    (.error (.unsuitable p.name (p.hook.name ++ " programs need an explicit attach target")), s, k)
  else
    match k.attachProgram p.id with
    | .error e => (.error (.refused p.name e), s, k)
    | .ok (link, k) => hold s k (.link link p.name)

def named (e : Extension) (s : Holdings) (k : Kernel) (name : String) : Attached Holding :=
  match e.findProgram k name with
  | .error failure => (.error failure, s, k)
  | .ok p => program s k p

def marked (e : Extension) (s : Holdings) (k : Kernel) : Attached (List Holding) :=
  match e.manifest.autoAttached with
  | .error fault => (.error fault.failure, s, k)
  | .ok entries => forEach (named e) s k (entries.map (·.name))

def lsm (s : Holdings) (k : Kernel) (p : ProgramHandle) : Attached Holding :=
  if p.hook ≠ .lsm then
    (.error (.unsuitable p.name ("section " ++ p.sectionName ++ " is not an LSM hook")), s, k)
  else program s k p

def lsmNamed (e : Extension) (s : Holdings) (k : Kernel) (name : String) : Attached Holding :=
  match e.findProgram k name with
  | .error failure => (.error failure, s, k)
  | .ok p => lsm s k p

def allLsm (e : Extension) (s : Holdings) (k : Kernel) : Attached (List Holding) :=
  forEach (lsmNamed e) s k ((e.manifest.entryPointsOf .lsm).map (·.name))

/-- One attempt to attach to a cgroup: find its directory, open it, attach. The descriptor of an
attempt that fails is given back. -/
def cgroupOnce (host : HostSettings) (s : Holdings) (k : Kernel) (p : ProgramHandle)
    (cgroup : String) : Attached Holding :=
  match k.files.child? host.cgroupRoot cgroup with
  | none => (.error (.notFound .cgroup cgroup), s, k)
  | some place =>
    match k.openDirectory place with
    | .error e => (.error (.refused ("cgroup " ++ cgroup) e), s, k)
    | .ok (fd, k) =>
      let s := s.register (.descriptor fd)
      match k.attachCgroup p.id fd with
      | (.ok link, k) => hold s k (.link link p.name)
      | (.error e, k) =>
        let (s, k) := (s.detach k (.descriptor fd)).toOption.getD (s, k)
        (.error (.refused (p.name ++ " to cgroup " ++ cgroup) e), s, k)

/-- Attempts again after a failure, so many times; the last failure is reported. -/
def cgroupRetrying (host : HostSettings) (p : ProgramHandle) (cgroup : String) :
    Nat → Holdings → Kernel → Attached Holding
  | 0, s, k => cgroupOnce host s k p cgroup
  | retries + 1, s, k =>
    match cgroupOnce host s k p cgroup with
    | (.ok h, s, k) => (.ok h, s, k)
    | (.error _, s, k) => cgroupRetrying host p cgroup retries s k

def cgroup (host : HostSettings) (s : Holdings) (k : Kernel) (p : ProgramHandle) (name : String) :
    Attached Holding :=
  if p.hook ≠ .cgroup then
    (.error (.unsuitable p.name ("section " ++ p.sectionName ++ " is not a cgroup hook")), s, k)
  else cgroupRetrying host p name host.cgroupRetries s k

def xdpOne (p : ProgramHandle) (s : Holdings) (k : Kernel) (ifindex : IfIndex) : Attached Holding :=
  match k.attachXdp ifindex p.id Kernel.ifNoneExists with
  | .error e => (.error (.refused (p.name ++ " on if#" ++ toString ifindex) e), s, k)
  | .ok k => hold s k (.xdp ifindex Kernel.ifNoneExists)

def xdp (s : Holdings) (k : Kernel) (p : ProgramHandle) (ifindexes : List IfIndex) :
    Attached (List Holding) :=
  forEach (xdpOne p) s k ifindexes

def holdsFilterOn (s : Holdings) (ifindex : IfIndex) : Bool :=
  s.items.any fun h =>
    match h with
    | .filter _ side _ => side.ifindex = ifindex
    | _ => false

def filterPriority : UInt32 := 1

def filterOn (s : Holdings) (k : Kernel) (p : ProgramHandle) (side : Side) (target : String) :
    Attached Holding :=
  match k.attachFilter side p.id with
  | .error e => (.error (.refused target e), s, k)
  | .ok k => hold s k (.filter p.id side filterPriority)

/-- Attaches a classifier to one side of an interface. A discipline that is not the session's own is
removed first, as far as the kernel lets it. -/
def filter (s : Holdings) (k : Kernel) (p : ProgramHandle) (side : Side) : Attached Holding :=
  let target := p.name ++ " on if#" ++ toString side.ifindex ++ " " ++ side.direction.name
  let k :=
    if holdsFilterOn s side.ifindex then k else (k.destroyQdisc side.ifindex).toOption.getD k
  match k.createQdisc side.ifindex with
  | .ok k => filterOn s k p side target
  | .error e =>
    if e = .alreadyExists then filterOn s k p side target else (.error (.refused target e), s, k)

def structOps (e : Extension) (s : Holdings) (k : Kernel) (map : String) (policy : Policy Memory) :
    Attached Holding :=
  match e.findStructOps k map with
  | .error failure => (.error failure, s, k)
  | .ok ops =>
    match k.attachStructOps ops.id policy with
    | (.error errno, k) =>
      (.error (.refused ("scheduler " ++ policy.name ++ " via " ++ map) errno), s, k)
    | (.ok link, k) => hold s k (.structOps link ops.name)

end Attach

end LoadableSched
