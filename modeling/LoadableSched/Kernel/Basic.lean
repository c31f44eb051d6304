import LoadableSched.Class.Lifecycle
import LoadableSched.Kernel.FileTree
import LoadableSched.Manifest.Image
import LoadableSched.Policy.Memory

/-!
The state of the simulated kernel: objects with their programs and maps, what is attached where, the
files and descriptors that attaching needs, the faults injected into it, and a log of releases.
-/

namespace LoadableSched

inductive IdKind where
  | object
  | program
  | map
  | link
deriving DecidableEq, Repr

/-- The number of a kernel thing of one kind. -/
structure Id (kind : IdKind) where
  number : Nat
deriving DecidableEq, Repr

instance (kind : IdKind) : LT (Id kind) := ⟨fun a b => a.number < b.number⟩

instance (kind : IdKind) : DecidableLT (Id kind) := fun a b =>
  inferInstanceAs (Decidable (a.number < b.number))

abbrev ObjectId := Id .object
abbrev ProgramId := Id .program
abbrev MapId := Id .map
abbrev LinkId := Id .link

def IdKind.mark : IdKind → String
  | object => "obj"
  | program => "prog"
  | map => "map"
  | link => "link"

def Id.text {kind : IdKind} (id : Id kind) : String := kind.mark ++ "#" ++ toString id.number

abbrev Descriptor := Int

inductive Direction where
  | ingress
  | egress
deriving DecidableEq, Repr

def Direction.name : Direction → String
  | ingress => "ingress"
  | egress => "egress"

structure Side where
  ifindex : IfIndex
  direction : Direction
deriving DecidableEq, Repr

def Side.before (a b : Side) : Prop :=
  a.ifindex < b.ifindex ∨ a.ifindex = b.ifindex ∧ a.direction = .ingress ∧ b.direction = .egress

instance : LT Side := ⟨Side.before⟩

instance : DecidableLT Side := fun a b =>
  inferInstanceAs (Decidable (a.ifindex < b.ifindex ∨
    a.ifindex = b.ifindex ∧ a.direction = .ingress ∧ b.direction = .egress))

structure Features where
  schedulers : Bool := true
  lsm : Bool := true
deriving DecidableEq, Repr

inductive Release where
  | structOps (link : LinkId)
  | link (link : LinkId)
  | xdp (ifindex : IfIndex)
  | tc (side : Side)
  | map (map : MapId)
  | object (object : ObjectId)
  | descriptor (fd : Descriptor)
deriving DecidableEq, Repr

structure KernelObject where
  manifest : Manifest
  loaded : Bool
  programs : Table String ProgramId
  maps : Table String MapId
deriving Repr

structure KernelProgram where
  name : String
  sectionName : String
deriving DecidableEq, Repr

def KernelProgram.hook (p : KernelProgram) : Hook := Hook.ofSection p.sectionName

structure KernelMap where
  spec : MapSpec
  store : StoreId
  /-- The handle for access from outside is not closed yet. -/
  isOpen : Bool
deriving DecidableEq, Repr

inductive Link where
  | program (program : ProgramId)
  | cgroup (program : ProgramId)
  | structOps (map : MapId)
deriving DecidableEq, Repr

structure Faults where
  cgroupAttaches : Nat := 0
  rejectedPrograms : List String := []
  xdpDetach : List IfIndex := []
  linkDestroy : List LinkId := []
  qdiscCleanup : Bool := false
  nextLoad : Option Errno := none
deriving DecidableEq, Repr

inductive Injection where
  | cgroupAttaches (count : Nat)
  | program (name : String)
  | xdpDetach (ifindex : IfIndex)
  | linkDestroy (link : LinkId)
  | qdiscCleanup (fails : Bool)
  | nextLoad (errno : Errno)
  | staleQdisc (ifindex : IfIndex)
  | clear
deriving DecidableEq, Repr

structure Kernel where
  features : Features
  sched : SchedClass Memory
  /-- The last number given out; objects, programs, maps and links share one sequence. -/
  lastId : Nat
  objects : Table ObjectId KernelObject
  programs : Table ProgramId KernelProgram
  maps : Table MapId KernelMap
  links : Table LinkId Link
  xdp : Table IfIndex ProgramId
  qdiscs : List IfIndex
  filters : Table Side ProgramId
  interfaces : List IfIndex
  faults : Faults
  cgroupAttempts : Nat
  releases : List Release
  opens : Nat
  files : FileTree
  /-- The open descriptors; the flag tells whether one is a directory's. -/
  descriptors : Table Descriptor Bool

namespace Kernel

def new (cpus : Nat) (features : Features) : Kernel where
  features
  sched := SchedClass.new cpus Memory.empty
  lastId := 0
  objects := ∅
  programs := ∅
  maps := ∅
  links := ∅
  xdp := ∅
  qdiscs := []
  filters := ∅
  interfaces := [1]
  faults := {}
  cgroupAttempts := 0
  releases := []
  opens := 0
  files := .standard
  descriptors := ∅

def memory (k : Kernel) : Memory := k.sched.memory

def setMemory (k : Kernel) (memory : Memory) : Kernel := { k with sched := { k.sched with memory } }

def log (k : Kernel) (r : Release) : Kernel := { k with releases := k.releases ++ [r] }

/-- A number that was never given out. -/
def newId (k : Kernel) (kind : IdKind) : Id kind × Kernel :=
  (⟨k.lastId + 1⟩, { k with lastId := k.lastId + 1 })

def program (k : Kernel) (id : ProgramId) : Except Errno KernelProgram :=
  match k.programs.get? id with
  | some p => .ok p
  | none => .error .noEntry

def admitted (k : Kernel) (id : ProgramId) : Except Errno KernelProgram :=
  match k.program id with
  | .error e => .error e
  | .ok p => if k.faults.rejectedPrograms.contains p.name then .error .accessDenied else .ok p

def linkedProgram? (k : Kernel) (link : LinkId) : Option ProgramId :=
  match k.links.get? link with
  | some (.program p) => some p
  | some (.cgroup p) => some p
  | _ => none

def addInterfaces (k : Kernel) (ifindexes : List IfIndex) : Kernel :=
  { k with interfaces := k.interfaces ++ ifindexes }

def inject (k : Kernel) : Injection → Kernel
  | .cgroupAttaches count => { k with faults := { k.faults with cgroupAttaches := count } }
  | .program name =>
    { k with faults := { k.faults with rejectedPrograms := name :: k.faults.rejectedPrograms } }
  | .xdpDetach ifindex =>
    { k with faults := { k.faults with xdpDetach := ifindex :: k.faults.xdpDetach } }
  | .linkDestroy link =>
    { k with faults := { k.faults with linkDestroy := link :: k.faults.linkDestroy } }
  | .qdiscCleanup fails => { k with faults := { k.faults with qdiscCleanup := fails } }
  | .nextLoad errno => { k with faults := { k.faults with nextLoad := some errno } }
  | .staleQdisc ifindex =>
    if k.qdiscs.contains ifindex then k else { k with qdiscs := k.qdiscs ++ [ifindex] }
  | .clear => { k with faults := {} }

def takeReleases (k : Kernel) : List Release × Kernel := (k.releases, { k with releases := [] })

end Kernel

end LoadableSched
