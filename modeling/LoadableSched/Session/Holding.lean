import LoadableSched.Kernel.Attach
import LoadableSched.Kernel.Objects

/-!
What a session holds in the kernel and must give back, one holding for each acquisition.
-/

namespace LoadableSched

inductive Stage where
  | structOps
  | links
  | network
  | trafficControl
  | maps
  | descriptors
deriving DecidableEq, Repr

namespace Stage

def all : List Stage := [structOps, links, network, trafficControl, maps, descriptors]

def name : Stage → String
  | structOps => "struct_ops"
  | links => "links"
  | network => "xdp"
  | trafficControl => "tc"
  | maps => "maps"
  | descriptors => "fds"

def ofName? (text : String) : Option Stage := all.find? (·.name = text)

end Stage

inductive Holding where
  | link (link : LinkId) (program : String)
  | structOps (link : LinkId) (map : String)
  | xdp (ifindex : IfIndex) (flags : UInt32)
  | filter (program : ProgramId) (side : Side) (priority : UInt32)
  | descriptor (fd : Descriptor)
  | map (map : MapId) (name : String)
deriving DecidableEq, Repr

namespace Holding

def stage : Holding → Stage
  | structOps .. => .structOps
  | link .. => .links
  | xdp .. => .network
  | filter .. => .trafficControl
  | map .. => .maps
  | descriptor _ => .descriptors

def text : Holding → String
  | link id program => program ++ " (" ++ id.text ++ ")"
  | structOps id name => "struct_ops " ++ name ++ " (" ++ id.text ++ ")"
  | xdp ifindex _ => "xdp on if#" ++ toString ifindex
  | filter _ side _ => "tc " ++ side.direction.name ++ " on if#" ++ toString side.ifindex
  | descriptor fd => "fd " ++ toString fd
  | map id name => "map " ++ name ++ " (" ++ id.text ++ ")"

def releaseIn (k : Kernel) : Holding → Except Errno Kernel
  | link id _ => k.destroyLink id
  | structOps id _ => k.destroyLink id
  | xdp ifindex _ => k.detachXdp ifindex
  | filter _ side _ => k.detachFilter side
  | descriptor fd => k.closeDescriptor fd
  | map id _ => k.closeMap id

/-- Gives a holding back; a refusal leaves the kernel as it was. -/
def release (h : Holding) (k : Kernel) : Except Failure Kernel :=
  match h.releaseIn k with
  | .ok k => .ok k
  | .error e => .error (.detach h.text e)

end Holding

end LoadableSched
