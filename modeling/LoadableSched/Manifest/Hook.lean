/-!
The families of kernel hooks. The section a program is compiled into names its family.
-/

namespace LoadableSched

inductive Hook where
  | kprobe
  | uprobe
  | fentry
  | tracepoint
  | rawTracepoint
  | lsm
  | cgroup
  | xdp
  | tc
  | structOps
  | other
deriving DecidableEq, Repr

namespace Hook

def all : List Hook :=
  [kprobe, uprobe, fentry, tracepoint, rawTracepoint, lsm, cgroup, xdp, tc, structOps, other]

def name : Hook → String
  | kprobe => "kprobe"
  | uprobe => "uprobe"
  | fentry => "fentry"
  | tracepoint => "tracepoint"
  | rawTracepoint => "raw_tracepoint"
  | lsm => "lsm"
  | cgroup => "cgroup"
  | xdp => "xdp"
  | tc => "tc"
  | structOps => "struct_ops"
  | other => "other"

def bases : List (String × Hook) :=
  [("kprobe", kprobe), ("kretprobe", kprobe), ("ksyscall", kprobe), ("kretsyscall", kprobe),
   ("uprobe", uprobe), ("uretprobe", uprobe),
   ("fentry", fentry), ("fexit", fentry), ("fmod_ret", fentry),
   ("tracepoint", tracepoint), ("tp", tracepoint),
   ("raw_tracepoint", rawTracepoint), ("raw_tp", rawTracepoint), ("tp_btf", rawTracepoint),
   ("lsm", lsm), ("lsm.s", lsm), ("xdp", xdp), ("tc", tc), ("tcx", tc), ("classifier", tc),
   ("struct_ops", structOps), ("struct_ops.s", structOps)]

def ofSection (text : String) : Hook :=
  let base := text.toList.takeWhile (· ≠ '/')
  match bases.lookup (String.ofList base) with
  | some hook => hook
  | none => if "cgroup".toList.isPrefixOf base then cgroup else other

/-- Whether the section alone says where the kernel attaches the program. -/
def isAutoAttachable : Hook → Bool
  | kprobe => true
  | fentry => true
  | tracepoint => true
  | rawTracepoint => true
  | lsm => true
  | _ => false

end Hook

end LoadableSched
