import LoadableSched.Kernel.Basic

/-!
Attaching in the kernel: links of programs, cgroups and schedulers, programs on interfaces, and
descriptors, each with the way back. Where only the result is returned with a new state, an error
leaves the kernel as it was.
-/

namespace LoadableSched.Kernel

def attachProgram (k : Kernel) (id : ProgramId) : Except Errno (LinkId × Kernel) :=
  match k.admitted id with
  | .error e => .error e
  | .ok p =>
    if !p.hook.isAutoAttachable then .error .notSupported
    else if p.hook = .lsm && !k.features.lsm then .error .notSupported
    else
      let (link, k) := k.newId .link
      .ok (link, { k with links := k.links.insert link (.program id) })

def lowestFree (k : Kernel) : Nat → Descriptor → Descriptor
  | 0, fd => fd
  | fuel + 1, fd => if k.descriptors.contains fd then k.lowestFree fuel (fd + 1) else fd

/-- The descriptor that is given out next. The first three are never free, and of one more than are
open at least one is. -/
def freeDescriptor (k : Kernel) : Descriptor := k.lowestFree (k.descriptors.size + 1) 3

def openPlace (k : Kernel) (place : Place) : Descriptor × Kernel :=
  let fd := k.freeDescriptor
  (fd, { k with descriptors := k.descriptors.insert fd (k.files.isDirectory place) })

def openPath (k : Kernel) (path : Path) : Except Errno (Descriptor × Kernel) :=
  match k.files.resolve? path with
  | none => .error .noEntry
  | some place => .ok (k.openPlace place)

def openDirectory (k : Kernel) (place : Place) : Except Errno (Descriptor × Kernel) :=
  if k.files.isDirectory place then .ok (k.openPlace place)
  else if k.files.isFile place then .error .notDirectory
  else .error .noEntry

def dropDescriptor (k : Kernel) (fd : Descriptor) : Except Errno Kernel :=
  if k.descriptors.contains fd then .ok { k with descriptors := k.descriptors.erase fd }
  else .error .badDescriptor

def closeDescriptor (k : Kernel) (fd : Descriptor) : Except Errno Kernel :=
  match k.dropDescriptor fd with
  | .error e => .error e
  | .ok k => .ok (k.log (.descriptor fd))

def checkCgroup (k : Kernel) (id : ProgramId) (fd : Descriptor) : Except Errno Unit :=
  match k.admitted id with
  | .error e => .error e
  | .ok p =>
    if p.hook ≠ .cgroup then .error .invalid
    else
      match k.descriptors.get? fd with
      | none => .error .badDescriptor
      | some isDirectory => if isDirectory then .ok () else .error .notDirectory

def attachCgroup (k : Kernel) (id : ProgramId) (fd : Descriptor) : Except Errno LinkId × Kernel :=
  let k := { k with cgroupAttempts := k.cgroupAttempts + 1 }
  if k.faults.cgroupAttaches > 0 then
    let faults := { k.faults with cgroupAttaches := k.faults.cgroupAttaches - 1 }
    (.error .busy, { k with faults })
  else
    match k.checkCgroup id fd with
    | .error e => (.error e, k)
    | .ok () =>
      let (link, k) := k.newId .link
      (.ok link, { k with links := k.links.insert link (.cgroup id) })

/-- Attaches a program to the cgroup at a path, with a descriptor that does not outlive the call. -/
def attachCgroupAt (k : Kernel) (id : ProgramId) (path : Path) : Except Errno LinkId × Kernel :=
  match k.openPath path with
  | .error _ => k.attachCgroup id (-1)
  | .ok (fd, k) =>
    let (result, k) := k.attachCgroup id fd
    (result, (k.dropDescriptor fd).toOption.getD k)

def checkStructOps (k : Kernel) (map : MapId) : Except Errno Unit :=
  match k.maps.get? map with
  | none => .error .noEntry
  | some m =>
    if m.spec.kind ≠ .structOps then .error .invalid
    else if !k.features.schedulers then .error .notSupported
    else if k.links.values.contains (.structOps map) then .error .busy
    else .ok ()

def attachStructOps (k : Kernel) (map : MapId) (policy : Policy Memory) :
    Except Errno LinkId × Kernel :=
  match k.checkStructOps map with
  | .error e => (.error e, k)
  | .ok () =>
    match k.sched.install policy with
    | (.error e, sched) => (.error e.errno, { k with sched })
    | (.ok (), sched) =>
      let (link, k) := { k with sched }.newId .link
      (.ok link, { k with links := k.links.insert link (.structOps map) })

/-- Removes a link. That of a scheduler takes the active policy with it. -/
def destroyLink (k : Kernel) (link : LinkId) : Except Errno Kernel :=
  if k.faults.linkDestroy.contains link then .error .inputOutput
  else
    match k.links.get? link with
    | none => .error .noEntry
    | some entry =>
      let k := { k with links := k.links.erase link }
      match entry with
      | .structOps _ => .ok ({ k with sched := k.sched.uninstall.2 }.log (.structOps link))
      | .program _ => .ok (k.log (.link link))
      | .cgroup _ => .ok (k.log (.link link))

def ifNoneExists : UInt32 := 1

def attachXdp (k : Kernel) (ifindex : IfIndex) (id : ProgramId) (flags : UInt32) :
    Except Errno Kernel :=
  if !k.interfaces.contains ifindex then .error .noDevice
  else
    match k.admitted id with
    | .error e => .error e
    | .ok p =>
      if p.hook ≠ .xdp then .error .invalid
      else if flags &&& ifNoneExists ≠ 0 && k.xdp.contains ifindex then .error .busy
      else .ok { k with xdp := k.xdp.insert ifindex id }

def detachXdp (k : Kernel) (ifindex : IfIndex) : Except Errno Kernel :=
  if k.faults.xdpDetach.contains ifindex then .error .inputOutput
  else if !k.xdp.contains ifindex then .error .noEntry
  else .ok ({ k with xdp := k.xdp.erase ifindex }.log (.xdp ifindex))

def destroyQdisc (k : Kernel) (ifindex : IfIndex) : Except Errno Kernel :=
  if k.faults.qdiscCleanup then .error .notPermitted
  else if !k.qdiscs.contains ifindex then .error .noEntry
  else
    .ok { k with
      qdiscs := k.qdiscs.erase ifindex
      filters := k.filters.filter fun side _ => side.ifindex ≠ ifindex }

def createQdisc (k : Kernel) (ifindex : IfIndex) : Except Errno Kernel :=
  if !k.interfaces.contains ifindex then .error .noDevice
  else if k.qdiscs.contains ifindex then .error .alreadyExists
  else .ok { k with qdiscs := k.qdiscs ++ [ifindex] }

def attachFilter (k : Kernel) (side : Side) (id : ProgramId) : Except Errno Kernel :=
  if !k.qdiscs.contains side.ifindex then .error .noEntry
  else
    match k.admitted id with
    | .error e => .error e
    | .ok p =>
      if p.hook ≠ .tc then .error .invalid
      else if k.filters.contains side then .error .alreadyExists
      else .ok { k with filters := k.filters.insert side id }

def detachFilter (k : Kernel) (side : Side) : Except Errno Kernel :=
  if !k.filters.contains side then .error .noEntry
  else .ok ({ k with filters := k.filters.erase side }.log (.tc side))

end LoadableSched.Kernel
