import LoadableSched.Kernel.Basic

/-!
Objects in the kernel: opening and loading an image, looking up its programs and maps, and closing it.
-/

namespace LoadableSched

inductive FileContent where
  | missing
  | directory
  | bytes (bytes : Bytes)
deriving DecidableEq, Repr

structure ProgramInfo where
  id : ProgramId
  name : String
  sectionName : String
deriving DecidableEq, Repr

structure MapInfo where
  id : MapId
  spec : MapSpec
deriving DecidableEq, Repr

namespace Kernel

def openObject (k : Kernel) (content : FileContent) : Except Errno ObjectId × Kernel :=
  let k := { k with opens := k.opens + 1 }
  match content with
  | .missing => (.error .noEntry, k)
  | .directory => (.error .isDirectory, k)
  | .bytes bytes =>
    match Image.decode bytes with
    | .error e => (.error e, k)
    | .ok manifest =>
      let (id, k) := k.newId .object
      (.ok id, { k with objects := k.objects.insert id ⟨manifest, false, ∅, ∅⟩ })

def supports (k : Kernel) (manifest : Manifest) : Bool :=
  manifest.entryPoints.all fun e =>
    match e.hook with
    | .structOps => k.features.schedulers
    | .lsm => k.features.lsm
    | _ => true

/-- Gives numbers to the entry points in order; of one name twice, the later number is found. -/
def addPrograms (k : Kernel) (names : Table String ProgramId) :
    List EntryPoint → Table String ProgramId × Kernel
  | [] => (names, k)
  | e :: rest =>
    let (id, k) := k.newId .program
    let k := { k with programs := k.programs.insert id ⟨e.name, e.sectionName⟩ }
    k.addPrograms (names.insert e.name id) rest

def addMaps (k : Kernel) (names : Table String MapId) :
    List MapSpec → Table String MapId × Kernel
  | [] => (names, k)
  | spec :: rest =>
    let (id, k) := k.newId .map
    let (store, memory) := k.memory.newStore spec.kind spec.layout
    let k := k.setMemory memory
    let k := { k with maps := k.maps.insert id ⟨spec, store, true⟩ }
    k.addMaps (names.insert spec.name id) rest

def loadObject (k : Kernel) (id : ObjectId) : Except Errno Unit × Kernel :=
  match k.faults.nextLoad with
  | some e => (.error e, { k with faults := { k.faults with nextLoad := none } })
  | none =>
    match k.objects.get? id with
    | none => (.error .badDescriptor, k)
    | some object =>
      if object.loaded then (.error .alreadyDone, k)
      else if !k.supports object.manifest then (.error .notSupported, k)
      else
        let (programs, k) := k.addPrograms ∅ object.manifest.entryPoints
        let (maps, k) := k.addMaps ∅ object.manifest.maps
        let object := { object with loaded := true, programs, maps }
        (.ok (), { k with objects := k.objects.insert id object })

/-- Closes an object; the programs and maps that its names stand for go with it. -/
def closeObject (k : Kernel) (id : ObjectId) : Except Errno Kernel :=
  match k.objects.get? id with
  | none => .error .badDescriptor
  | some object =>
    let programs := object.programs.values.foldl Table.erase k.programs
    let maps := object.maps.values.foldl Table.erase k.maps
    .ok ({ k with objects := k.objects.erase id, programs, maps }.log (.object id))

def findProgram? (k : Kernel) (id : ObjectId) (name : String) : Option ProgramInfo := do
  let object ← k.objects.get? id
  let program ← object.programs.get? name
  let p ← k.programs.get? program
  some ⟨program, p.name, p.sectionName⟩

def findMap? (k : Kernel) (id : ObjectId) (name : String) : Option MapInfo := do
  let object ← k.objects.get? id
  let map ← object.maps.get? name
  let m ← k.maps.get? map
  some ⟨map, m.spec⟩

def mapStore? (k : Kernel) (map : MapId) : Option StoreId :=
  match k.maps.get? map with
  | none => none
  | some m => if m.spec.kind = .structOps then none else some m.store

def closeMap (k : Kernel) (map : MapId) : Except Errno Kernel :=
  match k.maps.get? map with
  | none => .error .badDescriptor
  | some m =>
    if m.isOpen then
      .ok ({ k with maps := k.maps.modify map fun m => { m with isOpen := false } }.log (.map map))
    else .error .badDescriptor

end Kernel

end LoadableSched
