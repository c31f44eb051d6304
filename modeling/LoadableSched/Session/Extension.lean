import LoadableSched.Kernel.Objects
import LoadableSched.Store.Typed

/-!
A loaded extension: look-up of its programs and maps by name, until it is closed.
-/

namespace LoadableSched

structure ProgramHandle where
  id : ProgramId
  name : String
  sectionName : String
  hook : Hook
deriving DecidableEq, Repr

def ProgramHandle.new (id : ProgramId) (name sectionName : String) : ProgramHandle :=
  ⟨id, name, sectionName, Hook.ofSection sectionName⟩

structure MapHandle where
  id : MapId
  name : String
  kind : MapKind
  store : StoreId
deriving DecidableEq, Repr

structure StructOpsHandle where
  id : MapId
  name : String
deriving DecidableEq, Repr

structure Extension where
  object : Option ObjectId
  manifest : Manifest
deriving Repr

namespace Extension

def name (e : Extension) : String := e.manifest.name

def isClosed (e : Extension) : Bool := e.object.isNone

/-- Loads an image. If the kernel rejects it, no object is left behind. -/
def load (k : Kernel) (image : Image) : Except Failure Extension × Kernel :=
  let name := image.manifest.name
  match k.openObject (.bytes image.bytes) with
  | (.error e, k) => (.error (.load ("cannot open " ++ name) e), k)
  | (.ok object, k) =>
    match k.loadObject object with
    | (.ok (), k) => (.ok ⟨some object, image.manifest⟩, k)
    | (.error e, k) =>
      (.error (.load (name ++ " rejected by the kernel") e), (k.closeObject object).toOption.getD k)

def liveObject (e : Extension) : Except Failure ObjectId :=
  match e.object with
  | some object => .ok object
  | none => .error (.illegalState ("extension " ++ e.name ++ " is already closed"))

def findProgram (e : Extension) (k : Kernel) (name : String) : Except Failure ProgramHandle := do
  let object ← e.liveObject
  match k.findProgram? object name with
  | none => .error (.notFound .program name)
  | some p => .ok (.new p.id p.name p.sectionName)

def shapeText (kind : MapKind) (keySize valueSize : UInt32) : String :=
  kind.name ++ " with " ++ toString keySize ++ "-byte keys and " ++ toString valueSize
    ++ "-byte values"

def findMap (e : Extension) (k : Kernel) (κ ν : Type) [Word κ] [Word ν] (name : String)
    (kind : MapKind) : Except Failure MapHandle := do
  let object ← e.liveObject
  match k.findMap? object name with
  | none => .error (.notFound .map name)
  | some m =>
    if m.spec.kind ≠ kind then .error (.typeMismatch name kind.name m.spec.kind.name)
    else if !m.spec.layout.fits κ ν then
      let layout := m.spec.layout
      .error (.typeMismatch name (shapeText kind (Word.width κ) (Word.width ν))
        (shapeText m.spec.kind layout.keySize layout.valueSize))
    else
      match k.mapStore? m.id with
      | none => .error (.illegalState ("map " ++ name ++ " has no user-space storage"))
      | some store => .ok ⟨m.id, m.spec.name, m.spec.kind, store⟩

def findStructOps (e : Extension) (k : Kernel) (name : String) : Except Failure StructOpsHandle := do
  let object ← e.liveObject
  match k.findMap? object name with
  | none => .error (.notFound .structOps name)
  | some m =>
    if m.spec.kind ≠ .structOps then
      .error (.typeMismatch name MapKind.structOps.name m.spec.kind.name)
    else .ok ⟨m.id, m.spec.name⟩

/-- Closes the extension, which is closed afterwards even if the kernel refuses; a closed one stays
as it is. -/
def close (e : Extension) (k : Kernel) : Except Failure Unit × Extension × Kernel :=
  match e.object with
  | none => (.ok (), e, k)
  | some object =>
    let e := { e with object := none }
    match k.closeObject object with
    | .ok k => (.ok (), e, k)
    | .error errno => (.error (.detach ("extension " ++ e.name) errno), e, k)

end Extension

end LoadableSched
