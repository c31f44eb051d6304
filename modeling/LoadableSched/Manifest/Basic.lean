import LoadableSched.Failure
import LoadableSched.Manifest.Hook
import LoadableSched.Store.Basic
import LoadableSched.Table

/-!
The description of an extension: its programs, its maps and its properties.
-/

namespace LoadableSched

structure EntryPoint where
  name : String
  sectionName : String
  autoAttach : Bool
deriving DecidableEq, Repr

def EntryPoint.hook (e : EntryPoint) : Hook := Hook.ofSection e.sectionName

structure MapSpec where
  name : String
  kind : MapKind
  layout : Layout
deriving DecidableEq, Repr

def MapSpec.structOps (name : String) : MapSpec := ⟨name, .structOps, ⟨4, 0, 1⟩⟩

structure Manifest where
  name : String
  license : String
  entryPoints : List EntryPoint
  maps : List MapSpec
  properties : Table String String
deriving DecidableEq, Repr

namespace Manifest

def new (name : String) : Manifest := ⟨name, "GPL", [], [], ∅⟩

def entryPoint? (m : Manifest) (name : String) : Option EntryPoint :=
  m.entryPoints.find? (·.name = name)

def map? (m : Manifest) (name : String) : Option MapSpec := m.maps.find? (·.name = name)

def property? (m : Manifest) (key : String) : Option String := m.properties.get? key

def entryPointsOf (m : Manifest) (hook : Hook) : List EntryPoint :=
  m.entryPoints.filter (·.hook = hook)

inductive Fault where
  | duplicateEntryPoint (name manifest : String)
  | duplicateMap (name manifest : String)
  | notAutoAttachable (offenders : List EntryPoint)
deriving DecidableEq, Repr

def Fault.message : Fault → String
  | duplicateEntryPoint name manifest => "duplicate entry point " ++ name ++ " in " ++ manifest
  | duplicateMap name manifest => "duplicate map " ++ name ++ " in " ++ manifest
  | notAutoAttachable offenders =>
    "auto-attach needs a kprobe, fentry, tracepoint, raw tracepoint or lsm section, "
      ++ "but these entry points have invalid sections: "
      ++ String.intercalate ", " (offenders.map fun e => e.name ++ " with section " ++ e.sectionName)

def Fault.failure (fault : Fault) : Failure := .configuration fault.message

/-- The entry points marked for automatic attachment; refused if a section among them needs a
target. -/
def autoAttached (m : Manifest) : Except Fault (List EntryPoint) :=
  let marked := m.entryPoints.filter (·.autoAttach)
  let offenders := marked.filter (!·.hook.isAutoAttachable)
  if offenders.isEmpty then .ok marked else .error (.notAutoAttachable offenders)

/-- The first text that occurs a second time, at its second place. -/
def firstRepeated (seen : List String) : List String → Option String
  | [] => none
  | name :: rest => if seen.contains name then some name else firstRepeated (name :: seen) rest

def validate (m : Manifest) : Except Fault Unit :=
  match firstRepeated [] (m.entryPoints.map (·.name)) with
  | some name => .error (.duplicateEntryPoint name m.name)
  | none =>
    match firstRepeated [] (m.maps.map (·.name)) with
    | some name => .error (.duplicateMap name m.name)
    | none => .ok ()

end Manifest

end LoadableSched
