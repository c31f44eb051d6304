import LoadableSched.Errno

/-!
Why an operation on an extension fails, in the words that its caller reads.
-/

namespace LoadableSched

inductive Lookup where
  | program
  | map
  | cgroup
  | structOps
deriving DecidableEq, Repr

def Lookup.text : Lookup → String
  | .program => "program"
  | .map => "map"
  | .cgroup => "cgroup"
  | .structOps => "struct_ops map"

inductive Failure where
  | load (reason : String) (errno : Errno)
  | notFound (kind : Lookup) (name : String)
  | typeMismatch (map expected actual : String)
  /-- The code is absent where the request was refused before the kernel saw it. -/
  | attach (target : String) (errno : Option Errno) (reason : String)
  | detach (target : String) (errno : Errno)
  | illegalState (reason : String)
  | io (reason : String)
  | configuration (reason : String)
  | teardown (failures : List Failure)
deriving Inhabited

namespace Failure

def refused (target : String) (errno : Errno) : Failure :=
  .attach target (some errno) errno.description

/-- The target was refused for a reason of its own. -/
def unsuitable (target reason : String) : Failure := .attach target none reason

def message : Failure → String
  | load reason errno => "Failed to load extension: " ++ reason ++ " (" ++ errno.message ++ ")"
  | notFound kind name => kind.text ++ " not found: " ++ name
  | typeMismatch map expected actual =>
    "Map " ++ map ++ " has kind " ++ actual ++ ", expected " ++ expected
  | attach target _ reason => "Failed to attach " ++ target ++ ": " ++ reason
  | detach target errno => "Failed to release " ++ target ++ ": " ++ errno.message
  | illegalState reason => "Illegal state: " ++ reason
  | io reason => "I/O error: " ++ reason
  | configuration reason => "Configuration error: " ++ reason
  | teardown failures => "Teardown finished with " ++ toString failures.length ++ " error(s)"

def errno? : Failure → Option Errno
  | load _ errno => some errno
  | attach _ errno _ => errno
  | detach _ errno => some errno
  | _ => none

def isNotFound : Failure → Bool
  | notFound .. => true
  | _ => false

def isIllegalState : Failure → Bool
  | illegalState _ => true
  | _ => false

def documentCode : Failure → String
  | load .. => "ext::load_failed"
  | notFound .. => "ext::not_found"
  | typeMismatch .. => "ext::type_mismatch"
  | attach .. => "ext::attach_failed"
  | detach .. => "ext::detach_failed"
  | illegalState _ => "ext::illegal_state"
  | io _ => "ext::io_error"
  | configuration _ => "ext::configuration_error"
  | teardown _ => "ext::teardown_failed"

def help? : Failure → Option String
  | load .. => some
      ("The image was rejected by the loader or verifier. " ++
        "The default scheduler is still in effect.")
  | notFound .. => some "Names are exact and case-sensitive. Check the extension manifest."
  | typeMismatch .. =>
    some "The caller and the compiled extension disagree about the map layout."
  | attach .. =>
    some "The kernel rejected the attachment. Check kernel version and hook availability."
  | detach .. => some
      ("The kernel still holds this attachment. " ++
        "It is released when the extension object is closed.")
  | illegalState _ =>
    some "This is a programming error: a handle was used after release or released twice."
  | io _ => none
  | configuration _ => none
  | teardown _ =>
    some "Every tracked resource was still visited. The listed ones may need manual cleanup."

end Failure

end LoadableSched
