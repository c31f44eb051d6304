import LoadableSched.Class.Run
import LoadableSched.Kernel.Attach
import LoadableSched.Kernel.Objects

/-!
Runs of the kernel: all that anybody can ask of it, in any order and with any outcome, and what happens
around it. Sessions, extensions and attachment managers reach the kernel in no other way.
-/

namespace LoadableSched.Kernel

inductive Call where
  | openObject (content : FileContent)
  | loadObject (object : ObjectId)
  | closeObject (object : ObjectId)
  | closeMap (map : MapId)
  | attachProgram (program : ProgramId)
  | attachCgroup (program : ProgramId) (fd : Descriptor)
  | attachStructOps (map : MapId) (policy : Policy Memory)
  | destroyLink (link : LinkId)
  | attachXdp (ifindex : IfIndex) (program : ProgramId) (flags : UInt32)
  | detachXdp (ifindex : IfIndex)
  | createQdisc (ifindex : IfIndex)
  | destroyQdisc (ifindex : IfIndex)
  | attachFilter (side : Side) (program : ProgramId)
  | detachFilter (side : Side)
  | openPath (path : Path)
  | openDirectory (place : Place)
  | closeDescriptor (fd : Descriptor)
  | dropDescriptor (fd : Descriptor)
  | inject (injection : Injection)
  | setMemory (memory : Memory)
  | schedule (op : SchedClass.Operation Memory)
  | files (files : FileTree)
  | addInterfaces (ifindexes : List IfIndex)
  | takeReleases

def after (k : Kernel) : Call → Kernel
  | .openObject content => (k.openObject content).2
  | .loadObject object => (k.loadObject object).2
  | .closeObject object => (k.closeObject object).toOption.getD k
  | .closeMap map => (k.closeMap map).toOption.getD k
  | .attachProgram program => ((k.attachProgram program).toOption.map (·.2)).getD k
  | .attachCgroup program fd => (k.attachCgroup program fd).2
  | .attachStructOps map policy => (k.attachStructOps map policy).2
  | .destroyLink link => (k.destroyLink link).toOption.getD k
  | .attachXdp ifindex program flags => (k.attachXdp ifindex program flags).toOption.getD k
  | .detachXdp ifindex => (k.detachXdp ifindex).toOption.getD k
  | .createQdisc ifindex => (k.createQdisc ifindex).toOption.getD k
  | .destroyQdisc ifindex => (k.destroyQdisc ifindex).toOption.getD k
  | .attachFilter side program => (k.attachFilter side program).toOption.getD k
  | .detachFilter side => (k.detachFilter side).toOption.getD k
  | .openPath path => ((k.openPath path).toOption.map (·.2)).getD k
  | .openDirectory place => ((k.openDirectory place).toOption.map (·.2)).getD k
  | .closeDescriptor fd => (k.closeDescriptor fd).toOption.getD k
  | .dropDescriptor fd => (k.dropDescriptor fd).toOption.getD k
  | .inject injection => k.inject injection
  | .setMemory memory => k.setMemory memory
  | .schedule op => { k with sched := k.sched.step op }
  | .files files => { k with files }
  | .addInterfaces ifindexes => k.addInterfaces ifindexes
  | .takeReleases => k.takeReleases.2

def afterAll (k : Kernel) : List Call → Kernel
  | [] => k
  | call :: rest => (k.after call).afterAll rest

end LoadableSched.Kernel
