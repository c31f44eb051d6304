import LoadableSched.Proofs.Session.Attaching
import LoadableSched.Proofs.Session.Finding

/-!
The attachment of what a manifest marks for it: in the order of the declarations, each before the next is
tried, up to the first that the kernel refuses.
-/

namespace LoadableSched

variable {k : Kernel} {m : Manifest}

theorem Manifest.entryPoint?_of_mem (once : m.NamesOnce) {x : EntryPoint} (listed : x ∈ m.entryPoints) :
    m.entryPoint? x.name = some x :=
  Table.find?_of_distinct once.1 listed

namespace Kernel

def rejects (k : Kernel) (name : String) : Bool := k.faults.rejectedPrograms.contains name

def linked (k : Kernel) (programs : List ProgramId) : Kernel :=
  programs.foldl (fun k p => (k.addLink (.program p)).2) k

theorem lsm_of_supports (supported : k.supports m = true) {x : EntryPoint} (listed : x ∈ m.entryPoints)
    (hook : x.hook = .lsm) : k.features.lsm = true := by
  have each := List.all_eq_true.mp supported x listed
  simpa only [hook] using each

theorem attachProgram_there {id : ProgramId} {program : KernelProgram} (there : k.programs.get? id = some program)
    (attachable : program.hook.isAutoAttachable = true) (lsm : program.hook = .lsm → k.features.lsm = true) :
    k.attachProgram id =
      if k.rejects program.name then .error .accessDenied else .ok (k.addLink (.program id)) := by
  have admitted : k.admitted id = if k.rejects program.name then .error .accessDenied else .ok program := by
    rw [admitted, Kernel.program, there]
    rfl
  rw [attachProgram, admitted]
  cases k.rejects program.name with
  | true => rfl
  | false =>
    have able : ¬(program.hook = .lsm && !k.features.lsm) := by simpa using lsm
    simp only [Bool.false_eq_true, if_false, attachable, Bool.not_true, if_neg able]
    rfl

end Kernel

namespace Attach

/-- The attempts that are made for a list, each with the holdings and the kernel that it starts with. -/
def attempts {α : Type} (one : Holdings → Kernel → α → Attached Holding) (s : Holdings) (k : Kernel) :
    List α → List (α × Holdings × Kernel)
  | [] => []
  | a :: rest =>
    (a, s, k) ::
      match one s k a with
      | (.error _, _, _) => []
      | (.ok _, s, k) => attempts one s k rest

section Rest

variable {α : Type} {one : Holdings → Kernel → α → Attached Holding} {s s' : Holdings} {k' : Kernel} {a : α}
  {h : Holding}

theorem attempts_cons_ok (made : one s k a = (.ok h, s', k')) (rest : List α) :
    attempts one s k (a :: rest) = (a, s, k) :: attempts one s' k' rest := by
  rw [attempts, made]

theorem forEach_cons_ok (made : one s k a = (.ok h, s', k')) (rest : List α) :
    forEach one s k (a :: rest) =
      ((forEach one s' k' rest).1.map (h :: ·), (forEach one s' k' rest).2) := by
  rw [forEach, made]
  dsimp only
  rcases forEach one s' k' rest with ⟨e | hs, s₂, k₂⟩ <;> rfl

end Rest

def links (last : Nat) (entries : List EntryPoint) : List Holding :=
  (numbered .link last entries).map fun x => .link x.1 x.2.name

variable {id : ObjectId} {first : Nat}

theorem named_declared (offers : k.Offers id first m) (once : m.NamesOnce) (supported : k.supports m = true)
    {x : EntryPoint} (listed : x ∈ m.entryPoints) (attachable : x.hook.isAutoAttachable = true) (s : Holdings) :
    ∃ p, Extension.findProgram ⟨some id, m⟩ k x.name = .ok p ∧
      named ⟨some id, m⟩ s k x.name =
        if k.rejects x.name then (.error (.refused x.name .accessDenied), s, k)
        else (.ok (.link ⟨k.lastId + 1⟩ x.name), s.register (.link ⟨k.lastId + 1⟩ x.name),
          (k.addLink (.program p.id)).2) := by
  have found := Extension.findProgram_declared offers once x.name
  rw [Manifest.entryPoint?_of_mem once listed] at found
  obtain ⟨p, found⟩ := found
  obtain ⟨_, _, _, _, _, there⟩ := Extension.findProgram_made found
  have made := Kernel.attachProgram_there there attachable (Kernel.lsm_of_supports supported listed)
  have suited : (Hook.ofSection x.sectionName).isAutoAttachable = true := attachable
  refine ⟨_, found, ?_⟩
  simp only [named, found, program, suited, made]
  cases k.rejects x.name <;> rfl

theorem forEach_named (once : m.NamesOnce) {entries : List EntryPoint} (listed : entries ⊆ m.entryPoints)
    (attachable : ∀ x ∈ entries, x.hook.isAutoAttachable = true) (offers : k.Offers id first m)
    (supported : k.supports m = true) (s : Holdings) :
    let taken := entries.takeWhile (!k.rejects ·.name)
    let held := links k.lastId taken
    ∃ programs : List ProgramHandle,
      taken.map (fun x => Extension.findProgram ⟨some id, m⟩ k x.name) = programs.map .ok ∧
      attempts (named ⟨some id, m⟩) s k (entries.map (·.name)) =
        (entries.take (taken.length + 1)).zipIdx.map (fun (x, n) =>
          (x.name, ⟨s.items ++ held.take n⟩, k.linked ((programs.take n).map (·.id)))) ∧
      forEach (named ⟨some id, m⟩) s k (entries.map (·.name)) =
        (match entries.find? (k.rejects ·.name) with
          | none => .ok held
          | some refused => .error (.refused refused.name .accessDenied),
        ⟨s.items ++ held⟩, k.linked (programs.map (·.id))) := by
  induction entries generalizing k s with
  | nil => exact ⟨[], rfl, rfl, by simp [forEach, links, numbered, Kernel.linked]⟩
  | cons x rest ih =>
    obtain ⟨p, found, attempt⟩ := named_declared offers once supported (listed List.mem_cons_self)
      (attachable x List.mem_cons_self) s
    cases refused : k.rejects x.name with
    | true =>
      rw [refused, if_pos rfl] at attempt
      refine ⟨[], ?_, ?_, ?_⟩
      · simp [refused]
      · simp [refused, attempts, attempt, links, numbered, Kernel.linked]
      · simp [refused, forEach, attempt, links, numbered, Kernel.linked]
    | false =>
      rw [refused, if_neg Bool.false_ne_true] at attempt
      have taken : (x :: rest).takeWhile (!k.rejects ·.name) = x :: rest.takeWhile (!k.rejects ·.name) :=
        List.takeWhile_cons_of_pos (by rw [refused]; rfl)
      have found? : (x :: rest).find? (k.rejects ·.name) = rest.find? (k.rejects ·.name) :=
        List.find?_cons_of_neg (by rw [refused]; exact Bool.false_ne_true)
      have joins := Kernel.addLink_joins k (.program p.id)
      -- What is linked changes neither what is found nor what is refused, so the rest goes as it would have.
      have rejects : (k.addLink (.program p.id)).2.rejects = k.rejects := rfl
      obtain ⟨programs, handles, tried, result⟩ := ih (fun _ later => listed (List.mem_cons_of_mem _ later))
        (fun y later => attachable y (List.mem_cons_of_mem _ later)) (offers.join joins) supported
        (s.register (.link ⟨k.lastId + 1⟩ x.name))
      rw [rejects] at handles tried result
      refine ⟨p :: programs, ?_, ?_, ?_⟩
      · rw [taken, List.map_cons, found]
        exact congrArg _ handles
      · rw [List.map_cons, attempts_cons_ok attempt, tried, taken, List.length_cons, List.take_succ_cons,
          List.zipIdx_cons, List.map_cons, List.zipIdx_succ, List.map_map]
        simp only [Holdings.register, List.append_assoc, List.singleton_append]
        exact congrArg₂ List.cons (by rw [List.take_zero, List.take_zero, List.append_nil]; rfl) rfl
      · rw [List.map_cons, forEach_cons_ok attempt, result, taken, found?]
        simp only [Holdings.register, List.append_assoc, List.singleton_append]
        cases rest.find? (k.rejects ·.name) <;> rfl

/-- In a run in which an image is loaded, what its manifest marks is attached in the order of the declarations,
each held before the next is tried, up to the first that the kernel refuses. If something marked needs a target,
all that do are told, and nothing is attached. -/
theorem marked_programs_are_attached (cpus : Nat) (features : Features) (before later : List Kernel.Call)
    (fits : m.Fits) {image : Image} (native : Image.native m = .ok image) {e : Extension} {k : Kernel}
    (loaded : Extension.load ((Kernel.new cpus features).afterAll before) image = (.ok e, k))
    (kept : ∀ id, e.object = some id → .closeObject id ∉ later) (s : Holdings) :
    let now := k.afterAll later
    let entries := m.entryPoints.filter (·.autoAttach)
    let offenders := entries.filter (!·.hook.isAutoAttachable)
    let taken := entries.takeWhile (!now.rejects ·.name)
    let held := links now.lastId taken
    (offenders ≠ [] → marked e s now = (.error (.configuration
      ("auto-attach needs a kprobe, fentry, tracepoint, raw tracepoint or lsm section, "
        ++ "but these entry points have invalid sections: "
        ++ String.intercalate ", " (offenders.map fun x => x.name ++ " with section " ++ x.sectionName))), s, now)) ∧
    (offenders = [] → ∃ programs : List ProgramHandle,
      taken.map (fun x => e.findProgram now x.name) = programs.map .ok ∧
      attempts (named e) s now (entries.map (·.name)) =
        (entries.take (taken.length + 1)).zipIdx.map (fun (x, n) =>
          (x.name, ⟨s.items ++ held.take n⟩, now.linked ((programs.take n).map (·.id)))) ∧
      marked e s now =
        (match entries.find? (now.rejects ·.name) with
          | none => .ok held
          | some refused => .error (.refused refused.name .accessDenied),
        ⟨s.items ++ held⟩, now.linked (programs.map (·.id)))) := by
  intro now entries offenders taken held
  have issued := Kernel.new_issued cpus features
  have named : (Kernel.new cpus features).Named := fun _ _ there => by cases there
  obtain ⟨id, first, rfl, offers, issued', -, same, supported⟩ := Extension.load_offers
    (Kernel.afterAll_issued issued before) (Kernel.afterAll_named issued named before) fits native loaded
  have offers := Kernel.afterAll_offers issued' offers (kept id rfl)
  have supported : now.supports m = true := by
    rw [← supported, Kernel.supports, Kernel.supports, Kernel.afterAll_features, same]
  refine ⟨fun some => ?_, fun none => ?_⟩
  · have told : m.autoAttached = .error (.notAutoAttachable offenders) := if_neg (mt List.isEmpty_iff.mp some)
    rw [marked, told]
    rfl
  · have told : m.autoAttached = .ok entries := if_pos (List.isEmpty_iff.mpr none)
    have attachable : ∀ x ∈ entries, x.hook.isAutoAttachable = true := by
      simpa using List.filter_eq_nil_iff.mp none
    rw [marked, told]
    exact forEach_named (Image.once_of_native native) (List.filter_subset_self _) attachable offers supported s

def traced : Manifest :=
  ⟨"traced", "GPL", [⟨"wake", "tp_btf/sched_wakeup", true⟩, ⟨"gate", "xdp", false⟩, ⟨"open", "lsm/file_open", true⟩,
    ⟨"exit", "fexit/do_exit", true⟩, ⟨"fork", "kprobe/fork", true⟩], [], ∅⟩

theorem traced_fits : traced.Fits where
  name := by decide
  license := by decide
  entryPoints := by decide
  maps := by decide
  properties := by decide
  ordered := Table.ofList_ordered []

/-- The third of four is refused: the first two are held, and the fourth is not tried. -/
theorem marked_programs_are_attached_up_to_refusal :
    let k := Kernel.new 1 {}
    let later : List Kernel.Call := [.inject (.program "exit")]
    let held : List Holding := [.link ⟨7⟩ "wake", .link ⟨8⟩ "open"]
    ∃ image e k', Image.native traced = .ok image ∧ Extension.load k image = (.ok e, k') ∧
      (marked e .empty (k'.afterAll later)).1 = .error (.refused "exit" .accessDenied) ∧
      (marked e .empty (k'.afterAll later)).2.1 = ⟨held⟩ ∧
      (attempts (named e) .empty (k'.afterAll later) ["wake", "open", "exit", "fork"]).map (fun x => (x.1, x.2.1)) =
        [("wake", ⟨[]⟩), ("open", ⟨held.take 1⟩), ("exit", ⟨held⟩)] := by
  intro k later held
  have native := Image.native_of_once (m := traced) (by decide)
  have object : (Extension.load k ⟨traced, Image.encode traced⟩).1.toOption.bind (·.object) = some ⟨1⟩ := by
    decide +kernel
  have now : (Extension.load k ⟨traced, Image.encode traced⟩).2.lastId = 6 ∧
      (Extension.load k ⟨traced, Image.encode traced⟩).2.faults.rejectedPrograms = [] := by
    decide +kernel
  rcases loaded : Extension.load k ⟨traced, Image.encode traced⟩ with ⟨failure | e, k'⟩
  · rw [loaded] at object
    cases object
  · rw [loaded] at object now
    have object : e.object = some ⟨1⟩ := object
    have kept : ∀ id, e.object = some id → .closeObject id ∉ later := fun id same => by
      cases object.symm.trans same
      simp [later]
    obtain ⟨-, attached⟩ := marked_programs_are_attached 1 {} [] later traced_fits native loaded kept .empty
    obtain ⟨programs, -, tried, result⟩ := attached (by decide)
    have rejects : (k'.afterAll later).rejects = fun name => ["exit"].contains name := by
      funext name
      exact congrArg (fun names => List.contains ("exit" :: names) name) now.2
    have lastId : (k'.afterAll later).lastId = 6 := now.1
    rw [rejects, lastId] at tried result
    refine ⟨_, e, k', native, loaded, ?_, ?_, ?_⟩
    · rw [result]
      rfl
    · rw [result]
      rfl
    · refine (congrArg _ tried).trans ?_
      rw [List.map_map]
      rfl

end Attach

end LoadableSched
