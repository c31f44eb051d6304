import LoadableSched.Proofs.Host.Isolation
import LoadableSched.Proofs.Session.Detaching

/-!
Disciplines of interfaces. A session makes one wherever it sets out to attach a classifier, but it holds no
more than the filter, so that nothing that it gives back takes the discipline along.
-/

namespace LoadableSched

variable {s : Session} {holdings : Holdings} {k k' k'' : Kernel} {α : Type}

namespace Kernel

structure Bypasses (k k' : Kernel) : Prop where
  interfaces : k'.interfaces = k.interfaces
  qdiscs : k'.qdiscs = k.qdiscs

theorem Bypasses.refl (k : Kernel) : k.Bypasses k := ⟨rfl, rfl⟩

theorem Bypasses.trans (first : k.Bypasses k') (later : k'.Bypasses k'') : k.Bypasses k'' :=
  ⟨later.interfaces.trans first.interfaces, later.qdiscs.trans first.qdiscs⟩

structure Furnished (k k' : Kernel) (new : IfIndex → Prop) : Prop where
  interfaces : k'.interfaces = k.interfaces
  made : ∀ i ∈ k'.qdiscs, i ∈ k.qdiscs ∨ new i
  stays : ∀ i ∈ k.interfaces, i ∈ k.qdiscs ∨ new i → i ∈ k'.qdiscs

theorem Bypasses.furnished {new : IfIndex → Prop} (bypasses : k.Bypasses k') (none : ∀ i, ¬ new i) :
    k.Furnished k' new where
  interfaces := bypasses.interfaces
  made _ there := .inl (bypasses.qdiscs ▸ there)
  stays i _ there := bypasses.qdiscs.symm ▸ there.resolve_right (none i)

theorem Furnished.bypassed {new : IfIndex → Prop} (furnished : k.Furnished k' new)
    (later : k'.Bypasses k'') : k.Furnished k'' new where
  interfaces := later.interfaces.trans furnished.interfaces
  made i there := furnished.made i (later.qdiscs ▸ there)
  stays i known there := later.qdiscs.symm ▸ furnished.stays i known there

theorem closeObject_bypasses {id : ObjectId} (made : k.closeObject id = .ok k') : k.Bypasses k' := by
  unfold closeObject at made
  split at made
  · cases made
  · cases Except.ok.inj made
    exact ⟨rfl, rfl⟩

theorem addPrograms_bypasses (k : Kernel) (names : Table String ProgramId) (entries : List EntryPoint) :
    k.Bypasses (k.addPrograms names entries).2 := by
  induction entries generalizing k names with
  | nil => exact .refl k
  | cons e rest ih =>
    refine Bypasses.trans ?_ (ih _ _)
    exact ⟨rfl, rfl⟩

theorem addMaps_bypasses (k : Kernel) (names : Table String MapId) (specs : List MapSpec) :
    k.Bypasses (k.addMaps names specs).2 := by
  induction specs generalizing k names with
  | nil => exact .refl k
  | cons spec rest ih =>
    refine Bypasses.trans ?_ (ih _ _)
    exact ⟨rfl, rfl⟩

theorem openObject_bypasses (k : Kernel) (content : FileContent) :
    k.Bypasses (k.openObject content).2 := by
  rcases outcome : k.openObject content with ⟨e | object, k'⟩
  · cases openObject_refused outcome
    exact ⟨rfl, rfl⟩
  · obtain ⟨_, _, _, _, _, rfl⟩ := openObject_made outcome
    exact ⟨rfl, rfl⟩

theorem loadObject_bypasses (k : Kernel) (id : ObjectId) : k.Bypasses (k.loadObject id).2 := by
  unfold loadObject
  split
  · exact ⟨rfl, rfl⟩
  · split
    · exact .refl k
    · rename_i object _
      split
      · exact .refl k
      · split
        · exact .refl k
        · have programs := k.addPrograms_bypasses ∅ object.manifest.entryPoints
          exact (programs.trans (addMaps_bypasses _ ∅ object.manifest.maps)).trans ⟨rfl, rfl⟩

end Kernel

theorem Extension.load_bypasses (k : Kernel) (image : Image) : k.Bypasses (Extension.load k image).2 := by
  have first := k.openObject_bypasses (.bytes image.bytes)
  unfold Extension.load
  dsimp only
  generalize k.openObject (.bytes image.bytes) = opened at first
  rcases opened with ⟨e | object, k₁⟩
  · exact first
  · have second := first.trans (k₁.loadObject_bypasses object)
    dsimp only at second ⊢
    generalize k₁.loadObject object = loaded at second
    rcases loaded with ⟨e | _, k₂⟩
    · cases closed : k₂.closeObject object with
      | error e => simpa [closed, Except.toOption] using second
      | ok k₃ =>
        simpa [closed, Except.toOption] using second.trans (Kernel.closeObject_bypasses closed)
    · exact second

theorem Holding.releaseIn_bypasses {h : Holding} (made : h.releaseIn k = .ok k') : k.Bypasses k' := by
  rw [releaseIn_frame made]
  exact ⟨rfl, rfl⟩

theorem Belonging.release_bypasses {b : Belonging} (made : b.release k = .ok k') : k.Bypasses k' := by
  cases b with
  | holding h => exact Holding.releaseIn_bypasses (holding_release made)
  | extension e =>
    obtain ⟨_, rfl⟩ | ⟨_, _, closed⟩ := extension_release made
    · exact .refl _
    · exact Kernel.closeObject_bypasses closed

namespace Attach

/-! The protocols. -/

theorem forEach_bypasses {one : Holdings → Kernel → α → Attached Holding}
    (each : ∀ s k a, Kernel.Bypasses k (one s k a).2.2) (s : Holdings) (k : Kernel) (as : List α) :
    k.Bypasses (forEach one s k as).2.2 := by
  induction as generalizing s k with
  | nil => exact .refl k
  | cons a rest ih =>
    have first := each s k a
    unfold forEach
    generalize one s k a = result at first
    rcases result with ⟨_ | h, s₁, k₁⟩
    · exact first
    · have both := first.trans (ih s₁ k₁)
      dsimp only at both ⊢
      generalize forEach one s₁ k₁ rest = result at both
      rcases result with ⟨_ | hs, s₂, k₂⟩ <;> exact both

theorem program_bypasses (s : Holdings) (k : Kernel) (p : ProgramHandle) :
    k.Bypasses (program s k p).2.2 := by
  unfold program
  split
  · exact .refl k
  · split
    · exact .refl k
    · rename_i made
      cases Kernel.attachProgram_made made
      exact ⟨rfl, rfl⟩

theorem named_bypasses (e : Extension) (s : Holdings) (k : Kernel) (name : String) :
    k.Bypasses (named e s k name).2.2 := by
  unfold named
  split
  · exact .refl k
  · exact program_bypasses s k _

theorem marked_bypasses (e : Extension) (s : Holdings) (k : Kernel) :
    k.Bypasses (marked e s k).2.2 := by
  unfold marked
  split
  · exact .refl k
  · exact forEach_bypasses (named_bypasses e) s k _

theorem allLsm_bypasses (e : Extension) (s : Holdings) (k : Kernel) :
    k.Bypasses (allLsm e s k).2.2 := by
  refine forEach_bypasses (fun s k name => ?_) s k _
  unfold lsmNamed lsm
  split
  · exact .refl k
  · split
    · exact .refl k
    · exact program_bypasses s k _

theorem giveBack_bypasses (s : Holdings) (k : Kernel) (h : Holding) :
    k.Bypasses ((s.detach k h).toOption.getD (s, k)).2 := by
  cases given : s.detach k h with
  | error failure => exact .refl k
  | ok after =>
    obtain ⟨_, released, _⟩ := Holdings.detach_made given
    exact Holding.releaseIn_bypasses released

theorem cgroupOnce_bypasses (host : HostSettings) (s : Holdings) (k : Kernel) (p : ProgramHandle)
    (name : String) : k.Bypasses (cgroupOnce host s k p name).2.2 := by
  unfold cgroupOnce
  split
  · exact .refl k
  · split
    · exact .refl k
    · rename_i fd k₁ opened
      cases Kernel.openDirectory_made opened
      dsimp only
      split
      · rename_i made
        cases Kernel.attachCgroup_made made
        exact ⟨rfl, rfl⟩
      · rename_i k₂ refused
        obtain ⟨count, rfl⟩ := Kernel.attachCgroup_counted refused
        refine Kernel.Bypasses.trans ?_ (giveBack_bypasses _ _ _)
        exact ⟨rfl, rfl⟩

theorem cgroupRetrying_bypasses (host : HostSettings) (p : ProgramHandle) (name : String) (retries : Nat)
    (s : Holdings) (k : Kernel) : k.Bypasses (cgroupRetrying host p name retries s k).2.2 := by
  induction retries generalizing s k with
  | zero => exact cgroupOnce_bypasses host s k p name
  | succ retries ih =>
    have first := cgroupOnce_bypasses host s k p name
    unfold cgroupRetrying
    generalize cgroupOnce host s k p name = result at first
    rcases result with ⟨_ | h, s₁, k₁⟩
    · exact first.trans (ih s₁ k₁)
    · exact first

theorem cgroup_bypasses (host : HostSettings) (s : Holdings) (k : Kernel) (p : ProgramHandle)
    (name : String) : k.Bypasses (cgroup host s k p name).2.2 := by
  unfold cgroup
  split
  · exact .refl k
  · exact cgroupRetrying_bypasses host p name _ s k

theorem xdp_bypasses (s : Holdings) (k : Kernel) (p : ProgramHandle) (ifindexes : List IfIndex) :
    k.Bypasses (xdp s k p ifindexes).2.2 := by
  refine forEach_bypasses (fun s k ifindex => ?_) s k ifindexes
  unfold xdpOne
  split
  · exact .refl k
  · rename_i made
    obtain ⟨_, rfl⟩ := Kernel.attachXdp_made made
    exact ⟨rfl, rfl⟩

theorem structOps_bypasses (e : Extension) (s : Holdings) (k : Kernel) (map : String)
    (policy : Policy Memory) : k.Bypasses (structOps e s k map policy).2.2 := by
  rcases structOps_cases e s k map policy with
    ⟨failure, failed, _⟩ | ⟨failure, id, errno, k', failed, refused⟩ | ⟨id, link, name, k', made, bound⟩
  · rw [failed]
    exact .refl k
  · rw [failed]
    rcases Kernel.attachStructOps_refused refused with rfl | ⟨_, _, rfl⟩ <;> exact ⟨rfl, rfl⟩
  · rw [bound]
    cases (Kernel.attachStructOps_made made).2
    exact ⟨rfl, rfl⟩

theorem filterOn_bypasses (s : Holdings) (k : Kernel) (p : ProgramHandle) (side : Side)
    (target : String) : k.Bypasses (filterOn s k p side target).2.2 := by
  unfold filterOn
  split
  · exact .refl k
  · rename_i made
    obtain ⟨_, _, rfl⟩ := Kernel.attachFilter_made made
    exact ⟨rfl, rfl⟩

theorem cleared_disciplines (s : Holdings) (k : Kernel) (ifindex : IfIndex) :
    let cleared := if holdsFilterOn s ifindex then k else (k.destroyQdisc ifindex).toOption.getD k
    cleared.interfaces = k.interfaces ∧ (∀ i ∈ cleared.qdiscs, i ∈ k.qdiscs) ∧
      ∀ i ∈ k.qdiscs, i ≠ ifindex → i ∈ cleared.qdiscs := by
  intro cleared
  have same : cleared = k ∨ k.destroyQdisc ifindex = .ok cleared := by
    by_cases held : holdsFilterOn s ifindex = true
    · exact .inl (if_pos held)
    · have cleared_eq : cleared = (k.destroyQdisc ifindex).toOption.getD k := if_neg held
      rw [cleared_eq]
      cases k.destroyQdisc ifindex with
      | error e => exact .inl rfl
      | ok k' => exact .inr rfl
  rcases same with same | made
  · rw [same]
    exact ⟨rfl, fun _ => id, fun _ there _ => there⟩
  · rw [(Kernel.destroyQdisc_made made).2]
    exact ⟨rfl, fun _ => List.mem_of_mem_erase, fun _ there other => (List.mem_erase_of_ne other).mpr there⟩

theorem filter_furnishes (s : Holdings) (k : Kernel) (p : ProgramHandle) (side : Side) :
    k.Furnished (filter s k p side).2.2 fun i => i = side.ifindex ∧ i ∈ k.interfaces := by
  obtain ⟨interfaces, fewer, others⟩ := cleared_disciplines s k side.ifindex
  unfold filter
  dsimp only
  generalize (if holdsFilterOn s side.ifindex then k
    else (k.destroyQdisc side.ifindex).toOption.getD k) = k₁ at interfaces fewer others
  -- What the discipline is made on is what is left of the kernel once the old one is gone.
  have made_on (k₂ : Kernel) (same : k₂.interfaces = k₁.interfaces) (there : side.ifindex ∈ k₁.interfaces)
      (qdiscs : ∀ i, i ∈ k₂.qdiscs ↔ i ∈ k₁.qdiscs ∨ i = side.ifindex) :
      k.Furnished k₂ fun i => i = side.ifindex ∧ i ∈ k.interfaces := by
    refine ⟨same.trans interfaces, fun i present => ?_, fun i _ present => ?_⟩
    · rcases (qdiscs i).mp present with before | rfl
      · exact .inl (fewer i before)
      · exact .inr ⟨rfl, interfaces ▸ there⟩
    · by_cases here : i = side.ifindex
      · exact (qdiscs i).mpr (.inr here)
      · exact (qdiscs i).mpr (.inl (others i (present.resolve_right fun new => here new.1) here))
  unfold Kernel.createQdisc
  by_cases there : side.ifindex ∈ k₁.interfaces
  · by_cases before : side.ifindex ∈ k₁.qdiscs
    · simp only [List.contains_iff_mem.mpr there, List.contains_iff_mem.mpr before, Bool.not_true,
        Bool.false_eq_true, if_false, if_true]
      refine (made_on k₁ rfl there fun i => ?_).bypassed (filterOn_bypasses ..)
      exact ⟨.inl, fun present => present.elim id fun here => here ▸ before⟩
    · have absent : k₁.qdiscs.contains side.ifindex = false := by simpa using before
      simp only [List.contains_iff_mem.mpr there, absent, Bool.not_true, Bool.false_eq_true, if_false]
      refine (made_on { k₁ with qdiscs := k₁.qdiscs ++ [side.ifindex] } rfl there fun i => ?_).bypassed
        (filterOn_bypasses ..)
      simp
  · have missing : k₁.interfaces.contains side.ifindex = false := by simpa using there
    simp only [missing, Bool.not_false, if_true]
    refine ⟨interfaces, fun i present => .inl (fewer i present), fun i known present => ?_⟩
    have other : i ≠ side.ifindex := fun here => there (interfaces ▸ here ▸ known)
    exact others i (present.resolve_right fun new => other new.1) other

end Attach

namespace Session

/-! Events. -/

theorem close_bypasses (s : Session) (k : Kernel) : k.Bypasses (s.close k).2.2 := by
  by_cases closed : s.state = .closed
  · rw [close_closed closed k]
    exact .refl k
  · rw [close_eq closed k]
    exact Belonging.attempts_keep (P := fun k' => k.Bypasses k')
      (fun b _ k₁ k₂ made before => before.trans (Belonging.release_bypasses made)) (.refl k)

theorem load_bypasses (s : Session) (k : Kernel) (image : Image) : k.Bypasses (s.load k image).2.2 := by
  have loaded := Extension.load_bypasses k image
  unfold load
  split
  · exact .refl k
  · generalize Extension.load k image = result at loaded
    rcases result with ⟨failure | e, k'⟩
    · exact loaded.trans (close_bypasses s k')
    · exact loaded

theorem attached_bypasses (s : Session) (result : Attached α) :
    result.2.2.Bypasses (s.attached result).2.2 := by
  obtain ⟨_ | value, holdings, k'⟩ := result
  · exact close_bypasses _ k'
  · exact .refl k'

theorem attachWith_bypasses (s : Session) (k : Kernel)
    (work : Extension → Holdings → Kernel → Attached α)
    (bypasses : ∀ e, k.Bypasses (work e s.holdings k).2.2) : k.Bypasses (s.attachWith k work).2.2 := by
  unfold attachWith
  split
  · exact .refl k
  · split
    · exact close_bypasses s k
    · exact (bypasses _).trans (attached_bypasses ..)

theorem attachProgramWith_bypasses (s : Session) (k : Kernel) (name : String)
    (work : ProgramHandle → Holdings → Kernel → Attached α)
    (bypasses : ∀ p, k.Bypasses (work p s.holdings k).2.2) :
    k.Bypasses (s.attachProgramWith k name work).2.2 := by
  refine attachWith_bypasses s k _ fun e => ?_
  split
  · exact .refl k
  · exact bypasses _

theorem attachScheduler_bypasses (s : Session) (k : Kernel) (shipped : Shipped) :
    k.Bypasses (s.attachScheduler k shipped).2.2 := by
  unfold attachScheduler
  split
  · exact .refl k
  · split
    · exact .refl k
    · obtain ⟨_, memory, same⟩ := schedulerMaps_moves (fun _ => True) s k
      generalize s.schedulerMaps k = result at same
      obtain ⟨_ | maps, s₁, k₁⟩ := result
      · dsimp only at same ⊢
        rw [same]
        exact ⟨rfl, rfl⟩
      · dsimp only at same ⊢
        subst same
        generalize shipped.build s₁.tunables maps (k.setMemory memory).memory = built
        obtain ⟨policy, memory'⟩ := built
        have ready : k.Bypasses ((k.setMemory memory).setMemory memory'.newCounters.2) := ⟨rfl, rfl⟩
        have bound := attachWith_bypasses s₁ ((k.setMemory memory).setMemory memory'.newCounters.2)
          (fun e holdings k => Attach.structOps e holdings k shipped.opsMap policy)
          fun e => Attach.structOps_bypasses e _ _ _ policy
        dsimp only at bound ⊢
        generalize s₁.attachWith ((k.setMemory memory).setMemory memory'.newCounters.2)
          (fun e holdings k => Attach.structOps e holdings k shipped.opsMap policy) = result at bound ⊢
        have all : k.Bypasses result.2.2 := ready.trans bound
        obtain ⟨_ | holding, s₂, k₂⟩ := result <;> exact all

theorem detach_bypasses (s : Session) (k : Kernel) (h : Holding) : k.Bypasses (s.detach k h).2.2 := by
  unfold detach
  split
  · exact .refl k
  · split
    · exact .refl k
    · rename_i made
      exact Holding.releaseIn_bypasses (Holdings.detach_made made).2.1

theorem report_bypasses (s : Session) (k : Kernel) : k.Bypasses (s.report k).2 := by
  unfold report
  split
  · exact .refl k
  · split
    · exact ⟨rfl, rfl⟩
    · exact .refl k

theorem run_bypasses (s : Session) (k : Kernel) : k.Bypasses (s.run k).2.2 := by
  unfold run
  split
  · exact .refl k
  · exact close_bypasses _ k

/-- Whether an event makes a discipline on an interface: another tool leaves one there, or the session sets
out to attach a program of its extension. -/
def Furnishes (s : Session) (k : Kernel) : Event → IfIndex → Prop
  | .inject (.staleQdisc ifindex), i => i = ifindex
  | .attachFilter name side, i => i = side.ifindex ∧ i ∈ k.interfaces ∧ s.state.canAttach = true ∧
      ∃ e p, s.extension = some e ∧ e.findProgram k name = .ok p
  | _, _ => False

theorem attachFilter_furnishes (s : Session) (k : Kernel) (name : String) (side : Side) :
    k.Furnished (s.attachFilter k name side).2.2 (s.Furnishes k (.attachFilter name side)) := by
  by_cases able : s.state.canAttach = true
  · cases loaded : s.extension with
    | none =>
      have same : s.attachFilter k name side =
          s.closeAfter k (.illegalState ("session " ++ s.id ++ " has no extension")) := by
        simp [attachFilter, attachProgramWith, attachWith, able, liveExtension, loaded]
      rw [same]
      exact (close_bypasses s k).furnished fun i => by simp [Furnishes, loaded]
    | some e =>
      cases found : e.findProgram k name with
      | error failure =>
        have same : s.attachFilter k name side = s.attached (.error failure, s.holdings, k) := by
          simp [attachFilter, attachProgramWith, attachWith, able, liveExtension, loaded, found]
        rw [same]
        exact (attached_bypasses s (.error failure, s.holdings, k)).furnished fun i => by
          simp [Furnishes, loaded, found]
      | ok p =>
        have same : s.attachFilter k name side = s.attached (Attach.filter s.holdings k p side) := by
          simp [attachFilter, attachProgramWith, attachWith, able, liveExtension, loaded, found]
        have new : s.Furnishes k (.attachFilter name side) =
            fun i => i = side.ifindex ∧ i ∈ k.interfaces := by
          funext i
          simp [Furnishes, able, loaded, found]
        rw [same, new]
        exact (Attach.filter_furnishes s.holdings k p side).bypassed (attached_bypasses s _)
  · have same : s.attachFilter k name side = (.error (s.wrongState "attach"), s, k) := by
      simp [attachFilter, attachProgramWith, attachWith, able]
    rw [same]
    exact (Kernel.Bypasses.refl k).furnished fun i => by simp [Furnishes, able]

theorem after_furnished (s : Session) (k : Kernel) (event : Event) :
    k.Furnished (s.after k event).2 (s.Furnishes k event) := by
  cases event with
  | attachFilter name side => exact attachFilter_furnishes s k name side
  | inject injection =>
    cases injection with
    | staleQdisc ifindex =>
      simp only [after, Kernel.inject]
      split
      · rename_i before
        refine ⟨rfl, fun i there => .inl there, fun i _ there => there.elim (fun there => there) ?_⟩
        rintro rfl
        exact List.contains_iff_mem.mp before
      · exact ⟨rfl, fun i there => by simpa [Furnishes] using there, fun i _ there => by
          simpa [Furnishes] using there⟩
    | cgroupAttaches | program | xdpDetach | linkDestroy | qdiscCleanup | nextLoad | clear =>
      exact Kernel.Bypasses.furnished ⟨rfl, rfl⟩ fun _ no => no
  | load image => exact (load_bypasses s k image).furnished fun _ no => no
  | attachScheduler shipped => exact (attachScheduler_bypasses s k shipped).furnished fun _ no => no
  | attach name =>
    exact (attachProgramWith_bypasses s k name _ fun p => Attach.program_bypasses ..).furnished fun _ no => no
  | autoAttach =>
    exact (attachWith_bypasses s k _ fun e => Attach.marked_bypasses ..).furnished fun _ no => no
  | attachLsm =>
    exact (attachWith_bypasses s k _ fun e => Attach.allLsm_bypasses ..).furnished fun _ no => no
  | attachCgroup name cgroup =>
    exact (attachProgramWith_bypasses s k name _ fun p => Attach.cgroup_bypasses ..).furnished fun _ no => no
  | attachXdp name ifindexes =>
    exact (attachProgramWith_bypasses s k name _ fun p => Attach.xdp_bypasses ..).furnished fun _ no => no
  | detach h => exact (detach_bypasses s k h).furnished fun _ no => no
  | run => exact (run_bypasses s k).furnished fun _ no => no
  | report => exact (report_bypasses s k).furnished fun _ no => no
  | close => exact (close_bypasses s k).furnished fun _ no => no
  | program | map | start | files | workload => exact Kernel.Bypasses.furnished ⟨rfl, rfl⟩ fun _ no => no

/-! Runs. -/

def FurnishesIn (s : Session) (k : Kernel) (events : List Event) (i : IfIndex) : Prop :=
  ∃ early event late, events = early ++ event :: late ∧
    (s.afterAll k early).1.Furnishes (s.afterAll k early).2 event i

theorem furnishesIn_cons {event : Event} {rest : List Event} {i : IfIndex} :
    s.FurnishesIn k (event :: rest) i ↔
      s.Furnishes k event i ∨ (s.after k event).1.FurnishesIn (s.after k event).2 rest i := by
  constructor
  · rintro ⟨early, e, late, split, furnishes⟩
    cases early with
    | nil =>
      cases split
      exact .inl furnishes
    | cons first early =>
      obtain ⟨rfl, rfl⟩ := List.cons.inj split
      exact .inr ⟨early, e, late, rfl, furnishes⟩
  · rintro (furnishes | ⟨early, e, late, rfl, furnishes⟩)
    · exact ⟨[], event, rest, rfl, furnishes⟩
    · exact ⟨event :: early, e, late, rfl, furnishes⟩

theorem afterAll_furnished (s : Session) (k : Kernel) (events : List Event) :
    k.Furnished (s.afterAll k events).2 (s.FurnishesIn k events) := by
  induction events generalizing s k with
  | nil =>
    refine (Kernel.Bypasses.refl k).furnished ?_
    rintro i ⟨_ | _, _, _, ⟨⟩, _⟩
  | cons event rest ih =>
    have first := after_furnished s k event
    have later := ih (s.after k event).1 (s.after k event).2
    refine ⟨later.interfaces.trans first.interfaces, fun i there => ?_, fun i known there => ?_⟩
    · rw [furnishesIn_cons, ← or_assoc]
      exact (later.made i there).imp_left (first.made i)
    · rw [furnishesIn_cons, ← or_assoc] at there
      exact later.stays i (first.interfaces ▸ known) (there.imp_left (first.stays i known))

/-- An interface has a discipline after a run, whether the session is closed by then or not, exactly if one
was made on it at some point of the run. To detach a filter and to close the session leaves all disciplines
where they are. -/
theorem disciplines_outlast_sessions (cpus : Nat) (features : Features) (interfaces : List IfIndex)
    (files : FileTree) (settings : HostSettings) (id : String) (t : Tunables) (events : List Event)
    (i : IfIndex) :
    let h := Host.new cpus features interfaces files settings
    let start := h.newSession id t
    let now := start.afterAll h.kernel events
    h.kernel.qdiscs = [] ∧
      (i ∈ h.kernel.interfaces → (i ∈ now.2.qdiscs ↔ start.FurnishesIn h.kernel events i)) ∧
      (∀ holding, (now.1.detach now.2 holding).2.2.qdiscs = now.2.qdiscs) ∧
      (now.1.close now.2).2.2.qdiscs = now.2.qdiscs := by
  intro h start now
  have furnished : h.kernel.Furnished now.2 (start.FurnishesIn h.kernel events) :=
    afterAll_furnished start h.kernel events
  have bare : h.kernel.qdiscs = [] := rfl
  refine ⟨bare, fun known => ⟨fun there => ?_, fun made => furnished.stays i known (.inr made)⟩,
    fun holding => (detach_bypasses now.1 now.2 holding).qdiscs, (close_bypasses now.1 now.2).qdiscs⟩
  refine (furnished.made i there).resolve_left ?_
  rw [bare]
  exact List.not_mem_nil

/-- A session attaches one classifier and is closed without a failure, but the discipline that it made for
that stays on the interface. -/
theorem discipline_is_left_behind :
    let h := Host.new 1 {} [2] .standard .default
    let events : List Event := [.load Host.classifierImage, .attachFilter "classify" ⟨2, .ingress⟩]
    let now := (h.newSession "sorting" .default).afterAll h.kernel events
    2 ∉ h.kernel.qdiscs ∧ now.2.faults = {} ∧
      now.1.holdings.items = [.filter ⟨2⟩ ⟨2, .ingress⟩ 1] ∧
      (now.1.close now.2).1.isOk = true ∧ (now.1.close now.2).2.1.state = .closed ∧
      (now.1.close now.2).2.2.occupant? (.filter ⟨2, .ingress⟩) = none ∧
      2 ∈ (now.1.close now.2).2.2.qdiscs := by
  decide +kernel

end Session

end LoadableSched
