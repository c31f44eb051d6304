import LoadableSched.Proofs.Session.Unbinding

/-!
Attachments that fail. Whatever a session attaches, a failure closes it, and of what it held only what the
kernel refuses to give up is left. One way out is before that: where an extension declares a policy's map
in another shape, the session is refused a scheduler and stays as it was.
-/

namespace LoadableSched

variable {own : ProgramId → Prop} {may : IfIndex → Prop} {k k' k₁ : Kernel}

/-! What is held stays held until it is gone. -/

def Holdings.Covers (s : Holdings) (k : Kernel) (a : Resource) : Prop :=
  (∃ h ∈ s.items, h.resource? = some a) ∨ k.occupant? a = none

theorem Act.covers {s s' : Holdings} {a : Resource} (numbered : k.Numbered)
    (act : Act own may (s, k) (s', k')) (covers : s.Covers k a) : s'.Covers k' a := by
  cases act.effect numbered with
  | takes takes is fits runs other =>
    rename_i h b v
    by_cases same : b = a
    · exact .inl ⟨h, Holdings.mem_register.mpr (.inr rfl), same ▸ is⟩
    · rcases covers with ⟨old, member, there⟩ | empty
      · exact .inl ⟨old, Holdings.mem_register.mpr (.inl member), there⟩
      · right
        rw [takes.occupant, if_neg (by simpa using same)]
        exact empty
  | rests rests => exact covers.imp_right (rests.occupant a).trans
  | gives member made other =>
    rename_i h
    have cleared := (Holding.releaseIn_clears made).occupant a
    by_cases here : h.resource? = some a
    · exact .inr (cleared.trans (if_pos here))
    · rcases covers with ⟨old, member, there⟩ | empty
      · have different : old ≠ h := by
          rintro rfl
          exact here there
        exact .inl ⟨old, Holdings.mem_eraseLast_of_ne different member, there⟩
      · right
        rw [cleared, if_neg here]
        exact empty
  | clears unheld allowed made =>
    refine covers.imp_right fun empty => ?_
    rw [Kernel.destroyQdisc_occupant made fun _ _ _ => empty]
    exact empty

theorem Act.refuses {s s' : Holdings} (numbered : k.Numbered) (act : Act own may (s, k) (s', k')) :
    k'.refuses = k.refuses := by
  cases act.effect numbered with
  | takes takes => exact takes.refuses
  | rests rests => exact rests.refuses
  | gives member made => exact (Holding.releaseIn_clears made).refuses
  | clears unheld allowed made =>
    obtain ⟨_, rfl⟩ := Kernel.destroyQdisc_made made
    rfl

theorem Acts.covers {x y : Holdings × Kernel} (orderly : x.2.Orderly) (acts : Acts own may x y) :
    y.2.Orderly ∧ y.2.refuses = x.2.refuses ∧ ∀ a, x.1.Covers x.2 a → y.1.Covers y.2 a := by
  induction acts with
  | refl => exact ⟨orderly, rfl, fun _ there => there⟩
  | tail _ act ih =>
    obtain ⟨before, refuses, covers⟩ := ih
    exact ⟨before.act act, (act.refuses before.numbered).trans refuses,
      fun a there => act.covers before.numbered (covers a there)⟩

namespace Session

variable {s : Session} {α : Type}

/-- A session was closed: it has nothing any more, its object is gone, and so is what it held and the
scheduler with it, unless the kernel refuses to give something up. -/
structure Aborted (s : Session) (k : Kernel) (after : Session × Kernel) : Prop where
  session : after.1 = s.emptied
  object : ∀ e id, s.extension = some e → e.object = some id → after.2.objects.contains id = false
  places : ∀ h ∈ s.holdings.items, ∀ a, h.resource? = some a →
    after.2.occupant? a = none ∨ k.refuses a = true
  policy : after.2.sched.policy = none ∨ after.2.sched.policy = k.sched.policy ∧
    ∀ id map, .structOps id map ∈ s.holdings.items → k.Binds id → k.refuses (.link id) = true

structure Keeps (s : Session) (k : Kernel) (holdings : Holdings) (k₁ : Kernel) : Prop where
  unbinds : k.Unbinds k₁
  refuses : k₁.refuses = k.refuses
  covers : ∀ h ∈ s.holdings.items, ∀ a, h.resource? = some a → holdings.Covers k₁ a

theorem Keeps.refl (s : Session) (k : Kernel) : s.Keeps k s.holdings k :=
  ⟨.refl k, rfl, fun h member _ is => .inl ⟨h, member, is⟩⟩

theorem Keeps.of_acts {e : Extension} {after : Holdings × Kernel} (orderly : k.Orderly)
    (loaded : s.extension = some e) (acts : Acts (e.OwnsProgram k) may (s.holdings, k) after) :
    s.Keeps k after.1 after.2 := by
  obtain ⟨_, refuses, covers⟩ := acts.covers orderly
  exact ⟨(acts_moves loaded acts).unbinds orderly, refuses,
    fun h member a is => covers a (.inl ⟨h, member, is⟩)⟩

theorem Keeps.refused {map : MapId} {policy : Policy Memory} {errno : Errno}
    (refused : k.attachStructOps map policy = (.error errno, k₁)) : s.Keeps k s.holdings k₁ := by
  refine ⟨.refused refused, ?_, fun h member _ is => .inl ⟨h, member, is⟩⟩
  rcases Kernel.attachStructOps_refused refused with rfl | ⟨_, _, rfl⟩ <;> rfl

theorem Keeps.aborted {holdings : Holdings} (keeps : s.Keeps k holdings k₁)
    (unclosed : s.state ≠ .closed) : s.Aborted k (({ s with holdings } : Session).close k₁).2 := by
  let late : Session := { s with holdings }
  have places : ∀ h ∈ s.holdings.items, ∀ a, h.resource? = some a →
      (Belonging.attempts k₁ late.due).2.occupant? a = none ∨ k.refuses a = true := by
    intro h member a is
    rcases keeps.covers h member a is with ⟨held, there, is'⟩ | empty
    · rw [← keeps.refuses]
      exact Belonging.attempts_clear (holding_mem_due.mpr there) is'
    · exact .inl ((Belonging.attempts_fades k₁ late.due).vacant empty)
  rw [close_eq (s := late) unclosed]
  refine ⟨rfl, fun e id loaded object => ?_, places, ?_⟩
  · exact Belonging.attempts_close (extension_mem_due.mpr loaded) object
  · rcases (keeps.unbinds.trans (.attempts k₁ late.due)).policy with none | ⟨same, bound⟩
    · exact .inl none
    refine .inr ⟨same, fun id map member binds => ?_⟩
    refine (places _ member _ rfl).resolve_left fun empty => ?_
    obtain ⟨_, present⟩ := bound id binds
    cases empty.symm.trans present

/-- An outcome that either attaches the session or aborts it. -/
structure Settles (s : Session) (k : Kernel) (outcome : Outcome α) : Prop where
  attached : ∀ value, outcome.1 = .ok value → outcome.2.1.state = .attached
  aborted : ∀ failure, outcome.1 = .error failure → s.Aborted k outcome.2

theorem Settles.of_failure {failure : Failure} {after : Session × Kernel} (aborted : s.Aborted k after) :
    s.Settles (α := α) k (.error failure, after) where
  attached value made := by cases made
  aborted _ _ := aborted

theorem Settles.of_success {value : α} {after : Session × Kernel} (attached : after.1.state = .attached) :
    s.Settles k (.ok value, after) where
  attached _ _ := attached
  aborted failure failed := by cases failed

theorem attachWith_settles (able : s.state.canAttach = true)
    (work : Extension → Holdings → Kernel → Attached α)
    (keeps : ∀ e failure holdings k₁, s.extension = some e →
      work e s.holdings k = (.error failure, holdings, k₁) → s.Keeps k holdings k₁) :
    s.Settles k (s.attachWith k work) := by
  have unclosed := not_closed_of_canAttach able
  unfold attachWith liveExtension
  rw [able, Bool.not_true, if_neg Bool.false_ne_true]
  cases loaded : s.extension with
  | none =>
    dsimp only
    rw [closeAfter_eq]
    exact .of_failure ((Keeps.refl s k).aborted unclosed)
  | some e =>
    dsimp only
    rcases made : work e s.holdings k with ⟨failure | value, holdings, k₁⟩
    · rw [attached, closeAfter_eq]
      exact .of_failure ((keeps e failure holdings k₁ loaded made).aborted unclosed)
    · exact .of_success rfl

theorem attachWith_acts_settles (orderly : k.Orderly) (able : s.state.canAttach = true)
    (work : Extension → Holdings → Kernel → Attached α)
    (acts : ∀ e, Acts (e.OwnsProgram k) (fun _ => True) (s.holdings, k) (work e s.holdings k).2) :
    s.Settles k (s.attachWith k work) := by
  refine attachWith_settles able work fun e failure holdings k₁ loaded made => ?_
  have after := acts e
  rw [made] at after
  exact .of_acts orderly loaded after

theorem attachProgramWith_settles (orderly : k.Orderly) (able : s.state.canAttach = true) (name : String)
    (work : ProgramHandle → Holdings → Kernel → Attached α)
    (acts : ∀ (e : Extension) (p : ProgramHandle), e.OwnsProgram k p.id →
      Acts (e.OwnsProgram k) (fun _ => True) (s.holdings, k) (work p s.holdings k).2) :
    s.Settles k (s.attachProgramWith k name work) := by
  refine attachWith_acts_settles orderly able _ fun e => ?_
  split
  · exact .refl
  · rename_i p found
    exact acts e p (Extension.findProgram_owns found)

theorem attachWith_structOps_settles (able : s.state.canAttach = true) (map : String)
    (policy : Policy Memory) :
    s.Settles k (s.attachWith k fun e holdings k => Attach.structOps e holdings k map policy) := by
  refine attachWith_settles able _ fun e failure holdings k₁ _ failed => ?_
  rcases Attach.structOps_cases e s.holdings k map policy with
    ⟨_, same, _⟩ | ⟨_, id, errno, k', same, refused⟩ | ⟨id, link, name, k', _, same⟩
  · cases same.symm.trans failed
    exact .refl s k
  · cases same.symm.trans failed
    exact .refused refused
  · cases same.symm.trans failed

/-! The maps of a policy. -/

def Misfits (s : Session) (k : Kernel) (name : String) (failure : Failure) : Prop :=
  ∃ e, s.extension = some e ∧ (e.manifest.map? name).isSome ∧
    e.findMap k UInt32 UInt64 name .lruHash = .error failure

def Notes (s s' : Session) : Prop :=
  ∃ maps : List Holding, (∀ h ∈ maps, h.stage = .maps) ∧
    s' = { s with holdings := ⟨s.holdings.items ++ maps⟩ }

theorem Notes.refl (s : Session) : s.Notes s := ⟨[], by simp, by simp⟩

theorem Notes.trans {s₁ s₂ : Session} (first : s.Notes s₁) (later : s₁.Notes s₂) : s.Notes s₂ := by
  obtain ⟨early, early_maps, rfl⟩ := first
  obtain ⟨late, late_maps, rfl⟩ := later
  refine ⟨early ++ late, fun h member => ?_, by simp⟩
  exact (List.mem_append.mp member).elim (early_maps h) (late_maps h)

theorem map_notes (s : Session) (k : Kernel) (κ ν : Type) [Word κ] [Word ν] (name : String)
    (kind : MapKind) : s.Notes (s.map k κ ν name kind).2 := by
  unfold map
  split
  · exact .refl s
  · rename_i handle found
    dsimp only
    split
    · exact .refl s
    · exact ⟨[.map handle.id handle.name], by simp [Holding.stage], rfl⟩

theorem taskMap_cases (s : Session) (k : Kernel) (name : String) :
    (∃ failure, s.taskMap k name = (.error failure, s) ∧
        (failure.isIllegalState = true ∨ s.Misfits k name failure)) ∨
      ∃ store s', s.taskMap k name = (.ok store, s') ∧ s.Notes s' ∧
        ∀ failure, ¬ s.Misfits k name failure := by
  cases loaded : s.extension with
  | none =>
    refine .inl ⟨.illegalState ("session " ++ s.id ++ " has no extension"), ?_, .inl rfl⟩
    simp [taskMap, liveExtension, loaded]
  | some e =>
    cases declared : e.manifest.map? name with
    | none =>
      refine .inr ⟨none, s, by simp [taskMap, liveExtension, loaded, declared], .refl s, ?_⟩
      rintro failure ⟨e', loaded', declared', _⟩
      cases Option.some.inj (loaded.symm.trans loaded')
      simp [declared] at declared'
    | some spec =>
      have notes := s.map_notes k UInt32 UInt64 name .lruHash
      cases found : e.findMap k UInt32 UInt64 name .lruHash with
      | error failure =>
        refine .inl ⟨failure, ?_, .inr ⟨e, loaded, by simp [declared], found⟩⟩
        simp [taskMap, map, liveExtension, loaded, declared, found, Except.bind]
      | ok handle =>
        refine .inr ⟨some handle.store, (s.map k UInt32 UInt64 name .lruHash).2, ?_, notes, ?_⟩
        · simp [taskMap, map, liveExtension, loaded, declared, found, Except.bind]
        · rintro failure ⟨e', loaded', _, failed⟩
          cases Option.some.inj (loaded.symm.trans loaded')
          cases found.symm.trans failed

def MisfitsPolicies (s : Session) (k : Kernel) (failure : Failure) : Prop :=
  s.Misfits k Shipped.enqueueTimeMap failure ∨ s.Misfits k Shipped.sliceUsageMap failure

/-- A session was left as it was, but for maps that it holds now. -/
structure Spared (s : Session) (k : Kernel) (after : Session × Kernel) : Prop where
  session : s.Notes after.1
  kernel : ∃ memory, after.2 = k.setMemory memory

theorem schedulerMaps_cases (s : Session) (k : Kernel) :
    s.Spared k (s.schedulerMaps k).2 ∧
      ((∃ failure, (s.schedulerMaps k).1 = .error failure ∧
          (failure.isIllegalState = true ∨ s.MisfitsPolicies k failure)) ∨
        (∃ maps, (s.schedulerMaps k).1 = .ok maps) ∧ ∀ failure, ¬ s.MisfitsPolicies k failure) := by
  unfold schedulerMaps
  dsimp only
  generalize k.memory.newTaskMaps = made
  obtain ⟨own, memory⟩ := made
  dsimp only
  rcases s.taskMap_cases (k.setMemory memory) Shipped.enqueueTimeMap with
    ⟨failure, first, misfit⟩ | ⟨enqueueTime, s₁, first, notes, fits⟩
  · rw [first]
    exact ⟨⟨.refl s, memory, rfl⟩, .inl ⟨failure, rfl, misfit.imp_right .inl⟩⟩
  · rw [first]
    dsimp only
    have same : s₁.extension = s.extension := by
      obtain ⟨maps, _, rfl⟩ := notes
      rfl
    have apart : ∀ failure, s₁.Misfits (k.setMemory memory) Shipped.sliceUsageMap failure ↔
        s.Misfits k Shipped.sliceUsageMap failure := by
      intro failure
      unfold Misfits
      rw [same]
      rfl
    rcases s₁.taskMap_cases (k.setMemory memory) Shipped.sliceUsageMap with
      ⟨failure, second, misfit⟩ | ⟨sliceUsage, s₂, second, notes', fits'⟩
    · rw [second]
      refine ⟨⟨notes, memory, rfl⟩, .inl ⟨failure, rfl, ?_⟩⟩
      exact misfit.imp_right fun misfit => .inr ((apart failure).mp misfit)
    · rw [second]
      refine ⟨⟨notes.trans notes', memory, rfl⟩, .inr ⟨⟨_, rfl⟩, fun failure misfit => ?_⟩⟩
      exact misfit.elim (fits failure) fun misfit => fits' failure ((apart failure).mpr misfit)

/-! The operations that attach. -/

inductive Attachment where
  | scheduler (shipped : Shipped)
  | program (name : String)
  | marked
  | lsm
  | cgroup (name cgroup : String)
  | xdp (name : String) (ifindexes : List IfIndex)
  | filter (name : String) (side : Side)

def perform (s : Session) (k : Kernel) : Attachment → Outcome Unit
  | .scheduler shipped => forget (s.attachScheduler k shipped)
  | .program name => forget (s.attach k name)
  | .marked => forget (s.autoAttach k)
  | .lsm => forget (s.attachLsm k)
  | .cgroup name cgroup => forget (s.attachCgroup k name cgroup)
  | .xdp name ifindexes => forget (s.attachXdp k name ifindexes)
  | .filter name side => forget (s.attachFilter k name side)
where
  forget {α : Type} (outcome : Outcome α) : Outcome Unit := (outcome.1.map fun _ => (), outcome.2)

theorem Settles.forget {outcome : Outcome α} (settles : s.Settles k outcome) :
    s.Settles k (perform.forget outcome) := by
  obtain ⟨failure | value, after⟩ := outcome
  · exact .of_failure (settles.aborted failure rfl)
  · exact .of_success (settles.attached value rfl)

theorem perform_settles (orderly : k.Orderly) (able : s.state.canAttach = true) {a : Attachment}
    (other : ∀ shipped, a ≠ .scheduler shipped) : s.Settles k (s.perform k a) := by
  cases a with
  | scheduler shipped => exact absurd rfl (other shipped)
  | program name =>
    exact (attachProgramWith_settles orderly able name _
      fun e p owned => Attach.program_acts owned).forget
  | marked =>
    exact (attachWith_acts_settles orderly able _
      fun e => Attach.marked_acts fun _ owns => owns).forget
  | lsm =>
    exact (attachWith_acts_settles orderly able _
      fun e => Attach.allLsm_acts fun _ owns => owns).forget
  | cgroup name cgroup =>
    exact (attachProgramWith_settles orderly able name _
      fun e p owned => Attach.cgroup_acts owned s.host cgroup).forget
  | xdp name ifindexes =>
    exact (attachProgramWith_settles orderly able name _
      fun e p owned => Attach.xdp_acts owned ifindexes).forget
  | filter name side =>
    exact (attachProgramWith_settles orderly able name _
      fun e p owned => Attach.filter_acts owned side fun _ _ => trivial).forget

theorem Aborted.of_spared {before after : Session × Kernel} (spared : s.Spared k before)
    (aborted : before.1.Aborted before.2 after) : s.Aborted k after := by
  obtain ⟨s₁, k₁⟩ := before
  obtain ⟨⟨maps, _, rfl⟩, memory, rfl⟩ := spared
  refine ⟨aborted.session, aborted.object, fun h member => aborted.places h ?_, ?_⟩
  · exact List.mem_append_left _ member
  · rcases aborted.policy with none | ⟨same, refused⟩
    · exact .inl none
    · exact .inr ⟨same, fun id map member => refused id map (List.mem_append_left _ member)⟩

theorem attachScheduler_cases (able : s.state.canAttach = true) (free : s.scheduler = none)
    (shipped : Shipped) :
    (∃ failure, (s.attachScheduler k shipped).1 = .error failure ∧
        (failure.isIllegalState = true ∨ s.MisfitsPolicies k failure) ∧
        s.Spared k (s.attachScheduler k shipped).2) ∨
      s.Settles k (s.attachScheduler k shipped) ∧ ∀ failure, ¬ s.MisfitsPolicies k failure := by
  obtain ⟨spared, cases⟩ := s.schedulerMaps_cases k
  unfold attachScheduler
  rw [able, free, Bool.not_true, if_neg Bool.false_ne_true, Option.isSome_none,
    if_neg Bool.false_ne_true]
  generalize s.schedulerMaps k = result at spared cases
  obtain ⟨outcome, s₁, k₁⟩ := result
  obtain ⟨failure, rfl, misfit⟩ | ⟨⟨maps, rfl⟩, fits⟩ := cases
  · exact .inl ⟨failure, rfl, misfit, spared⟩
  · refine .inr ⟨?_, fits⟩
    dsimp only
    generalize shipped.build s₁.tunables maps k₁.memory = built
    obtain ⟨policy, memory⟩ := built
    dsimp only
    have later : s.Spared k (s₁, k₁.setMemory memory.newCounters.2) := by
      obtain ⟨notes, earlier, same⟩ := spared
      exact ⟨notes, memory.newCounters.2, congrArg (·.setMemory memory.newCounters.2) same⟩
    have able₁ : s₁.state.canAttach = true := by
      obtain ⟨⟨_, _, rfl⟩, _⟩ := spared
      exact able
    have settles := attachWith_structOps_settles (k := k₁.setMemory memory.newCounters.2) able₁
      shipped.opsMap policy
    generalize s₁.attachWith (k₁.setMemory memory.newCounters.2) (fun e holdings k =>
      Attach.structOps e holdings k shipped.opsMap policy) = attached at settles
    obtain ⟨failure | holding, s₂, k₂⟩ := attached
    · exact .of_failure (.of_spared later (settles.aborted failure rfl))
    · exact .of_success (settles.attached holding rfl)

/-- A scheduler is refused before anything is attached, for a map of the extension that does not suit
the policies. -/
def Escapes (s : Session) (k : Kernel) (a : Attachment) (failure : Failure) : Prop :=
  (∃ shipped, a = .scheduler shipped) ∧ s.scheduler = none ∧ s.MisfitsPolicies k failure

end Session

end LoadableSched
