import LoadableSched.Proofs.Session.Moving

/-!
An orderly kernel: what is there has a number that was given out, no program belongs to two objects, and
filters are only where there is a discipline. No session disturbs that order, whatever it does.
-/

namespace LoadableSched

variable {may : IfIndex → Prop} {own : ProgramId → Prop} {k k' : Kernel}

namespace Kernel

def Disciplined (k : Kernel) : Prop :=
  ∀ side v, k.occupant? (.filter side) = some v → side.ifindex ∈ k.qdiscs

structure Orderly (k : Kernel) : Prop where
  numbered : k.Numbered
  registered : ∀ id o, k.objects.get? id = some o →
    id.number ≤ k.lastId ∧ ∀ p ∈ o.programs.values, p.number ≤ k.lastId
  apart : ∀ id o id' o' p, k.objects.get? id = some o → k.objects.get? id' = some o' →
    p ∈ o.programs.values → p ∈ o'.programs.values → id = id'
  disciplined : k.Disciplined

theorem Orderly.change (orderly : k.Orderly) (numbered : k'.Numbered) (lastId : k.lastId ≤ k'.lastId)
    (objects : ∀ id o, k'.objects.get? id = some o → k.objects.get? id = some o)
    (disciplined : k'.Disciplined) : k'.Orderly where
  numbered := numbered
  registered id o there := by
    obtain ⟨number, programs⟩ := orderly.registered id o (objects id o there)
    exact ⟨Nat.le_trans number lastId, fun p member => Nat.le_trans (programs p member) lastId⟩
  apart id o id' o' p there there' :=
    orderly.apart id o id' o' p (objects id o there) (objects id' o' there')
  disciplined := disciplined

theorem Orderly.around (orderly : k.Orderly) (around : k.Around k') : k'.Orderly := by
  refine orderly.change (orderly.numbered.alike around.occupant (Nat.le_of_eq around.lastId.symm))
    (Nat.le_of_eq around.lastId.symm) (fun id o there => around.objects ▸ there) fun side v present => ?_
  rw [around.occupant] at present
  exact around.qdiscs (orderly.disciplined side v present)

theorem Disciplined.act {x y : Holdings × Kernel} (disciplined : x.2.Disciplined)
    (act : Act own may x y) : y.2.Disciplined := by
  cases act with
  | link owned made =>
    cases attachProgram_made made
    exact disciplined
  | openCgroup made =>
    cases openDirectory_made made
    exact disciplined
  | linkCgroup owned made =>
    cases attachCgroup_made made
    exact disciplined
  | refuseCgroup refused =>
    obtain ⟨count, rfl⟩ := attachCgroup_counted refused
    exact disciplined
  | giveBack made =>
    obtain ⟨_, released, _⟩ := Holdings.detach_made made
    cases closeDescriptor_made released
    exact disciplined
  | xdp owned made =>
    obtain ⟨_, rfl⟩ := attachXdp_made made
    exact disciplined
  | clear unheld allowed made =>
    -- With a discipline go all the filters that it carried.
    obtain ⟨_, rfl⟩ := destroyQdisc_made made
    intro side v present
    simp only [occupant?, Table.get?_filter_key] at present
    split at present
    · rename_i elsewhere
      exact (List.mem_erase_of_ne (by simpa using elsewhere)).mpr (disciplined side v present)
    · cases present
  | discipline made =>
    cases createQdisc_made made
    exact fun side v present => List.mem_append_left _ (disciplined side v present)
  | filter owned made =>
    obtain ⟨carried, _, rfl⟩ := attachFilter_made made
    intro side v present
    simp only [occupant?, Table.map_get?_insert] at present
    split at present
    · rename_i same
      exact same ▸ carried
    · exact disciplined side v present

theorem Orderly.act {x y : Holdings × Kernel} (orderly : x.2.Orderly) (act : Act own may x y) :
    y.2.Orderly := by
  obtain ⟨s, k⟩ := x
  obtain ⟨s', k'⟩ := y
  have objects : ∀ id o, k'.objects.get? id = some o → k.objects.get? id = some o :=
    fun id o there => act.sustains.1.objects ▸ there
  have disciplined : k'.Disciplined := orderly.disciplined.act act
  cases act.effect orderly.numbered with
  | takes takes =>
    exact orderly.change (orderly.numbered.gain takes.toGains) takes.lastId objects disciplined
  | rests rests =>
    exact orderly.change (orderly.numbered.alike rests.occupant rests.lastId) rests.lastId objects
      disciplined
  | gives member made other =>
    have clears := Holding.releaseIn_clears made
    exact orderly.change (orderly.numbered.lose clears.toLoses) (Nat.le_of_eq clears.lastId.symm)
      objects disciplined
  | clears unheld allowed made =>
    obtain ⟨_, rfl⟩ := destroyQdisc_made made
    exact orderly.change orderly.numbered (Nat.le_refl _) objects disciplined

theorem Orderly.attachStructOps (orderly : k.Orderly) {map : MapId} {policy : Policy Memory}
    {result : Except Errno LinkId} (outcome : k.attachStructOps map policy = (result, k')) :
    k'.Orderly := by
  cases result with
  | error e =>
    rcases attachStructOps_refused outcome with same | ⟨_, _, same⟩
    · exact same ▸ orderly
    · subst same
      exact orderly.change orderly.numbered (Nat.le_refl _) (fun _ _ there => there) orderly.disciplined
  | ok link =>
    obtain ⟨gains, _⟩ := attachStructOps_gains orderly.numbered outcome
    obtain ⟨_, same⟩ := attachStructOps_made outcome
    cases same
    exact orderly.change (orderly.numbered.gain gains) gains.lastId (fun _ _ there => there)
      orderly.disciplined

theorem Orderly.releaseIn (orderly : k.Orderly) {h : Holding} (made : h.releaseIn k = .ok k') :
    k'.Orderly := by
  have clears := Holding.releaseIn_clears made
  obtain ⟨objects, qdiscs⟩ := Holding.releaseIn_rest made
  refine orderly.change (orderly.numbered.lose clears.toLoses) (Nat.le_of_eq clears.lastId.symm)
    (fun id o there => objects ▸ there) fun side v present => ?_
  rw [qdiscs]
  exact orderly.disciplined side v ((Holding.releaseIn_fades made).occupant _ v present)

theorem Orderly.adds (orderly : k.Orderly) (adds : k.Adds k')
    (objects : ∀ id o, k'.objects.get? id = some o → k.objects.get? id = some o) : k'.Orderly := by
  refine orderly.change (orderly.numbered.alike adds.occupant adds.lastId) adds.lastId objects
    fun side v present => ?_
  rw [adds.occupant] at present
  exact adds.qdiscs ▸ orderly.disciplined side v present

theorem Orderly.release (orderly : k.Orderly) {b : Belonging} (made : b.release k = .ok k') :
    k'.Orderly := by
  cases b with
  | holding h => exact orderly.releaseIn (Belonging.holding_release made)
  | extension e =>
    obtain ⟨_, rfl⟩ | ⟨object, _, closed⟩ := Belonging.extension_release made
    · exact orderly
    · obtain ⟨adds, _, objects⟩ := closeObject_made closed
      refine orderly.adds adds fun id o there => ?_
      rw [objects] at there
      split at there
      · cases there
      · exact there

theorem Orderly.load (orderly : k.Orderly) {image : Image} {result : Except Failure Extension}
    (outcome : Extension.load k image = (result, k')) : k'.Orderly := by
  rcases result with failure | e
  · obtain ⟨adds, objects⟩ := Extension.load_refused outcome
    refine orderly.adds adds fun id o there => ?_
    rcases objects id with same | ⟨_, gone⟩
    · exact same.symm.trans there
    · cases gone.symm.trans there
  · obtain ⟨adds, id, o, _, above, below, numbers, objects⟩ := Extension.load_made outcome
    -- The numbers of the new programs are above all numbers of the others.
    have old : ∀ {other o' p}, k.objects.get? other = some o' → p ∈ o'.programs.values →
        p ∉ o.programs.values := by
      intro other o' p there member new
      have := (orderly.registered other o' there).2 p member
      have := (numbers p new).1
      omega
    refine ⟨orderly.numbered.alike adds.occupant adds.lastId, ?_, ?_, ?_⟩
    · intro other o' there
      rw [objects] at there
      split at there
      · rename_i same
        cases Option.some.inj there
        exact ⟨same ▸ below, fun p member => (numbers p member).2⟩
      · obtain ⟨number, programs⟩ := orderly.registered other o' there
        exact ⟨Nat.le_trans number adds.lastId,
          fun p member => Nat.le_trans (programs p member) adds.lastId⟩
    · intro id₁ o₁ id₂ o₂ p there₁ there₂ member₁ member₂
      rw [objects] at there₁ there₂
      split at there₁ <;> split at there₂
      · rename_i first second
        exact first.trans second.symm
      · cases Option.some.inj there₁
        exact absurd member₁ (old there₂ member₂)
      · cases Option.some.inj there₂
        exact absurd member₂ (old there₁ member₁)
      · exact orderly.apart id₁ o₁ id₂ o₂ p there₁ there₂ member₁ member₂
    · intro side v present
      rw [adds.occupant] at present
      exact adds.qdiscs ▸ orderly.disciplined side v present

theorem Orderly.setMemory (orderly : k.Orderly) (memory : Memory) : (k.setMemory memory).Orderly :=
  orderly.change orderly.numbered (Nat.le_refl _) (fun _ _ there => there) orderly.disciplined

end Kernel

namespace Session

variable {s : Session}

theorem Move.orderly {x y : Session × Kernel} (move : Move may x y) (orderly : x.2.Orderly) :
    y.2.Orderly := by
  cases move with
  | act loaded act => exact orderly.act act
  | note | enter => exact orderly
  | memory memory => exact orderly.setMemory memory
  | refuseBinding conforms refused => exact orderly.attachStructOps refused
  | release member made => exact orderly.releaseIn made
  | load unloaded made => exact orderly.load made
  | refuseLoad unloaded refused => exact orderly.load refused
  | close unclosed =>
    exact Belonging.attempts_keep (fun b _ k k' made orderly => Kernel.Orderly.release orderly made) orderly

theorem Moves.orderly {x y : Session × Kernel} (moves : Moves may x y) (orderly : x.2.Orderly) :
    y.2.Orderly := by
  induction moves with
  | refl => exact orderly
  | tail _ move ih => exact move.orderly ih

theorem after_orderly (orderly : k.Orderly) (event : Event) : (s.after k event).2.Orderly := by
  have course := s.after_course k event
  generalize s.after k event = after at course
  cases course with
  | moves moves => exact moves.orderly orderly
  | binds moves loaded conforms made => exact (Moves.orderly moves orderly).attachStructOps made
  | around around alike calm => exact orderly.around around

end Session

end LoadableSched
