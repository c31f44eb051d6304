import LoadableSched.Proofs.Session.Releasing
import LoadableSched.Proofs.Session.Taking

/-!
Attachments to cgroups that are tried again. An attempt that is refused gives its descriptor back, so that
the next one starts with the same holdings and the same descriptors, and only the counts and the log of
the kernel tell that there was one.
-/

namespace LoadableSched

theorem FileTree.child?_isDirectory {t : FileTree} {root : Path} {name : String} {place : Place}
    (found : t.child? root name = some place) : t.isDirectory place = true := by
  unfold child? at found
  split at found
  · cases found
  · dsimp only at found
    split at found
    · rename_i here
      cases Option.some.inj found
      simp only [Bool.and_eq_true] at here
      exact here.1.2
    · cases found

namespace Kernel

variable {k k' : Kernel}

theorem lowestFree_congr (same : k'.descriptors = k.descriptors) (fuel : Nat) (fd : Descriptor) :
    k'.lowestFree fuel fd = k.lowestFree fuel fd := by
  induction fuel generalizing fd with
  | zero => rfl
  | succ fuel ih => simp only [lowestFree, same, ih]

theorem freeDescriptor_congr (same : k'.descriptors = k.descriptors) :
    k'.freeDescriptor = k.freeDescriptor := by
  rw [freeDescriptor, lowestFree_congr same, same]
  rfl

theorem openDirectory_there {place : Place} (directory : k.files.isDirectory place = true) :
    k.openDirectory place = .ok (k.freeDescriptor,
      { k with descriptors := k.descriptors.insert k.freeDescriptor true }) := by
  simp only [openDirectory, openPlace, directory, if_true]

theorem closeDescriptor_opened (opened : k'.descriptors = k.descriptors.insert k.freeDescriptor true) :
    k'.closeDescriptor k.freeDescriptor =
      .ok ({ k' with descriptors := k.descriptors }.log (.descriptor k.freeDescriptor)) := by
  have absent : k.freeDescriptor ∉ k.descriptors.keys := by
    rw [← Table.contains_iff_mem_keys, k.freeDescriptor_free]
    exact Bool.false_ne_true
  simp [closeDescriptor, dropDescriptor, opened, Table.contains_insert, Table.erase_insert,
    Table.erase_of_absent absent]

def refusedTimes (k : Kernel) (count : Nat) : Kernel :=
  { k with
    cgroupAttempts := k.cgroupAttempts + count
    faults := { k.faults with cgroupAttaches := k.faults.cgroupAttaches - count }
    releases := k.releases ++ List.replicate count (.descriptor k.freeDescriptor) }

def cgroupAttached (k : Kernel) (id : ProgramId) : Kernel :=
  { k with
    cgroupAttempts := k.cgroupAttempts + 1
    lastId := k.lastId + 1
    links := k.links.insert ⟨k.lastId + 1⟩ (.cgroup id)
    descriptors := k.descriptors.insert k.freeDescriptor true }

@[simp]
theorem refusedTimes_zero (k : Kernel) : k.refusedTimes 0 = k := by
  simp [refusedTimes]

theorem refusedTimes_freeDescriptor (k : Kernel) (count : Nat) :
    (k.refusedTimes count).freeDescriptor = k.freeDescriptor := freeDescriptor_congr rfl

theorem refusedTimes_add (k : Kernel) (count more : Nat) :
    (k.refusedTimes count).refusedTimes more = k.refusedTimes (count + more) := by
  rw [refusedTimes, refusedTimes_freeDescriptor]
  simp only [refusedTimes, Nat.add_assoc, Nat.sub_sub, List.append_assoc, List.replicate_append_replicate]

theorem attachCgroup_busy {id : ProgramId} {fd : Descriptor} (faulty : 0 < k.faults.cgroupAttaches) :
    k.attachCgroup id fd = (.error .busy, { k with
      cgroupAttempts := k.cgroupAttempts + 1
      faults := { k.faults with cgroupAttaches := k.faults.cgroupAttaches - 1 } }) := by
  simp only [attachCgroup]
  exact if_pos faulty

theorem attachCgroup_admitted {id : ProgramId} {fd : Descriptor} {program : KernelProgram}
    (faultless : k.faults.cgroupAttaches = 0) (admitted : k.admitted id = .ok program)
    (hook : program.hook = .cgroup) (directory : k.descriptors.get? fd = some true) :
    k.attachCgroup id fd = (.ok ⟨k.lastId + 1⟩, { k with
      cgroupAttempts := k.cgroupAttempts + 1
      lastId := k.lastId + 1
      links := k.links.insert ⟨k.lastId + 1⟩ (.cgroup id) }) := by
  have same : ({ k with cgroupAttempts := k.cgroupAttempts + 1 } : Kernel).admitted id = .ok program :=
    admitted
  have fits : ({ k with cgroupAttempts := k.cgroupAttempts + 1 } : Kernel).checkCgroup id fd = .ok () := by
    simp only [checkCgroup, same, hook, directory, ne_eq, not_true, if_false, if_true]
  simp only [attachCgroup, faultless, gt_iff_lt, Nat.lt_irrefl, if_false, fits]
  rfl

end Kernel

theorem Holdings.eraseLast_register (s : Holdings) (h : Holding) : (s.register h).eraseLast h = s := by
  simp [register, eraseLast]

namespace Attach

variable {host : HostSettings} {s : Holdings} {k : Kernel} {p : ProgramHandle} {name : String}
  {place : Place}

/-- The holdings and the kernel that each attempt starts with. -/
def cgroupStarts (host : HostSettings) (p : ProgramHandle) (cgroup : String) :
    Nat → Holdings → Kernel → List (Holdings × Kernel)
  | 0, s, k => [(s, k)]
  | retries + 1, s, k =>
    (s, k) ::
      match cgroupOnce host s k p cgroup with
      | (.ok _, _, _) => []
      | (.error _, s, k) => cgroupStarts host p cgroup retries s k

/-- From the start of one attempt to the next the first is refused as busy, and what it opened is closed. -/
def RefusedThenClosed (p : ProgramHandle) (place : Place) (start next : Holdings × Kernel) : Prop :=
  next.1 = start.1 ∧ ∃ fd k₁ k₂, start.2.openDirectory place = .ok (fd, k₁) ∧
    k₁.attachCgroup p.id fd = (.error .busy, k₂) ∧ k₂.closeDescriptor fd = .ok next.2

theorem cgroupStarts_last (host : HostSettings) (p : ProgramHandle) (name : String) (retries : Nat)
    (s : Holdings) (k : Kernel) :
    ∃ last, (cgroupStarts host p name retries s k).getLast? = some last ∧
      cgroupOnce host last.1 last.2 p name = cgroupRetrying host p name retries s k := by
  induction retries generalizing s k with
  | zero => exact ⟨(s, k), rfl, rfl⟩
  | succ retries ih =>
    unfold cgroupStarts cgroupRetrying
    rcases once : cgroupOnce host s k p name with ⟨failure | h, s', k'⟩
    · obtain ⟨last, ends, reported⟩ := ih s' k'
      exact ⟨last, by rw [List.getLast?_cons, ends]; rfl, reported⟩
    · exact ⟨(s, k), rfl, once⟩

/-! One attempt. -/

theorem cgroupOnce_missing (missing : k.files.child? host.cgroupRoot name = none) :
    cgroupOnce host s k p name = (.error (.notFound .cgroup name), s, k) := by
  simp only [cgroupOnce, missing]

theorem refused_then_closed (found : k.files.child? host.cgroupRoot name = some place)
    (faulty : 0 < k.faults.cgroupAttaches) :
    RefusedThenClosed p place (s, k) (s, k.refusedTimes 1) := by
  refine ⟨rfl, _, _, _, Kernel.openDirectory_there (FileTree.child?_isDirectory found),
    Kernel.attachCgroup_busy faulty, ?_⟩
  rw [Kernel.closeDescriptor_opened (k := k) rfl]
  rfl

theorem cgroupOnce_refused (found : k.files.child? host.cgroupRoot name = some place)
    (faulty : 0 < k.faults.cgroupAttaches) :
    cgroupOnce host s k p name =
      (.error (.refused (p.name ++ " to cgroup " ++ name) .busy), s, k.refusedTimes 1) := by
  obtain ⟨_, fd, k₁, k₂, opened, refused, closed⟩ := refused_then_closed (p := p) (s := s) found faulty
  have held : (s.register (.descriptor fd)).contains (.descriptor fd) = true :=
    Holdings.contains_iff_mem.mpr (Holdings.mem_register.mpr (.inr rfl))
  simp only [cgroupOnce, found, opened, refused, Holdings.detach, held, if_true, Holding.release,
    Holding.releaseIn, closed, Holdings.eraseLast_register, Except.toOption, Option.getD_some]

theorem cgroupOnce_admitted {program : KernelProgram}
    (found : k.files.child? host.cgroupRoot name = some place)
    (faultless : k.faults.cgroupAttaches = 0) (admitted : k.admitted p.id = .ok program)
    (hook : program.hook = .cgroup) :
    cgroupOnce host s k p name = (.ok (.link ⟨k.lastId + 1⟩ p.name),
      ⟨s.items ++ [.descriptor k.freeDescriptor, .link ⟨k.lastId + 1⟩ p.name]⟩,
      k.cgroupAttached p.id) := by
  have opened := Kernel.openDirectory_there (FileTree.child?_isDirectory found)
  have made : Kernel.attachCgroup { k with descriptors := k.descriptors.insert k.freeDescriptor true }
      p.id k.freeDescriptor = _ :=
    Kernel.attachCgroup_admitted faultless admitted hook ((Table.get?_insert ..).trans (if_pos rfl))
  simp only [cgroupOnce, found, opened, made, hold, Holdings.register, List.append_assoc,
    List.singleton_append, Kernel.cgroupAttached]

/-! All attempts. -/

theorem cgroupRetrying_missing (missing : k.files.child? host.cgroupRoot name = none) (retries : Nat) :
    cgroupRetrying host p name retries s k = (.error (.notFound .cgroup name), s, k) ∧
      cgroupStarts host p name retries s k = List.replicate (retries + 1) (s, k) := by
  induction retries with
  | zero => exact ⟨cgroupOnce_missing missing, rfl⟩
  | succ retries ih =>
    simp only [cgroupRetrying, cgroupStarts, cgroupOnce_missing missing, ih, List.replicate_succ,
      and_self]

theorem cgroupRetrying_refused (found : k.files.child? host.cgroupRoot name = some place) {count : Nat}
    (faulty : count ≤ k.faults.cgroupAttaches) (retries : Nat) :
    cgroupRetrying host p name (count + retries) s k =
        cgroupRetrying host p name retries s (k.refusedTimes count) ∧
      cgroupStarts host p name (count + retries) s k =
        (List.range count).map (fun i => (s, k.refusedTimes i)) ++
          cgroupStarts host p name retries s (k.refusedTimes count) := by
  induction count generalizing retries with
  | zero => simp
  | succ count ih =>
    obtain ⟨result, starts⟩ := ih (Nat.le_of_succ_le faulty) (retries + 1)
    have next := cgroupOnce_refused (s := s) (p := p) (k := k.refusedTimes count) found
      (Nat.sub_pos_of_lt faulty)
    rw [Kernel.refusedTimes_add] at next
    rw [Nat.succ_add_eq_add_succ, result, starts]
    simp only [cgroupRetrying, cgroupStarts, next, List.range_succ, List.map_append, List.map_singleton,
      List.append_assoc, List.singleton_append, and_self]

theorem cgroupRetrying_succeeded {h : Holding} {s' : Holdings} {k' : Kernel}
    (once : cgroupOnce host s k p name = (.ok h, s', k')) (retries : Nat) :
    cgroupRetrying host p name retries s k = (.ok h, s', k') ∧
      cgroupStarts host p name retries s k = [(s, k)] := by
  cases retries with
  | zero => exact ⟨once, rfl⟩
  | succ => simp only [cgroupRetrying, cgroupStarts, once, and_self]

theorem cgroupRetrying_exhausted (found : k.files.child? host.cgroupRoot name = some place)
    {retries : Nat} (faulty : retries < k.faults.cgroupAttaches) :
    cgroupRetrying host p name retries s k =
        (.error (.refused (p.name ++ " to cgroup " ++ name) .busy), s, k.refusedTimes (retries + 1)) ∧
      cgroupStarts host p name retries s k =
        (List.range (retries + 1)).map fun i => (s, k.refusedTimes i) := by
  obtain ⟨result, starts⟩ := cgroupRetrying_refused (s := s) (p := p) found (Nat.le_of_lt faulty) 0
  have final := cgroupOnce_refused (s := s) (p := p) (k := k.refusedTimes retries) found
    (Nat.sub_pos_of_lt faulty)
  rw [Kernel.refusedTimes_add] at final
  rw [Nat.add_zero] at result starts
  refine ⟨result.trans final, starts.trans ?_⟩
  rw [List.range_succ, List.map_append]
  rfl

theorem cgroupRetrying_outlasting {program : KernelProgram}
    (found : k.files.child? host.cgroupRoot name = some place)
    (admitted : k.admitted p.id = .ok program) (hook : program.hook = .cgroup) {retries : Nat}
    (enough : k.faults.cgroupAttaches ≤ retries) :
    cgroupRetrying host p name retries s k = (.ok (.link ⟨k.lastId + 1⟩ p.name),
        ⟨s.items ++ [.descriptor k.freeDescriptor, .link ⟨k.lastId + 1⟩ p.name]⟩,
        (k.refusedTimes k.faults.cgroupAttaches).cgroupAttached p.id) ∧
      cgroupStarts host p name retries s k =
        (List.range (k.faults.cgroupAttaches + 1)).map fun i => (s, k.refusedTimes i) := by
  obtain ⟨more, rfl⟩ := Nat.exists_eq_add_of_le enough
  obtain ⟨result, starts⟩ := cgroupRetrying_refused (s := s) (p := p) found (Nat.le_refl _) more
  have once := cgroupOnce_admitted (s := s) (p := p) (k := k.refusedTimes k.faults.cgroupAttaches) found
    (Nat.sub_self _) admitted hook
  obtain ⟨reported, final⟩ := cgroupRetrying_succeeded once more
  rw [Kernel.refusedTimes_freeDescriptor] at reported
  refine ⟨result.trans reported, ?_⟩
  rw [starts, final, List.range_succ, List.map_append]
  rfl

theorem cgroupStarts_eq {program : KernelProgram}
    (found : k.files.child? host.cgroupRoot name = some place)
    (admitted : k.admitted p.id = .ok program) (hook : program.hook = .cgroup) (retries : Nat) :
    cgroupStarts host p name retries s k =
      (List.range (min k.faults.cgroupAttaches retries + 1)).map fun i => (s, k.refusedTimes i) := by
  rcases Nat.lt_or_ge retries k.faults.cgroupAttaches with short | enough
  · rw [Nat.min_eq_right (Nat.le_of_lt short)]
    exact (cgroupRetrying_exhausted found short).2
  · rw [Nat.min_eq_left enough]
    exact (cgroupRetrying_outlasting found admitted hook enough).2

theorem refusedTimes_isChain (found : k.files.child? host.cgroupRoot name = some place) {count : Nat}
    (faulty : count ≤ k.faults.cgroupAttaches) :
    ((List.range (count + 1)).map fun i => (s, k.refusedTimes i)).IsChain (RefusedThenClosed p place) := by
  refine List.isChain_iff_getElem.mpr fun i bound => ?_
  simp only [List.length_map, List.length_range] at bound
  have left : 0 < (k.refusedTimes i).faults.cgroupAttaches := Nat.sub_pos_of_lt (by omega)
  have step := refused_then_closed (s := s) (p := p) (k := k.refusedTimes i) found left
  rw [Kernel.refusedTimes_add] at step
  simpa using step

/-- Attaching to a cgroup makes one attempt for each fault that is left and then one more, as far as it may
try again. Before the next attempt the descriptor of the last one is closed. Either the attempt after the
faults succeeds, and its descriptor and its link are held after what was held before, or each of them is
refused as busy, and nothing more is held. A cgroup that is not found is looked for as often, and nothing
else happens. -/
theorem cgroup_is_tried_again (host : HostSettings) (s : Holdings) (k : Kernel) (p : ProgramHandle)
    (name : String) (hook : p.hook = .cgroup) :
    let starts := cgroupStarts host p name host.cgroupRetries s k
    let result := cgroup host s k p name
    let faults := k.faults.cgroupAttaches
    (∃ last, starts.getLast? = some last ∧ cgroupOnce host last.1 last.2 p name = result) ∧
    (∀ place program, k.files.child? host.cgroupRoot name = some place → k.admitted p.id = .ok program →
        program.hook = .cgroup →
      starts.length = min faults host.cgroupRetries + 1 ∧
      result.2.2.cgroupAttempts = k.cgroupAttempts + starts.length ∧
      starts.IsChain (RefusedThenClosed p place) ∧
      (∀ start ∈ starts, (start.2.openDirectory place).map (·.1) = .ok k.freeDescriptor) ∧
      (faults ≤ host.cgroupRetries →
        result = (.ok (.link ⟨k.lastId + 1⟩ p.name),
          ⟨s.items ++ [.descriptor k.freeDescriptor, .link ⟨k.lastId + 1⟩ p.name]⟩,
          (k.refusedTimes faults).cgroupAttached p.id)) ∧
      (host.cgroupRetries < faults →
        result = (.error (.refused (p.name ++ " to cgroup " ++ name) .busy), s,
          k.refusedTimes (host.cgroupRetries + 1)) ∧
        result.2.2.faults.cgroupAttaches = faults - (host.cgroupRetries + 1) ∧
        (starts ++ [result.2]).IsChain (RefusedThenClosed p place))) ∧
    (k.files.child? host.cgroupRoot name = none →
      result = (.error (.notFound .cgroup name), s, k) ∧
        starts = List.replicate (host.cgroupRetries + 1) (s, k)) := by
  intro starts result faults
  have unfolded : result = cgroupRetrying host p name host.cgroupRetries s k := if_neg (not_not_intro hook)
  refine ⟨?_, fun place program found admitted fits => ?_, fun missing => ?_⟩
  · rw [unfolded]
    exact cgroupStarts_last host p name host.cgroupRetries s k
  · have listed : starts = (List.range (min faults host.cgroupRetries + 1)).map fun i =>
      (s, k.refusedTimes i) := cgroupStarts_eq found admitted fits host.cgroupRetries
    have succeeds (enough : faults ≤ host.cgroupRetries) :=
      unfolded.trans (cgroupRetrying_outlasting (s := s) found admitted fits enough).1
    have fails (short : host.cgroupRetries < faults) :=
      unfolded.trans (cgroupRetrying_exhausted (s := s) (p := p) found short).1
    refine ⟨by simp [listed], ?_, ?_, ?_, succeeds, fun short => ⟨fails short, ?_, ?_⟩⟩
    · rcases Nat.lt_or_ge host.cgroupRetries faults with short | enough
      · simp [fails short, listed, Nat.min_eq_right (Nat.le_of_lt short), Kernel.refusedTimes]
      · simp [succeeds enough, listed, Nat.min_eq_left enough, faults, Kernel.cgroupAttached,
          Kernel.refusedTimes, Nat.add_assoc]
    · rw [listed]
      exact refusedTimes_isChain found (Nat.min_le_left ..)
    · simp only [listed, List.mem_map, List.mem_range]
      rintro _ ⟨i, _, rfl⟩
      rw [Kernel.openDirectory_there (k := k.refusedTimes i) (FileTree.child?_isDirectory found),
        Kernel.refusedTimes_freeDescriptor]
      rfl
    · rw [fails short]
      rfl
    · have chained := refusedTimes_isChain (s := s) (p := p) found short
      rw [List.range_succ, List.map_append] at chained
      rw [listed, Nat.min_eq_right (Nat.le_of_lt short), fails short]
      exact chained
  · rw [unfolded]
    exact cgroupRetrying_missing missing host.cgroupRetries

theorem steps_of_dot : Path.steps ⟨"."⟩ = [.stay] := by
  -- Splitting recurses on positions in the text, which is unfolded once for each character.
  have whole : ".".splitOn "/" = ["."] := by
    unfold String.splitOn String.splitOnAux
    rw [if_neg (by decide), if_neg (by decide), if_neg (by decide)]
    unfold String.splitOnAux
    rw [if_pos (by decide)]
    rfl
  simp only [Path.steps, whole]
  decide

/-- Two faults are outlasted by three retries, and not by one. -/
theorem two_faults_take_two_retries :
    let host (retries : Nat) : HostSettings :=
      { HostSettings.default with cgroupRoot := ⟨"."⟩, cgroupRetries := retries }
    let p := ProgramHandle.new ⟨2⟩ "on_sock" "cgroup/sock"
    let k := { Kernel.new 1 {} with
      lastId := 2
      programs := ⟨[(⟨2⟩, ⟨"on_sock", "cgroup/sock"⟩)]⟩
      faults := { cgroupAttaches := 2 }
      files := ⟨["cgroup"], [["cgroup"], ["cgroup", "workers"]], []⟩ }
    p.hook = .cgroup ∧
      (cgroupStarts (host 3) p "workers" 3 .empty k).length = 3 ∧
      cgroup (host 3) .empty k p "workers" = (.ok (.link ⟨3⟩ "on_sock"),
        ⟨[.descriptor 3, .link ⟨3⟩ "on_sock"]⟩, (k.refusedTimes 2).cgroupAttached ⟨2⟩) ∧
      cgroup (host 1) .empty k p "workers" =
        (.error (.refused "on_sock to cgroup workers" .busy), .empty, k.refusedTimes 2) := by
  intro host p k
  have hook : p.hook = .cgroup := by decide +kernel
  have found : k.files.child? ⟨"."⟩ "workers" = some ["cgroup", "workers"] := by
    simp only [FileTree.child?, FileTree.resolve?, steps_of_dot, FileTree.admits,
      String.contains_char_eq]
    decide +kernel
  have admitted : k.admitted p.id = .ok ⟨"on_sock", "cgroup/sock"⟩ := by decide +kernel
  have tried (retries : Nat) :=
    (cgroup_is_tried_again (host retries) .empty k p "workers" hook).2.1 _ _ found admitted hook
  obtain ⟨length, _, _, _, succeeds, _⟩ := tried 3
  obtain ⟨_, _, _, _, _, fails⟩ := tried 1
  exact ⟨hook, length, succeeds (by decide), (fails (by decide)).1⟩

end Attach

end LoadableSched
