import LoadableSched.Proofs.Session.Dismantling

/-!
A session under way and one that has ended. Closing leads from the first to the second by whatever path it
comes about, and leaves behind only what the kernel refused to give up.
-/

namespace LoadableSched.Session

variable {s : Session} {k k' k'' : Kernel}

/-- A session under way: the holdings are in step, and the objects of the kernel are the extension's. -/
structure UnderWay (s : Session) (k : Kernel) : Prop where
  state : s.state ≠ .closed
  tracks : s.holdings.Tracks k
  owned : k.Owned s.extension
  unloaded : s.state = .unloaded → s.extension = none

structure Over (s : Session) (k : Kernel) : Prop where
  state : s.state = .closed
  holdings : s.holdings.items = []
  extension : s.extension = none
  owned : k.Owned none
  bound : k.Bound

structure Ends (k : Kernel) (s : Session) (k' : Kernel) : Prop extends s.Over k' where
  refused : ∀ a v, k'.occupant? a = some v → k.refuses a = true

theorem UnderWay.bound (way : s.UnderWay k) : k.Bound where
  steady := way.tracks.steady
  link active := by
    obtain ⟨h, member, stage⟩ := way.tracks.bound.mp active
    cases h with
    | structOps id map =>
      obtain ⟨v, present, fits⟩ := way.tracks.there _ member _ rfl
      cases v with
      | link link =>
        cases link with
        | structOps map => exact ⟨id, map, present⟩
        | program | cgroup => exact fits.elim
      | program | descriptor => exact fits.elim
    | link | xdp | filter | descriptor | map => cases stage

theorem close_ends (way : s.UnderWay k) : Ends k (s.close k).2.1 (s.close k).2.2 := by
  rw [close_eq way.state]
  have fades := Belonging.attempts_fades k s.due
  refine ⟨⟨rfl, rfl, rfl, fun id present => ?_, fades.bound way.bound⟩, fun a v present => ?_⟩
  · obtain ⟨e, loaded, object⟩ := way.owned id (fades.objects id present)
    have gone := Belonging.attempts_close (k := k) (extension_mem_due.mpr loaded) object
    cases present.symm.trans gone
  · obtain ⟨h, member, is⟩ := way.tracks.held a v (fades.occupant a v present)
    refine (Belonging.attempts_clear (holding_mem_due.mpr member) is).resolve_left fun empty => ?_
    cases present.symm.trans empty

end LoadableSched.Session
