import Ia32Memory.Proofs.Frame.Usage
import Ia32Memory.Proofs.Machine.Accounts
import Ia32Memory.Proofs.Machine.Permissions

/-! Others who use the allocator.
Whoever asks for frames gets free ones, and those that the space has taken are not free: its
directory, its tables and the frames that pages own.  So it is enough that frames that are named, to
be given back or to be counted, are in use without the space.  Releases of mapped frames keep the
links, too, but for those of tables that go. -/

namespace Ia32Memory.AddressSpace
open FrameAllocator (Became Counted freeAfter givenBack usage_of_run)

variable {s : AddressSpace} {m m' : Machine} {own : Set VirtualPage} {f : PhysicalPage} {n : Nat}
  {pages : List VirtualPage} {start stop : VirtualAddress}

/-- The frames that the request names are in use without the space, and nobody uses those that are
given back. -/
def Spares (s : AddressSpace) (m : Machine) (own : Set VirtualPage) :
    FrameAllocator.Request → Prop
  | .take | .takeRegion _ _ => True
  | .release f => f ≠ s.root ∧ s.residue m own f = some 0
  | .releaseRegion start stop => ∀ f ∈ FrameAllocator.regionPages start stop,
    f ≠ s.root ∧ s.residue m own f = some 0
  | .addUser f | .removeUser f => f ≠ s.root ∧ f ∈ s.otherFrames m own

theorem Sound.elsewhere_of_became {free : Set PhysicalPage} (h : s.Sound m own)
    (became : Became m.frames m'.frames free) (memory : m'.memory = m.memory)
    (new : ∀ f ∈ free, f ∈ m.frames.freePages ∨ f ≠ s.root ∧ s.residue m own f = some 0) :
    s.Elsewhere m own m' := by
  have held : ∀ f, m.frames.Holds f →
      (f ≠ s.root → ∀ n, s.residue m own f ≠ some n) → m'.frames.Holds f := by
    refine fun f old taken => became.holds.2 ⟨old.1, fun now => ?_⟩
    rcases new f now with was | ⟨notRoot, entry⟩
    · exact old.2 was
    · exact taken notRoot 0 entry
  refine ⟨⟨became.managing, fun f now => ?_, became.sameMemory, fun f there old => ?_,
    fun d f _ => became.users, fun f _ => by rw [memory]⟩, fun p mem f leads => ⟨?_, became.users⟩⟩
  · rw [became.free] at now
    rw [became.users]
    rcases new f now with was | ⟨-, entry⟩
    · exact h.intact.fresh f was
    · exact (residue_eq_some.1 entry).2.2
  · refine held f old fun notRoot n entry => ?_
    obtain ⟨d, linked⟩ := there.resolve_left notRoot
    exact (residue_eq_some.1 entry).2.1.2 d linked
  · obtain ⟨g, leads', apart⟩ := h.owned p mem
    cases leads.symm.trans leads'
    exact held f apart.held fun _ n entry => (residue_eq_some.1 entry).1 ⟨p, mem, leads⟩

theorem Sound.elsewhere_of_counted (h : s.Sound m own)
    (counted : Counted m.frames m'.frames f n) (memory : m'.memory = m.memory)
    (notRoot : f ≠ s.root) (other : f ∈ s.otherFrames m own) : s.Elsewhere m own m' := by
  obtain ⟨notOwned, held, notTable⟩ := mem_otherFrames.1 other
  obtain ⟨touches, -⟩ := h.intact.recounted m' ⟨held, notRoot, notTable, rfl⟩ counted memory
  refine ⟨touches.undisturbed, fun p mem g leads => ?_⟩
  obtain ⟨g', leads', apart⟩ := h.owned p mem
  cases leads.symm.trans leads'
  have still := touches.apart g 1 (fun same => notOwned ⟨p, mem, same ▸ leads⟩) apart
  exact ⟨still.held, still.users.trans apart.users.symm⟩

theorem Sound.elsewhere_of_request {request : FrameAllocator.Request}
    {answer : FrameAllocator.Answer} {b : FrameAllocator} (h : s.Sound m own)
    (spares : s.Spares m own request) (ran : request.run m.frames = .ok answer b)
    (frames : m'.frames = b) (memory : m'.memory = m.memory) : s.Elsewhere m own m' := by
  subst frames
  have managing := h.intact.frames
  have next := managing.follows ran
  have of_given : request.aboutUsers = false → (∀ f ∈ givenBack (request, answer),
      f ≠ s.root ∧ s.residue m own f = some 0) → s.Elsewhere m own m' := by
    intro frames back
    have became : Became m.frames m'.frames (freeAfter m.frames.freePages (request, answer)) :=
      ⟨next.managing, next.free, usage_of_run managing.toConsistent frames ran, next.sameMemory⟩
    exact h.elsewhere_of_became became memory fun f now => now.imp And.left (back f)
  cases request with
  | take | takeRegion start stop => exact of_given rfl fun f none => none.elim
  | release f => exact of_given rfl fun g same => (same : g = f) ▸ spares
  | releaseRegion start stop => exact of_given rfl spares
  | addUser f =>
    obtain ⟨n, b, added, rest⟩ := step_bind_eq_ok.1 ran
    obtain ⟨-, rfl⟩ := EStateM.Result.ok.inj rest
    obtain ⟨-, -, counted⟩ := managing.counted_of_addUser added
    exact h.elsewhere_of_counted counted memory spares.1 spares.2
  | removeUser f =>
    obtain ⟨n, b, removed, rest⟩ := step_bind_eq_ok.1 ran
    obtain ⟨-, rfl⟩ := EStateM.Result.ok.inj rest
    obtain ⟨-, -, counted⟩ := managing.counted_of_removeUser removed
    exact h.elsewhere_of_counted counted memory spares.1 spares.2

theorem Sound.linksWritable_of_releaseAll (h : s.Sound m own) (all : s.LinksWritable m.memory)
    (departing : s.Departing m own pages) (ran : s.releaseAll pages m = .ok () m') :
    s.LinksWritable m'.memory := by
  induction pages generalizing m with
  | nil =>
    cases ran
    exact all
  | cons page rest ih =>
    obtain ⟨f, m₁, -, released, yields, -, still, -⟩ := departing.first h
    obtain ⟨u, m₁', e, onward⟩ := step_bind_eq_ok.1 ran
    cases released.symm.trans e
    refine ih yields.sound ?_ still onward
    obtain ⟨frame, m₂, unmapped, freed⟩ := step_bind_eq_ok.1 released
    obtain ⟨frames, -, rfl⟩ := Paging.onFrames_eq_ok.1 freed
    exact all.of_extends (h.intact.grows_of_unmapPage unmapped).links

theorem Sound.of_releaseRange {result : Except MapError Nat} (h : s.Sound m own)
    (all : s.LinksWritable m.memory)
    (departing : s.Departing m own (Page.between start.page stop.page))
    (ran : s.releaseRange start stop m = .ok result m') :
    s.Sound m' own ∧ s.LinksWritable m'.memory := by
  constructor
  · rcases h.releaseRange_cases start stop departing.foreign departing.out departing.once with
      ⟨-, fault, e⟩ | ⟨result', m₁, e, sound, -⟩
    · exact nomatch e.symm.trans ran
    · obtain ⟨-, rfl⟩ := EStateM.Result.ok.inj (e.symm.trans ran)
      exact sound
  · rcases rangePages_ran ran with ⟨-, rfl⟩ | ⟨-, -, ran⟩
    · exact all
    · obtain ⟨u, m₁, released, rest⟩ := step_bind_eq_ok.1 ran
      have kept : s.LinksWritable m₁.memory :=
        h.linksWritable_of_releaseAll all departing released
      cases rest
      exact kept

end Ia32Memory.AddressSpace
