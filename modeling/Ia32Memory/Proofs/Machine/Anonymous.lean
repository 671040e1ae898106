import Ia32Memory.Machine.Range
import Ia32Memory.Proofs.Machine.Ledger

/-! Pages with frames of their own.
A page that was mapped to a frame fresh from the allocator owns this frame: it is no table, it has
one user, and no other such page has it.  So the frame can be given back when the page goes, and
what happens to it in between disturbs neither the tables nor other pages. -/

namespace Ia32Memory.AddressSpace
open FrameAllocator (Counted Became SameMemory)

variable {s : AddressSpace} {m m' m'' : Machine} {bare : Option Slot} {d : Slot}
  {f g frame : PhysicalPage} {flags : Entry} {page : VirtualPage} {n k : Nat}
  {own own' : Set VirtualPage} {map map' : VirtualPage → Option (PhysicalPage × Entry)}

structure Touches (s : AddressSpace) (m m' : Machine) (f : PhysicalPage) : Prop where
  undisturbed : s.Undisturbed m m'
  apart : ∀ g n, g ≠ f → s.Apart m g n → s.Apart m' g n

theorem Undisturbed.apart (h : s.Undisturbed m m') (held : m'.frames.Holds g)
    (users : m'.frames.users g = k) (apart : s.Apart m g n) : s.Apart m' g k :=
  ⟨held, apart.notRoot, fun d linked => apart.notTable d (h.links.1 linked), users⟩

theorem Apart.ne_of_structure (h : s.Apart m f n)
    (there : g = s.root ∨ ∃ d, s.Links m.memory d g) : g ≠ f := by
  rintro rfl
  rcases there with root | ⟨d, linked⟩
  · exact h.notRoot root
  · exact h.notTable d linked

theorem Intact.taken (h : s.Intact m bare) (m' : Machine) (free : f ∈ m.frames.freePages)
    (became : Became m.frames m'.frames (m.frames.freePages \ {f}))
    (memory : m'.memory = m.memory) :
    s.Touches m m' f ∧ s.Apart m' f 0 ∧ ∀ g n, s.Apart m g n → s.Apart m' g n ∧ g ≠ f := by
  have held : ∀ g, m.frames.Holds g → m'.frames.Holds g := by
    intro g old
    exact became.holds.2 ⟨old.1, fun now => old.2 now.1⟩
  have undisturbed : s.Undisturbed m m' := by
    refine ⟨became.managing, fun p now => ?_, became.sameMemory, fun g _ old => held g old,
      fun d g _ => became.users, fun g _ => by rw [memory]⟩
    rw [became.free] at now
    rw [became.users]
    exact h.fresh p now.1
  have others : ∀ g n, s.Apart m g n → s.Apart m' g n := fun g n apart =>
    undisturbed.apart (held g apart.held) (became.users.trans apart.users) apart
  refine ⟨⟨undisturbed, fun g n _ apart => others g n apart⟩, ⟨?_, ?_, fun d linked => ?_, ?_⟩,
    fun g n apart => ⟨others g n apart, ?_⟩⟩
  · exact became.holds.2 ⟨free.1, fun now => now.2 rfl⟩
  · rintro rfl
    exact h.rootHeld.2 free
  · exact (h.table d f (undisturbed.links.1 linked)).held.2 free
  · rw [became.users]
    exact h.fresh f free
  · rintro rfl
    exact apart.held.2 free

theorem Intact.released (h : s.Intact m bare) (m' : Machine) (apart : s.Apart m f 0)
    (became : Became m.frames m'.frames (m.frames.freePages ∪ {f}))
    (memory : m'.memory = m.memory) : s.Touches m m' f := by
  have held : ∀ g, g ≠ f → m.frames.Holds g → m'.frames.Holds g := by
    intro g other old
    exact became.holds.2 ⟨old.1, fun now => now.elim old.2 other⟩
  have undisturbed : s.Undisturbed m m' := by
    refine ⟨became.managing, fun p now => ?_, became.sameMemory,
      fun g there old => held g (apart.ne_of_structure there) old, fun d g _ => became.users,
      fun g _ => by rw [memory]⟩
    rw [became.free] at now
    rw [became.users]
    rcases now with old | same
    · exact h.fresh p old
    · rw [same]
      exact apart.users
  exact ⟨undisturbed, fun g n other old =>
    undisturbed.apart (held g other old.held) (became.users.trans old.users) old⟩

theorem Intact.recounted (h : s.Intact m bare) (m' : Machine) (apart : s.Apart m f n)
    (counted : Counted m.frames m'.frames f k) (memory : m'.memory = m.memory) :
    s.Touches m m' f ∧ s.Apart m' f k := by
  have undisturbed : s.Undisturbed m m' := by
    refine ⟨counted.managing, fun p now => ?_, counted.sameMemory,
      fun g _ old => counted.holds.2 old, fun d g linked => ?_, fun g _ => by rw [memory]⟩
    · rw [counted.free] at now
      rw [counted.users_of_ne now.1 fun same => apart.held.2 (same ▸ now)]
      exact h.fresh p now
    · exact counted.users_of_ne (h.table d g linked).held.1
        (apart.ne_of_structure (Or.inr ⟨d, linked⟩))
  refine ⟨⟨undisturbed, fun g n other old => ?_⟩, ?_⟩
  · exact undisturbed.apart (counted.holds.2 old.held)
      ((counted.users_of_ne old.held.1 other).trans old.users) old
  · refine undisturbed.apart (counted.holds.2 apart.held) ?_ apart
    rw [counted.users f apart.held.1, if_pos rfl]

theorem Intact.zeroed (h : s.Intact m bare) (m' : Machine) (apart : s.Apart m f n)
    (frames : m'.frames = m.frames) (memory : m'.memory = m.memory.clear f) :
    s.Touches m m' f ∧ s.Apart m' f n := by
  have undisturbed : s.Undisturbed m m' := by
    refine ⟨by rw [frames]; exact h.frames, by rw [frames]; exact h.fresh,
      by rw [frames]; exact .refl _, fun g _ old => by rw [frames]; exact old,
      fun d g _ => by rw [frames], fun g there => ?_⟩
    rw [memory, PhysicalMemory.clear, PhysicalMemory.frame_putFrame,
      if_neg (apart.ne_of_structure there).symm]
  have others : ∀ g n, s.Apart m g n → s.Apart m' g n := fun g n old =>
    undisturbed.apart (by rw [frames]; exact old.held) (by rw [frames]; exact old.users) old
  exact ⟨⟨undisturbed, fun g n _ old => others g n old⟩, others f n apart⟩

def frameOf (map : VirtualPage → Option (PhysicalPage × Entry)) (p : VirtualPage) :
    Option PhysicalPage := (map p).map Prod.fst

/-- An intact space in which some pages have frames of their own. -/
structure Sound (s : AddressSpace) (m : Machine) (own : Set VirtualPage) : Prop where
  intact : s.Intact m none
  owned : ∀ p ∈ own, ∃ f, frameOf (s.mapping m.memory) p = some f ∧ s.Apart m f 1
  distinct : ∀ p ∈ own, ∀ q ∈ own,
    frameOf (s.mapping m.memory) p = frameOf (s.mapping m.memory) q → p = q

theorem Intact.sound (h : s.Intact m none) : s.Sound m ∅ :=
  ⟨h, fun _ mem => mem.elim, fun _ mem => mem.elim⟩

/-- An operation leaves a sound space that stands for another map. -/
structure Yields (s : AddressSpace) (m m' : Machine) (own : Set VirtualPage)
    (map : VirtualPage → Option (PhysicalPage × Entry)) : Prop where
  sound : s.Sound m' own
  mapping : s.mapping m'.memory = map
  sameMemory : SameMemory m.frames m'.frames

theorem Yields.trans (h : s.Yields m m' own map) (h' : s.Yields m' m'' own' map') :
    s.Yields m m'' own' map' :=
  ⟨h'.sound, h'.mapping, h.sameMemory.trans h'.sameMemory⟩

theorem Sound.refl (h : s.Sound m own) : s.Yields m m own (s.mapping m.memory) :=
  ⟨h, rfl, .refl _⟩

theorem Sound.of_leaves (h : s.Sound m own) (leaves : s.Leaves m m' none map)
    (fewer : own' ⊆ own) (kept : ∀ p ∈ own', frameOf map p = frameOf (s.mapping m.memory) p) :
    s.Yields m m' own' map := by
  refine ⟨⟨leaves.intact, fun p mem => ?_, fun p hp q hq same => ?_⟩, leaves.mapping,
    leaves.sameMemory⟩
  · obtain ⟨f, leads, apart⟩ := h.owned p (fewer mem)
    rw [leaves.mapping, kept p mem]
    exact ⟨f, leads, leaves.apart f 1 apart⟩
  · rw [leaves.mapping, kept p hp, kept q hq] at same
    exact h.distinct p (fewer hp) q (fewer hq) same

theorem Sound.quiet (h : s.Sound m own) (quiet : Paging.Quiet m m') :
    s.Yields m m' own (s.mapping m.memory) :=
  h.of_leaves (h.intact.quiet quiet) subset_rfl fun _ _ => rfl

theorem Sound.of_touches (h : s.Sound m own) (touches : s.Touches m m' f)
    (nobody : ∀ p ∈ own, frameOf (s.mapping m.memory) p ≠ some f) :
    s.Yields m m' own (s.mapping m.memory) := by
  have mapping := touches.undisturbed.mapping
  refine ⟨⟨h.intact.elsewhere touches.undisturbed, fun p mem => ?_, fun p hp q hq same => ?_⟩,
    mapping, touches.undisturbed.sameMemory⟩
  · obtain ⟨g, leads, apart⟩ := h.owned p mem
    rw [mapping]
    refine ⟨g, leads, touches.apart g 1 ?_ apart⟩
    rintro rfl
    exact nobody p mem leads
  · rw [mapping] at same
    exact h.distinct p hp q hq same

theorem frameOf_update_self (map : VirtualPage → Option (PhysicalPage × Entry))
    (page : VirtualPage) (v : Option (PhysicalPage × Entry)) :
    frameOf (Function.update map page v) page = v.map Prod.fst := by
  rw [frameOf, Function.update_self]

theorem frameOf_update_of_ne {p : VirtualPage} (ne : p ≠ page) (v : Option (PhysicalPage × Entry)) :
    frameOf (Function.update map page v) p = frameOf map p := by
  rw [frameOf, Function.update_of_ne ne, frameOf]

theorem frameOf_update_flags (map : VirtualPage → Option (PhysicalPage × Entry))
    (page p : VirtualPage) (reflag : Entry → Entry) :
    frameOf (Function.update map page ((map page).map fun v => (v.1, reflag v.2))) p =
      frameOf map p := by
  by_cases same : p = page
  · rw [same, frameOf_update_self, Option.map_map]
    rfl
  · exact frameOf_update_of_ne same _

theorem Sound.ne_of_mem {p : VirtualPage} (h : s.Sound m own)
    (unmapped : s.mapping m.memory page = none) (mem : p ∈ own) : p ≠ page := by
  rintro rfl
  obtain ⟨f, leads, -⟩ := h.owned p mem
  rw [frameOf, unmapped] at leads
  exact nomatch leads

theorem Sound.joined (h : s.Sound m own) (maps : s.mapping m.memory page = some (f, flags))
    (apart : s.Apart m f 1) (nobody : ∀ p ∈ own, frameOf (s.mapping m.memory) p ≠ some f) :
    s.Sound m (insert page own) := by
  have leads : frameOf (s.mapping m.memory) page = some f := by
    rw [frameOf, maps]
    rfl
  refine ⟨h.intact, fun p mem => ?_, fun p hp q hq same => ?_⟩
  · rcases mem with rfl | mem
    · exact ⟨f, leads, apart⟩
    · exact h.owned p mem
  · rcases hp with rfl | hp <;> rcases hq with rfl | hq
    · rfl
    · exact absurd (same.symm.trans leads) (nobody q hq)
    · exact absurd (same.trans leads) (nobody p hp)
    · exact h.distinct p hp q hq same

theorem Sound.mapPage_of_unmapped (h : s.Sound m own) (ordinary : page.directorySlot ≠ .recursive)
    (unmapped : s.mapping m.memory page = none) (frame : PhysicalPage) (flags : Entry) :
    (s.Starved m page ∧ ∃ m', s.mapPage page frame flags m = .ok (.error .outOfMemory) m' ∧
      s.Yields m m' own (s.mapping m.memory)) ∨
    ∃ m', s.mapPage page frame flags m = .ok (.ok ()) m' ∧ s.Yields m m' own
      (Function.update (s.mapping m.memory) page (some (frame, flags.leafFlags))) := by
  rcases h.intact.mapPage_of_unmapped ordinary unmapped frame flags with
    ⟨starved, m', e, quiet⟩ | ⟨m', e, leaves⟩
  · exact Or.inl ⟨starved, m', e, h.quiet quiet⟩
  · exact Or.inr ⟨m', e, h.of_leaves leaves subset_rfl fun p mem =>
      frameOf_update_of_ne (h.ne_of_mem unmapped mem) _⟩

theorem Sound.mapPage_of_free (h : s.Sound m own) (ordinary : page.directorySlot ≠ .recursive)
    (unmapped : s.mapping m.memory page = none) (unmetered : m.quota = none)
    (free : m.frames.freePages ≠ ∅) (frame : PhysicalPage) (flags : Entry) :
    ∃ m', s.mapPage page frame flags m = .ok (.ok ()) m' ∧ s.Yields m m' own
      (Function.update (s.mapping m.memory) page (some (frame, flags.leafFlags))) := by
  rcases h.mapPage_of_unmapped ordinary unmapped frame flags with
    ⟨⟨-, spent | none⟩, -⟩ | mapped
  · rw [unmetered] at spent
    exact nomatch spent
  · exact absurd none free
  · exact mapped

theorem Sound.mapPage_cases (h : s.Sound m own) (page : VirtualPage) (frame : PhysicalPage)
    (flags : Entry) :
    (page.directorySlot = .recursive ∧
      s.mapPage page frame flags m = .ok (.error (.reservedWindow page.base)) m) ∨
    (s.mapping m.memory page ≠ none ∧
      ∃ fault, s.mapPage page frame flags m = .error fault m) ∨
    (page.directorySlot ≠ .recursive ∧ s.mapping m.memory page = none ∧
      ((s.Starved m page ∧ ∃ m', s.mapPage page frame flags m = .ok (.error .outOfMemory) m' ∧
        s.Yields m m' own (s.mapping m.memory)) ∨
      ∃ m', s.mapPage page frame flags m = .ok (.ok ()) m' ∧ s.Yields m m' own
        (Function.update (s.mapping m.memory) page (some (frame, flags.leafFlags))))) := by
  by_cases last : page.directorySlot = .recursive
  · exact Or.inl ⟨last, mapPage_of_recursive last⟩
  · refine Or.inr ?_
    cases maps : s.mapping m.memory page with
    | some v => exact Or.inl ⟨nofun, _, h.intact.mapPage_of_mapped maps frame flags⟩
    | none => exact Or.inr ⟨last, rfl, h.mapPage_of_unmapped last maps frame flags⟩

theorem Sound.of_mapPage (h : s.Sound m own)
    (ran : s.mapPage page frame flags m = .ok (.ok ()) m') :
    s.mapping m.memory page = none ∧ s.Yields m m' own
      (Function.update (s.mapping m.memory) page (some (frame, flags.leafFlags))) := by
  obtain ⟨-, unmapped, leaves⟩ := h.intact.of_mapPage ran
  exact ⟨unmapped, h.of_leaves leaves subset_rfl fun p mem =>
    frameOf_update_of_ne (h.ne_of_mem unmapped mem) _⟩

theorem Sound.of_unmapPage (h : s.Sound m own) (ran : s.unmapPage page m = .ok frame m') :
    s.Yields m m' (own \ {page}) (Function.update (s.mapping m.memory) page none) :=
  h.of_leaves (h.intact.of_unmapPage ran).2 Set.sdiff_subset fun _ mem =>
    frameOf_update_of_ne mem.2 _

theorem Sound.unmapPage_of_mapped (h : s.Sound m own)
    (mapped : s.mapping m.memory page = some (frame, flags)) :
    ∃ m', s.unmapPage page m = .ok frame m' ∧
      s.Yields m m' (own \ {page}) (Function.update (s.mapping m.memory) page none) := by
  obtain ⟨m', e, -⟩ := h.intact.unmapPage_of_mapped mapped
  exact ⟨m', e, h.of_unmapPage e⟩

theorem Sound.of_setWritable {writable : Bool} (h : s.Sound m own)
    (ran : s.setWritable page writable m = .ok () m') :
    s.Yields m m' own (Function.update (s.mapping m.memory) page
      ((s.mapping m.memory page).map fun v => (v.1, v.2.withWritable writable))) :=
  h.of_leaves (h.intact.of_setWritable ran) subset_rfl fun p _ =>
    frameOf_update_flags _ page p fun e => e.withWritable writable

theorem Sound.setWritable_of_mapped (h : s.Sound m own)
    (mapped : s.mapping m.memory page = some (frame, flags)) (writable : Bool) :
    ∃ m', s.setWritable page writable m = .ok () m' ∧ s.Yields m m' own
      (Function.update (s.mapping m.memory) page (some (frame, flags.withWritable writable))) := by
  obtain ⟨m', e, -⟩ := h.intact.setWritable_of_mapped mapped writable
  have yields := h.of_setWritable e
  rw [mapped] at yields
  exact ⟨m', e, yields⟩

theorem Sound.nobody (h : s.Sound m own) (apart : s.Apart m f n) (other : n ≠ 1) :
    ∀ p ∈ own, frameOf (s.mapping m.memory) p ≠ some f := by
  intro p mem leads
  obtain ⟨g, leads', owned⟩ := h.owned p mem
  cases leads.symm.trans leads'
  exact other (apart.users.symm.trans owned.users)

theorem Sound.taken (h : s.Sound m own) (m' : Machine) (free : f ∈ m.frames.freePages)
    (became : Became m.frames m'.frames (m.frames.freePages \ {f}))
    (memory : m'.memory = m.memory) :
    s.Yields m m' own (s.mapping m.memory) ∧ s.Apart m' f 0 ∧ s.Grows {f} m m' := by
  obtain ⟨touches, apart, others⟩ := h.intact.taken m' free became memory
  refine ⟨h.of_touches touches fun p mem leads => ?_, apart, ?_⟩
  · obtain ⟨g, leads', owned⟩ := h.owned p mem
    cases leads.symm.trans leads'
    exact (others f 1 owned).2 rfl
  · exact (grows_of_became became (fun g other => ⟨And.left, fun old => ⟨old, other⟩⟩) memory).1

theorem Sound.releaseFrame (h : s.Sound m own) (apart : s.Apart m f 0) :
    ∃ frames, Paging.releaseFrame f m = .ok () (m.withFrames frames) ∧
      Became m.frames frames (m.frames.freePages ∪ {f}) ∧
      s.Yields m (m.withFrames frames) own (s.mapping m.memory) := by
  rcases h.intact.frames.release f with ⟨why, -⟩ | ⟨-, -, frames, released, became⟩
  · exact absurd why (not_or.2 ⟨not_not_intro apart.held.1, apart.held.2⟩)
  · refine ⟨frames, Paging.onFrames_ok released, became, ?_⟩
    exact h.of_touches (h.intact.released (m.withFrames frames) apart became rfl)
      (h.nobody apart (by decide))

theorem Sound.addUser (h : s.Sound m own) (apart : s.Apart m f 0) :
    ∃ frames, Paging.addUser f m = .ok 1 (m.withFrames frames) ∧ Counted m.frames frames f 1 ∧
      s.Yields m (m.withFrames frames) own (s.mapping m.memory) ∧
      s.Apart (m.withFrames frames) f 1 := by
  have users := apart.users
  rcases h.intact.frames.addUser apart.held.1 with ⟨full, -⟩ | ⟨-, frames, added, counted⟩
  · rw [users] at full
    exact absurd full (by decide)
  · rw [users] at added counted
    obtain ⟨touches, one⟩ :=
      h.intact.recounted (m.withFrames frames) apart counted rfl
    refine ⟨frames, Paging.onFrames_ok added, counted, ?_, one⟩
    exact h.of_touches touches (h.nobody apart (by decide))

theorem Sound.removeUser (h : s.Sound m own) (apart : s.Apart m f 1)
    (nobody : ∀ p ∈ own, frameOf (s.mapping m.memory) p ≠ some f) :
    ∃ frames, Paging.removeUser f m = .ok 0 (m.withFrames frames) ∧
      Counted m.frames frames f 0 ∧ s.Yields m (m.withFrames frames) own (s.mapping m.memory) ∧
      s.Apart (m.withFrames frames) f 0 := by
  have users := apart.users
  rcases h.intact.frames.removeUser apart.held.1 with ⟨none, -⟩ | ⟨-, frames, removed, counted⟩
  · rw [users] at none
    exact absurd none (by decide)
  · rw [users] at removed counted
    obtain ⟨touches, zero⟩ :=
      h.intact.recounted (m.withFrames frames) apart counted rfl
    exact ⟨frames, Paging.onFrames_ok removed, counted, h.of_touches touches nobody, zero⟩

def emptied (s : AddressSpace) (m : Machine) (page : VirtualPage) (f : PhysicalPage) : Machine :=
  { m with memory := m.memory.clear f }.noted
    (.zeroed page f (s.entryIn m.memory page).toOption.join)

theorem Sound.zeroPage (h : s.Sound m own) (maps : s.mapping m.memory page = some (f, flags))
    (apart : s.Apart m f n)
    (nobody : ∀ p ∈ own, frameOf (s.mapping m.memory) p ≠ some f) :
    s.zeroPage page f m = .ok () (s.emptied m page f) ∧
      s.Yields m (s.emptied m page f) own (s.mapping m.memory) ∧
      s.Apart (s.emptied m page f) f n := by
  obtain ⟨g, linked, leaf⟩ := links_of_mapping maps
  obtain ⟨touches, still⟩ :=
    h.intact.zeroed (s.emptied m page f) apart rfl rfl
  refine ⟨?_, h.of_touches touches nobody, still⟩
  have shown : s.view.frameIn m.memory page f = .ok f := by
    rw [← linked.frame] at leaf
    refine h.intact.sees.frameIn_page h.intact.rootHeld.1 linked.present ?_ leaf apart.held.1
    rw [linked.frame]
    exact (h.intact.table _ g linked).held.1
  exact step_lift_bind_of_ok shown _ _

def prepare (s : AddressSpace) (page : VirtualPage) (frame : PhysicalPage) (flags : Entry) :
    Paging (Except MapError PhysicalPage) := do
  let _ ← Paging.addUser frame
  s.zeroPage page frame
  unless flags.writable do s.setWritable page false
  return .ok frame

theorem Sound.prepare (h : s.Sound m own) (apart : s.Apart m f 0)
    (maps : s.mapping m.memory page = some (f, (flags.withWritable true).leafFlags)) :
    ∃ m', s.prepare page f flags m = .ok (.ok f) m' ∧ s.Yields m m' (insert page own)
      (Function.update (s.mapping m.memory) page (some (f, flags.leafFlags))) ∧
      s.Grows {f} m m' := by
  have ordinary : page.directorySlot ≠ .recursive := by
    intro last
    rw [mapping_of_recursive last] at maps
    exact nomatch maps
  obtain ⟨frames, added, counted, users, one⟩ := h.addUser apart
  let m₁ := m.withFrames frames
  have nobody := h.nobody apart (by decide)
  rw [← users.mapping] at maps nobody
  obtain ⟨zeroed, emptied, still⟩ := users.sound.zeroPage maps one nobody
  let m₂ := s.emptied m₁ page f
  rw [← emptied.mapping] at maps nobody
  have joined : s.Yields m m₂ (insert page own) (s.mapping m.memory) :=
    ⟨emptied.sound.joined maps still nobody, emptied.mapping.trans users.mapping,
      users.sameMemory.trans emptied.sameMemory⟩
  have grown : s.Grows {f} m m₂ := by
    have recounted : s.Grows {f} m m₁ ∧ s.Grows {f} m₁ m :=
      grows_of_counted counted (Or.inl rfl) fun _ => rfl
    have cleared : s.Grows {f} m₁ m₂ ∧ s.Grows {f} m₂ m₁ :=
      grows_of_same rfl (link_clear m₁.memory apart.notRoot)
    exact recounted.1.trans cleared.1
  have begun : ∀ rest : Paging (Except MapError PhysicalPage),
      (do
        let _ ← Paging.addUser f
        s.zeroPage page f
        rest) m = rest m₂ := by
    intro rest
    refine (step_bind_ok added _).trans ?_
    exact step_bind_ok zeroed _
  unfold AddressSpace.prepare
  cases writable : flags.writable with
  | true =>
    have same : flags.withWritable true = flags := by
      rw [← writable]
      exact Entry.withWritable_self flags
    rw [emptied.mapping, users.mapping, same] at maps
    refine ⟨m₂, (begun _).trans rfl, ?_, grown⟩
    rw [← maps, Function.update_eq_self]
    exact joined
  | false =>
    obtain ⟨m₃, protects, shielded⟩ := joined.sound.setWritable_of_mapped maps false
    have back : flags.withWritable false = flags := by
      rw [← writable]
      exact Entry.withWritable_self flags
    rw [joined.mapping, Entry.leafFlags_withWritable, Entry.withWritable_withWritable,
      ← Entry.leafFlags_withWritable, back] at shielded
    exact ⟨m₃, (begun _).trans ((step_bind_ok protects _).trans rfl), joined.trans shielded,
      grown.trans (joined.sound.intact.grows_of_setWritable ordinary protects)⟩

/-- A page gets a frame of its own that was free before.  Whatever is refused, a frame that was
taken goes back, and memory was not written. -/
theorem Sound.allocPage_cases (h : s.Sound m own) (page : VirtualPage) (flags : Entry) :
    (∃ e m', s.allocPage page flags m = .ok (.error e) m' ∧
      s.Yields m m' own (s.mapping m.memory) ∧ s.ledger m' = s.ledger m ∧
      m'.memory = m.memory) ∨
    (s.mapping m.memory page ≠ none ∧ ∃ fault m', s.allocPage page flags m = .error fault m') ∨
    (page.directorySlot ≠ .recursive ∧ s.mapping m.memory page = none ∧
      ∃ f m', s.allocPage page flags m = .ok (.ok f) m' ∧ s.Yields m m' (insert page own)
        (Function.update (s.mapping m.memory) page (some (f, flags.leafFlags))) ∧
        s.ledger m f = none ∧ s.Grows {f} m m') := by
  rcases Paging.takeFrame_cases h.intact.frames with ⟨-, m', missed, quiet⟩ |
    ⟨-, f, frames, free, -, took, became⟩
  · refine Or.inl ⟨.outOfMemory, m', (step_bind_ok missed _).trans rfl, h.quiet quiet, ?_,
      quiet.memory⟩
    funext g
    exact (Grows.of_quiet quiet).ledger g (Set.notMem_empty g)
  · let m₁ := (Paging.metered m).withFrames frames
    obtain ⟨taken, apart, grown⟩ := h.taken m₁ free became rfl
    have sameMap : s.mapping m₁.memory = s.mapping m.memory := taken.mapping
    -- Whatever the refusal, the frame is still nobody's and goes back.
    have failed : ∀ e m₂, s.mapPage page f (flags.withWritable true) m₁ = .ok (.error e) m₂ →
        Paging.Quiet m₁ m₂ →
        ∃ m', s.allocPage page flags m = .ok (.error e) m' ∧
          s.Yields m m' own (s.mapping m.memory) ∧ s.ledger m' = s.ledger m ∧
          m'.memory = m.memory := by
      intro e m₂ refused quiet
      have kept := taken.sound.quiet quiet
      obtain ⟨frames, released, back, undone⟩ :=
        kept.sound.releaseFrame ((taken.sound.intact.quiet quiet).apart f 0 apart)
      have whole := taken.trans (kept.trans undone)
      rw [kept.mapping, sameMap] at whole
      refine ⟨m₂.withFrames frames, (step_bind_ok took _).trans ((step_bind_ok refused _).trans ?_),
        whole, ?_, quiet.memory⟩
      · exact (step_bind_ok released _).trans rfl
      · funext g
        by_cases same : g = f
        · rw [same, ledger_of_free free]
          exact ledger_of_free (Eq.mpr (congrArg (f ∈ ·) back.free) (Or.inr rfl))
        · have given : s.Grows {f} m₂ (m₂.withFrames frames) ∧ _ :=
            grows_of_became back (fun g other => ⟨fun now => now.resolve_right other, Or.inl⟩) rfl
          exact ((grown.trans (Grows.of_quiet quiet)).trans given.1).ledger g same
    by_cases last : page.directorySlot = .recursive
    · obtain ⟨m', refusal⟩ := failed _ m₁ (mapPage_of_recursive last) (.refl m₁)
      exact Or.inl ⟨_, m', refusal⟩
    · cases maps : s.mapping m.memory page with
      | some v =>
        rw [← sameMap] at maps
        have refused := taken.sound.intact.mapPage_of_mapped maps f (flags.withWritable true)
        have stopped : s.allocPage page flags m = .error (.alreadyMapped page v.1) m₁ :=
          (step_bind_ok took _).trans (step_bind_error refused _)
        exact Or.inr (Or.inl ⟨nofun, _, m₁, stopped⟩)
      | none =>
        rw [← sameMap] at maps
        rcases taken.sound.intact.mapPage_of_unmapped last maps f (flags.withWritable true) with
          ⟨-, m₂, refused, quiet⟩ | ⟨m₂, mapped, leaves⟩
        · obtain ⟨m', refusal⟩ := failed _ m₂ refused quiet
          exact Or.inl ⟨_, m', refusal⟩
        · have kept := taken.sound.of_leaves leaves subset_rfl fun p mem =>
            frameOf_update_of_ne (taken.sound.ne_of_mem maps mem) _
          have leads : s.mapping m₂.memory page =
              some (f, (flags.withWritable true).leafFlags) := by
            rw [kept.mapping, Function.update_self]
          obtain ⟨m', prepared, yields, grows⟩ := kept.sound.prepare (leaves.apart f 0 apart) leads
          have whole := taken.trans (kept.trans yields)
          rw [kept.mapping, Function.update_idem, sameMap] at whole
          have mapping : s.Grows {f} m₁ m₂ := (taken.sound.intact.grows_of_mapPage mapped).mono
          refine Or.inr (Or.inr ⟨last, rfl, f, m', ?_, whole, ledger_of_free free, ?_⟩)
          · exact (step_bind_ok took _).trans ((step_bind_ok mapped _).trans prepared)
          · exact grown.trans (mapping.trans grows)

theorem Sound.of_allocPage (h : s.Sound m own)
    (ran : s.allocPage page flags m = .ok (.ok f) m') :
    page.directorySlot ≠ .recursive ∧ s.mapping m.memory page = none ∧
      s.Yields m m' (insert page own)
        (Function.update (s.mapping m.memory) page (some (f, flags.leafFlags))) ∧
      s.ledger m f = none ∧ s.Grows {f} m m' := by
  rcases h.allocPage_cases page flags with ⟨e, m₁, e', -⟩ | ⟨-, fault, m₁, e'⟩ |
    ⟨ordinary, unmapped, g, m₁, e', more⟩
  · exact nomatch e'.symm.trans ran
  · exact nomatch e'.symm.trans ran
  · cases e'.symm.trans ran
    exact ⟨ordinary, unmapped, more⟩

/-- The stages of an allocation: the frame is taken, the page mapped to it writable, the frame
counted and emptied, and the page protected when that was asked for. -/
structure Stages (s : AddressSpace) (m : Machine) (page : VirtualPage) (flags : Entry)
    (f : PhysicalPage) (m₁ m₂ m₃ m' : Machine) : Prop where
  ordinary : page.directorySlot ≠ .recursive
  granted : m.quota ≠ some 0 ∧ m₁.quota = m.quota.map (· - 1)
  free : f ∈ m.frames.freePages
  became : Became m.frames m₁.frames (m.frames.freePages \ {f})
  taken : m₁.memory = m.memory ∧ m₁.record.events = m.record.events ∧ s.Intact m₁ none
  mapped : s.mapPage page f (flags.withWritable true) m₁ = .ok (.ok ()) m₂
  counted : m₃.memory = m₂.memory ∧ m₃.record.events = m₂.record.events ∧ s.Intact m₃ none
  users : m₃.quota = m₂.quota ∧ Counted m₂.frames m₃.frames f 1
  apart : s.Apart m₃ f 1
  emptied : s.Intact (s.emptied m₃ page f) none
  finished : (flags.writable = true ∧ m' = s.emptied m₃ page f) ∨
    (flags.writable = false ∧ s.setWritable page false (s.emptied m₃ page f) = .ok () m')

/-- What an allocation has gone through.  A refusal has told nothing of memory. -/
theorem Sound.allocPage_stages {result : Except MapError PhysicalPage} (h : s.Sound m own)
    (ran : s.allocPage page flags m = .ok result m') :
    (∃ e, result = .error e ∧ m'.memory = m.memory ∧ m'.record.events = m.record.events) ∨
    ∃ f m₁ m₂ m₃, result = .ok f ∧ s.Stages m page flags f m₁ m₂ m₃ m' := by
  unfold AddressSpace.allocPage at ran
  obtain ⟨taken, m₁, took, rest⟩ := step_bind_eq_ok.1 ran
  rcases Paging.takeFrame_cases h.intact.frames with ⟨-, m₂, missed, quiet⟩ |
    ⟨left, f, frames, free, -, took', became⟩
  · cases missed.symm.trans took
    cases rest
    exact Or.inl ⟨_, rfl, quiet.memory, quiet.events⟩
  · cases took'.symm.trans took
    let m₁ := (Paging.metered m).withFrames frames
    obtain ⟨fresh, apart, -⟩ := h.taken m₁ free became rfl
    obtain ⟨answer, m₂, answered, rest⟩ := step_bind_eq_ok.1 rest
    cases answer with
    | error e =>
      have quiet := fresh.sound.intact.quiet_of_refused answered
      obtain ⟨u, m₃, released, rest⟩ := step_bind_eq_ok.1 rest
      obtain ⟨frames', -, rfl⟩ := Paging.onFrames_eq_ok.1 released
      cases rest
      exact Or.inl ⟨_, rfl, quiet.memory, quiet.events⟩
    | ok u =>
      obtain ⟨ordinary, -, leaves⟩ := fresh.sound.intact.of_mapPage answered
      obtain ⟨-, kept⟩ := fresh.sound.of_mapPage answered
      obtain ⟨frames', added, counted, users, one⟩ := kept.sound.addUser (leaves.apart f 0 apart)
      let m₃ := m₂.withFrames frames'
      have maps : s.mapping m₃.memory page = some (f, (flags.withWritable true).leafFlags) := by
        rw [users.mapping, kept.mapping, Function.update_self]
      have nobody : ∀ p ∈ own, frameOf (s.mapping m₃.memory) p ≠ some f := by
        rw [users.mapping]
        exact kept.sound.nobody (leaves.apart f 0 apart) (by decide)
      obtain ⟨zeroed, emptied, -⟩ := users.sound.zeroPage maps one nobody
      -- Up to the fill it is the same, whether the page is to be written to later on or not.
      have stages : ∀ m', (flags.writable = true ∧ m' = s.emptied m₃ page f) ∨
          (flags.writable = false ∧
            s.setWritable page false (s.emptied m₃ page f) = .ok () m') →
          s.Stages m page flags f m₁ m₂ m₃ m' := fun m' finished =>
        ⟨ordinary, ⟨left, rfl⟩, free, became, ⟨rfl, rfl, fresh.sound.intact⟩, answered,
          ⟨rfl, rfl, users.sound.intact⟩, ⟨rfl, counted⟩, one, emptied.sound.intact, finished⟩
      have ended := (step_bind_ok added _).symm.trans rest
      replace ended := (step_bind_ok zeroed _).symm.trans ended
      cases writable : flags.writable with
      | true =>
        simp only [writable, if_true] at ended
        cases ended
        exact Or.inr ⟨f, m₁, m₂, m₃, rfl, stages _ (Or.inl ⟨writable, rfl⟩)⟩
      | false =>
        simp only [writable, Bool.false_eq_true, if_false] at ended
        obtain ⟨u', m₄, protects, rest⟩ := step_bind_eq_ok.1 ended
        cases rest
        exact Or.inr ⟨f, m₁, m₂, m₃, rfl, stages _ (Or.inr ⟨writable, protects⟩)⟩

theorem Stages.link (stages : s.Stages m page flags f m₁ m₂ m₃ m') (d : Slot) :
    s.link m'.memory d = s.link m₂.memory d := by
  have emptied : s.link (s.emptied m₃ page f).memory d = s.link m₂.memory d :=
    (link_clear m₃.memory stages.apart.notRoot d).trans (by rw [stages.counted.1])
  rcases stages.finished with ⟨-, rfl⟩ | ⟨-, protects⟩
  · exact emptied
  · exact ((stages.emptied.same_of_setWritable stages.ordinary protects).2 d).trans emptied

section Stages
variable (stages : s.Stages m page flags f m₁ m₂ m₃ m')
include stages

theorem Stages.frame_of_emptied (notTable : ∀ d, ¬s.Links m'.memory d g) :
    m'.memory.frame g = (s.emptied m₃ page f).memory.frame g := by
  rcases stages.finished with ⟨-, rfl⟩ | ⟨-, protects⟩
  · rfl
  · have link := (stages.emptied.same_of_setWritable stages.ordinary protects).2
    obtain ⟨t, consulted, -, rfl⟩ := stages.emptied.shielded_of_setWritable protects
    refine (PhysicalMemory.frame_put ..).trans (if_neg ?_)
    rintro rfl
    cases consulted with
    | directory last => exact stages.ordinary last
    | table linked => exact notTable _ (linked.of_same (link _))

theorem Stages.links_iff : s.Links m'.memory d g ↔ s.Links m₃.memory d g := by
  have same := stages.link d
  rw [← stages.counted.1] at same
  exact links_iff_of_same same

theorem Stages.filled : m'.memory.frame f = EntryTable.zero := by
  rw [stages.frame_of_emptied fun d linked => stages.apart.notTable d (stages.links_iff.1 linked)]
  exact (PhysicalMemory.frame_putFrame ..).trans (if_pos rfl)

theorem Stages.frame_of_ne (other : f ≠ g) (notRoot : g ≠ s.root)
    (notTable : ∀ d, ¬s.Links m'.memory d g) : m'.memory.frame g = m.memory.frame g := by
  rw [stages.frame_of_emptied notTable]
  refine (PhysicalMemory.frame_putFrame ..).trans ((if_neg other).trans ?_)
  have before : ∀ d, ¬s.Links m₂.memory d g := by
    intro d linked
    refine notTable d (stages.links_iff.2 ?_)
    rwa [stages.counted.1]
  rw [stages.counted.1, stages.taken.2.2.frame_of_mapPage stages.mapped notRoot before,
    stages.taken.1]

end Stages

theorem Sound.freePage (h : s.Sound m own) (mem : page ∈ own) :
    ∃ m', s.freePage page m = .ok () m' ∧
      s.Yields m m' (own \ {page}) (Function.update (s.mapping m.memory) page none) ∧
      ∃ f, frameOf (s.mapping m.memory) page = some f ∧ s.ledger m' f = none ∧
        s.Grows {f} m' m := by
  obtain ⟨f, leads, apart⟩ := h.owned page mem
  obtain ⟨v, maps, same⟩ := Option.map_eq_some_iff.1 leads
  obtain ⟨g, flags⟩ := v
  cases same
  obtain ⟨m₁, unmapped, leaves⟩ := h.intact.unmapPage_of_mapped maps
  have gone : s.Yields m m₁ (own \ {page}) (Function.update (s.mapping m.memory) page none) :=
    h.of_leaves leaves Set.sdiff_subset fun p mem => frameOf_update_of_ne mem.2 _
  have nobody : ∀ p ∈ own \ {page}, frameOf (s.mapping m₁.memory) p ≠ some g := by
    intro p other same
    rw [gone.mapping, frameOf_update_of_ne other.2, ← leads] at same
    exact other.2 (h.distinct p other.1 page mem same)
  obtain ⟨frames, removed, counted, users, zero⟩ :=
    gone.sound.removeUser (leaves.apart g 1 apart) nobody
  let m₂ := m₁.withFrames frames
  obtain ⟨frames', released, back, undone⟩ := users.sound.releaseFrame zero
  let m₃ := m₂.withFrames frames'
  have whole := gone.trans (users.trans undone)
  rw [users.mapping, gone.mapping] at whole
  refine ⟨m₃, ?_, whole, g, leads, ?_, ?_⟩
  · refine (step_bind_ok unmapped _).trans ((step_bind_ok removed _).trans ?_)
    exact released
  · exact ledger_of_free (Eq.mpr (congrArg (g ∈ ·) back.free) (Or.inr rfl))
  · have unmapping : s.Grows {g} m₁ m := (h.intact.grows_of_unmapPage unmapped).mono
    have recounted : s.Grows {g} m₁ m₂ ∧ s.Grows {g} m₂ m₁ :=
      grows_of_counted counted (Or.inl rfl) fun _ => rfl
    have given : s.Grows {g} m₂ m₃ ∧ s.Grows {g} m₃ m₂ :=
      grows_of_became back (fun g other => ⟨fun now => now.resolve_right other, Or.inl⟩) rfl
    exact given.2.trans (recounted.2.trans unmapping)

end Ia32Memory.AddressSpace
