import Ia32Memory.Proofs.Machine.Lifetime

/-! An address space as a map from pages to frames and flags.
The directory and its tables stand for a map on the pages outside the last slot.  Each operation
does to this map what its name says, at the pages it is about and at no others, whatever tables
come and go for it; an operation on one page stops with a fault exactly when the map does not allow
it; and looking up an address gives what the map has. -/

namespace Ia32Memory.AddressSpace
variable {s : AddressSpace} {m m' : Machine} {own : Set VirtualPage} {bare : Option Slot}
  {p page : VirtualPage} {flags : Entry}

def Stops {α : Type} (step : Paging α) (m : Machine) : Prop := ∃ fault m', step m = .error fault m'

/-- What operations do to a map, and what is read from it. -/
structure ActsAsMap (s : AddressSpace) (m : Machine) (own : Set VirtualPage)
    (map : VirtualPage → Option (PhysicalPage × Entry)) : Prop where
  outside : ∀ page, page.directorySlot = .recursive → map page = none
  mapPage_stops : ∀ page frame flags, Stops (s.mapPage page frame flags) m ↔
    page.directorySlot ≠ .recursive ∧ map page ≠ none
  mapPage : ∀ page frame flags m', s.mapPage page frame flags m = .ok (.ok ()) m' →
    s.mapping m'.memory = Function.update map page (some (frame, flags.leafFlags))
  unmapPage_stops : ∀ page, Stops (s.unmapPage page) m ↔
    page.directorySlot = .recursive ∨ map page = none
  unmapPage : ∀ page frame m', s.unmapPage page m = .ok frame m' →
    (∃ flags, map page = some (frame, flags)) ∧
      s.mapping m'.memory = Function.update map page none
  setWritable : ∀ page writable frame flags, map page = some (frame, flags) →
    ∃ m', s.setWritable page writable m = .ok () m' ∧ s.mapping m'.memory =
      Function.update map page (some (frame, flags.withWritable writable))
  allocPage : ∀ page flags frame m', s.allocPage page flags m = .ok (.ok frame) m' →
    s.mapping m'.memory = Function.update map page (some (frame, flags.leafFlags))
  freePage : ∀ page ∈ own, ∃ m', s.freePage page m = .ok () m' ∧
    s.mapping m'.memory = Function.update map page none
  mapRange : ∀ start stop flags m', s.mapRange start stop flags m = .ok (.ok ()) m' →
    ∀ p ∈ Request.row start stop, map p = none ∧
      ∃ frame, s.mapping m'.memory p = some (frame, flags.leafFlags)
  mapDirect : ∀ start stop target flags m',
    s.mapDirect start stop target flags m = .ok (.ok ()) m' →
    ∀ p ∈ Request.row start stop, map p = none ∧
      ∃ address, target.add (p.base.toNat - start.toNat) = .ok address ∧
        s.mapping m'.memory p = some (address.page, flags.leafFlags)
  unmapRange : ∀ start stop m', Request.row start stop ⊆ own →
    s.unmapRange start stop m = .ok (.ok ()) m' →
    ∀ p ∈ Request.row start stop, s.mapping m'.memory p = none
  unmapDirect : ∀ start stop m', s.unmapDirect start stop m = .ok (.ok ()) m' →
    ∀ p ∈ Request.row start stop, s.mapping m'.memory p = none
  others : ∀ (request : Request) (answer : Answer) m', request.Permitted own →
    request.run s m = .ok answer m' → ∀ p, p ∉ request.pages → s.mapping m'.memory p = map p
  refused : ∀ (request : Request) (answer : Answer) m', request.Permitted own →
    request.run s m = .ok answer m' → answer.Refuses → s.mapping m'.memory = map
  query : ∀ address : VirtualAddress, address.page.directorySlot ≠ .recursive →
    s.query address m = .ok ((map address.page).map fun v => v.1.join address.offset) m
  entry : ∀ page, page.directorySlot ≠ .recursive →
    ∃ e, s.entry? page m = .ok e m ∧ e.bind Entry.mapped? = map page
  walk : ∀ address : VirtualAddress, address.page.directorySlot ≠ .recursive →
    ∃ w, s.walk address m = .ok w m ∧ w.address = address ∧
      w.leaf.bind Entry.mapped? = map address.page

theorem Intact.entryIn (h : s.Intact m bare) (ordinary : page.directorySlot ≠ .recursive) :
    ∃ e, s.entryIn m.memory page = .ok e ∧ e.bind Entry.mapped? = s.mapping m.memory page := by
  unfold AddressSpace.entryIn
  rw [h.directoryIn]
  cases present : (s.link m.memory page.directorySlot).present with
  | false =>
    rw [mapping_of_unlinked present]
    refine ⟨none, ?_, rfl⟩
    rw [except_ok_bind, tableIn_of_unlinked present]
    rfl
  | true =>
    have linked := links_of_present ordinary present
    rw [mapping_of_links linked]
    refine ⟨some _, ?_, rfl⟩
    rw [except_ok_bind, h.tableIn_of_links linked]
    rfl

theorem Intact.walkIn (h : s.Intact m bare) (address : VirtualAddress)
    (ordinary : address.page.directorySlot ≠ .recursive) :
    ∃ leaf, leaf.bind Entry.mapped? = s.mapping m.memory address.page ∧
      s.walkIn m.memory address =
        .ok ⟨address, s.link m.memory address.page.directorySlot, leaf⟩ := by
  obtain ⟨leaf, found, maps⟩ := h.entryIn ordinary
  refine ⟨leaf, maps, ?_⟩
  unfold AddressSpace.walkIn
  rw [h.directoryIn, except_ok_bind, found]
  rfl

theorem Intact.queryIn (h : s.Intact m bare) (address : VirtualAddress)
    (ordinary : address.page.directorySlot ≠ .recursive) :
    s.queryIn m.memory address =
      .ok ((s.mapping m.memory address.page).map fun v => v.1.join address.offset) := by
  obtain ⟨leaf, maps, found⟩ := h.walkIn address ordinary
  unfold AddressSpace.queryIn
  rw [found, ← maps]
  rfl

theorem stops_iff {α : Type} {step : Paging α} {x : α} {fails : Prop}
    (e : step m = .ok x m') (not : ¬fails) : Stops step m ↔ fails :=
  iff_of_false (fun ⟨_, _, e'⟩ => nomatch e.symm.trans e') not

theorem Sound.mapPage_stops (h : s.Sound m own) (page : VirtualPage) (frame : PhysicalPage)
    (flags : Entry) : Stops (s.mapPage page frame flags) m ↔
      page.directorySlot ≠ .recursive ∧ s.mapping m.memory page ≠ none := by
  rcases h.mapPage_cases page frame flags with ⟨last, e⟩ | ⟨mapped, fault, e⟩ |
    ⟨-, unmapped, ⟨-, m', e, -⟩ | ⟨m', e, -⟩⟩
  · exact stops_iff e fun bad => bad.1 last
  · refine iff_of_true ⟨fault, m, e⟩ ⟨fun last => ?_, mapped⟩
    exact mapped (mapping_of_recursive last)
  · exact stops_iff e fun bad => bad.2 unmapped
  · exact stops_iff e fun bad => bad.2 unmapped

theorem Sound.unmapPage_stops (h : s.Sound m own) (page : VirtualPage) :
    Stops (s.unmapPage page) m ↔
      page.directorySlot = .recursive ∨ s.mapping m.memory page = none := by
  cases maps : s.mapping m.memory page with
  | none =>
    obtain ⟨fault, e⟩ := h.intact.unmapPage_of_unmapped maps
    exact iff_of_true ⟨fault, m, e⟩ (Or.inr rfl)
  | some v =>
    obtain ⟨m', e, -⟩ := h.unmapPage_of_mapped maps
    refine stops_iff e ?_
    rintro (last | gone)
    · exact ordinary_of_mapping maps last
    · exact nomatch gone

theorem Sound.actsAsMap (h : s.Sound m own) : s.ActsAsMap m own (s.mapping m.memory) where
  outside _ last := mapping_of_recursive last
  mapPage_stops := h.mapPage_stops
  mapPage page frame flags m' ran := (h.of_mapPage ran).2.mapping
  unmapPage_stops := h.unmapPage_stops
  unmapPage page frame m' ran := ⟨(h.intact.of_unmapPage ran).1, (h.of_unmapPage ran).mapping⟩
  setWritable page writable frame flags maps := by
    obtain ⟨m', e, yields⟩ := h.setWritable_of_mapped maps writable
    exact ⟨m', e, yields.mapping⟩
  allocPage page flags frame m' ran := by
    obtain ⟨-, -, yields, -⟩ := h.of_allocPage ran
    exact yields.mapping
  freePage page mem := by
    obtain ⟨m', e, yields, -⟩ := h.freePage mem
    exact ⟨m', e, yields.mapping⟩
  mapRange start stop flags m' ran p mem := by
    have placed := (h.mapRange_cases start stop flags).granted ran
    obtain ⟨⟨frame, kept⟩, maps, same⟩ := placed.placed p mem
    cases same
    exact ⟨placed.unmapped p mem, frame, maps⟩
  mapDirect start stop target flags m' ran p mem := by
    have placed := (h.mapDirect_cases start stop target flags).granted ran
    obtain ⟨v, maps, address, found, rfl⟩ := placed.placed p mem
    exact ⟨placed.unmapped p mem, address, found, maps⟩
  unmapRange start stop m' owned ran p mem := by
    rcases h.unmapRange_cases start stop owned with ⟨fault, e⟩ | ⟨why, e⟩ | ⟨m₁, e, yields, -⟩
    · exact nomatch e.symm.trans ran
    · exact nomatch e.symm.trans ran
    · cases e.symm.trans ran
      rw [yields.mapping]
      exact if_pos mem
  unmapDirect start stop m' ran p mem := by
    rcases h.unmapDirect_cases start stop with ⟨fault, m₁, e⟩ | ⟨why, e⟩ | ⟨m₁, e, yields, -⟩
    · exact nomatch e.symm.trans ran
    · exact nomatch e.symm.trans ran
    · cases e.symm.trans ran
      rw [yields.mapping]
      exact if_pos mem
  others _ _ _ permitted ran := (h.follows permitted ran).others
  refused _ _ _ permitted ran := (h.follows permitted ran).refused
  query address ordinary := by
    unfold AddressSpace.query
    rw [step_get_bind, h.intact.queryIn address ordinary]
    rfl
  entry page ordinary := by
    obtain ⟨e, found, maps⟩ := h.intact.entryIn ordinary
    refine ⟨e, ?_, maps⟩
    unfold AddressSpace.entry?
    rw [step_get_bind, found]
    rfl
  walk address ordinary := by
    obtain ⟨leaf, maps, found⟩ := h.intact.walkIn address ordinary
    refine ⟨⟨address, s.link m.memory address.page.directorySlot, leaf⟩, ?_, rfl, maps⟩
    unfold AddressSpace.walk
    rw [step_get_bind, found]
    rfl

theorem Sound.entry?_of_mapping {frame : PhysicalPage} (h : s.Sound m own)
    (maps : s.mapping m.memory page = some (frame, flags.leafFlags)) :
    s.entry? page m = .ok (some (Entry.aimedAt frame flags)) m := by
  obtain ⟨leaf, ran, entry⟩ := h.actsAsMap.entry page (ordinary_of_mapping maps)
  rw [maps] at entry
  obtain ⟨e, rfl, aimed⟩ := Option.bind_eq_some_iff.1 entry
  have same : e = Entry.aimedAt frame flags :=
    Entry.eq_of_mapped? Entry.present_aimedAt (aimed.trans Entry.mapped?_aimedAt.symm)
  rw [ran, same]

variable {memory : BootMemory} {image : Image} {storage : Words} {a : FrameAllocator}
  {events : List (FrameAllocator.Request × FrameAllocator.Answer)}

/-- In every run from a fresh space, whose map is empty, the space acts as the map that its tables
stand for. -/
theorem refines_page_map (addressable : memory.Addressable)
    (ready : FrameAllocator.setup memory image storage = .ok (.ok a))
    (used : FrameAllocator.Trace a events m.frames) (fresh : s.Fresh m)
    (run : s.Runs m m' own) :
    (∀ page, s.mapping m.memory page = none) ∧ s.ActsAsMap m' own (s.mapping m'.memory) := by
  obtain ⟨ha, -⟩ := FrameAllocator.managing_of_setup addressable ready
  obtain ⟨frames, -, -⟩ := used.follows ha
  exact ⟨fresh.mapping, (run.sound (fresh.sound frames)).actsAsMap⟩

theorem refines_page_map_small :
    ∃ m m' : Machine, (ofRoot .first).Fresh m ∧ (ofRoot .first).Runs m m' ∅ ∧
      (ofRoot .first).mapping m'.memory .first =
        some (.first, Entry.kernelReadWrite.leafFlags) ∧
      (ofRoot .first).ActsAsMap m' ∅ ((ofRoot .first).mapping m'.memory) := by
  obtain ⟨a, m, m', ready, used, fresh, run, maps⟩ := exists_mapped
  have acts := refines_page_map ⟨by decide, by decide⟩ ready used fresh run
  exact ⟨m, m', fresh, run, maps, acts.2⟩

end Ia32Memory.AddressSpace
