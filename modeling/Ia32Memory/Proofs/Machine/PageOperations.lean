import Ia32Memory.Proofs.Machine.Edits

/-! Mapping, unmapping and protecting one page.
On an intact space each of the three comes to one or two edits, and all that can come of it is
decided by the map: a page that is mapped is not mapped again, one that is not cannot be unmapped,
and otherwise the map changes at this page alone.  Only a missing frame for a table can be in the
way of a new mapping, and then nothing has changed. -/

namespace Ia32Memory

def Machine.entered (m : Machine) (table : PhysicalPage) (page : VirtualPage) (e : Entry)
    (frames : FrameAllocator) : Machine :=
  ((m.stored table page.tableSlot e).noted (.invalidated page)).withFrames frames

namespace AddressSpace
open FrameAllocator (Counted Became SameMemory)

def installed (s : AddressSpace) (m : Machine) (d : Slot) (f : PhysicalPage) (flags : Entry)
    (frames : FrameAllocator) : Machine :=
  (((((Paging.metered m).withFrames frames).stored s.root d
    (Entry.aimedAt f (flags.flagsOnly.withWritable true))).noted (.invalidated d.window)).cleared
    f).said .debug s!"page table {f.debugText} installed for {d.base.text}"

def uninstalled (s : AddressSpace) (m : Machine) (d : Slot) (f : PhysicalPage)
    (frames : FrameAllocator) : Machine :=
  (((m.stored s.root d 0).withFrames frames).noted (.invalidated d.window)).said .debug
    s!"page table {f.debugText} for {d.base.text} released"

def enter (table : LinkedTable) (page : VirtualPage) (frame : PhysicalPage) (flags : Entry) :
    Paging (Except MapError Unit) := do
  let old ← Paging.entry table.shown page.tableSlot
  if let some (there, _) := old.mapped? then throw (.alreadyMapped page there)
  Paging.store table.shown page.tableSlot (Entry.aimedAt frame flags)
  Paging.invalidate page
  let _ ← Paging.addUser table.frame
  return .ok ()

variable {s : AddressSpace} {m m' : Machine} {bare : Option Slot} {d : Slot}
  {f frame : PhysicalPage} {flags : Entry} {page : VirtualPage} {e : Entry}

theorem mapPage_eq (s : AddressSpace) (page : VirtualPage) (frame : PhysicalPage)
    (flags : Entry) : s.mapPage page frame flags = (do
      let slot := page.directorySlot
      if slot.IsRecursive then return .error (.reservedWindow page.base)
      let directory ← s.directory
      let linked ← s.table? directory slot
      let some table ← if linked.isSome then pure linked else s.installTable directory slot flags
        | return .error .outOfMemory
      enter table page frame flags) := rfl

theorem Intact.directory_eq (h : s.Intact m bare) : s.directory m = .ok s.root m := by
  simp [directory, h.directoryIn]

theorem table?_eq {found : Option LinkedTable} (h : s.tableIn m.memory s.root d = .ok found) :
    s.table? s.root d m = .ok found m := by
  simp [table?, h]

theorem Intact.untouched (h : s.Intact m bare) (frames : m'.frames = m.frames)
    (contents : ∀ f, m'.memory.frame f = m.memory.frame f) : s.Undisturbed m m' := by
  refine ⟨?_, ?_, ?_, fun f _ held => ?_, fun d f _ => ?_, fun f _ => contents f⟩
  · rw [frames]
    exact h.frames
  · rw [frames]
    exact h.fresh
  · rw [frames]
    exact .refl _
  · rw [frames]
    exact held
  · rw [frames]

theorem Intact.quiet (h : s.Intact m none) (quiet : Paging.Quiet m m') :
    s.Leaves m m' none (s.mapping m.memory) := by
  obtain ⟨frames, memory, -⟩ := quiet
  have undisturbed := h.untouched frames fun f => by rw [memory]
  refine ⟨h.elsewhere undisturbed, undisturbed.mapping, fun f n apart => ?_,
    undisturbed.sameMemory⟩
  refine ⟨by rw [frames]; exact apart.held, apart.notRoot, fun d linked => ?_,
    by rw [frames]; exact apart.users⟩
  exact apart.notTable d (undisturbed.links.1 linked)

theorem Intact.enter_eq (h : s.Intact m bare) (frame : PhysicalPage) (flags : Entry)
    (linked : s.Links m.memory page.directorySlot f)
    (absent : Entry.present (m.memory.word f page.tableSlot) = false) :
    ∃ frames, Counted m.frames frames f (m.frames.users f + 1) ∧
      enter ⟨f, f⟩ page frame flags m =
        .ok (.ok ()) (m.entered f page (Entry.aimedAt frame flags) frames) := by
  have table := h.table _ f linked
  rcases h.frames.addUser table.held.1 with ⟨full, -⟩ | ⟨-, frames, added, counted⟩
  · have few := EntryTable.presentCount_le (m.memory.frame f)
    rw [← table.counted, full] at few
    exact absurd few (by decide)
  · refine ⟨frames, counted, ?_⟩
    let edited := (m.stored f page.tableSlot (Entry.aimedAt frame flags)).noted (.invalidated page)
    have same : edited.frames = m.frames := rfl
    rw [← same] at added
    unfold enter
    simp only [step_bind_ok (Paging.entry_eq f page.tableSlot), Entry.mapped?_eq_none.2 absent]
    exact step_bind_ok (Paging.onFrames_ok added) _

theorem enter_mapped (linked : Entry.mapped? (m.memory.word f page.tableSlot) =
      some (frame, flags)) (target : PhysicalPage) (wanted : Entry) :
    enter ⟨f, f⟩ page target wanted m = .error (.alreadyMapped page frame) m := by
  unfold enter
  simp only [step_bind_ok (Paging.entry_eq f page.tableSlot), linked]
  rfl

theorem Intact.entered (h : s.Intact m (some page.directorySlot)) (frame : PhysicalPage)
    (flags : Entry) (linked : s.Links m.memory page.directorySlot f)
    (absent : Entry.present (m.memory.word f page.tableSlot) = false)
    {frames : FrameAllocator} (counted : Counted m.frames frames f (m.frames.users f + 1)) :
    s.Leaves m (m.entered f page (Entry.aimedAt frame flags) frames) none
      (Function.update (s.mapping m.memory) page (some (frame, flags.leafFlags))) := by
  have filled := h.fill (m.entered f page (Entry.aimedAt frame flags) frames) linked absent
    Entry.present_aimedAt counted rfl
  rwa [Page.ofSlots_slots, Entry.mapped?_aimedAt] at filled

theorem Intact.installTable_cases (h : s.Intact m none) (ordinary : d ≠ .recursive)
    (flags : Entry) :
    ((m.quota = some 0 ∨ m.frames.freePages = ∅) ∧
      ∃ m', s.installTable s.root d flags m = .ok none m' ∧ Paging.Quiet m m') ∨
    (m.quota ≠ some 0 ∧ ∃ f frames, f ∈ m.frames.freePages ∧
      (∀ q ∈ m.frames.freePages, f.number ≤ q.number) ∧
      Became m.frames frames (m.frames.freePages \ {f}) ∧
      s.installTable s.root d flags m = .ok (some ⟨f, f⟩) (s.installed m d f flags frames)) := by
  unfold installTable
  rcases Paging.takeFrame_cases h.frames with ⟨why, m', taken, quiet⟩ |
    ⟨left, f, frames, free, lowest, taken, became⟩
  · refine Or.inl ⟨why, m', ?_, quiet⟩
    rw [step_bind_ok taken]
    rfl
  · let e := Entry.aimedAt f (flags.flagsOnly.withWritable true)
    refine Or.inr ⟨left, f, frames, free, lowest, became, ?_⟩
    have shown : s.view.frameIn (m.memory.put s.root d e) d.window f = .ok f := by
      have here : s.link (m.memory.put s.root d e) d = e := by
        rw [link_put_root, if_pos rfl]
      have loop : s.LoopsBack (m.memory.put s.root d e) := by
        refine h.loop.of_same ?_
        rw [link_put_root, if_neg ordinary.symm]
      have window := h.sees.frameIn_window (d := d) h.rootHeld.1 loop
        (by rw [here]; exact Entry.present_aimedAt)
        (by rw [here, Entry.frame_aimedAt]; exact free.1)
      rwa [here, Entry.frame_aimedAt] at window
    refine (step_bind_ok taken _).trans ?_
    refine (step_bind_ok (Paging.store_eq s.root d e) _).trans ?_
    refine (step_bind_ok (Paging.invalidate_eq d.window) _).trans ?_
    exact step_lift_bind_of_ok shown _ _

theorem mapPage_of_recursive (last : page.directorySlot = .recursive) :
    s.mapPage page frame flags m = .ok (.error (.reservedWindow page.base)) m := by
  have last : page.directorySlot.IsRecursive := last
  rw [mapPage_eq]
  simp only [if_pos last]
  rfl

theorem Intact.mapPage_of_links (h : s.Intact m none)
    (linked : s.Links m.memory page.directorySlot f) :
    s.mapPage page frame flags m = enter ⟨f, f⟩ page frame flags m := by
  have ordinary : ¬page.directorySlot.IsRecursive := linked.ordinary
  rw [mapPage_eq]
  simp only [if_neg ordinary]
  refine (step_bind_ok h.directory_eq _).trans ?_
  exact (step_bind_ok (table?_eq (h.tableIn_of_links linked)) _).trans rfl

theorem Intact.mapPage_of_unlinked (h : s.Intact m none)
    (ordinary : page.directorySlot ≠ .recursive)
    (unlinked : (s.link m.memory page.directorySlot).present = false) :
    s.mapPage page frame flags m = (do
      let some table ← s.installTable s.root page.directorySlot flags
        | return .error .outOfMemory
      enter table page frame flags) m := by
  have ordinary : ¬page.directorySlot.IsRecursive := ordinary
  rw [mapPage_eq]
  simp only [if_neg ordinary]
  refine (step_bind_ok h.directory_eq _).trans ?_
  exact (step_bind_ok (table?_eq (tableIn_of_unlinked unlinked)) _).trans rfl

theorem Intact.mapPage_of_mapped {there : PhysicalPage} {kept : Entry} (h : s.Intact m none)
    (mapped : s.mapping m.memory page = some (there, kept)) (frame : PhysicalPage)
    (flags : Entry) : s.mapPage page frame flags m = .error (.alreadyMapped page there) m := by
  obtain ⟨f, linked, leaf⟩ := links_of_mapping mapped
  rw [h.mapPage_of_links linked]
  exact enter_mapped leaf frame flags

def Starved (s : AddressSpace) (m : Machine) (page : VirtualPage) : Prop :=
  (s.link m.memory page.directorySlot).present = false ∧
    (m.quota = some 0 ∨ m.frames.freePages = ∅)

/-- A slot has a table: it had one before, or has just got a new one. -/
inductive Tabled (s : AddressSpace) (m : Machine) (d : Slot) (flags : Entry) :
    Machine → PhysicalPage → Prop
  | linked {f : PhysicalPage} : s.Links m.memory d f → Tabled s m d flags m f
  | installed {f : PhysicalPage} {frames : FrameAllocator} :
      d ≠ .recursive → (s.link m.memory d).present = false → m.quota ≠ some 0 →
      f ∈ m.frames.freePages → Became m.frames frames (m.frames.freePages \ {f}) →
      Tabled s m d flags (s.installed m d f flags frames) f

theorem Intact.of_tabled {m₁ : Machine} (h : s.Intact m none) (tabled : s.Tabled m d flags m₁ f) :
    s.Links m₁.memory d f ∧ s.Leaves m m₁ (some d) (s.mapping m.memory) := by
  cases tabled with
  | linked linked => exact ⟨linked, h.toBare d, rfl, fun _ _ apart => apart, .refl _⟩
  | @installed f frames ordinary unlinked _ free became =>
    exact h.install (s.installed m d f flags frames) ordinary unlinked free
      Entry.present_aimedAt Entry.frame_aimedAt Entry.large_aimedAt became rfl

/-- What a mapping does to a page that was not mapped: unless a frame for its table is wanting, its
entry is written into the table that the slot has then. -/
theorem Intact.mapPage_steps (h : s.Intact m none) (ordinary : page.directorySlot ≠ .recursive)
    (unmapped : s.mapping m.memory page = none) (frame : PhysicalPage) (flags : Entry) :
    (s.Starved m page ∧ ∃ m', s.mapPage page frame flags m = .ok (.error .outOfMemory) m' ∧
      Paging.Quiet m m') ∨
    ∃ m₁ f frames, s.Tabled m page.directorySlot flags m₁ f ∧
      Entry.present (m₁.memory.word f page.tableSlot) = false ∧
      Counted m₁.frames frames f (m₁.frames.users f + 1) ∧
      s.mapPage page frame flags m =
        .ok (.ok ()) (m₁.entered f page (Entry.aimedAt frame flags) frames) := by
  have absent : ∀ m₁ f, s.Tabled m page.directorySlot flags m₁ f →
      Entry.present (m₁.memory.word f page.tableSlot) = false := by
    intro m₁ f tabled
    obtain ⟨linked, leaves⟩ := h.of_tabled tabled
    rw [← leaves.mapping, mapping_of_links linked] at unmapped
    exact Entry.mapped?_eq_none.1 unmapped
  cases present : (s.link m.memory page.directorySlot).present with
  | true =>
    have linked := links_of_present ordinary present
    have tabled : s.Tabled m page.directorySlot flags m _ := .linked linked
    obtain ⟨frames, counted, done⟩ := h.enter_eq frame flags linked (absent m _ tabled)
    exact Or.inr ⟨m, _, frames, tabled, absent m _ tabled, counted,
      (h.mapPage_of_links linked).trans done⟩
  | false =>
    rcases h.installTable_cases ordinary flags with ⟨wanting, m', none, quiet⟩ |
      ⟨left, f, frames, free, -, became, some⟩
    · refine Or.inl ⟨⟨present, wanting⟩, m', ?_, quiet⟩
      rw [h.mapPage_of_unlinked ordinary present, step_bind_ok none]
      rfl
    · let m₁ := s.installed m page.directorySlot f flags frames
      have tabled : s.Tabled m page.directorySlot flags m₁ f :=
        .installed ordinary present left free became
      obtain ⟨linked, leaves⟩ := h.of_tabled tabled
      obtain ⟨frames', counted, done⟩ :=
        leaves.intact.enter_eq frame flags linked (absent m₁ f tabled)
      refine Or.inr ⟨m₁, f, frames', tabled, absent m₁ f tabled, counted, ?_⟩
      rw [h.mapPage_of_unlinked ordinary present, step_bind_ok some]
      exact done

theorem Intact.mapPage_of_unmapped (h : s.Intact m none)
    (ordinary : page.directorySlot ≠ .recursive) (unmapped : s.mapping m.memory page = none)
    (frame : PhysicalPage) (flags : Entry) :
    (s.Starved m page ∧ ∃ m', s.mapPage page frame flags m = .ok (.error .outOfMemory) m' ∧
      Paging.Quiet m m') ∨
    ∃ m', s.mapPage page frame flags m = .ok (.ok ()) m' ∧ s.Leaves m m' none
      (Function.update (s.mapping m.memory) page (some (frame, flags.leafFlags))) := by
  rcases h.mapPage_steps ordinary unmapped frame flags with starved |
    ⟨m₁, f, frames, tabled, absent, counted, done⟩
  · exact Or.inl starved
  · obtain ⟨linked, leaves⟩ := h.of_tabled tabled
    have entered := leaves.intact.entered frame flags linked absent counted
    rw [leaves.mapping] at entered
    exact Or.inr ⟨_, done, leaves.trans entered⟩

theorem Intact.of_mapPage (h : s.Intact m none)
    (ran : s.mapPage page frame flags m = .ok (.ok ()) m') :
    page.directorySlot ≠ .recursive ∧ s.mapping m.memory page = none ∧ s.Leaves m m' none
      (Function.update (s.mapping m.memory) page (some (frame, flags.leafFlags))) := by
  by_cases last : page.directorySlot = .recursive
  · exact nomatch (mapPage_of_recursive last).symm.trans ran
  · cases maps : s.mapping m.memory page with
    | some v => exact nomatch (h.mapPage_of_mapped maps frame flags).symm.trans ran
    | none =>
      rcases h.mapPage_of_unmapped last maps frame flags with ⟨-, m₁, e, -⟩ | ⟨m₁, e, leaves⟩
      · exact nomatch e.symm.trans ran
      · cases e.symm.trans ran
        exact ⟨last, rfl, leaves⟩

theorem Intact.mapPage_ran {result : Except MapError Unit} (h : s.Intact m none)
    (ran : s.mapPage page frame flags m = .ok result m') :
    ((∃ e, result = .error e) ∧ Paging.Quiet m m') ∨
    ∃ m₁ f frames, s.Tabled m page.directorySlot flags m₁ f ∧
      Counted m₁.frames frames f (m₁.frames.users f + 1) ∧ result = .ok () ∧
      m' = m₁.entered f page (Entry.aimedAt frame flags) frames := by
  by_cases last : page.directorySlot = .recursive
  · cases (mapPage_of_recursive last).symm.trans ran
    exact Or.inl ⟨⟨_, rfl⟩, .refl m⟩
  · cases maps : s.mapping m.memory page with
    | some v => exact nomatch (h.mapPage_of_mapped maps frame flags).symm.trans ran
    | none =>
      rcases h.mapPage_steps last maps frame flags with ⟨-, m₁, e, quiet⟩ |
        ⟨m₁, f, frames, tabled, -, counted, e⟩
      · cases e.symm.trans ran
        exact Or.inl ⟨⟨_, rfl⟩, quiet⟩
      · cases e.symm.trans ran
        exact Or.inr ⟨m₁, f, frames, tabled, counted, rfl, rfl⟩

theorem Intact.quiet_of_refused {why : MapError} (h : s.Intact m none)
    (ran : s.mapPage page frame flags m = .ok (.error why) m') : Paging.Quiet m m' := by
  rcases h.mapPage_ran ran with ⟨-, quiet⟩ | ⟨m₁, f, frames, -, -, no, -⟩
  · exact quiet
  · exact nomatch no

theorem Intact.frame_of_mapPage {result : Except MapError Unit} {g : PhysicalPage}
    (h : s.Intact m none) (ran : s.mapPage page frame flags m = .ok result m')
    (notRoot : g ≠ s.root) (notTable : ∀ d, ¬s.Links m'.memory d g) :
    m'.memory.frame g = m.memory.frame g := by
  rcases h.mapPage_ran ran with ⟨-, quiet⟩ | ⟨m₁, f, frames, tabled, -, -, rfl⟩
  · rw [quiet.memory]
  · obtain ⟨linked, leaves⟩ := h.of_tabled tabled
    have ne : f ≠ g := by
      rintro rfl
      exact notTable _ (linked.of_same (link_put_of_ne notRoot _))
    refine (PhysicalMemory.frame_put ..).trans ((if_neg ne).trans ?_)
    cases tabled with
    | linked _ => rfl
    | installed =>
      refine (PhysicalMemory.frame_putFrame ..).trans ((if_neg ne).trans ?_)
      exact (PhysicalMemory.frame_put ..).trans (if_neg notRoot.symm)

def leave (directory : PhysicalPage) (table : LinkedTable) (page : VirtualPage)
    (frame : PhysicalPage) : Paging PhysicalPage := do
  Paging.store table.shown page.tableSlot 0
  Paging.invalidate page
  if (← Paging.removeUser table.frame) = 0 then
    removeTable directory page.directorySlot table.frame
  return frame

theorem unmapPage_of_recursive (last : page.directorySlot = .recursive) :
    s.unmapPage page m = .error (.reservedPage page) m := by
  have last : page.directorySlot.IsRecursive := last
  unfold unmapPage
  simp only [if_pos last]
  rfl

theorem requireTable_of_some {table : LinkedTable} (action : PageAction)
    (found : s.tableIn m.memory s.root page.directorySlot = .ok (some table)) :
    s.requireTable s.root action page m = .ok table m :=
  (step_bind_ok (table?_eq found) _).trans rfl

theorem requireTable_of_unlinked (action : PageAction)
    (unlinked : (s.link m.memory page.directorySlot).present = false) :
    s.requireTable s.root action page m = .error (.noPageTable action page) m :=
  (step_bind_ok (table?_eq (tableIn_of_unlinked unlinked)) _).trans rfl

theorem Intact.withTable_of_links {α : Type} (h : s.Intact m bare)
    (linked : s.Links m.memory page.directorySlot f) (action : PageAction)
    (rest : PhysicalPage → LinkedTable → Paging α) :
    (do
      let directory ← s.directory
      let table ← s.requireTable directory action page
      rest directory table) m = rest s.root ⟨f, f⟩ m := by
  refine (step_bind_ok h.directory_eq _).trans ?_
  exact step_bind_ok (requireTable_of_some action (h.tableIn_of_links linked)) _

theorem Intact.withTable_of_unlinked {α : Type} (h : s.Intact m bare)
    (unlinked : (s.link m.memory page.directorySlot).present = false) (action : PageAction)
    (rest : PhysicalPage → LinkedTable → Paging α) :
    (do
      let directory ← s.directory
      let table ← s.requireTable directory action page
      rest directory table) m = .error (.noPageTable action page) m := by
  refine (step_bind_ok h.directory_eq _).trans ?_
  exact step_bind_error (requireTable_of_unlinked action unlinked) _

theorem Intact.unmapPage_of_unmapped (h : s.Intact m none)
    (unmapped : s.mapping m.memory page = none) : ∃ fault, s.unmapPage page m = .error fault m := by
  by_cases last : page.directorySlot = .recursive
  · exact ⟨_, unmapPage_of_recursive last⟩
  · have ordinary : ¬page.directorySlot.IsRecursive := last
    unfold unmapPage
    simp only [if_neg ordinary]
    cases present : (s.link m.memory page.directorySlot).present with
    | false =>
      exact ⟨.noPageTable .unmap page, h.withTable_of_unlinked present .unmap _⟩
    | true =>
      have linked := links_of_present last present
      rw [mapping_of_links linked] at unmapped
      refine ⟨.notMapped .unmap page, (h.withTable_of_links linked .unmap _).trans ?_⟩
      refine (step_bind_ok (Paging.entry_eq _ _) _).trans ?_
      rw [unmapped]
      rfl

theorem Intact.unmapPage_of_links (h : s.Intact m none)
    (linked : s.Links m.memory page.directorySlot f)
    (leaf : Entry.mapped? (m.memory.word f page.tableSlot) = some (frame, flags)) :
    s.unmapPage page m = leave s.root ⟨f, f⟩ page frame m := by
  have ordinary : ¬page.directorySlot.IsRecursive := linked.ordinary
  unfold unmapPage
  simp only [if_neg ordinary]
  refine (h.withTable_of_links linked .unmap _).trans ?_
  refine (step_bind_ok (Paging.entry_eq _ _) _).trans ?_
  rw [leaf]
  rfl

/-- An entry of a table was blanked; the table goes with its last one. -/
inductive Vacated (s : AddressSpace) (left : Machine) (d : Slot) (f : PhysicalPage) : Machine → Prop
  | kept : left.frames.users f ≠ 0 → Vacated s left d f left
  | gone {frames : FrameAllocator} : left.frames.users f = 0 →
      Became left.frames frames (left.frames.freePages ∪ {f}) →
      Vacated s left d f (s.uninstalled left d f frames)

theorem Intact.of_vacated {left : Machine} (h : s.Intact left (some d))
    (linked : s.Links left.memory d f) (vacated : s.Vacated left d f m') :
    s.Leaves left m' none (s.mapping left.memory) := by
  cases vacated with
  | kept some => exact ⟨h.toFull linked some, rfl, fun _ _ apart => apart, .refl _⟩
  | gone none became => exact h.uninstall (s.uninstalled left d f _) linked none became rfl

/-- What an unmapping does to a page that was mapped. -/
theorem Intact.unmapPage_steps (h : s.Intact m none)
    (mapped : s.mapping m.memory page = some (frame, flags)) :
    ∃ f frames m', s.Links m.memory page.directorySlot f ∧
      Entry.present (m.memory.word f page.tableSlot) = true ∧
      Counted m.frames frames f (m.frames.users f - 1) ∧
      s.Vacated (m.entered f page 0 frames) page.directorySlot f m' ∧
      s.unmapPage page m = .ok frame m' := by
  obtain ⟨f, linked, leaf⟩ := links_of_mapping mapped
  have table := h.table _ f linked
  have present := Entry.present_of_mapped? leaf
  have users := EntryTable.present_le_presentCount present
  rw [← table.counted] at users
  rcases h.frames.removeUser table.held.1 with ⟨none, -⟩ | ⟨-, frames, removed, counted⟩
  · omega
  · let left := m.entered f page 0 frames
    have remaining : left.frames.users f = m.frames.users f - 1 := by
      have users := counted.users f table.held.1
      rwa [if_pos rfl] at users
    have begun : ∀ rest : Nat → Paging PhysicalPage,
        (do
          Paging.store f page.tableSlot 0
          Paging.invalidate page
          rest (← Paging.removeUser f)) m = rest (m.frames.users f - 1) left := by
      intro rest
      let edited := (m.stored f page.tableSlot 0).noted (.invalidated page)
      have same : edited.frames = m.frames := rfl
      rw [← same] at removed
      exact step_bind_ok (Paging.onFrames_ok removed) rest
    rw [h.unmapPage_of_links linked leaf]
    unfold leave
    -- The table goes with its last entry.
    by_cases last : m.frames.users f - 1 = 0
    · have held : left.frames.Holds f := counted.holds.2 table.held
      rcases counted.managing.release f with ⟨why, -⟩ | ⟨-, -, frames', released, became⟩
      · exact absurd why (not_or.2 ⟨not_not_intro held.1, held.2⟩)
      · refine ⟨f, frames, _, linked, present, counted, .gone (remaining.trans last) became, ?_⟩
        refine (begun _).trans ?_
        simp only [if_pos last]
        have same : (left.stored s.root page.directorySlot 0).frames = frames := rfl
        rw [← same] at released
        have removal : removeTable s.root page.directorySlot f left =
            .ok () (s.uninstalled left page.directorySlot f frames') :=
          (step_bind_ok (Paging.onFrames_ok released) _).trans rfl
        exact (step_bind_ok removal _).trans rfl
    · refine ⟨f, frames, left, linked, present, counted, .kept (by rwa [remaining]), ?_⟩
      refine (begun _).trans ?_
      simp only [if_neg last]
      rfl

theorem Intact.unmapPage_of_mapped (h : s.Intact m none)
    (mapped : s.mapping m.memory page = some (frame, flags)) :
    ∃ m', s.unmapPage page m = .ok frame m' ∧
      s.Leaves m m' none (Function.update (s.mapping m.memory) page none) := by
  obtain ⟨f, frames, m', linked, present, counted, vacated, done⟩ := h.unmapPage_steps mapped
  have erased := h.erase (m.entered f page 0 frames) linked present counted rfl
  rw [Page.ofSlots_slots] at erased
  have there : s.Links (m.entered f page 0 frames).memory page.directorySlot f :=
    linked.of_same (link_put_of_ne (h.notRoot _ f linked) _)
  have gone := erased.intact.of_vacated there vacated
  rw [erased.mapping] at gone
  exact ⟨m', done, erased.trans gone⟩

theorem Intact.of_unmapPage (h : s.Intact m none) (ran : s.unmapPage page m = .ok frame m') :
    (∃ flags, s.mapping m.memory page = some (frame, flags)) ∧
      s.Leaves m m' none (Function.update (s.mapping m.memory) page none) := by
  cases maps : s.mapping m.memory page with
  | none =>
    obtain ⟨fault, e⟩ := h.unmapPage_of_unmapped maps
    exact nomatch e.symm.trans ran
  | some v =>
    obtain ⟨m₁, e, leaves⟩ := h.unmapPage_of_mapped maps
    cases e.symm.trans ran
    exact ⟨⟨v.2, rfl⟩, leaves⟩

theorem Intact.unmapPage_ran (h : s.Intact m none) (ran : s.unmapPage page m = .ok frame m') :
    ∃ f frames, s.Links m.memory page.directorySlot f ∧
      Counted m.frames frames f (m.frames.users f - 1) ∧
      s.Intact (m.entered f page 0 frames) (some page.directorySlot) ∧
      s.Links (m.entered f page 0 frames).memory page.directorySlot f ∧
      s.Vacated (m.entered f page 0 frames) page.directorySlot f m' := by
  obtain ⟨⟨flags, maps⟩, -⟩ := h.of_unmapPage ran
  obtain ⟨f, frames, m₁, linked, present, counted, vacated, e⟩ := h.unmapPage_steps maps
  cases e.symm.trans ran
  have erased := h.erase (m.entered f page 0 frames) linked present counted rfl
  exact ⟨f, frames, linked, counted, erased.intact,
    linked.of_same (link_put_of_ne (h.notRoot _ f linked) _), vacated⟩

def shielded (m : Machine) (table : PhysicalPage) (page : VirtualPage) (writable : Bool) :
    Machine :=
  (m.stored table page.tableSlot
    (Entry.withWritable (m.memory.word table page.tableSlot) writable)).noted (.invalidated page)

/-- Where the table of a page is read: in the frame that the slot links, or for the windows of
tables in the directory. -/
inductive Consulted (s : AddressSpace) (m : Machine) (page : VirtualPage) : PhysicalPage → Prop
  | table {f : PhysicalPage} : s.Links m.memory page.directorySlot f → Consulted s m page f
  | directory : page.directorySlot = .recursive → Consulted s m page s.root

theorem Intact.setWritable_steps (h : s.Intact m none) (page : VirtualPage) (writable : Bool) :
    (page.directorySlot ≠ .recursive ∧ (s.link m.memory page.directorySlot).present = false ∧
      s.setWritable page writable m = .error (.noPageTable .setWritable page) m) ∨
    ∃ f, s.Consulted m page f ∧ s.setWritable page writable m =
      if Entry.present (m.memory.word f page.tableSlot) then .ok () (shielded m f page writable)
      else .error (.notMapped .setWritable page) m := by
  have decided : ∀ f, s.tableIn m.memory s.root page.directorySlot = .ok (some ⟨f, f⟩) →
      s.setWritable page writable m =
        if Entry.present (m.memory.word f page.tableSlot) then .ok () (shielded m f page writable)
        else .error (.notMapped .setWritable page) m := by
    intro f found
    unfold setWritable
    refine (step_bind_ok h.directory_eq _).trans ?_
    refine (step_bind_ok (requireTable_of_some .setWritable found) _).trans ?_
    refine (step_bind_ok (Paging.entry_eq _ _) _).trans ?_
    cases Entry.present (m.memory.word f page.tableSlot) <;> rfl
  by_cases last : page.directorySlot = .recursive
  · have found := h.tableIn_of_recursive
    rw [← last] at found
    exact Or.inr ⟨s.root, .directory last, decided _ found⟩
  · cases present : (s.link m.memory page.directorySlot).present with
    | false =>
      refine Or.inl ⟨last, rfl, ?_⟩
      unfold setWritable
      exact h.withTable_of_unlinked present .setWritable _
    | true =>
      have linked := links_of_present last present
      exact Or.inr ⟨_, .table linked, decided _ (h.tableIn_of_links linked)⟩

theorem Intact.shielded_of_setWritable {writable : Bool} (h : s.Intact m none)
    (ran : s.setWritable page writable m = .ok () m') :
    ∃ f, s.Consulted m page f ∧ Entry.present (m.memory.word f page.tableSlot) = true ∧
      m' = shielded m f page writable := by
  rcases h.setWritable_steps page writable with ⟨-, -, e⟩ | ⟨f, consulted, e⟩
  · exact nomatch e.symm.trans ran
  · have done := e.symm.trans ran
    split at done
    · rename_i present
      cases done
      exact ⟨f, consulted, present, rfl⟩
    · exact nomatch done

theorem Intact.setWritable_of_mapped (h : s.Intact m none)
    (mapped : s.mapping m.memory page = some (frame, flags)) (writable : Bool) :
    ∃ m', s.setWritable page writable m = .ok () m' ∧ s.Leaves m m' none
      (Function.update (s.mapping m.memory) page (some (frame, flags.withWritable writable))) := by
  obtain ⟨f, linked, leaf⟩ := links_of_mapping mapped
  have present := Entry.present_of_mapped? leaf
  rcases h.setWritable_steps page writable with ⟨-, absent, -⟩ | ⟨g, consulted, done⟩
  · exact absurd linked.present (Bool.eq_false_iff.1 absent)
  · cases consulted with
    | directory last => exact absurd last linked.ordinary
    | table there =>
      have same := linked.eq_frame there
      subst same
      rw [if_pos present] at done
      have rewritten := h.rewrite (shielded m f page writable) linked present
        ((Entry.present_withWritable writable).trans present) rfl rfl
      rw [Page.ofSlots_slots, Entry.mapped?_withWritable, leaf] at rewritten
      exact ⟨_, done, rewritten⟩

theorem Intact.setWritable_of_unmapped (h : s.Intact m none)
    (unmapped : s.mapping m.memory page = none) (writable : Bool) :
    (∃ fault, s.setWritable page writable m = .error fault m) ∨
    (page.directorySlot = .recursive ∧
      ∃ m', s.setWritable page writable m = .ok () m' ∧
        s.Leaves m m' none (s.mapping m.memory)) := by
  rcases h.setWritable_steps page writable with ⟨-, -, stopped⟩ | ⟨f, consulted, done⟩
  · exact Or.inl ⟨_, stopped⟩
  · cases consulted with
    | table linked =>
      rw [mapping_of_links linked, Entry.mapped?_eq_none] at unmapped
      rw [unmapped] at done
      exact Or.inl ⟨_, done⟩
    | directory last =>
      cases present : (s.link m.memory page.tableSlot).present with
      | false =>
        refine Or.inl ⟨.notMapped .setWritable page, done.trans ?_⟩
        unfold link at present
        rw [present]
        rfl
      | true =>
        have reflagged := h.reflag (shielded m s.root page writable) present
          ((Entry.present_withWritable writable).trans present)
          (Entry.frame_withWritable writable) (Entry.large_withWritable writable) rfl rfl
        refine Or.inr ⟨last, _, done.trans ?_, reflagged⟩
        unfold link at present
        exact if_pos present

theorem Intact.setWritable_window (h : s.Intact m none) (linked : s.Links m.memory d f)
    (writable : Bool) :
    s.setWritable d.window writable m = .ok () (shielded m s.root d.window writable) := by
  rcases h.setWritable_steps d.window writable with ⟨other, -⟩ | ⟨g, consulted, e⟩
  · exact absurd d.directorySlot_window other
  · cases consulted with
    | table there => exact absurd d.directorySlot_window there.ordinary
    | directory _ =>
      have present := linked.present
      unfold link at present
      rw [e, d.tableSlot_window, if_pos present]

theorem Intact.of_setWritable {writable : Bool} (h : s.Intact m none)
    (ran : s.setWritable page writable m = .ok () m') :
    s.Leaves m m' none (Function.update (s.mapping m.memory) page
      ((s.mapping m.memory page).map fun v => (v.1, v.2.withWritable writable))) := by
  cases maps : s.mapping m.memory page with
  | none =>
    rcases h.setWritable_of_unmapped maps writable with ⟨fault, e⟩ | ⟨-, m₁, e, leaves⟩
    · exact nomatch e.symm.trans ran
    · cases e.symm.trans ran
      rw [Option.map_none, ← maps, Function.update_eq_self]
      exact leaves
  | some v =>
    obtain ⟨m₁, e, leaves⟩ := h.setWritable_of_mapped maps writable
    cases e.symm.trans ran
    exact leaves

end AddressSpace
end Ia32Memory
