import Ia32Memory.Proofs.Machine.Journal

/-! No stale translations.
Each operation on pages or ranges comes to a row of clean events.  Entries are stored and their
pages invalidated right after.  A new table is linked while it still holds whatever was in its
frame, and emptied only then, but of a slot that had no table the processor keeps nothing.  A table
that goes is empty, which is known from its counter, so its window is the only page that has to be
invalidated for it; and what a range has mapped before it was refused is unmapped again by the same
operations. -/

namespace Ia32Memory.AddressSpace

variable {s : AddressSpace} {m m' m'' : Machine} {bare : Option Slot} {d : Slot}
  {f frame : PhysicalPage} {flags e : Entry} {page : VirtualPage} {own : Set VirtualPage}
  {pages : List VirtualPage} {start stop : VirtualAddress} {hidden : Set VirtualPage}

theorem journal_entered {frames : FrameAllocator} :
    Journal m (m.entered f page e frames) [.stored f page.tableSlot e, .invalidated page] :=
  ⟨by simp [Machine.entered, Machine.withFrames, Machine.noted, Machine.stored, Record.note], rfl⟩

theorem journal_installed {frames : FrameAllocator} :
    Journal m (s.installed m d f flags frames)
      [.stored s.root d (Entry.aimedAt f (flags.flagsOnly.withWritable true)),
        .invalidated d.window, .cleared f] :=
  ⟨by simp [installed, Machine.withFrames, Machine.noted, Machine.stored, Machine.cleared,
    Machine.said, Record.note, Record.say, Paging.metered], rfl⟩

theorem journal_uninstalled {frames : FrameAllocator} :
    Journal m (s.uninstalled m d f frames) [.stored s.root d 0, .invalidated d.window] :=
  ⟨by simp [uninstalled, Machine.withFrames, Machine.noted, Machine.stored, Machine.said,
    Record.note, Record.say], rfl⟩

theorem journal_shielded {writable : Bool} :
    Journal m (shielded m f page writable)
      [.stored f page.tableSlot (Entry.withWritable (m.memory.word f page.tableSlot) writable),
        .invalidated page] :=
  ⟨by simp [shielded, Machine.noted, Machine.stored, Record.note], rfl⟩

theorem journal_emptied :
    Journal m (s.emptied m page f) [.zeroed page f (s.entryIn m.memory page).toOption.join] :=
  ⟨by simp [emptied, Machine.noted, Record.note], rfl⟩

theorem Intact.coherent_entered (h : s.Intact m bare)
    (linked : s.Links m.memory page.directorySlot f) {frames : FrameAllocator} :
    s.Coherent m (m.entered f page e frames) ∅ := by
  refine ⟨_, journal_entered, ⟨?_, ?_⟩, clean_invalidated page, trivial⟩
  · intro p _ changed
    by_cases here : p = page
    · rw [here]
      exact List.mem_singleton_self _
    · exact absurd (h.walked_put linked here) changed
  · intro d present absent
    have kept : s.link (m.memory.put f page.tableSlot e) d = s.link m.memory d :=
      link_put_of_ne (h.notRoot _ f linked) d
    rw [Event.applyTo, kept, present] at absent
    exact Bool.noConfusion absent

theorem Intact.coherent_of_tabled (h : s.Intact m none) (tabled : s.Tabled m d flags m' f) :
    s.Coherent m m' (s.tableless m.memory) := by
  cases tabled with
  | linked _ => exact coherent_of_same rfl rfl
  | @installed f frames ordinary unlinked _ free became =>
    let link := Entry.aimedAt f (flags.flagsOnly.withWritable true)
    let linked := m.memory.put s.root d link
    have ne : f ≠ s.root := fun same => h.rootHeld.2 (same ▸ free)
    have notTable : ∀ c, c ≠ d → (s.link linked c).present = true →
        (s.link linked c).frame ≠ f := by
      intro c other present same
      rw [link_put_root_of_ne _ other] at present same
      rcases h.frame_of_present present with ⟨-, root⟩ | there
      · exact ne (same.symm.trans root)
      · exact (h.table c _ there).held.2 (same ▸ free)
    have foreign : ∀ p, p ∉ s.tableless m.memory → p.directorySlot ≠ d := by
      rintro p seen rfl
      exact seen unlinked
    refine ⟨_, journal_installed, ⟨?_, ?_⟩, clean_invalidated _,
      clean_of_same (fun p seen => ?_) fun c present => ?_, trivial⟩
    · intro p seen changed
      by_cases window : p = d.window
      · rw [window]
        exact List.mem_cons_self
      · exact absurd (h.walked_put_root window fun here => absurd here (foreign p seen)) changed
    · intro c present absent
      by_cases here : c = d
      · rw [here, unlinked] at present
        exact Bool.noConfusion present
      · rw [Event.applyTo, link_put_root_of_ne _ here, present] at absent
        exact Bool.noConfusion absent
    · exact walked_clear ne (notTable _ (foreign p seen))
    · exact (congrArg Entry.present (link_clear linked ne c)).trans present

theorem Intact.coherent_of_vacated {left : Machine} (h : s.Intact left (some d))
    (linked : s.Links left.memory d f) (vacated : s.Vacated left d f m') :
    s.Coherent left m' ∅ := by
  cases vacated with
  | kept _ => exact coherent_of_same rfl rfl
  | @gone frames unused became =>
    have empty : ∀ p, p.directorySlot = d → s.walked left.memory p = none := by
      intro p here
      have none := EntryTable.not_present_of_presentCount_eq_zero
        ((h.table d f linked).counted.symm.trans unused) p.tableSlot
      rw [walked, here, if_pos linked.present, linked.frame]
      exact Entry.mapped?_eq_none.2 none
    -- The pages of the slot lead nowhere before, with an empty table, and after, without one.
    have others : ∀ p, p ≠ d.window →
        s.walked (left.memory.put s.root d 0) p = s.walked left.memory p := by
      intro p window
      by_cases here : p.directorySlot = d
      · rw [empty p here]
        refine walked_of_absent ?_
        rw [here, link_put_root_self]
        exact Entry.present_zero
      · exact h.walked_put_root window fun same => absurd same here
    refine ⟨_, journal_uninstalled, ⟨?_, ?_⟩, clean_invalidated _, trivial⟩
    · intro p _ changed
      by_cases window : p = d.window
      · rw [window]
        exact List.mem_singleton_self _
      · exact absurd (others p window) changed
    · intro c present absent
      by_cases here : c = d
      · rw [here]
        exact ⟨empty, others⟩
      · rw [Event.applyTo, link_put_root_of_ne _ here, present] at absent
        exact Bool.noConfusion absent

theorem Intact.coherent_shielded (h : s.Intact m none) {writable : Bool}
    (consulted : s.Consulted m page f)
    (present : Entry.present (m.memory.word f page.tableSlot) = true) :
    s.Coherent m (shielded m f page writable) ∅ := by
  let e := Entry.withWritable (m.memory.word f page.tableSlot) writable
  have others : ∀ p, p ≠ page →
      s.walked (m.memory.put f page.tableSlot e) p = s.walked m.memory p := by
    intro p other
    cases consulted with
    | table linked => exact h.walked_put linked other
    | directory last =>
      have window : page = page.tableSlot.window := by
        rw [Slot.window_eq, ← last, Page.ofSlots_slots]
      rw [window] at other
      exact h.walked_put_root other fun _ =>
        ⟨Entry.present_withWritable writable, Entry.frame_withWritable writable⟩
  refine ⟨_, journal_shielded, ⟨fun p _ changed => ?_, fun d here absent => ?_⟩,
    clean_invalidated page, trivial⟩
  · by_cases same : p = page
    · rw [same]
      exact List.mem_singleton_self _
    · exact absurd (others p same) changed
  · -- The entry stays present, whether it is one of a table or a link.
    have still : (s.link (m.memory.put f page.tableSlot e) d).present =
        (s.link m.memory d).present := by
      unfold link
      rw [PhysicalMemory.word_put]
      split
      · rename_i same
        rw [← same.1, ← same.2]
        exact Entry.present_withWritable writable
      · rfl
    rw [Event.applyTo, still, here] at absent
    exact Bool.noConfusion absent

theorem Intact.coherent_emptied {n : Nat} (h : s.Intact m bare) (apart : s.Apart m f n) :
    s.Coherent m (s.emptied m page f) ∅ := by
  refine ⟨_, journal_emptied,
    clean_of_same (fun p _ => walked_clear apart.notRoot fun present => ?_) fun d present => ?_,
    trivial⟩
  · refine apart.ne_of_structure ?_
    rcases h.frame_of_present present with ⟨-, root⟩ | there
    · exact Or.inl root
    · exact Or.inr ⟨_, there⟩
  · exact (congrArg Entry.present (link_clear m.memory apart.notRoot d)).trans present

theorem Intact.coherent_of_mapPage {result : Except MapError Unit} (h : s.Intact m none)
    (ran : s.mapPage page frame flags m = .ok result m') :
    s.Coherent m m' (s.tableless m.memory) := by
  rcases h.mapPage_ran ran with ⟨-, quiet⟩ | ⟨m₁, f, frames, tabled, -, -, rfl⟩
  · exact coherent_of_same quiet.memory quiet.events
  · obtain ⟨linked, leaves⟩ := h.of_tabled tabled
    exact (h.coherent_of_tabled tabled).trans (leaves.intact.coherent_entered linked).widen

theorem Intact.coherent_of_unmapPage (h : s.Intact m none)
    (ran : s.unmapPage page m = .ok frame m') : s.Coherent m m' ∅ := by
  obtain ⟨f, frames, linked, -, intact, there, vacated⟩ := h.unmapPage_ran ran
  exact (h.coherent_entered linked).trans (intact.coherent_of_vacated there vacated)

theorem Intact.coherent_of_setWritable {writable : Bool} (h : s.Intact m none)
    (ran : s.setWritable page writable m = .ok () m') : s.Coherent m m' ∅ := by
  obtain ⟨f, consulted, present, rfl⟩ := h.shielded_of_setWritable ran
  exact h.coherent_shielded consulted present

theorem Sound.coherent_of_allocPage {result : Except MapError PhysicalPage} (h : s.Sound m own)
    (ran : s.allocPage page flags m = .ok result m') :
    s.Coherent m m' (s.tableless m.memory) := by
  rcases h.allocPage_stages ran with ⟨-, -, memory, events⟩ | ⟨f, m₁, m₂, m₃, -, stages⟩
  · exact coherent_of_same memory events
  · obtain ⟨memory, events, intact⟩ := stages.taken
    have mapped := intact.coherent_of_mapPage stages.mapped
    rw [memory] at mapped
    have emptied : s.Coherent m₃ (s.emptied m₃ page f) ∅ :=
      stages.counted.2.2.coherent_emptied stages.apart
    have finished : s.Coherent (s.emptied m₃ page f) m' ∅ := by
      rcases stages.finished with ⟨-, rfl⟩ | ⟨-, protects⟩
      · exact coherent_of_same rfl rfl
      · exact stages.emptied.coherent_of_setWritable protects
    refine (coherent_of_same memory events).trans (mapped.trans ?_)
    refine (coherent_of_same stages.counted.1 stages.counted.2.1).trans ?_
    exact (emptied.trans finished).widen

theorem coherent_onFrames {α : Type} {step : FrameAllocator.Step α} {x : α}
    (ran : Paging.onFrames step m = .ok x m') : s.Coherent m m' hidden := by
  obtain ⟨frames, -, rfl⟩ := Paging.onFrames_eq_ok.1 ran
  exact coherent_of_same rfl rfl

theorem Intact.coherent_of_freePage (h : s.Intact m none) (ran : s.freePage page m = .ok () m') :
    s.Coherent m m' ∅ := by
  unfold AddressSpace.freePage at ran
  obtain ⟨frame, m₁, unmapped, rest⟩ := step_bind_eq_ok.1 ran
  obtain ⟨users, m₂, counted, rest⟩ := step_bind_eq_ok.1 rest
  refine (h.coherent_of_unmapPage unmapped).trans ((coherent_onFrames counted).trans ?_)
  split at rest
  · exact coherent_onFrames rest
  · cases rest
    exact coherent_of_same rfl rfl

theorem coherent_forM {step : VirtualPage → Paging Unit}
    (ready : Machine → List VirtualPage → Prop)
    (one : ∀ m page rest m', ready m (page :: rest) → step page m = .ok () m' →
      s.Coherent m m' ∅ ∧ ready m' rest)
    (now : ready m pages) (ran : pages.forM step m = .ok () m') : s.Coherent m m' ∅ := by
  induction pages generalizing m with
  | nil =>
    cases ran
    exact coherent_of_same rfl rfl
  | cons page rest ih =>
    obtain ⟨u, m₁, first, later⟩ := step_bind_eq_ok.1 ran
    obtain ⟨clean, still⟩ := one m page rest m₁ now first
    exact clean.trans (ih still later)

theorem Sound.coherent_of_forM_freePage (h : s.Sound m own) (distinct : pages.Nodup)
    (owned : ∀ p ∈ pages, p ∈ own) (ran : pages.forM s.freePage m = .ok () m') :
    s.Coherent m m' ∅ := by
  refine coherent_forM (fun m pages => pages.Nodup ∧
    ∃ own, s.Sound m own ∧ ∀ p ∈ pages, p ∈ own) ?_ ⟨distinct, own, h, owned⟩ ran
  rintro m page rest m' ⟨distinct, own, sound, owned⟩ freed
  obtain ⟨notAgain, distinct⟩ := List.nodup_cons.1 distinct
  obtain ⟨m₁, e, gone, -⟩ := sound.freePage (owned page List.mem_cons_self)
  cases e.symm.trans freed
  refine ⟨sound.intact.coherent_of_freePage e, distinct, _, gone.sound, fun p mem => ?_⟩
  exact ⟨owned p (List.mem_cons_of_mem _ mem), fun same => notAgain (same ▸ mem)⟩

theorem Intact.coherent_of_unmapAll (h : s.Intact m none)
    (ran : s.unmapAll pages m = .ok () m') : s.Coherent m m' ∅ := by
  refine coherent_forM (fun m _ => s.Intact m none) ?_ h ran
  intro m page rest m' intact gone
  obtain ⟨frame, m₁, unmapped, rest⟩ := step_bind_eq_ok.1 gone
  cases rest
  exact ⟨intact.coherent_of_unmapPage unmapped, (intact.of_unmapPage unmapped).2.intact⟩

theorem Sound.coherent_of_releaseAll (h : s.Sound m own) (departing : s.Departing m own pages)
    (ran : s.releaseAll pages m = .ok () m') : s.Coherent m m' ∅ := by
  refine coherent_forM (fun m pages => s.Sound m own ∧ s.Departing m own pages) ?_
    ⟨h, departing⟩ ran
  rintro m page rest m' ⟨sound, departing⟩ released
  obtain ⟨f, m₁, -, e, yields, -, still, -⟩ := departing.first sound
  cases e.symm.trans released
  refine ⟨?_, yields.sound, still⟩
  obtain ⟨frame, m₂, unmapped, freed⟩ := step_bind_eq_ok.1 e
  exact (sound.intact.coherent_of_unmapPage unmapped).trans (coherent_onFrames freed)

theorem Sound.coherent_of_unmapRange {result : Except MapError Unit} (h : s.Sound m own)
    (owned : ∀ p ∈ Page.between start.page stop.page, p ∈ own)
    (ran : s.unmapRange start stop m = .ok result m') : s.Coherent m m' ∅ := by
  rcases rangePages_ran ran with ⟨-, rfl⟩ | ⟨-, -, ran⟩
  · exact coherent_of_same rfl rfl
  · obtain ⟨u, m₁, freed, rest⟩ := step_bind_eq_ok.1 ran
    cases rest
    exact h.coherent_of_forM_freePage (Page.nodup_between _ _) owned freed

theorem Intact.coherent_of_unmapDirect {result : Except MapError Unit} (h : s.Intact m none)
    (ran : s.unmapDirect start stop m = .ok result m') : s.Coherent m m' ∅ := by
  rcases rangePages_ran ran with ⟨-, rfl⟩ | ⟨-, -, ran⟩
  · exact coherent_of_same rfl rfl
  · obtain ⟨u, m₁, gone, rest⟩ := step_bind_eq_ok.1 ran
    cases rest
    exact h.coherent_of_unmapAll gone

theorem Sound.coherent_of_releaseRange {result : Except MapError Nat} (h : s.Sound m own)
    (departing : s.Departing m own (Page.between start.page stop.page))
    (ran : s.releaseRange start stop m = .ok result m') : s.Coherent m m' ∅ := by
  rcases rangePages_ran ran with ⟨-, rfl⟩ | ⟨-, -, ran⟩
  · exact coherent_of_same rfl rfl
  · obtain ⟨u, m₁, released, rest⟩ := step_bind_eq_ok.1 ran
    cases rest
    exact (h.coherent_of_releaseAll departing released).trans (coherent_of_same rfl rfl)

variable {done : List VirtualPage} {joins : Prop}
  {wanted : VirtualPage → PhysicalPage × Entry → Prop}

/-- While pages are placed the slots without tables get fewer. -/
theorem Placed.coherent (h : s.Placed m own joins wanted done m')
    (sofar : s.Coherent m m' (s.tableless m.memory))
    (next : s.Coherent m' m'' (s.tableless m'.memory)) :
    s.Coherent m m'' (s.tableless m.memory) := by
  refine sofar.trans (next.mono fun p absent => ?_)
  refine Bool.eq_false_iff.2 fun present => ?_
  have still := h.advances.links _ present
  rw [← still] at present
  exact Bool.eq_false_iff.1 absent present

theorem Sound.coherent_of_mapRange {result : Except MapError Unit} (h : s.Sound m own)
    (ran : s.mapRange start stop flags m = .ok result m') :
    s.Coherent m m' (s.tableless m.memory) := by
  let clean (m' : Machine) : Prop := s.Coherent m m' (s.tableless m.memory)
  obtain ⟨mapped, refused⟩ := h.mapRange_carries (fun _ => clean) clean ran
    (coherent_of_same rfl rfl) (coherent_of_same rfl rfl)
    (fun _ _ _ _ _ placed now ran => placed.coherent now (placed.sound.coherent_of_allocPage ran))
    (fun _ _ _ _ _ placed now ran => placed.coherent now (placed.sound.coherent_of_allocPage ran))
    fun done page m₁ m₂ m₃ placed now quiet before undone _ => by
      -- The pages that are taken back are the ones that were placed.
      have owned : ∀ p ∈ Page.between start.page page.base.page, p ∈ gained own True done := by
        intro p mem
        rw [Page.page_base, before] at mem
        exact Or.inr ⟨trivial, mem⟩
      have gone := placed.sound.coherent_of_unmapRange owned undone
      exact now.trans ((coherent_of_same quiet.memory quiet.events).trans gone.widen)
  cases result with
  | ok _ => exact mapped rfl
  | error e => exact refused e rfl

theorem Sound.coherent_of_mapDirect {result : Except MapError Unit} {target : PhysicalAddress}
    (h : s.Sound m own) (ran : s.mapDirect start stop target flags m = .ok result m') :
    s.Coherent m m' (s.tableless m.memory) := by
  let clean (m' : Machine) : Prop := s.Coherent m m' (s.tableless m.memory)
  obtain ⟨mapped, refused⟩ := h.mapDirect_carries (fun _ => clean) clean ran
    (coherent_of_same rfl rfl) (coherent_of_same rfl rfl)
    (fun _ _ _ _ _ _ placed now ran =>
      placed.coherent now (placed.sound.intact.coherent_of_mapPage ran))
    (fun _ _ _ _ _ placed now ran =>
      placed.coherent now (placed.sound.intact.coherent_of_mapPage ran))
    fun done page m₁ m₂ m₃ placed now quiet undone _ => by
      have gone := placed.sound.intact.coherent_of_unmapDirect undone
      exact now.trans ((coherent_of_same quiet.memory quiet.events).trans gone.widen)
  cases result with
  | ok _ => exact mapped rfl
  | error e => exact refused e rfl

/-- The space is used as it has to be: a request is answered that may be made, or the kernel's own
frames are released through the pages of a row. -/
inductive Acts (s : AddressSpace) (m : Machine) (own : Set VirtualPage) : Machine → Prop
  | request {request : Request} {answer : Answer} {m' : Machine} : request.Permitted own →
      request.run s m = .ok answer m' → Acts s m own m'
  | release {start stop : VirtualAddress} {result : Except MapError Nat} {m' : Machine} :
      s.Departing m own (Page.between start.page stop.page) →
      s.releaseRange start stop m = .ok result m' → Acts s m own m'

theorem Sound.coherent (h : s.Sound m own) (acts : s.Acts m own m') :
    s.Coherent m m' (s.tableless m.memory) := by
  cases acts with
  | release departing ran => exact (h.coherent_of_releaseRange departing ran).widen
  | @request request _ _ permitted ran =>
    cases request with
    | mapPage page frame flags =>
      obtain ⟨result, m₁, e, rest⟩ := step_bind_eq_ok.1 ran
      cases rest
      exact h.intact.coherent_of_mapPage e
    | unmapPage page =>
      obtain ⟨frame, m₁, e, rest⟩ := step_bind_eq_ok.1 ran
      cases rest
      exact (h.intact.coherent_of_unmapPage e).widen
    | setWritable page writable =>
      obtain ⟨u, m₁, e, rest⟩ := step_bind_eq_ok.1 ran
      cases rest
      exact (h.intact.coherent_of_setWritable e).widen
    | allocPage page flags =>
      obtain ⟨result, m₁, e, rest⟩ := step_bind_eq_ok.1 ran
      cases rest
      exact h.coherent_of_allocPage e
    | freePage page =>
      obtain ⟨u, m₁, e, rest⟩ := step_bind_eq_ok.1 ran
      cases rest
      exact (h.intact.coherent_of_freePage e).widen
    | mapRange start stop flags =>
      obtain ⟨result, m₁, e, rest⟩ := step_bind_eq_ok.1 ran
      cases rest
      exact h.coherent_of_mapRange e
    | unmapRange start stop =>
      obtain ⟨result, m₁, e, rest⟩ := step_bind_eq_ok.1 ran
      cases rest
      exact (h.coherent_of_unmapRange permitted e).widen
    | mapDirect start stop target flags =>
      obtain ⟨result, m₁, e, rest⟩ := step_bind_eq_ok.1 ran
      cases rest
      exact h.coherent_of_mapDirect e
    | unmapDirect start stop =>
      obtain ⟨result, m₁, e, rest⟩ := step_bind_eq_ok.1 ran
      cases rest
      exact (h.intact.coherent_of_unmapDirect e).widen

/-- A page that was translated, and is translated differently or not at all after a call, has been
invalidated since the last event that changed its walk.  When the link of a table is taken out no
page of its slot is translated, and no walk changes but that of its window. -/
theorem invalidated_after_last_change (h : s.Sound m own) (acts : s.Acts m own m') :
    ∃ events, Journal m m' events ∧
      (∀ p v, s.walked m.memory p = some v → s.walked m'.memory p ≠ some v →
        ∃ before after, events = before ++ .invalidated p :: after ∧
          s.Steady p (m.memory.replay before) (.invalidated p :: after)) ∧
      ∀ before event after d, events = before ++ event :: after →
        (s.link (m.memory.replay before) d).present = true →
        (s.link (m.memory.replay (before ++ [event])) d).present = false →
        (∀ p, p.directorySlot = d → s.walked (m.memory.replay before) p = none) ∧
          ∀ p, p ≠ d.window → s.walked (m.memory.replay (before ++ [event])) p =
            s.walked (m.memory.replay before) p := by
  obtain ⟨events, journal, clean⟩ := h.coherent acts
  refine ⟨events, journal, fun p v was now => ?_, ?_⟩
  · have seen : p ∉ s.tableless m.memory := by
      intro absent
      rw [walked_of_absent absent] at was
      exact nomatch was
    rcases clean.settles seen with steady | found
    · refine absurd ?_ now
      rw [journal.memory, steady.last, was]
    · exact found
  · rintro before event after d rfl present absent
    rw [PhysicalMemory.replay_append] at absent ⊢
    exact clean.at.vacant d present absent

theorem invalidated_after_last_change_small :
    ∃ m m' : Machine, (ofRoot .first).Sound m ∅ ∧ (ofRoot .first).Acts m ∅ m' ∧
      (ofRoot .first).walked m.memory .first ≠ none ∧
      (ofRoot .first).walked m'.memory .first = none ∧
      ∃ before after, Journal m m' (before ++ .invalidated .first :: after) ∧
        (ofRoot .first).Steady .first (m.memory.replay before) (.invalidated .first :: after) := by
  let s := ofRoot .first
  obtain ⟨a, m₀, m, ready, used, fresh, run, maps⟩ := exists_mapped
  obtain ⟨ha, -⟩ := FrameAllocator.managing_of_setup ⟨by decide, by decide⟩ ready
  obtain ⟨frames, -, -⟩ := used.follows ha
  have sound : s.Sound m ∅ := run.sound (fresh.sound frames)
  obtain ⟨m', unmapped, yields⟩ := sound.unmapPage_of_mapped maps
  have acts : s.Acts m ∅ m' := by
    have permitted : (Request.unmapPage .first).Permitted ∅ := trivial
    exact .request permitted ((step_bind_ok unmapped _).trans rfl)
  have ordinary : (Page.first : VirtualPage).directorySlot ≠ .recursive := by decide
  have was := (walked_of_ordinary ordinary).trans maps
  have now : s.walked m'.memory .first = none := by
    rw [walked_of_ordinary ordinary, yields.mapping, Function.update_self]
  obtain ⟨events, journal, invalidated, -⟩ := invalidated_after_last_change sound acts
  obtain ⟨before, after, rfl, steady⟩ := invalidated .first _ was (by rw [now]; exact nofun)
  refine ⟨m, m', sound, acts, ?_, now, before, after, journal, steady⟩
  rw [was]
  exact nofun

end Ia32Memory.AddressSpace
