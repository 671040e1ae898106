import Ia32Memory.Proofs.Machine.Demand
import Ia32Memory.Proofs.Machine.Invalidation
import Ia32Memory.Proofs.Machine.Permissions

/-! Where an allocation writes.
The new frame is filled through its page, once the page is mapped and as long as it may be written;
a page that is to be read only is protected afterwards.  The frame was free before, so it is neither
the directory nor a table, and besides it only the entry of the page is written, and for a slot
without a table the link and the table that is made. -/

namespace Ia32Memory

def Event.Fills : Event → Prop
  | .zeroed .. => True
  | _ => False

namespace AddressSpace

variable {s : AddressSpace} {m m₁ m₂ m₃ m' : Machine} {mem : PhysicalMemory} {d : Slot}
  {f g frame table : PhysicalPage} {flags leaf : Entry} {page : VirtualPage}

/-- The page shows this frame, which is neither the directory nor a table, and its entry allows that
it is written. -/
structure Fillable (s : AddressSpace) (mem : PhysicalMemory) (page : VirtualPage)
    (frame : PhysicalPage) (leaf : Entry) : Prop where
  entry : s.entryIn mem page = .ok (some leaf)
  leads : s.mapping mem page = some (frame, leaf.flagsOnly)
  writable : leaf.writable = true
  notRoot : frame ≠ s.root
  notTable : ∀ d, ¬s.Links mem d frame

theorem Fillable.walk? {c : Processor} {address : VirtualAddress}
    (h : s.Fillable mem address.page frame leaf) (root : c.Reaches s.root.base)
    (tables : ∀ d f, s.Links mem d f → c.Reaches f.base) :
    ∃ t, c.walk? mem s.root address = some t ∧ t.address = frame.join address.offset ∧
      t.writable = (s.link mem address.page.directorySlot).writable := by
  refine ⟨_, walk?_of_mapping h.leads root tables, rfl, ?_⟩
  simp only [Entry.writable_flagsOnly, h.writable, Bool.and_true]

theorem Tabled.journal (tabled : s.Tabled m d flags m' table) :
    ∃ events, Journal m m' events ∧ ∀ e ∈ events, ¬e.Fills := by
  cases tabled with
  | linked _ => exact ⟨[], journal_of_same rfl rfl, List.forall_mem_nil _⟩
  | installed => exact ⟨_, journal_installed, by simp [Event.Fills]⟩

theorem Stages.entered (stages : s.Stages m page flags f m₁ m₂ m₃ m') :
    ∃ mt table frames, s.Tabled m₁ page.directorySlot (flags.withWritable true) mt table ∧
      m₂ = mt.entered table page (Entry.aimedAt f (flags.withWritable true)) frames := by
  rcases stages.taken.2.2.mapPage_ran stages.mapped with ⟨⟨_, refused⟩, -⟩ |
    ⟨mt, table, frames, tabled, -, -, rfl⟩
  · exact nomatch refused
  · exact ⟨mt, table, frames, tabled, rfl⟩

section Stages
variable (stages : s.Stages m page flags f m₁ m₂ m₃ m')
include stages

theorem Stages.fillable :
    s.Fillable m₃.memory page f (Entry.aimedAt f (flags.withWritable true)) := by
  obtain ⟨-, -, leaves⟩ := stages.taken.2.2.of_mapPage stages.mapped
  have maps : s.mapping m₃.memory page = some (f, (flags.withWritable true).leafFlags) := by
    rw [stages.counted.1, leaves.mapping, Function.update_self]
  obtain ⟨leaf, found, entry⟩ := stages.counted.2.2.entryIn stages.ordinary
  rw [maps] at entry
  obtain ⟨e, rfl, aimed⟩ := Option.bind_eq_some_iff.1 entry
  have same : e = Entry.aimedAt f (flags.withWritable true) :=
    Entry.eq_of_mapped? Entry.present_aimedAt (aimed.trans Entry.mapped?_aimedAt.symm)
  rw [same] at found
  refine ⟨found, ?_, ?_, stages.apart.notRoot, stages.apart.notTable⟩
  · rw [maps, Entry.flagsOnly_aimedAt]
  · rw [Entry.writable_aimedAt, Entry.writable_withWritable]

/-- The slot of the page links as before, or a table that came with the page. -/
theorem Stages.writable_link_iff :
    (s.link m₃.memory page.directorySlot).writable = true ↔
      ∀ g, s.Links m.memory page.directorySlot g →
        (s.link m.memory page.directorySlot).writable = true := by
  obtain ⟨g, linked, -⟩ := links_of_mapping stages.fillable.leads
  rw [stages.counted.1] at linked ⊢
  rcases stages.taken.2.2.link_of_mapPage stages.mapped linked with same | ⟨-, absent, made⟩
  · rw [stages.taken.1] at same
    rw [same]
    exact ⟨fun writable _ _ => writable, fun writable => writable g (linked.of_same same.symm)⟩
  · rw [stages.taken.1] at absent
    refine iff_of_true ?_ fun g' there => absurd there.present (Bool.eq_false_iff.1 absent)
    rw [made, Entry.writable_aimedAt, Entry.writable_withWritable]

theorem Stages.walk? {c : Processor} {address : VirtualAddress} (here : address.page = page)
    (root : c.Reaches s.root.base) (tables : ∀ d g, s.Links m₃.memory d g → c.Reaches g.base) :
    ∃ t, c.walk? m₃.memory s.root address = some t ∧ t.address = f.join address.offset ∧
      (t.writable = true ↔ ∀ g, s.Links m.memory page.directorySlot g →
        (s.link m.memory page.directorySlot).writable = true) := by
  subst here
  obtain ⟨t, walk, leads, writable⟩ := stages.fillable.walk? root tables
  refine ⟨t, walk, leads, ?_⟩
  rw [writable]
  exact stages.writable_link_iff

theorem Stages.journal :
    ∃ before after, Journal m m' (before ++ .zeroed page f
        (some (Entry.aimedAt f (flags.withWritable true))) :: after) ∧
      (∀ e ∈ before ++ after, ¬e.Fills) ∧ m.memory.replay before = m₃.memory := by
  obtain ⟨mt, table, frames, tabled, entered⟩ := stages.entered
  obtain ⟨row, linked, plain⟩ := tabled.journal
  have first : Journal m m₃ (row ++ [.stored table page.tableSlot
      (Entry.aimedAt f (flags.withWritable true)), .invalidated page]) := by
    have taken : Journal m m₁ [] := journal_of_same stages.taken.1 stages.taken.2.1
    have counted : Journal m₂ m₃ [] := journal_of_same stages.counted.1 stages.counted.2.1
    rw [entered] at counted
    simpa using taken.trans (linked.trans (journal_entered.trans counted))
  have fill : Journal m₃ (s.emptied m₃ page f)
      [.zeroed page f (some (Entry.aimedAt f (flags.withWritable true)))] := by
    have noted : Journal m₃ (s.emptied m₃ page f)
        [.zeroed page f (s.entryIn m₃.memory page).toOption.join] := journal_emptied
    rwa [stages.fillable.entry] at noted
  obtain ⟨after, last, quiet⟩ : ∃ after, Journal (s.emptied m₃ page f) m' after ∧
      ∀ e ∈ after, ¬e.Fills := by
    rcases stages.finished with ⟨-, rfl⟩ | ⟨-, protects⟩
    · exact ⟨[], journal_of_same rfl rfl, List.forall_mem_nil _⟩
    · obtain ⟨t, -, -, rfl⟩ := stages.emptied.shielded_of_setWritable protects
      exact ⟨_, journal_shielded, by simp [Event.Fills]⟩
  have entry : ∀ e ∈ [Event.stored table page.tableSlot
      (Entry.aimedAt f (flags.withWritable true)), .invalidated page], ¬e.Fills := by
    simp [Event.Fills]
  refine ⟨_, after, first.trans (fill.trans last), fun e mem => ?_, first.memory.symm⟩
  rcases List.mem_append.1 mem with before | behind
  · rcases List.mem_append.1 before with here | here
    · exact plain e here
    · exact entry e here
  · exact quiet e behind

theorem Stages.word : ∃ mt table,
    s.Tabled m₁ page.directorySlot (flags.withWritable true) mt table ∧
    s.Links m'.memory page.directorySlot table ∧ table ≠ s.root ∧ table ≠ f ∧
    ∀ g t, m'.memory.word g t =
      if table = g ∧ page.tableSlot = t then Entry.aimedAt f flags
      else if f = g then 0 else mt.memory.word g t := by
  obtain ⟨mt, table, frames, tabled, entered⟩ := stages.entered
  have linked : s.Links m₃.memory page.directorySlot table := by
    obtain ⟨there, leaves⟩ := stages.taken.2.2.of_tabled tabled
    refine there.of_same ?_
    rw [stages.counted.1, entered]
    exact link_put_of_ne (leaves.intact.notRoot _ table there) _
  have ne : table ≠ f := fun same => stages.apart.notTable _ (same ▸ linked)
  have before : ∀ g t, (s.emptied m₃ page f).memory.word g t =
      if table = g ∧ page.tableSlot = t then Entry.aimedAt f (flags.withWritable true)
      else if f = g then 0 else mt.memory.word g t := by
    intro g t
    refine (PhysicalMemory.word_clear ..).trans ?_
    rw [stages.counted.1, entered]
    have put : (mt.entered table page (Entry.aimedAt f (flags.withWritable true))
        frames).memory.word g t = if table = g ∧ page.tableSlot = t
          then Entry.aimedAt f (flags.withWritable true) else mt.memory.word g t :=
      PhysicalMemory.word_put ..
    rw [put]
    by_cases here : table = g ∧ page.tableSlot = t
    · rw [if_pos here, if_pos here, if_neg fun same => ne (here.1.trans same.symm)]
    · rw [if_neg here, if_neg here]
  refine ⟨mt, table, tabled, stages.links_iff.2 linked, stages.counted.2.2.notRoot _ _ linked, ne,
    fun g t => ?_⟩
  rcases stages.finished with ⟨writable, rfl⟩ | ⟨readOnly, protects⟩
  · rw [before, ← writable, Entry.withWritable_self]
  · obtain ⟨t', consulted, -, rfl⟩ := stages.emptied.shielded_of_setWritable protects
    cases consulted with
    | directory last => exact absurd last stages.ordinary
    | table there =>
      have still : s.Links (s.emptied m₃ page f).memory page.directorySlot table :=
        linked.of_same (link_clear m₃.memory stages.apart.notRoot _)
      cases still.eq_frame there
      have old : (s.emptied m₃ page f).memory.word table page.tableSlot =
          Entry.aimedAt f (flags.withWritable true) := by
        rw [before, if_pos ⟨rfl, rfl⟩]
      refine (PhysicalMemory.word_put ..).trans ?_
      rw [old, Entry.withWritable_aimedAt, Entry.withWritable_withWritable, ← readOnly,
        Entry.withWritable_self]
      exact ite_congr rfl (fun _ => rfl) fun other => (before g t).trans (if_neg other)

end Stages

/-- What an allocation leaves behind: the entry that was asked for, a frame full of zeros that was
free, and otherwise the memory of before, but for the entry and for a table that had to be made. -/
structure Filled (s : AddressSpace) (m : Machine) (page : VirtualPage) (flags : Entry)
    (frame : PhysicalPage) (m' : Machine) : Prop where
  entry : s.entry? page m' = .ok (some (Entry.aimedAt frame flags)) m'
  zero : m'.memory.frame frame = EntryTable.zero
  free : frame ∈ m.frames.freePages
  table : ∃ table, s.Links m'.memory page.directorySlot table ∧ table ≠ frame ∧
    m'.memory.word table page.tableSlot = Entry.aimedAt frame flags ∧
    ((s.Links m.memory page.directorySlot table ∧
        ∀ g t, m'.memory.word g t ≠ m.memory.word g t →
          g = frame ∨ (g = table ∧ t = page.tableSlot)) ∨
      (s.link m.memory page.directorySlot = 0 ∧ table ∈ m.frames.freePages ∧
        (∀ t, t ≠ page.tableSlot → m'.memory.word table t = 0) ∧
        ∀ g t, m'.memory.word g t ≠ m.memory.word g t →
          g = frame ∨ g = table ∨ (g = s.root ∧ t = page.directorySlot)))

theorem Stages.filled_only (stages : s.Stages m page flags f m₁ m₂ m₃ m') (h : s.Intact m none)
    (entry : s.entry? page m' = .ok (some (Entry.aimedAt f flags)) m') :
    s.Filled m page flags f m' := by
  obtain ⟨mt, table, tabled, linked, notRoot, ne, word⟩ := stages.word
  have leaf : m'.memory.word table page.tableSlot = Entry.aimedAt f flags := by
    rw [word, if_pos ⟨rfl, rfl⟩]
  refine ⟨entry, stages.filled, stages.free, table, linked, ne, leaf, ?_⟩
  have changed : ∀ g t, m'.memory.word g t ≠ m.memory.word g t →
      g = f ∨ (g = table ∧ t = page.tableSlot) ∨ mt.memory.word g t ≠ m₁.memory.word g t := by
    intro g t differs
    rw [word, stages.taken.1.symm] at differs
    by_cases here : table = g ∧ page.tableSlot = t
    · exact Or.inr (Or.inl ⟨here.1.symm, here.2.symm⟩)
    · by_cases filled : f = g
      · exact Or.inl filled.symm
      · rw [if_neg here, if_neg filled] at differs
        exact Or.inr (Or.inr differs)
  cases tabled with
  | linked there =>
    rw [stages.taken.1] at there
    refine Or.inl ⟨there, fun g t differs => ?_⟩
    rcases changed g t differs with frame | entry | other
    · exact Or.inl frame
    · exact Or.inr entry
    · exact absurd rfl other
  | @installed _ frames ordinary unlinked _ free became =>
    rw [stages.taken.1] at unlinked
    have made : ∀ g t, (s.installed m₁ page.directorySlot table (flags.withWritable true)
        frames).memory.word g t = if table = g then 0 else
          (m₁.memory.put s.root page.directorySlot (Entry.aimedAt table
            ((flags.withWritable true).flagsOnly.withWritable true))).word g t :=
      fun g t => PhysicalMemory.word_clear ..
    rw [stages.became.free] at free
    refine Or.inr ⟨h.blank _ unlinked, free.1, fun t other => ?_, fun g t differs => ?_⟩
    · rw [word, if_neg fun same => other same.2.symm, if_neg ne.symm, made, if_pos rfl]
    · rcases changed g t differs with frame | entry | other
      · exact Or.inl frame
      · exact Or.inr (Or.inl entry.1)
      · rw [made] at other
        by_cases table : table = g
        · exact Or.inr (Or.inl table.symm)
        · rw [if_neg table, PhysicalMemory.word_put] at other
          by_cases link : s.root = g ∧ page.directorySlot = t
          · exact Or.inr (Or.inr ⟨link.1.symm, link.2.symm⟩)
          · exact absurd (if_neg link) other

/-- An allocation fills the frame that it gives while the page is mapped to it and its entry may be
written.  The walk of a processor leads there, too, and lets it write just if the table that the
slot had before, if any, was linked writable.  Besides that frame, which was free, the allocation
writes the entry of the page and, for a slot without a table, the link and a table that was
free. -/
theorem allocPage_fills (h : s.Intact m none)
    (ran : s.allocPage page flags m = .ok (.ok frame) m') :
    s.Filled m page flags frame m' ∧
    ∃ before leaf after, Journal m m' (before ++ .zeroed page frame (some leaf) :: after) ∧
      (∀ e ∈ before ++ after, ¬e.Fills) ∧ s.Fillable (m.memory.replay before) page frame leaf ∧
      ∀ (c : Processor) (address : VirtualAddress),
        address.page = page → (∀ p, m.frames.stats.Manages p → c.Reaches p.base) →
        ∃ t, c.walk? (m.memory.replay before) s.root address = some t ∧
          t.address = frame.join address.offset ∧
          (t.writable = true ↔ ∀ f, s.Links m.memory page.directorySlot f →
            (s.link m.memory page.directorySlot).writable = true) ∧
          (s.LinksWritable m.memory → t.writable = true) := by
  obtain ⟨-, -, yields, -, -⟩ := h.sound.of_allocPage ran
  rcases h.sound.allocPage_stages ran with ⟨e, refused, -⟩ | ⟨f, m₁, m₂, m₃, same, stages⟩
  · exact nomatch refused
  cases same
  have entry : s.entry? page m' = .ok (some (Entry.aimedAt frame flags)) m' := by
    refine yields.sound.entry?_of_mapping ?_
    rw [yields.mapping, Function.update_self]
  obtain ⟨before, after, journal, once, there⟩ := stages.journal
  refine ⟨stages.filled_only h entry, before, _, after, journal, once, ?_⟩
  rw [there]
  refine ⟨stages.fillable, fun c address here reaches => ?_⟩
  have tables : ∀ d g, s.Links m₃.memory d g → c.Reaches g.base := by
    intro d g linked
    have held := (yields.sound.intact.table d g (stages.links_iff.2 linked)).held
    exact reaches g (yields.sameMemory.manages.1 held.1)
  obtain ⟨t, walk, leads, exactly⟩ := stages.walk? here (reaches _ h.rootHeld.1) tables
  exact ⟨t, walk, leads, exactly, fun all => exactly.2 fun f linked => all _ f linked⟩

theorem allocPage_fills_small :
    ∃ (m m' : Machine) (frame : PhysicalPage), (ofRoot .first).Intact m none ∧
      (ofRoot .first).allocPage .first Entry.userReadOnly m = .ok (.ok frame) m' ∧
      (ofRoot .first).Filled m .first Entry.userReadOnly frame m' ∧
      ∃ before leaf t, (ofRoot .first).Fillable (m.memory.replay before) .first frame leaf ∧
        Processor.walk? ⟨0x100000000, none⟩ (m.memory.replay before) .first
          (Page.base .first) = some t ∧ t.writable = true := by
  obtain ⟨m, intact, blank, room⟩ := exists_roomy
  have ordinary : (Page.first : VirtualPage).directorySlot ≠ .recursive := by decide
  have few := Nat.add_le_add_left (toll_le_one (ofRoot .first) m.memory .first) 1
  have all : (ofRoot .first).LinksWritable m.memory := by
    intro d f linked
    obtain ⟨t, mapped⟩ := intact.exists_mapped linked
    exact absurd (blank _) mapped
  rcases intact.sound.allocPage_pays ordinary (blank _) Entry.userReadOnly with
    ⟨poor, -⟩ | ⟨frame, m', ran, -⟩
  · exact absurd (room.mono (few.trans (by decide))) poor
  · obtain ⟨filled, before, leaf, -, -, -, fillable, walks⟩ := allocPage_fills intact ran
    obtain ⟨t, walk, -, -, writable⟩ := walks ⟨0x100000000, none⟩ (Page.base .first)
      (Page.page_base _) fun p _ => p.base.isLt
    exact ⟨m, m', frame, intact, ran, filled, before, leaf, t, fillable, walk, writable all⟩

theorem exists_write_protected :
    ∃ (m₀ m : Machine) (g : PhysicalPage), (ofRoot .first).Fresh m₀ ∧
      (ofRoot .first).Runs m₀ m ∅ ∧ (ofRoot .first).Intact m none ∧
      (ofRoot .first).Links m.memory .first g ∧
      ((ofRoot .first).link m.memory .first).writable = false ∧
      (ofRoot .first).mapping m.memory ⟨1, by decide⟩ = none ∧ m.Affords 2 := by
  let s := ofRoot .first
  obtain ⟨a, m₀, ready, used, fresh, unmetered, -, -, seven⟩ := exists_fresh
  obtain ⟨ha, -⟩ := FrameAllocator.managing_of_setup ⟨by decide, by decide⟩ ready
  obtain ⟨frames, -, -⟩ := used.follows ha
  have intact₀ : s.Intact m₀ none := (fresh.sound frames).intact
  have ordinary : (Page.first : VirtualPage).directorySlot ≠ .recursive := by decide
  have room : m₀.Affords (s.toll m₀.memory .first + 2) := by
    refine (Machine.affords_of_unmetered unmetered).2 ?_
    have := toll_le_one s m₀.memory .first
    omega
  rcases intact₀.mapPage_pays ordinary (fresh.mapping _) .first Entry.kernelReadWrite with
    ⟨poor, -⟩ | ⟨m₁, e₁, pays⟩
  · exact absurd (room.mono (Nat.le_add_right _ _)) poor
  obtain ⟨-, -, leaves⟩ := intact₀.of_mapPage e₁
  have maps : s.mapping m₁.memory .first = some (.first, Entry.kernelReadWrite.leafFlags) := by
    rw [leaves.mapping, Function.update_self]
  obtain ⟨g, linked, -⟩ := links_of_mapping maps
  let m := shielded m₁ s.root (Slot.window .first) false
  have e₂ : s.setWritable (Slot.window .first) false m₁ = .ok () m :=
    leaves.intact.setWritable_window linked false
  have leaves₂ := leaves.intact.of_setWritable e₂
  have link : s.link m.memory .first = (s.link m₁.memory .first).withWritable false := by
    refine (link_put_root m₁.memory _ _ _).trans ?_
    rw [Slot.tableSlot_window, if_pos rfl]
    rfl
  have mapped : s.Runs m₀ m₁ ∅ := by
    have ran : (Request.mapPage .first .first Entry.kernelReadWrite).run s m₀ =
        .ok (.done (.ok ())) m₁ := (step_bind_ok e₁ _).trans rfl
    have permitted : (Request.mapPage .first .first Entry.kernelReadWrite).Permitted ∅ := trivial
    exact .step .start permitted ran
  have run : s.Runs m₀ m ∅ := by
    have ran : (Request.setWritable (Slot.window .first) false).run s m₁ =
        .ok (.done (.ok ())) m := (step_bind_ok e₂ _).trans rfl
    have permitted : (Request.setWritable (Slot.window .first) false).Permitted ∅ := trivial
    exact .step mapped permitted ran
  refine ⟨m₀, m, g, fresh, run, leaves₂.intact, ?_, ?_, ?_, pays.affords_iff.1 room⟩
  · refine ⟨by decide, ?_, ?_⟩
    · exact link ▸ (Entry.present_withWritable false).trans linked.present
    · exact link ▸ (Entry.frame_withWritable false).trans linked.frame
  · rw [link, Entry.writable_withWritable]
  · rw [leaves₂.mapping, Function.update_of_ne (by decide), leaves.mapping,
      Function.update_of_ne (by decide)]
    exact fresh.mapping _

/-- Where the window of its table was protected, a page is filled that a processor must not write
to. -/
theorem filled_while_write_protected :
    ∃ (m₀ m m' : Machine) (own : Set VirtualPage) (frame : PhysicalPage),
      (ofRoot .first).Fresh m₀ ∧ (ofRoot .first).Runs m₀ m own ∧ (ofRoot .first).Intact m none ∧
      (ofRoot .first).mapping m.memory ⟨1, by decide⟩ = none ∧
      (ofRoot .first).allocPage ⟨1, by decide⟩ Entry.kernelReadWrite m = .ok (.ok frame) m' ∧
      ∃ before leaf after t,
        Journal m m' (before ++ .zeroed ⟨1, by decide⟩ frame (some leaf) :: after) ∧
        Processor.walk? ⟨0x100000000, none⟩ (m.memory.replay before) .first
          (Page.base ⟨1, by decide⟩) = some t ∧ t.writable = false := by
  obtain ⟨m₀, m, g, fresh, run, intact, linked, readOnly, unmapped, room⟩ := exists_write_protected
  let s := ofRoot .first
  let second : VirtualPage := ⟨1, by decide⟩
  have beside : second.directorySlot = .first := by decide
  have ordinary : second.directorySlot ≠ .recursive := by decide
  have few := Nat.add_le_add_left (toll_le_one s m.memory second) 1
  rcases intact.sound.allocPage_pays ordinary unmapped Entry.kernelReadWrite with
    ⟨poor, -⟩ | ⟨frame, m', ran, -⟩
  · exact absurd (room.mono few) poor
  rcases intact.sound.allocPage_stages ran with ⟨e, refused, -⟩ | ⟨f, m₁, m₂, m₃, same, stages⟩
  · exact nomatch refused
  cases same
  obtain ⟨before, after, journal, -, there⟩ := stages.journal
  let c : Processor := ⟨0x100000000, none⟩
  have reaches : ∀ f : PhysicalPage, c.Reaches f.base := fun f => f.base.isLt
  obtain ⟨t, walk, -, exactly⟩ :=
    stages.walk? (Page.page_base second) (reaches _) fun _ f _ => reaches f
  rw [beside, readOnly] at exactly
  rw [← there] at walk
  refine ⟨m₀, m, m', ∅, frame, fresh, run, intact, unmapped, ran, before, _, after, t, journal,
    walk, ?_⟩
  exact Bool.eq_false_iff.2 fun writable => nomatch exactly.1 writable g linked

end AddressSpace
end Ia32Memory
