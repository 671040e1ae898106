import Ia32Memory.Proofs.Machine.Bootstrap
import Ia32Memory.Proofs.Machine.Invalidation

/-! What the first slot leaves behind.
While paging comes on the first slot links the table of the image, so each page of that slot leads
where the page of the image with the same table slot does, and the window of the slot shows the
table.  When the link is blanked all these walks end.  Only the first page of memory is invalidated,
so whatever else the processor has kept of the slot is stale from then on: its window, and the pages
that stood for the image. -/

namespace Ia32Memory

/-- The page of the first slot that stands for page `n` of the image while paging comes on. -/
def Image.standIn? (image : Image) (n : Nat) : Option VirtualPage :=
  (image.virtual.page.add? n).map fun p => Page.ofSlots .first p.tableSlot

namespace AddressSpace

variable {s : AddressSpace} {m m' m'' : Machine} {mem mem' mem'' : PhysicalMemory} {d home : Slot}
  {page : VirtualPage} {frame root : PhysicalPage} {image : Image} {frames count : Nat}
  {ns : List Nat} {own : Set VirtualPage}

/-- The walk of a page has come to an end. -/
def Lost (s : AddressSpace) (mem mem' : PhysicalMemory) (p : VirtualPage) : Prop :=
  s.walked mem p ≠ none ∧ s.walked mem' p = none

def RootAlone (s : AddressSpace) (mem : PhysicalMemory) : Prop :=
  ∀ d, (s.link mem d).present = true → (s.link mem d).frame = s.root → d = .recursive

theorem Intact.rootAlone {bare : Option Slot} (h : s.Intact m bare) : s.RootAlone m.memory := by
  intro d present aim
  rcases h.frame_of_present present with ⟨last, -⟩ | linked
  · exact last
  · exact absurd aim (h.notRoot d _ linked)

theorem walked_blanked (loop : s.LoopsBack mem) (alone : s.RootAlone mem)
    (ordinary : d ≠ .recursive) (p : VirtualPage) :
    s.walked (mem.put s.root d 0) p =
      if p.directorySlot = d ∨ p = d.window then none else s.walked mem p := by
  have others : ∀ c, c ≠ d → s.link (mem.put s.root d 0) c = s.link mem c :=
    fun c other => link_put_root_of_ne mem other 0
  by_cases here : p.directorySlot = d
  · rw [if_pos (Or.inl here)]
    refine walked_of_absent ?_
    rw [here, link_put_root_self]
    exact Entry.present_zero
  by_cases window : p = d.window
  · rw [if_pos (Or.inr window), window]
    have still : s.LoopsBack (mem.put s.root d 0) :=
      loop.of_same (others .recursive (Ne.symm ordinary))
    rw [still.walked_window, link_put_root_self]
    exact Entry.mapped?_eq_none.2 Entry.present_zero
  · rw [if_neg (not_or.2 ⟨here, window⟩)]
    have still := others _ here
    refine walked_of_aim (by rw [still]) (by rw [still]) fun present => ?_
    rw [PhysicalMemory.word_put, if_neg]
    rintro ⟨aim, slot⟩
    have last := alone _ present aim.symm
    rw [← Page.ofSlots_slots p, last, ← slot] at window
    exact window rfl

theorem walked_aliased (notRoot : (s.link mem home).frame ≠ s.root) (t : Slot) :
    s.walked (mem.put s.root d (s.link mem home)) (Page.ofSlots d t) =
      s.walked mem (Page.ofSlots home t) := by
  have word : (mem.put s.root d (s.link mem home)).word (s.link mem home).frame t =
      mem.word (s.link mem home).frame t := by
    rw [PhysicalMemory.word_put, if_neg]
    exact fun same => notRoot same.1.symm
  unfold walked
  simp only [Page.directorySlot_ofSlots, Page.tableSlot_ofSlots, link_put_root_self, word]

theorem lost_of_aliased (loop : s.LoopsBack mem) (alone : s.RootAlone mem)
    (ordinary : d ≠ .recursive) (present : (s.link mem home).present = true)
    (notRoot : (s.link mem home).frame ≠ s.root) (p : VirtualPage) :
    s.Lost (mem.put s.root d (s.link mem home))
        ((mem.put s.root d (s.link mem home)).put s.root d 0) p ↔
      p = d.window ∨
        (p.directorySlot = d ∧ s.walked mem (Page.ofSlots home p.tableSlot) ≠ none) := by
  let on := mem.put s.root d (s.link mem home)
  have others : ∀ c, c ≠ d → s.link on c = s.link mem c :=
    fun c other => link_put_root_of_ne mem other _
  have self : s.link on d = s.link mem home := link_put_root_self mem d _
  have loopOn : s.LoopsBack on := loop.of_same (others .recursive (Ne.symm ordinary))
  have aloneOn : s.RootAlone on := by
    intro c there aim
    by_cases same : c = d
    · rw [same, self] at aim
      exact absurd aim notRoot
    · rw [others c same] at there aim
      exact alone c there aim
  have window : s.walked on d.window ≠ none := by
    rw [loopOn.walked_window, self, ne_eq, Entry.mapped?_eq_none, present]
    exact nofun
  have shown : p.directorySlot = d →
      s.walked on p = s.walked mem (Page.ofSlots home p.tableSlot) := by
    intro here
    have same : p = Page.ofSlots d p.tableSlot := by rw [← here, Page.ofSlots_slots]
    rw [same, walked_aliased notRoot, Page.tableSlot_ofSlots]
  -- A blank link ends the walks of its pages and of its window, so only these are to be looked at.
  unfold Lost
  rw [walked_blanked loopOn aloneOn ordinary p]
  constructor
  · rintro ⟨was, gone⟩
    split at gone
    · rename_i either
      rcases either with here | here
      · exact Or.inr ⟨here, shown here ▸ was⟩
      · exact Or.inl here
    · exact absurd gone was
  · rintro (rfl | ⟨here, was⟩)
    · exact ⟨window, if_pos (Or.inr rfl)⟩
    · exact ⟨shown here ▸ was, if_pos (Or.inl here)⟩

def SameAims (mem mem' : PhysicalMemory) : Prop :=
  ∀ f t, Entry.present (mem'.word f t) = Entry.present (mem.word f t) ∧
    Entry.frame (mem'.word f t) = Entry.frame (mem.word f t)

theorem SameAims.refl (mem : PhysicalMemory) : SameAims mem mem := fun _ _ => ⟨rfl, rfl⟩

theorem SameAims.trans (h : SameAims mem mem') (h' : SameAims mem' mem'') :
    SameAims mem mem'' :=
  fun f t => ⟨(h' f t).1.trans (h f t).1, (h' f t).2.trans (h f t).2⟩

theorem sameAims_withWritable (mem : PhysicalMemory) (f : PhysicalPage) (t : Slot)
    (writable : Bool) :
    SameAims mem (mem.put f t (Entry.withWritable (mem.word f t) writable)) := by
  intro g c
  rw [PhysicalMemory.word_put]
  split
  · rename_i same
    rw [← same.1, ← same.2]
    exact ⟨Entry.present_withWritable writable, Entry.frame_withWritable writable⟩
  · exact ⟨rfl, rfl⟩

theorem SameAims.walked_eq_none (h : SameAims mem mem') (p : VirtualPage) :
    s.walked mem' p = none ↔ s.walked mem p = none := by
  obtain ⟨present, frame⟩ := h s.root p.directorySlot
  unfold walked link
  rw [present, frame]
  split
  · rw [Entry.mapped?_eq_none, Entry.mapped?_eq_none, (h _ _).1]
  · exact Iff.rfl

theorem SameAims.mapping_eq_none (h : SameAims mem mem') (p : VirtualPage) :
    s.mapping mem' p = none ↔ s.mapping mem p = none := by
  by_cases last : p.directorySlot = .recursive
  · unfold mapping
    rw [if_pos last, if_pos last]
  · rw [← walked_of_ordinary last, ← walked_of_ordinary last]
    exact h.walked_eq_none p

theorem journal_created (m : Machine) (root : PhysicalPage) (frames : FrameAllocator) :
    Journal m (created m root frames) [.cleared root,
      .stored root .recursive (Entry.aimedAt root Entry.kernelReadWrite)] := by
  refine ⟨?_, rfl⟩
  simp [created, Machine.withFrames, Machine.stored, Machine.cleared, Record.note, Paging.metered]

theorem Sound.journal_of_mapImage (h : s.Sound m own)
    (ran : s.mapImage page frame count ns m = .ok (.ok ()) m') :
    ∃ events, Journal m m' events := by
  induction ns generalizing m with
  | nil =>
    cases ran
    exact ⟨[], journal_of_same rfl rfl⟩
  | cons n rest ih =>
    obtain ⟨p, target, m₁, -, -, e, onward⟩ := mapImage_cons_eq_ok.1 ran
    obtain ⟨first, journal, -⟩ := h.intact.coherent_of_mapPage e
    obtain ⟨later, journal'⟩ := ih (h.of_mapPage e).2.sound onward
    exact ⟨first ++ later, journal.trans journal'⟩

/-- Entries have got other permissions, and nothing has been done that is not recorded. -/
structure Reprotected (s : AddressSpace) (m m' : Machine) : Prop where
  intact : s.Intact m' none
  aims : SameAims m.memory m'.memory
  journal : ∃ events, Journal m m' events

theorem Intact.reprotected (h : s.Intact m none) : s.Reprotected m m :=
  ⟨h, .refl _, [], journal_of_same rfl rfl⟩

theorem Reprotected.trans (h : s.Reprotected m m') (h' : s.Reprotected m' m'') :
    s.Reprotected m m'' := by
  obtain ⟨first, journal⟩ := h.journal
  obtain ⟨later, journal'⟩ := h'.journal
  exact ⟨h'.intact, h.aims.trans h'.aims, first ++ later, journal.trans journal'⟩

theorem Intact.reprotected_of_setWritable {writable : Bool} (h : s.Intact m none)
    (ran : s.setWritable page writable m = .ok () m') : s.Reprotected m m' := by
  obtain ⟨events, journal, -⟩ := h.coherent_of_setWritable ran
  refine ⟨(h.of_setWritable ran).intact, ?_, events, journal⟩
  obtain ⟨f, -, -, rfl⟩ := h.shielded_of_setWritable ran
  exact sameAims_withWritable m.memory f page.tableSlot writable

theorem Intact.reprotected_of_protectBehind (h : s.Intact m none)
    (ran : s.protectBehind page ns m = .ok () m') : s.Reprotected m m' := by
  induction ns generalizing m with
  | nil =>
    cases ran
    exact h.reprotected
  | cons n rest ih =>
    obtain ⟨u, m₁, first, onward⟩ := step_bind_eq_ok.1 ran
    have one : s.Reprotected m m₁ := by
      cases here : page.add? n with
      | none =>
        simp only [here] at first
        cases first
        exact h.reprotected
      | some p =>
        simp only [here] at first
        exact h.reprotected_of_setWritable first
    exact one.trans (ih one.intact onward)

theorem Intact.reprotected_of_writeProtect {part : Section} (h : s.Intact m none)
    (ran : s.writeProtect part m = .ok () m') : s.Reprotected m m' := by
  have behind : s.protectBehind part.start.page (List.range part.pages) m = .ok () m' := ran
  exact h.reprotected_of_protectBehind behind

def blanking (root : PhysicalPage) : List Event :=
  [.segmentsFlattened, .stored root .first 0, .invalidated .first]

theorem invalidated_mem_blanking {p : VirtualPage} :
    .invalidated p ∈ blanking root ↔ p = .first := by
  simp [blanking]

theorem bootstrap_imaged (managing : m.frames.Managing)
    (unused : ∀ p ∈ m.frames.freePages, m.frames.users p = 0)
    (ran : bootstrap image frames m = .ok (.ok s) m') :
    image.virtual.page.tableSlot.val + frames ≤ AddressMap.entries ∧
    (∀ n < frames, image.virtual.page.add? n ≠ none) ∧
    ∃ m₁ before, Journal m m₁ before ∧ (∀ e ∈ before, e.Ordinary) ∧ s.Intact m₁ none ∧
      (∀ p, s.mapping m₁.memory p = none ↔ p ∉ behind image.virtual.page (List.range frames)) ∧
      m' = s.switched m₁ image.virtual.page.directorySlot frames := by
  obtain ⟨few, m₁, m₂, m₃, m₄, begun, imaged, first, second, rfl⟩ := bootstrap_eq_ok.1 ran
  rcases create_cases managing with ⟨-, m₅, e, -⟩ | ⟨-, root, frames₁, free, became, e⟩
  · exact nomatch e.symm.trans begun
  cases e.symm.trans begun
  have fresh := fresh_created unused free became
  have sound := fresh.sound became.managing
  obtain ⟨placed, found⟩ := (Placed.nothing sound).mapImage imaged
  obtain ⟨events, mapped⟩ := sound.journal_of_mapImage imaged
  have one := placed.sound.intact.reprotected_of_writeProtect first
  have both := one.trans (one.intact.reprotected_of_writeProtect second)
  obtain ⟨more, protects⟩ := both.journal
  have journal := (journal_created m root frames₁).trans (mapped.trans protects)
  have appends : Appends m m₄ := by
    refine kept_appends.trans (kept_appends.create m _ _ begun) ?_
    refine kept_appends.trans (kept_appends.mapImage _ _ _ _ _ _ _ m₂ imaged) ?_
    refine kept_appends.trans (kept_appends.writeProtect _ _ m₂ _ m₃ first) ?_
    exact kept_appends.writeProtect _ _ m₃ _ m₄ second
  obtain ⟨same, continued, ordinary⟩ := appends
  have only : same = _ := List.append_cancel_left (continued.symm.trans journal.record)
  rw [only] at ordinary
  refine ⟨few, fun n below => found n (List.mem_range.2 below), m₄, _, journal, ordinary,
    both.intact, fun p => ?_, rfl⟩
  rw [both.aims.mapping_eq_none]
  constructor
  · intro none mem
    obtain ⟨v, maps, -⟩ := placed.placed p mem
    exact nomatch none.symm.trans maps
  · intro outside
    rw [placed.others p outside]
    exact fresh.mapping p

theorem switched_record (s : AddressSpace) (m : Machine) (d : Slot) (frames : Nat) :
    Journal m (s.switched m d frames) (.stored s.root .first (s.link m.memory d) ::
      .pagingEnabled s.root (s.link m.memory d) :: blanking s.root) :=
  ⟨events_switched, rfl⟩

theorem lost_switched (h : s.Intact m none)
    (few : image.virtual.page.tableSlot.val + frames ≤ AddressMap.entries)
    (mapped : ∀ p, s.mapping m.memory p = none ↔ p ∉ behind image.virtual.page (List.range frames))
    (positive : 1 ≤ frames) (p : VirtualPage) :
    s.Lost (m.memory.put s.root .first (s.link m.memory image.virtual.page.directorySlot))
        (s.switched m image.virtual.page.directorySlot frames).memory p ↔
      p = Slot.first.window ∨ ∃ n < frames, image.standIn? n = some p := by
  let home := image.virtual.page.directorySlot
  have start : s.mapping m.memory image.virtual.page ≠ none := by
    refine fun none => (mapped _).1 none (mem_behind.2 ⟨0, List.mem_range.2 positive, ?_⟩)
    exact Page.add?_eq_some.2 rfl
  obtain ⟨v, maps⟩ := Option.ne_none_iff_exists'.1 start
  have ordinary : home ≠ .recursive := ordinary_of_mapping maps
  obtain ⟨table, linked, -⟩ := links_of_mapping maps
  have notRoot : (s.link m.memory home).frame ≠ s.root := by
    rw [linked.frame]
    exact h.notRoot _ _ linked
  have lost := lost_of_aliased h.loop h.rootAlone (d := .first) (by decide) linked.present notRoot p
  refine lost.trans (or_congr_right ?_)
  have shown : s.walked m.memory (Page.ofSlots home p.tableSlot) ≠ none ↔
      Page.ofSlots home p.tableSlot ∈ behind image.virtual.page (List.range frames) := by
    rw [walked_of_ordinary (by rwa [Page.directorySlot_ofSlots]), ne_eq, mapped, not_not]
  rw [shown, mem_behind]
  constructor
  · rintro ⟨first, n, below, here⟩
    refine ⟨n, List.mem_range.1 below, ?_⟩
    rw [Image.standIn?, here, Option.map_some, Page.tableSlot_ofSlots, ← first, Page.ofSlots_slots]
  · rintro ⟨n, below, same⟩
    obtain ⟨q, here, rfl⟩ := Option.map_eq_some_iff.1 same
    have inside : Page.ofSlots q.directorySlot q.tableSlot ∈
        behind image.virtual.page (List.range frames) := by
      rw [Page.ofSlots_slots]
      exact mem_behind.2 ⟨n, List.mem_range.2 below, here⟩
    have slot : q.directorySlot = home := ((mem_image_iff few rfl).1 inside).1
    refine ⟨Page.directorySlot_ofSlots _ _, n, List.mem_range.2 below, ?_⟩
    rw [Page.tableSlot_ofSlots, ← slot, Page.ofSlots_slots]
    exact here

theorem exists_booted : ∃ (m : Machine) (s : AddressSpace) (m' : Machine), m.frames.Managing ∧
    (∀ p ∈ m.frames.freePages, m.frames.users p = 0) ∧
    bootstrap codeImage 1 m = .ok (.ok s) m' := by
  obtain ⟨a, b, ready, -⟩ := FrameAllocator.exists_small_run
  obtain ⟨managing, -, start, unused⟩ :=
    FrameAllocator.managing_of_setup ⟨by decide, by decide⟩ ready
  have free : ∀ p : PhysicalPage, p.number < 2 → p ∈ a.freePages := by
    intro p low
    have below : p.base.toNat < 2 * 4096 := by
      rw [Page.toNat_base]
      omega
    refine start.symm ▸ ⟨Or.inl below, fun kernel => ?_⟩
    have above : 0x100000 ≤ p.base.toNat := kernel.1
    omega
  let m : Machine := ⟨a, none, .fresh 0, .empty⟩
  have users : ∀ p ∈ m.frames.freePages, m.frames.users p = 0 := fun p _ => unused p
  have ran : ∃ s m', bootstrap codeImage 1 m = .ok (.ok s) m' :=
    bootstrap_succeeds managing users rfl (by decide) (by decide) (by decide)
      ⟨by decide, by decide⟩ ⟨by decide, by decide⟩
      ⟨.first, free _ (by decide), ⟨1, by decide⟩, free _ (by decide), by decide⟩
  obtain ⟨s, m', ran⟩ := ran
  exact ⟨m, s, m', managing, users, ran⟩

/-- Of the pages that were translated when paging came on, the window of the first slot and the
pages of the slot that stood for the image are not translated any more once the bootstrap is done;
only the first page of memory has been invalidated since then. -/
theorem stale_after_switch (managing : m.frames.Managing)
    (unused : ∀ p ∈ m.frames.freePages, m.frames.users p = 0) (positive : 1 ≤ frames)
    (ran : bootstrap image frames m = .ok (.ok s) m') :
    ∃ before entry, (∀ e ∈ before, e.Ordinary) ∧
      Journal m m' (before ++ .pagingEnabled s.root entry :: blanking s.root) ∧
      (∀ p, .invalidated p ∈ blanking s.root ↔ p = .first) ∧
      (∀ n < frames, image.standIn? n ≠ none) ∧
      ∀ p, s.Lost (m.memory.replay before) m'.memory p ↔
        p = Slot.first.window ∨ ∃ n < frames, image.standIn? n = some p := by
  obtain ⟨few, found, m₁, before, journal, ordinary, intact, mapped, rfl⟩ :=
    bootstrap_imaged managing unused ran
  let link := s.link m₁.memory image.virtual.page.directorySlot
  refine ⟨before ++ [.stored s.root .first link], link, fun e mem => ?_, ?_,
    fun p => invalidated_mem_blanking, fun n below none => ?_, fun p => ?_⟩
  · rcases List.mem_append.1 mem with early | last
    · exact ordinary e early
    · rw [List.mem_singleton.1 last]
      trivial
  · rw [List.append_assoc]
    exact journal.trans (switched_record s m₁ _ frames)
  · exact found n below (Option.map_eq_none_iff.1 none)
  · rw [PhysicalMemory.replay_append, ← journal.memory]
    exact lost_switched intact few mapped positive p

theorem stale_after_switch_small :
    ∃ (m : Machine) (s : AddressSpace) (m' : Machine), m.frames.Managing ∧
      (∀ p ∈ m.frames.freePages, m.frames.users p = 0) ∧
      bootstrap codeImage 1 m = .ok (.ok s) m' ∧
      ∃ before entry, (∀ e ∈ before, e.Ordinary) ∧
        Journal m m' (before ++ .pagingEnabled s.root entry :: blanking s.root) ∧
        (∀ p, .invalidated p ∈ blanking s.root ↔ p = .first) ∧
        (∀ n < 1, codeImage.standIn? n ≠ none) ∧
        ∀ p, s.Lost (m.memory.replay before) m'.memory p ↔
          p = Slot.first.window ∨ ∃ n < 1, codeImage.standIn? n = some p := by
  obtain ⟨m, s, m', managing, unused, ran⟩ := exists_booted
  exact ⟨m, s, m', managing, unused, ran,
    stale_after_switch managing unused (Nat.le_refl 1) ran⟩

/-- The processor runs in the page at 1 MiB while it switches, and this page is not invalidated. -/
theorem code_page_left_stale :
    ∃ (m : Machine) (s : AddressSpace) (m' : Machine) (before : List Event) (entry : Entry),
      m.frames.Managing ∧ (∀ p ∈ m.frames.freePages, m.frames.users p = 0) ∧
      bootstrap codeImage 1 m = .ok (.ok s) m' ∧
      Journal m m' (before ++ .pagingEnabled s.root entry :: blanking s.root) ∧
      s.Lost (m.memory.replay before) m'.memory ⟨0x100, by decide⟩ ∧
      .invalidated ⟨0x100, by decide⟩ ∉ blanking s.root := by
  obtain ⟨m, s, m', managing, unused, ran⟩ := exists_booted
  obtain ⟨few, -, m₁, before, journal, -, intact, mapped, rfl⟩ :=
    bootstrap_imaged managing unused ran
  let link := s.link m₁.memory codeImage.virtual.page.directorySlot
  have lost := (lost_switched intact few mapped (Nat.le_refl 1) ⟨0x100, by decide⟩).2
    (Or.inr ⟨0, Nat.one_pos, rfl⟩)
  refine ⟨m, s, _, before ++ [.stored s.root .first link], link, managing, unused, ran, ?_, ?_, ?_⟩
  · rw [List.append_assoc]
    exact journal.trans (switched_record s m₁ _ 1)
  · rw [PhysicalMemory.replay_append, ← journal.memory]
    exact lost
  · rw [invalidated_mem_blanking]
    decide

end AddressSpace
end Ia32Memory
