import Ia32Memory.Proofs.Machine.Tables

/-! Single edits of an address space.
Whatever an operation does to the tables is made up of a few edits: an entry of a table is written
and its users are recounted, a table comes into a slot or leaves it, the flags of a link change,
or something happens to frames that are no tables.  Each edit keeps the space intact, and what it
does to the map is told beside it. -/

namespace Ia32Memory

namespace FrameAllocator
variable {a b : FrameAllocator} {p q : PhysicalPage} {n : Nat} {free : Set PhysicalPage}

theorem Counted.holds (h : Counted a b p n) : b.Holds q ↔ a.Holds q := by
  unfold Holds
  rw [h.sameMemory.manages, h.free]

theorem Counted.users_of_ne (h : Counted a b p n) (managed : a.stats.Manages q) (ne : q ≠ p) :
    b.users q = a.users q := by
  rw [h.users q managed, if_neg ne]

theorem Counted.refl (ha : a.Managing) (p : PhysicalPage) : Counted a a p (a.users p) := by
  refine ⟨ha, rfl, .refl a, fun q _ => ?_⟩
  split
  · rename_i same
    rw [same]
  · rfl

theorem Became.holds (h : Became a b free) : b.Holds q ↔ a.stats.Manages q ∧ q ∉ free := by
  unfold Holds
  rw [h.sameMemory.manages, h.free]

end FrameAllocator

namespace AddressSpace
variable {s : AddressSpace} {m m' : Machine} {mem mem' : PhysicalMemory} {bare bare' : Option Slot}
  {d t : Slot} {f g : PhysicalPage} {e : Entry}

open FrameAllocator (Counted Became SameMemory)

theorem Sees.of_same {a b : FrameAllocator} (h : s.Sees a.stats) (same : SameMemory a b) :
    s.Sees b.stats := by
  refine h.imp_right ?_
  rintro ⟨c, shown, active, reaches⟩
  exact ⟨c, shown, active, fun p managed => reaches p (same.manages.1 managed)⟩

theorem HoldsTable.of_same {least : Nat} (h : HoldsTable m f least) (held : m'.frames.Holds f)
    (users : m'.frames.users f = m.frames.users f)
    (frame : m'.memory.frame f = m.memory.frame f) : HoldsTable m' f least := by
  refine ⟨held, ?_, ?_, fun t absent => ?_⟩
  · rw [users, frame]
    exact h.counted
  · rw [frame]
    exact h.least
  · unfold PhysicalMemory.word at absent ⊢
    rw [frame] at absent ⊢
    exact h.blank t absent

theorem LoopsBack.of_same (h : s.LoopsBack mem)
    (link : s.link mem' .recursive = s.link mem .recursive) : s.LoopsBack mem' := by
  obtain ⟨present, frame, small⟩ := h
  rw [← link] at present frame small
  exact ⟨present, frame, small⟩

theorem Links.of_same (h : s.Links mem d f) (link : s.link mem' d = s.link mem d) :
    s.Links mem' d f := by
  obtain ⟨ordinary, present, frame⟩ := h
  rw [← link] at present frame
  exact ⟨ordinary, present, frame⟩

theorem links_iff_of_same (link : s.link mem' d = s.link mem d) :
    s.Links mem' d f ↔ s.Links mem d f :=
  ⟨fun h => h.of_same link.symm, fun h => h.of_same link⟩

theorem mapping_of_same {p : VirtualPage}
    (link : s.link mem' p.directorySlot = s.link mem p.directorySlot)
    (frame : ∀ f, s.Links mem p.directorySlot f → mem'.frame f = mem.frame f) :
    s.mapping mem' p = s.mapping mem p := by
  by_cases last : p.directorySlot = .recursive
  · rw [mapping_of_recursive last, mapping_of_recursive last]
  · cases present : (s.link mem p.directorySlot).present with
    | false => rw [mapping_of_unlinked present, mapping_of_unlinked (by rw [link]; exact present)]
    | true =>
      have linked := links_of_present last present
      rw [mapping_of_links linked, mapping_of_links (linked.of_same link), PhysicalMemory.word,
        frame _ linked]
      rfl

theorem mapping_relink (link : ∀ c, c ≠ d → s.link mem' c = s.link mem c)
    (frame : ∀ c g, c ≠ d → s.Links mem c g → mem'.frame g = mem.frame g)
    (here : ∀ p, p.directorySlot = d → s.mapping mem' p = s.mapping mem p) :
    s.mapping mem' = s.mapping mem := by
  funext p
  by_cases same : p.directorySlot = d
  · exact here p same
  · exact mapping_of_same (link _ same) fun g old => frame _ g same old

/-- A space in which the other slots link what they linked is intact when the one slot links a
table of its own or is blank. -/
theorem Intact.relink (h : s.Intact m bare) (d : Slot) (frames : m'.frames.Managing)
    (fresh : ∀ p ∈ m'.frames.freePages, m'.frames.users p = 0)
    (sameMemory : SameMemory m.frames m'.frames) (rootHeld : m'.frames.Holds s.root)
    (loop : s.LoopsBack m'.memory)
    (link : ∀ c, c ≠ d → s.link m'.memory c = s.link m.memory c)
    (tables : ∀ c g, c ≠ d → s.Links m.memory c g → HoldsTable m' g (fewest bare' c))
    (here : ∀ f, s.Links m'.memory d f → (s.link m'.memory d).large = false ∧ f ≠ s.root ∧
      (∀ c, c ≠ d → ¬s.Links m.memory c f) ∧ HoldsTable m' f (fewest bare' d))
    (blank : (s.link m'.memory d).present = false → s.link m'.memory d = 0) :
    s.Intact m' bare' where
  frames := frames
  fresh := fresh
  sees := h.sees.of_same sameMemory
  rootHeld := rootHeld
  loop := loop
  small c g there := by
    by_cases same : c = d
    · subst same
      exact (here g there).1
    · rw [link c same]
      exact h.small c g (there.of_same (link c same).symm)
  notRoot c g there := by
    by_cases same : c = d
    · subst same
      exact (here g there).2.1
    · exact h.notRoot c g (there.of_same (link c same).symm)
  unique c c' g there there' := by
    by_cases same : c = d
    · subst same
      by_cases same' : c' = c
      · exact same'.symm
      · exact absurd (there'.of_same (link c' same').symm) ((here g there).2.2.1 c' same')
    · have old := there.of_same (link c same).symm
      by_cases same' : c' = d
      · subst same'
        exact absurd old ((here g there').2.2.1 c same)
      · exact h.unique c c' g old (there'.of_same (link c' same').symm)
  table c g there := by
    by_cases same : c = d
    · subst same
      exact (here g there).2.2.2
    · exact tables c g same (there.of_same (link c same).symm)
  blank c absent := by
    by_cases same : c = d
    · subst same
      exact blank absent
    · rw [link c same] at absent ⊢
      exact h.blank c absent

theorem link_put_of_ne (ne : f ≠ s.root) (d : Slot) :
    s.link (mem.put f t e) d = s.link mem d := by
  unfold link
  rw [PhysicalMemory.word_put, if_neg fun same => ne same.1]

theorem Intact.mapping_put (h : s.Intact m bare) (linked : s.Links m.memory d f) :
    s.mapping (m.memory.put f t e) =
      Function.update (s.mapping m.memory) (Page.ofSlots d t) e.mapped? := by
  have ne := h.notRoot d f linked
  funext p
  by_cases here : p = Page.ofSlots d t
  · subst here
    have slots : s.Links (m.memory.put f t e) (Page.ofSlots d t).directorySlot f := by
      rw [Page.directorySlot_ofSlots]
      exact linked.of_same (link_put_of_ne ne d)
    rw [Function.update_self, mapping_of_links slots, PhysicalMemory.word_put,
      Page.tableSlot_ofSlots, if_pos ⟨rfl, rfl⟩]
  · rw [Function.update_of_ne here]
    by_cases last : p.directorySlot = .recursive
    · rw [mapping_of_recursive last, mapping_of_recursive last]
    · cases present : (s.link m.memory p.directorySlot).present with
      | false =>
        rw [mapping_of_unlinked present,
          mapping_of_unlinked (by rw [link_put_of_ne ne]; exact present)]
      | true =>
        have other := links_of_present last present
        have elsewhere : ¬(f = (s.link m.memory p.directorySlot).frame ∧ t = p.tableSlot) := by
          rintro ⟨same, slot⟩
          rw [← same] at other
          have slots := h.unique _ _ _ linked other
          rw [slots, slot, Page.ofSlots_slots] at here
          exact here rfl
        rw [mapping_of_links other, mapping_of_links (other.of_same (link_put_of_ne ne _)),
          PhysicalMemory.word_put, if_neg elsewhere]

/-- An entry of a table is written, and the users of the table are what is present then. -/
theorem Intact.write (h : s.Intact m bare) (linked : s.Links m.memory d f)
    (blank : e.present = false → e = 0)
    (counted : Counted m.frames m'.frames f ((m.memory.frame f).put t e).presentCount)
    (memory : m'.memory = m.memory.put f t e)
    (enough : fewest bare' d ≤ ((m.memory.frame f).put t e).presentCount)
    (others : ∀ c, c ≠ d → fewest bare' c ≤ fewest bare c) :
    s.Leaves m m' bare' (Function.update (s.mapping m.memory) (Page.ofSlots d t) e.mapped?) := by
  have ne := h.notRoot d f linked
  have held := (h.table d f linked).held
  have link : ∀ c, s.link m'.memory c = s.link m.memory c := by
    rw [memory]
    exact link_put_of_ne ne
  have links : ∀ c g, s.Links m'.memory c g ↔ s.Links m.memory c g :=
    fun c g => links_iff_of_same (link c)
  have rewritten : m'.memory.frame f = (m.memory.frame f).put t e := by
    rw [memory, PhysicalMemory.frame_put, if_pos rfl]
  have table : HoldsTable m' f (fewest bare' d) := by
    refine ⟨counted.holds.2 held, ?_, ?_, fun r absent => ?_⟩
    · rw [counted.users f held.1, if_pos rfl, rewritten]
    · rw [rewritten]
      exact enough
    · rw [memory, PhysicalMemory.word_put] at absent ⊢
      split at absent
      · rename_i here
        rw [if_pos here]
        exact blank absent
      · rename_i elsewhere
        rw [if_neg elsewhere]
        exact (h.table d f linked).blank r absent
  have intact : s.Intact m' bare' := by
    refine h.relink d counted.managing ?fresh counted.sameMemory (counted.holds.2 h.rootHeld)
      (h.loop.of_same (link _)) (fun c _ => link c) ?tables ?here ?blank
    case fresh =>
      intro p free
      rw [counted.free] at free
      rw [counted.users_of_ne free.1 fun same => held.2 (same ▸ free)]
      exact h.fresh p free
    case tables =>
      -- No other slot links this frame, so the tables there keep their entries and users.
      intro c g same old
      have other : g ≠ f := fun frames => same (h.unique c d f (frames ▸ old) linked)
      have table := h.table c g old
      refine (table.of_same (counted.holds.2 table.held) ?_ ?_).mono (others c same)
      · exact counted.users_of_ne table.held.1 other
      · rw [memory, PhysicalMemory.frame_put, if_neg (Ne.symm other)]
    case here =>
      intro g there
      have frames := linked.eq_frame ((links d g).1 there)
      subst frames
      rw [link d]
      exact ⟨h.small d f linked, ne, fun c other old => other (h.unique c d f old linked), table⟩
    case blank =>
      rw [link d]
      exact h.blank d
  refine ⟨intact, ?_, fun g n apart => ⟨counted.holds.2 apart.held, apart.notRoot, ?_, ?_⟩,
    counted.sameMemory⟩
  · rw [memory]
    exact h.mapping_put linked
  · exact fun c there => apart.notTable c ((links c g).1 there)
  · rw [counted.users_of_ne apart.held.1 fun same => apart.notTable d (same ▸ linked)]
    exact apart.users

theorem Intact.fill (h : s.Intact m (some d)) (m' : Machine) (linked : s.Links m.memory d f)
    (absent : Entry.present (m.memory.word f t) = false) (present : e.present = true)
    (counted : Counted m.frames m'.frames f (m.frames.users f + 1))
    (memory : m'.memory = m.memory.put f t e) :
    s.Leaves m m' none (Function.update (s.mapping m.memory) (Page.ofSlots d t) e.mapped?) := by
  have count : ((m.memory.frame f).put t e).presentCount = m.frames.users f + 1 := by
    rw [EntryTable.presentCount_fill absent present, (h.table d f linked).counted]
  refine h.write linked (fun blank => ?_) (count ▸ counted) memory ?_ fun c other => ?_
  · rw [present] at blank
    exact Bool.noConfusion blank
  · rw [count]
    exact Nat.succ_le_succ (Nat.zero_le _)
  · rw [fewest_of_ne other]
    exact fewest_le none c

theorem Intact.erase (h : s.Intact m none) (m' : Machine) (linked : s.Links m.memory d f)
    (present : Entry.present (m.memory.word f t) = true)
    (counted : Counted m.frames m'.frames f (m.frames.users f - 1))
    (memory : m'.memory = m.memory.put f t 0) :
    s.Leaves m m' (some d) (Function.update (s.mapping m.memory) (Page.ofSlots d t) none) := by
  have count : ((m.memory.frame f).put t 0).presentCount = m.frames.users f - 1 := by
    rw [EntryTable.presentCount_blank present, (h.table d f linked).counted]
  refine h.write linked (fun _ => rfl) (count ▸ counted) memory ?_ fun c _ => fewest_le _ c
  rw [fewest_self]
  exact Nat.zero_le _

theorem Intact.rewrite (h : s.Intact m none) (m' : Machine) (linked : s.Links m.memory d f)
    (old : Entry.present (m.memory.word f t) = true) (present : e.present = true)
    (frames : m'.frames = m.frames) (memory : m'.memory = m.memory.put f t e) :
    s.Leaves m m' none (Function.update (s.mapping m.memory) (Page.ofSlots d t) e.mapped?) := by
  have table := h.table d f linked
  have count : ((m.memory.frame f).put t e).presentCount = m.frames.users f := by
    rw [EntryTable.presentCount_rewrite old present, table.counted]
  have counted : Counted m.frames m'.frames f (m.frames.users f) := by
    rw [frames]
    exact .refl h.frames f
  refine h.write linked (fun blank => ?_) (count ▸ counted) memory ?_ fun c _ => Nat.le_refl _
  · rw [present] at blank
    exact Bool.noConfusion blank
  · rw [count, table.counted]
    exact table.least

theorem link_put_root (mem : PhysicalMemory) (d c : Slot) (e : Entry) :
    s.link (mem.put s.root d e) c = if c = d then e else s.link mem c := by
  unfold link
  rw [PhysicalMemory.word_put]
  simp only [true_and, eq_comm]

theorem link_put_root_self (mem : PhysicalMemory) (d : Slot) (e : Entry) :
    s.link (mem.put s.root d e) d = e := by
  rw [link_put_root, if_pos rfl]

theorem link_put_root_of_ne (mem : PhysicalMemory) {c : Slot} (other : c ≠ d) (e : Entry) :
    s.link (mem.put s.root d e) c = s.link mem c := by
  rw [link_put_root, if_neg other]

theorem frame_put_root (mem : PhysicalMemory) (notRoot : g ≠ s.root) (d : Slot) (e : Entry) :
    (mem.put s.root d e).frame g = mem.frame g := by
  rw [PhysicalMemory.frame_put, if_neg notRoot.symm]

theorem link_clear (mem : PhysicalMemory) (ne : f ≠ s.root) (d : Slot) :
    s.link (mem.clear f) d = s.link mem d := by
  unfold link
  rw [PhysicalMemory.word_clear, if_neg ne]

theorem Intact.install (h : s.Intact m none) (m' : Machine) (ordinary : d ≠ .recursive)
    (unlinked : (s.link m.memory d).present = false) (free : f ∈ m.frames.freePages)
    (present : e.present = true) (aim : e.frame = f) (small : e.large = false)
    (became : Became m.frames m'.frames (m.frames.freePages \ {f}))
    (memory : m'.memory = (m.memory.put s.root d e).clear f) :
    s.Links m'.memory d f ∧ s.Leaves m m' (some d) (s.mapping m.memory) := by
  have notFree : ∀ g, m.frames.Holds g → g ≠ f := fun g held same => held.2 (same ▸ free)
  have ne : f ≠ s.root := (notFree s.root h.rootHeld).symm
  have linkOther : ∀ c, c ≠ d → s.link m'.memory c = s.link m.memory c := by
    intro c other
    rw [memory, link_clear _ ne, link_put_root_of_ne _ other]
  have linkHere : s.link m'.memory d = e := by
    rw [memory, link_clear _ ne, link_put_root_self]
  have frame : ∀ g, g ≠ s.root → g ≠ f → m'.memory.frame g = m.memory.frame g := by
    intro g notRoot other
    rw [memory, PhysicalMemory.clear, PhysicalMemory.frame_putFrame, if_neg other.symm,
      frame_put_root _ notRoot]
  have here : s.Links m'.memory d f :=
    ⟨ordinary, by rw [linkHere]; exact present, by rw [linkHere]; exact aim⟩
  have held : ∀ g, m.frames.Holds g → m'.frames.Holds g := by
    intro g old
    exact became.holds.2 ⟨old.1, fun now => old.2 now.1⟩
  have users : ∀ g, m'.frames.users g = m.frames.users g := fun g => became.users
  have blank : m'.memory.frame f = EntryTable.zero := by
    rw [memory, PhysicalMemory.clear, PhysicalMemory.frame_putFrame, if_pos rfl]
  have table : HoldsTable m' f (fewest (some d) d) := by
    refine ⟨became.holds.2 ⟨free.1, fun now => now.2 rfl⟩, ?_, ?_, fun t _ => ?_⟩
    · rw [users, h.fresh f free, blank, EntryTable.presentCount_zero]
    · rw [fewest_self]
      exact Nat.zero_le _
    · rw [PhysicalMemory.word, blank]
      exact EntryTable.entry_zero t
  have intact : s.Intact m' (some d) := by
    refine h.relink d became.managing ?fresh became.sameMemory (held _ h.rootHeld)
      (h.loop.of_same (linkOther _ ordinary.symm)) linkOther ?tables ?here ?blank
    case fresh =>
      intro p now
      rw [became.free] at now
      rw [users]
      exact h.fresh p now.1
    case tables =>
      intro c g other old
      have table := h.table c g old
      rw [fewest_of_ne other]
      exact table.of_same (held g table.held) (users g)
        (frame g (h.notRoot c g old) (notFree g table.held))
    case here =>
      intro g there
      have frames := here.eq_frame there
      subst frames
      -- The frame was free until now, and the frames of tables are not.
      refine ⟨by rw [linkHere]; exact small, ne, fun c _ old => ?_, table⟩
      exact notFree f (h.table c f old).held rfl
    case blank =>
      rw [linkHere, present]
      exact nofun
  have mapping : s.mapping m'.memory = s.mapping m.memory := by
    refine mapping_relink linkOther (fun c g _ old => ?_) fun p same => ?_
    · exact frame g (h.notRoot c g old) (notFree g (h.table c g old).held)
    · have before : s.mapping m.memory p = none := mapping_of_unlinked (same ▸ unlinked)
      rw [before, mapping_of_links (same ▸ here), memory, PhysicalMemory.word_clear, if_pos rfl]
      rfl
  refine ⟨here, intact, mapping, fun g n apart => ?_, became.sameMemory⟩
  refine ⟨held g apart.held, apart.notRoot, fun c there => ?_, (users g).trans apart.users⟩
  by_cases same : c = d
  · subst same
    exact notFree g apart.held (here.eq_frame there).symm
  · exact apart.notTable c (there.of_same (linkOther c same).symm)

theorem Intact.uninstall (h : s.Intact m (some d)) (m' : Machine) (linked : s.Links m.memory d f)
    (unused : m.frames.users f = 0)
    (became : Became m.frames m'.frames (m.frames.freePages ∪ {f}))
    (memory : m'.memory = m.memory.put s.root d 0) :
    s.Leaves m m' none (s.mapping m.memory) := by
  have ordinary := linked.ordinary
  have linkOther : ∀ c, c ≠ d → s.link m'.memory c = s.link m.memory c := by
    intro c other
    rw [memory, link_put_root_of_ne _ other]
  have linkHere : s.link m'.memory d = 0 := by
    rw [memory, link_put_root_self]
  have frame : ∀ g, g ≠ s.root → m'.memory.frame g = m.memory.frame g := by
    intro g notRoot
    rw [memory, frame_put_root _ notRoot]
  have links : ∀ c g, s.Links m'.memory c g → c ≠ d ∧ s.Links m.memory c g := by
    intro c g there
    have other : c ≠ d := by
      intro same
      have present := there.present
      rw [same, linkHere, Entry.present_zero] at present
      exact Bool.noConfusion present
    exact ⟨other, there.of_same (linkOther c other).symm⟩
  have held : ∀ g, m.frames.Holds g → g ≠ f → m'.frames.Holds g := by
    intro g old other
    exact became.holds.2 ⟨old.1, fun now => now.elim old.2 other⟩
  have users : ∀ g, m'.frames.users g = m.frames.users g := fun g => became.users
  have intact : s.Intact m' none := by
    refine h.relink d became.managing ?fresh became.sameMemory
      (held _ h.rootHeld (h.notRoot d f linked).symm)
      (h.loop.of_same (linkOther _ ordinary.symm)) linkOther ?tables ?here fun _ => linkHere
    case fresh =>
      intro p now
      rw [became.free] at now
      rw [users]
      rcases now with old | same
      · exact h.fresh p old
      · rw [same]
        exact unused
    case tables =>
      intro c g other old
      have table := h.table c g old
      rw [fewest_of_ne other] at table
      have apart : g ≠ f := fun same => other (h.unique c d f (same ▸ old) linked)
      exact table.of_same (held g table.held apart) (users g) (frame g (h.notRoot c g old))
    case here =>
      exact fun g there => absurd rfl (links d g there).1
  have mapping : s.mapping m'.memory = s.mapping m.memory := by
    refine mapping_relink linkOther (fun c g _ old => frame g (h.notRoot c g old)) fun p same => ?_
    -- A table without users has no entries, so no page of the slot was mapped before.
    have absent : Entry.present (m.memory.word f p.tableSlot) = false := by
      refine EntryTable.not_present_of_presentCount_eq_zero ?_ _
      rw [← (h.table d f linked).counted, unused]
    have before : s.mapping m.memory p = none := by
      rw [mapping_of_links (same ▸ linked), Entry.mapped?_eq_none.2 absent]
    rw [before]
    refine mapping_of_unlinked ?_
    rw [same, linkHere]
    exact Entry.present_zero
  refine ⟨intact, mapping, fun g n apart => ?_, became.sameMemory⟩
  have other : g ≠ f := fun same => apart.notTable d (same ▸ linked)
  refine ⟨held g apart.held other, apart.notRoot, fun c there => ?_, (users g).trans apart.users⟩
  exact apart.notTable c (links c g there).2

theorem Intact.reflag (h : s.Intact m none) (m' : Machine)
    (old : (s.link m.memory d).present = true) (present : e.present = true)
    (aim : e.frame = (s.link m.memory d).frame)
    (small : e.large = (s.link m.memory d).large) (frames : m'.frames = m.frames)
    (memory : m'.memory = m.memory.put s.root d e) :
    s.Leaves m m' none (s.mapping m.memory) := by
  have linkOther : ∀ c, c ≠ d → s.link m'.memory c = s.link m.memory c := by
    intro c other
    rw [memory, link_put_root_of_ne _ other]
  have linkHere : s.link m'.memory d = e := by
    rw [memory, link_put_root_self]
  have links : ∀ c g, s.Links m'.memory c g ↔ s.Links m.memory c g := by
    intro c g
    by_cases same : c = d
    · subst same
      constructor
      · rintro ⟨ordinary, -, leads⟩
        exact ⟨ordinary, old, by rw [← aim, ← linkHere]; exact leads⟩
      · rintro ⟨ordinary, -, leads⟩
        exact ⟨ordinary, by rw [linkHere]; exact present, by rw [linkHere, aim]; exact leads⟩
    · exact links_iff_of_same (linkOther c same)
  have frame : ∀ g, g ≠ s.root → m'.memory.frame g = m.memory.frame g := by
    intro g notRoot
    rw [memory, frame_put_root _ notRoot]
  -- It may be the last slot whose flags change; it still leads to the directory.
  have loop : s.LoopsBack m'.memory := by
    by_cases last : .recursive = d
    · subst last
      exact ⟨by rw [linkHere]; exact present, by rw [linkHere, aim]; exact h.loop.frame,
        by rw [linkHere, small]; exact h.loop.small⟩
    · exact h.loop.of_same (linkOther _ last)
  have table : ∀ c g, s.Links m.memory c g → HoldsTable m' g (fewest none c) := by
    intro c g linked
    have table := h.table c g linked
    exact table.of_same (by rw [frames]; exact table.held) (by rw [frames])
      (frame g (h.notRoot c g linked))
  have intact : s.Intact m' none := by
    refine h.relink d (by rw [frames]; exact h.frames) (by rw [frames]; exact h.fresh)
      (by rw [frames]; exact .refl _) (by rw [frames]; exact h.rootHeld) loop linkOther
      (fun c g _ => table c g) ?here ?blank
    case here =>
      intro g there
      have was := (links d g).1 there
      refine ⟨by rw [linkHere, small]; exact h.small d g was, h.notRoot d g was, ?_, table d g was⟩
      exact fun c other linked => other (h.unique c d g linked was)
    case blank =>
      rw [linkHere, present]
      exact nofun
  have mapping : s.mapping m'.memory = s.mapping m.memory := by
    refine mapping_relink linkOther (fun c g _ was => frame g (h.notRoot c g was)) fun p same => ?_
    by_cases last : p.directorySlot = .recursive
    · rw [mapping_of_recursive last, mapping_of_recursive last]
    · have was := links_of_present last (same ▸ old)
      rw [mapping_of_links was, mapping_of_links ((links _ _).2 was), PhysicalMemory.word,
        frame _ (h.notRoot _ _ was)]
      rfl
  refine ⟨intact, mapping, fun g n apart => ?_, by rw [frames]; exact .refl _⟩
  exact ⟨by rw [frames]; exact apart.held, apart.notRoot,
    fun c there => apart.notTable c ((links c g).1 there), by rw [frames]; exact apart.users⟩

/-- The directory and the tables are as they were, in memory and for the allocator. -/
structure Undisturbed (s : AddressSpace) (m m' : Machine) : Prop where
  frames : m'.frames.Managing
  fresh : ∀ p ∈ m'.frames.freePages, m'.frames.users p = 0
  sameMemory : SameMemory m.frames m'.frames
  held : ∀ f, f = s.root ∨ (∃ d, s.Links m.memory d f) → m.frames.Holds f → m'.frames.Holds f
  users : ∀ d f, s.Links m.memory d f → m'.frames.users f = m.frames.users f
  contents : ∀ f, f = s.root ∨ (∃ d, s.Links m.memory d f) →
    m'.memory.frame f = m.memory.frame f

theorem Undisturbed.link (h : s.Undisturbed m m') (d : Slot) :
    s.link m'.memory d = s.link m.memory d := by
  unfold AddressSpace.link PhysicalMemory.word
  rw [h.contents s.root (Or.inl rfl)]

theorem Undisturbed.links (h : s.Undisturbed m m') :
    s.Links m'.memory d f ↔ s.Links m.memory d f := links_iff_of_same (h.link d)

theorem Undisturbed.mapping (h : s.Undisturbed m m') :
    s.mapping m'.memory = s.mapping m.memory := by
  funext p
  exact mapping_of_same (h.link _) fun f linked => h.contents f (Or.inr ⟨_, linked⟩)

theorem Intact.elsewhere (h : s.Intact m bare) (undisturbed : s.Undisturbed m m') :
    s.Intact m' bare where
  frames := undisturbed.frames
  fresh := undisturbed.fresh
  sees := h.sees.of_same undisturbed.sameMemory
  rootHeld := undisturbed.held s.root (Or.inl rfl) h.rootHeld
  loop := h.loop.of_same (undisturbed.link _)
  small d f there := by
    rw [undisturbed.link d]
    exact h.small d f (undisturbed.links.1 there)
  notRoot d f there := h.notRoot d f (undisturbed.links.1 there)
  unique d e f there there' :=
    h.unique d e f (undisturbed.links.1 there) (undisturbed.links.1 there')
  table d f there := by
    have old := undisturbed.links.1 there
    have table := h.table d f old
    exact table.of_same (undisturbed.held f (Or.inr ⟨d, old⟩) table.held)
      (undisturbed.users d f old) (undisturbed.contents f (Or.inr ⟨d, old⟩))
  blank d absent := by
    rw [undisturbed.link d] at absent ⊢
    exact h.blank d absent

end AddressSpace
end Ia32Memory
