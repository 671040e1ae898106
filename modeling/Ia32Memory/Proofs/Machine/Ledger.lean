import Ia32Memory.Proofs.Machine.PageOperations

/-! What a space has taken from the allocator.
A frame in use is a table, or belongs to a page, or is neither; the ledger has the users of each
frame in use that is no table.  Mapping a page to a given frame leaves the ledger as it is, whatever
table comes for it, and so does unmapping, whatever table goes.  A page that gets a frame of its own
brings just that frame into the ledger.  So with the frames of such pages crossed out the ledger is
never changed.  Mapping and unmapping are the same relation between two states, read forwards and
backwards. -/

namespace Ia32Memory.AddressSpace
open FrameAllocator (Counted Became SameMemory)

def Plain (s : AddressSpace) (m : Machine) (f : PhysicalPage) : Prop :=
  m.frames.Holds f ∧ ∀ d, ¬s.Links m.memory d f

open Classical in
/-- The users of each frame that is in use and no table. -/
noncomputable def ledger (s : AddressSpace) (m : Machine) (f : PhysicalPage) : Option Nat :=
  if s.Plain m f then some (m.frames.users f) else none

def Extends (s : AddressSpace) (mem mem' : PhysicalMemory) : Prop :=
  ∀ d, (s.link mem d).present = true → s.link mem' d = s.link mem d

/-- Tables may have come, and the ledger has changed at these frames only. -/
structure Grows (s : AddressSpace) (but : Set PhysicalPage) (m m' : Machine) : Prop where
  ledger : ∀ g, g ∉ but → s.ledger m' g = s.ledger m g
  links : s.Extends m.memory m'.memory

variable {s : AddressSpace} {m m' m'' : Machine} {mem mem' mem'' : PhysicalMemory} {d : Slot}
  {f g frame : PhysicalPage} {flags : Entry} {page : VirtualPage} {k n : Nat}
  {own : Set VirtualPage} {but : Set PhysicalPage}

theorem ledger_eq_some : s.ledger m f = some n ↔ s.Plain m f ∧ m.frames.users f = n := by
  unfold ledger
  by_cases plain : s.Plain m f
  · simp [plain]
  · simp [plain]

theorem ledger_eq_none : s.ledger m f = none ↔ ¬s.Plain m f := by
  unfold ledger
  by_cases plain : s.Plain m f
  · simp [plain]
  · simp [plain]

theorem ledger_at (plain : s.Plain m' f ↔ s.Plain m f)
    (users : s.Plain m f → m'.frames.users f = m.frames.users f) :
    s.ledger m' f = s.ledger m f := by
  unfold ledger
  by_cases here : s.Plain m f
  · rw [if_pos here, if_pos (plain.2 here), users here]
  · rw [if_neg here, if_neg fun there => here (plain.1 there)]

theorem ledger_of_free (free : f ∈ m.frames.freePages) : s.ledger m f = none :=
  ledger_eq_none.2 fun plain => plain.1.2 free

theorem ledger_of_links (linked : s.Links m.memory d f) : s.ledger m f = none :=
  ledger_eq_none.2 fun plain => plain.2 d linked

/-- A frame in use is a table, or in the ledger. -/
theorem Intact.holds_iff (h : s.Intact m none) :
    m.frames.Holds f ↔ s.ledger m f ≠ none ∨ ∃ d, s.Links m.memory d f := by
  rw [ne_eq, ledger_eq_none, not_not]
  constructor
  · intro held
    by_cases table : ∃ d, s.Links m.memory d f
    · exact Or.inr table
    · exact Or.inl ⟨held, fun d linked => table ⟨d, linked⟩⟩
  · rintro (plain | ⟨d, linked⟩)
    · exact plain.1
    · exact (h.table d f linked).held

theorem extends_of_same (link : ∀ c, s.link mem' c = s.link mem c) : s.Extends mem mem' :=
  fun c _ => link c

theorem Extends.trans (h : s.Extends mem mem') (h' : s.Extends mem' mem'') :
    s.Extends mem mem'' := by
  intro d present
  have same := h d present
  rw [← same] at present ⊢
  exact h' d present

theorem Grows.trans (h : s.Grows but m m') (h' : s.Grows but m' m'') : s.Grows but m m'' :=
  ⟨fun g out => (h'.ledger g out).trans (h.ledger g out), h.links.trans h'.links⟩

theorem Grows.mono (h : s.Grows ∅ m m') : s.Grows but m m' :=
  ⟨fun g _ => h.ledger g not_false, h.links⟩

theorem grows_of_frames (link : ∀ c, s.link m'.memory c = s.link m.memory c)
    (frames : ∀ g, g ∉ but → (∀ c, ¬s.Links m.memory c g) →
      (m'.frames.Holds g ↔ m.frames.Holds g) ∧
        (m.frames.Holds g → m'.frames.users g = m.frames.users g)) :
    s.Grows but m m' ∧ s.Grows but m' m := by
  have same : ∀ g, g ∉ but → s.ledger m' g = s.ledger m g := by
    intro g out
    have links : (∀ c, ¬s.Links m'.memory c g) ↔ ∀ c, ¬s.Links m.memory c g :=
      forall_congr' fun c => not_congr (links_iff_of_same (link c))
    by_cases table : ∀ c, ¬s.Links m.memory c g
    · obtain ⟨held, users⟩ := frames g out table
      exact ledger_at (and_congr held links) fun plain => users plain.1
    · rw [ledger_eq_none.2 fun plain => table plain.2,
        ledger_eq_none.2 fun plain => table (links.1 plain.2)]
  exact ⟨⟨same, extends_of_same link⟩,
    ⟨fun g out => (same g out).symm, extends_of_same fun c => (link c).symm⟩⟩

theorem grows_of_same (frames : m'.frames = m.frames)
    (link : ∀ c, s.link m'.memory c = s.link m.memory c) :
    s.Grows but m m' ∧ s.Grows but m' m := by
  refine grows_of_frames link fun g _ _ => ?_
  rw [frames]
  exact ⟨Iff.rfl, fun _ => rfl⟩

theorem Grows.of_quiet (quiet : Paging.Quiet m m') : s.Grows but m m' :=
  (grows_of_same quiet.frames fun c => by rw [link, quiet.memory, link]).1

theorem grows_of_counted (counted : Counted m.frames m'.frames f k)
    (allowed : f ∈ but ∨ ∃ d, s.Links m.memory d f)
    (link : ∀ c, s.link m'.memory c = s.link m.memory c) :
    s.Grows but m m' ∧ s.Grows but m' m := by
  refine grows_of_frames link fun g out table => ⟨counted.holds, fun held => ?_⟩
  refine counted.users_of_ne held.1 ?_
  rintro rfl
  rcases allowed with mem | ⟨d, linked⟩
  · exact out mem
  · exact table d linked

theorem grows_of_became {free : Set PhysicalPage} (became : Became m.frames m'.frames free)
    (others : ∀ g, g ∉ but → (g ∈ free ↔ g ∈ m.frames.freePages))
    (memory : m'.memory = m.memory) : s.Grows but m m' ∧ s.Grows but m' m := by
  refine grows_of_frames (fun c => by rw [link, memory, link]) fun g out _ => ?_
  refine ⟨?_, fun _ => became.users⟩
  rw [became.holds, others g out]
  exact Iff.rfl

theorem grows_of_linked (unlinked : (s.link m.memory d).present = false)
    (linked : s.Links m'.memory d f)
    (others : ∀ c, c ≠ d → s.link m'.memory c = s.link m.memory c)
    (free : f ∈ m.frames.freePages)
    (held : ∀ g, g ≠ f → (m'.frames.Holds g ↔ m.frames.Holds g))
    (users : ∀ g, m'.frames.users g = m.frames.users g) : s.Grows ∅ m m' := by
  refine ⟨fun g _ => ?_, fun c present => others c ?_⟩
  · by_cases same : g = f
    · rw [same, ledger_of_links linked, ledger_of_free free]
    · have links : ∀ c, s.Links m'.memory c g ↔ s.Links m.memory c g := by
        intro c
        by_cases here : c = d
        · subst here
          refine iff_of_false (fun there => same (there.eq_frame linked)) fun old => ?_
          exact absurd old.present (Bool.eq_false_iff.1 unlinked)
        · exact links_iff_of_same (others c here)
      exact ledger_at (and_congr (held g same) (forall_congr' fun c => not_congr (links c)))
        fun _ => users g
  · rintro rfl
    exact absurd present (Bool.eq_false_iff.1 unlinked)

theorem Intact.grows_of_tabled (h : s.Intact m none) (tabled : s.Tabled m d flags m' f) :
    s.Grows ∅ m m' := by
  obtain ⟨linked, -⟩ := h.of_tabled tabled
  cases tabled with
  | linked _ => exact Grows.of_quiet (.refl m)
  | @installed f frames ordinary unlinked _ free became =>
    have ne : f ≠ s.root := fun same => h.rootHeld.2 (same ▸ free)
    refine grows_of_linked unlinked linked (fun c other => ?_) free (fun g other => ?_)
      fun g => became.users
    · exact (link_clear _ ne c).trans (link_put_root_of_ne _ other _)
    · refine became.holds.trans (and_congr_right fun _ => not_congr ?_)
      exact ⟨fun now => now.1, fun old => ⟨old, other⟩⟩

theorem Intact.grows_of_vacated {left : Machine} (h : s.Intact left (some d))
    (linked : s.Links left.memory d f) (vacated : s.Vacated left d f m') : s.Grows ∅ m' left := by
  cases vacated with
  | kept _ => exact Grows.of_quiet (.refl _)
  | @gone frames unused became =>
    have held := (h.table d f linked).held
    refine grows_of_linked ?_ linked (fun c other => ?_) ?_ (fun g other => ?_)
      fun g => became.users.symm
    · refine Eq.trans (congrArg Entry.present ?_) Entry.present_zero
      exact link_put_root_self left.memory d 0
    · exact (link_put_root_of_ne left.memory other 0).symm
    · refine Eq.mpr (congrArg (f ∈ ·) became.free) (Or.inr rfl)
    · refine (became.holds.trans (and_congr_right fun _ => not_congr ?_)).symm
      exact ⟨fun now => now.resolve_right other, Or.inl⟩

theorem Intact.grows_of_mapPage {result : Except MapError Unit} (h : s.Intact m none)
    (ran : s.mapPage page frame flags m = .ok result m') : s.Grows ∅ m m' := by
  rcases h.mapPage_ran ran with ⟨-, quiet⟩ | ⟨m₁, f, frames, tabled, counted, -, rfl⟩
  · exact Grows.of_quiet quiet
  · obtain ⟨linked, leaves⟩ := h.of_tabled tabled
    have ne := leaves.intact.notRoot _ f linked
    let entered := m₁.entered f page (Entry.aimedAt frame flags) frames
    have filled : s.Grows ∅ m₁ entered ∧ s.Grows ∅ entered m₁ :=
      grows_of_counted counted (Or.inr ⟨_, linked⟩) (link_put_of_ne ne)
    exact (h.grows_of_tabled tabled).trans filled.1

theorem Intact.grows_of_unmapPage (h : s.Intact m none)
    (ran : s.unmapPage page m = .ok frame m') : s.Grows ∅ m' m := by
  obtain ⟨f, frames, linked, counted, intact, there, vacated⟩ := h.unmapPage_ran ran
  let left := m.entered f page 0 frames
  have blanked : s.Grows ∅ m left ∧ s.Grows ∅ left m :=
    grows_of_counted counted (Or.inr ⟨_, linked⟩) (link_put_of_ne (h.notRoot _ f linked))
  exact (intact.grows_of_vacated there vacated).trans blanked.2

theorem links_iff_of_aim (present : (s.link mem' d).present = (s.link mem d).present)
    (frame : (s.link mem' d).frame = (s.link mem d).frame) :
    s.Links mem' d f ↔ s.Links mem d f := by
  constructor
  · rintro ⟨ordinary, linked, aim⟩
    exact ⟨ordinary, present ▸ linked, frame ▸ aim⟩
  · rintro ⟨ordinary, linked, aim⟩
    exact ⟨ordinary, present.trans linked, frame.trans aim⟩

theorem Intact.same_of_setWritable {writable : Bool} (h : s.Intact m none)
    (ordinary : page.directorySlot ≠ .recursive)
    (ran : s.setWritable page writable m = .ok () m') :
    m'.frames = m.frames ∧ ∀ d, s.link m'.memory d = s.link m.memory d := by
  obtain ⟨f, consulted, -, rfl⟩ := h.shielded_of_setWritable ran
  cases consulted with
  | directory last => exact absurd last ordinary
  | table linked => exact ⟨rfl, link_put_of_ne (h.notRoot _ f linked)⟩

theorem Intact.grows_of_setWritable {writable : Bool} (h : s.Intact m none)
    (ordinary : page.directorySlot ≠ .recursive)
    (ran : s.setWritable page writable m = .ok () m') : s.Grows but m m' := by
  obtain ⟨frames, link⟩ := h.same_of_setWritable ordinary ran
  exact (grows_of_same frames link).1

theorem Intact.ledger_of_setWritable {writable : Bool} (h : s.Intact m none)
    (ran : s.setWritable page writable m = .ok () m') : s.ledger m' = s.ledger m := by
  by_cases last : page.directorySlot = .recursive
  · obtain ⟨f, consulted, -, rfl⟩ := h.shielded_of_setWritable ran
    cases consulted with
    | table linked => exact absurd last linked.ordinary
    | directory _ =>
      let e := Entry.withWritable (s.link m.memory page.tableSlot) writable
      have links : ∀ c g, s.Links (m.memory.put s.root page.tableSlot e) c g ↔
          s.Links m.memory c g := by
        intro c g
        by_cases here : c = page.tableSlot
        · subst here
          refine links_iff_of_aim ?_ ?_
          · rw [link_put_root_self]
            exact Entry.present_withWritable writable
          · rw [link_put_root_self]
            exact Entry.frame_withWritable writable
        · exact links_iff_of_same (link_put_root_of_ne m.memory here e)
      funext g
      exact ledger_at (and_congr Iff.rfl (forall_congr' fun c => not_congr (links c g)))
        fun _ => rfl
  · funext g
    exact (h.grows_of_setWritable last ran).ledger g (Set.notMem_empty g)

end Ia32Memory.AddressSpace
