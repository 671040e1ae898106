import Ia32Memory.Proofs.Frame.Identity
import Ia32Memory.Proofs.Machine.Kept
import Ia32Memory.Proofs.Machine.Lifetime

/-! Refusals leave nothing behind.
When a page or a range is refused, what was mapped for it is unmapped again, and that is a way of
its own through other code.  It comes out at the same words all the same: the map is as it was, so
the same slots have tables; a link that is there at both ends was never touched; what is not mapped
is blank; and what the allocator knows follows from the tables and the ledger. -/

namespace Ia32Memory
open FrameAllocator (Confined)

theorem FrameAllocator.Moves.confined {a b : FrameAllocator} (moves : a.Moves b)
    (ha : a.Managing) : Confined a b := by
  cases moves with
  | take e => exact confined_of_take ha e
  | release e => exact confined_of_release ha e
  | addUser e => exact confined_of_addUser ha e
  | removeUser e => exact confined_of_removeUser ha e

theorem kept_confined : Kept fun m m' => m.frames.Managing → Confined m.frames m'.frames where
  trans h h' managing := (h managing).trans (h' (h managing).managing)
  quiet quiet managing := by
    rw [quiet.frames]
    exact managing.confined_refl
  frames moves := moves.confined
  memory _ _ := FrameAllocator.Managing.confined_refl
  noted _ _ _ := FrameAllocator.Managing.confined_refl

namespace AddressSpace

/-- The directory, the tables that it links and the allocator are word for word what they were. -/
structure Unchanged (s : AddressSpace) (m m' : Machine) : Prop where
  directory : m'.memory.frame s.root = m.memory.frame s.root
  tables : ∀ d f, s.Links m.memory d f → m'.memory.frame f = m.memory.frame f
  frames : m'.frames = m.frames

variable {s : AddressSpace} {m m' : Machine} {own : Set VirtualPage} {d : Slot}
  {f frame : PhysicalPage} {flags : Entry} {page : VirtualPage}

theorem Intact.present_of_mapping (h : s.Intact m none) (h' : s.Intact m' none)
    (mapping : s.mapping m'.memory = s.mapping m.memory)
    (present : (s.link m.memory d).present = true) : (s.link m'.memory d).present = true := by
  by_cases last : d = .recursive
  · rw [last]
    exact h'.loop.present
  · obtain ⟨t, mapped⟩ := h.exists_mapped (links_of_present last present)
    rw [← mapping] at mapped
    obtain ⟨v, maps⟩ := Option.ne_none_iff_exists'.1 mapped
    obtain ⟨g, linked, -⟩ := links_of_mapping maps
    rw [Page.directorySlot_ofSlots] at linked
    exact linked.present

theorem Restored.link_eq (r : s.Restored m own m') (h : s.Intact m none) (d : Slot) :
    s.link m'.memory d = s.link m.memory d := by
  have h' := r.yields.sound.intact
  have mapping := r.yields.mapping
  obtain ⟨mem, before, after⟩ := r.links
  cases present : (s.link m.memory d).present with
  | true =>
    have still := h.present_of_mapping h' mapping present
    rw [← before d present, after d still]
  | false =>
    have absent : (s.link m'.memory d).present = false := by
      refine Bool.eq_false_iff.2 fun there => ?_
      have was := h'.present_of_mapping h mapping.symm there
      rw [present] at was
      exact Bool.noConfusion was
    rw [h.blank d present, h'.blank d absent]

/-- A table that is linked in both has the entries that the map tells. -/
theorem Intact.frame_eq (h : s.Intact m none) (h' : s.Intact m' none)
    (linked : s.Links m.memory d f) (linked' : s.Links m'.memory d f)
    (same : ∀ p, p.directorySlot = d → s.mapping m'.memory p = s.mapping m.memory p) :
    m'.memory.frame f = m.memory.frame f := by
  have table := h.table d f linked
  have table' := h'.table d f linked'
  refine EntryTable.ext_entry fun t => ?_
  have slot : (Page.ofSlots d t).directorySlot = d := Page.directorySlot_ofSlots d t
  have mapping := same _ slot
  rw [mapping_of_links (slot ▸ linked'), mapping_of_links (slot ▸ linked), Page.tableSlot_ofSlots]
    at mapping
  cases present : Entry.present (m.memory.word f t) with
  | true => exact Entry.eq_of_mapped? present mapping
  | false =>
    rw [Entry.mapped?_eq_none.2 present, Entry.mapped?_eq_none] at mapping
    exact (table'.blank t mapping).trans (table.blank t present).symm

theorem Restored.frame_eq (r : s.Restored m own m') (h : s.Intact m none)
    (linked : s.Links m.memory d f) : m'.memory.frame f = m.memory.frame f :=
  h.frame_eq r.yields.sound.intact linked (linked.of_same (r.link_eq h d))
    fun p _ => by rw [r.yields.mapping]

theorem Restored.frames_eq (r : s.Restored m ∅ m') (h : s.Intact m none)
    (confined : Confined m.frames m'.frames) : m'.frames = m.frames := by
  have h' := r.yields.sound.intact
  have links : ∀ d f, s.Links m'.memory d f ↔ s.Links m.memory d f :=
    fun d _ => links_iff_of_same (r.link_eq h d)
  have ledger : s.ledger m' = s.ledger m := by
    rw [← residue_nobody, ← residue_nobody, r.residue]
  have held : ∀ f, m'.frames.Holds f ↔ m.frames.Holds f := by
    intro f
    rw [h'.holds_iff, h.holds_iff, ledger]
    simp only [links]
  have free : m'.frames.freePages = m.frames.freePages := by
    ext p
    have same := held p
    have managed := confined.sameMemory.manages (p := p)
    unfold FrameAllocator.Holds at same
    constructor
    · intro mem
      exact not_not.1 fun used => (same.2 ⟨managed.1 mem.1, used⟩).2 mem
    · intro mem
      exact not_not.1 fun used => (same.1 ⟨managed.2 mem.1, used⟩).2 mem
  refine h.frames.eq_of_confined confined free fun p managed => ?_
  by_cases mem : p ∈ m.frames.freePages
  · rw [h.fresh p mem, h'.fresh p (free ▸ mem)]
  · by_cases table : ∃ d, s.Links m.memory d p
    · obtain ⟨d, linked⟩ := table
      rw [(h.table d p linked).counted, (h'.table d p ((links d p).2 linked)).counted,
        r.frame_eq h linked]
    · have entry : s.ledger m p = some (m.frames.users p) :=
        ledger_eq_some.2 ⟨⟨⟨managed, mem⟩, fun d linked => table ⟨d, linked⟩⟩, rfl⟩
      rw [← ledger] at entry
      exact (ledger_eq_some.1 entry).2

theorem Restored.unchanged (r : s.Restored m ∅ m') (h : s.Intact m none)
    (confined : Confined m.frames m'.frames) : s.Unchanged m m' :=
  ⟨EntryTable.ext_entry (r.link_eq h), fun _ _ linked => r.frame_eq h linked,
    r.frames_eq h confined⟩

theorem Advances.restored (h : s.Advances m own m' own)
    (yields : s.Yields m m' own (s.mapping m.memory)) : s.Restored m own m' :=
  ⟨yields, h.residue, m'.memory, h.links, fun _ _ => rfl⟩

theorem Intact.unchanged_of_allocPage {e : MapError} (h : s.Intact m none)
    (ran : s.allocPage page flags m = .ok (.error e) m') : s.Unchanged m m' := by
  rcases h.sound.allocPage_cases page flags with ⟨e, m₁, e', same, -⟩ | ⟨-, fault, m₁, e'⟩ |
    ⟨-, -, f, m₁, e', -⟩
  · cases e'.symm.trans ran
    refine ((h.sound.advances_of_refused ran).restored same).unchanged h ?_
    exact kept_confined.allocPage s page flags m _ m' ran h.frames
  · exact nomatch e'.symm.trans ran
  · exact nomatch e'.symm.trans ran

theorem Intact.unchanged_of_mapPage {e : MapError} (h : s.Intact m none)
    (ran : s.mapPage page frame flags m = .ok (.error e) m') : s.Unchanged m m' := by
  have confined := kept_confined.mapPage s page flags frame m _ m' ran h.frames
  have advances := h.sound.advances_of_mapPage ran
  exact (advances.restored (h.sound.quiet (h.quiet_of_refused ran))).unchanged h confined

theorem Intact.unchanged_of_mapRange {start stop : VirtualAddress} {e : MapError}
    (h : s.Intact m none) (ran : s.mapRange start stop flags m = .ok (.error e) m') :
    s.Unchanged m m' := by
  have restored := (h.sound.mapRange_cases start stop flags).refused ran
  exact restored.unchanged h (kept_confined.mapRange s flags start stop m _ m' ran h.frames)

/-- A range whose ends are aligned and whose pages are not mapped is mapped or refused, and what is
refused, a range or a single page, changes nothing. -/
theorem refusal_changes_nothing (h : s.Intact m none) :
    (∀ start stop flags, start.IsAligned → stop.IsAligned →
      (∀ p ∈ Request.row start stop, p.directorySlot ≠ .recursive →
        s.mapping m.memory p = none) →
      ∃ result m', s.mapRange start stop flags m = .ok result m' ∧
        ∀ e, result = .error e → s.Unchanged m m') ∧
    (∀ start stop flags, start.IsAligned → stop.IsAligned → stop < start →
      s.mapRange start stop flags m = .ok (.error (.invalidRange start stop)) m) ∧
    (∀ page flags e m', s.allocPage page flags m = .ok (.error e) m' → s.Unchanged m m') ∧
    ∀ page frame flags e m', s.mapPage page frame flags m = .ok (.error e) m' →
      s.Unchanged m m' := by
  refine ⟨fun start stop flags hstart hstop unmapped => ?_,
    fun start stop flags hstart hstop less => ?_, fun page flags e m' => h.unchanged_of_allocPage,
    fun page frame flags e m' => h.unchanged_of_mapPage⟩
  · rcases h.sound.mapRange_cases start stop flags with ⟨why, -⟩ | ⟨e, m', ran, -⟩ | ⟨m', ran, -⟩
    · rcases why with crooked | ⟨p, mem, mapped⟩
      · exact absurd ⟨hstart, hstop⟩ crooked
      · refine absurd (unmapped p mem fun last => ?_) mapped
        exact mapped (mapping_of_recursive last)
    · exact ⟨_, m', ran, fun _ _ => h.unchanged_of_mapRange ran⟩
    · exact ⟨_, m', ran, fun _ no => nomatch no⟩
  · rcases rangePages_cases start stop with ⟨crooked, -⟩ | ⟨-, -, e⟩ | ⟨-, le, -⟩
    · exact absurd ⟨hstart, hstop⟩ crooked
    · rw [mapRange, step_lift_bind_of_ok e]
      rfl
    · exact absurd less (Nat.not_lt.2 le)

theorem refusal_changes_nothing_small :
    ∃ (m : Machine) (e : MapError) (m' : Machine), (ofRoot .first).Intact m none ∧
      (ofRoot .first).mapRange ⟨0xFFBFF000, by decide⟩ ⟨0xFFC01000, by decide⟩
        Entry.kernelReadWrite m = .ok (.error e) m' ∧
      (ofRoot .first).Unchanged m m' := by
  obtain ⟨a, m, ready, used, fresh, -⟩ := exists_fresh
  obtain ⟨ha, -⟩ := FrameAllocator.managing_of_setup ⟨by decide, by decide⟩ ready
  obtain ⟨frames, -, -⟩ := used.follows ha
  have intact := (fresh.sound frames).intact
  obtain ⟨ranges, -⟩ := refusal_changes_nothing intact
  obtain ⟨result, m', ran, unchanged⟩ := ranges ⟨0xFFBFF000, by decide⟩ ⟨0xFFC01000, by decide⟩
    Entry.kernelReadWrite (by decide) (by decide) fun p _ _ => fresh.mapping p
  cases result with
  | error e => exact ⟨m, e, m', intact, ran, unchanged e rfl⟩
  | ok _ =>
    rcases intact.sound.mapRange_cases ⟨0xFFBFF000, by decide⟩ ⟨0xFFC01000, by decide⟩
      Entry.kernelReadWrite with ⟨-, fault, m₁, e⟩ | ⟨e, m₁, e', -⟩ | ⟨m₁, e, placed⟩
    · exact nomatch e.symm.trans ran
    · exact nomatch e'.symm.trans ran
    · have inside : (⟨0xFFC00, by decide⟩ : VirtualPage) ∈
          Page.between (⟨0xFFBFF000, by decide⟩ : VirtualAddress).page
            (⟨0xFFC01000, by decide⟩ : VirtualAddress).page := Page.mem_between.2 (by decide)
      obtain ⟨v, maps, -⟩ := placed.placed _ inside
      exact absurd (by decide) (ordinary_of_mapping maps)

end AddressSpace
end Ia32Memory
