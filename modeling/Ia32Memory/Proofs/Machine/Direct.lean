import Ia32Memory.Proofs.Machine.Accounts
import Ia32Memory.Proofs.Machine.Refinement
import Ia32Memory.Proofs.Machine.Rollback

/-! Ranges that lead to given frames.
A direct mapping takes no frames of its own: the pages of a range lead, one after the other, to the
frames from a given one on, and all that the allocator is asked for is the tables.  If these frames
lie in memory the range is mapped as a whole or not at all, and unmapping it puts back every word
that mapping it has changed.  The frame of a page is computed when its turn comes, though, so a
range whose frames run past the end of memory is mapped up to there before the addition overflows;
that is a fault and not a refusal, and nothing is undone. -/

namespace Ia32Memory.AddressSpace
open FrameAllocator (SameMemory Confined)

def Places (place : VirtualPage → Paging (Except MapError Unit)) :
    List VirtualPage → Machine → Machine → Prop
  | [], m, m' => m' = m
  | page :: rest, m, m' => ∃ m₁, place page m = .ok (.ok ()) m₁ ∧ Places place rest m₁ m'

section Loop
variable {name : String} {first last : VirtualAddress} {page : VirtualPage}
  {place : VirtualPage → Paging (Except MapError Unit)}
  {undo : VirtualAddress → VirtualAddress → Paging (Except MapError Unit)}
  {before after pages : List VirtualPage} {m m' m₁ : Machine}

theorem mapEach_append (placed : Places place before m m₁) :
    mapEach name first last place undo (before ++ after) m =
      mapEach name first last place undo after m₁ := by
  induction before generalizing m with
  | nil =>
    cases placed
    rfl
  | cons p rest ih =>
    obtain ⟨m₂, start, onward⟩ := placed
    exact (step_bind_ok start _).trans (ih onward)

theorem mapEach_of_places (placed : Places place pages m m') :
    mapEach name first last place undo pages m = .ok (.ok ()) m' := by
  have whole : mapEach name first last place undo (pages ++ []) m =
      mapEach name first last place undo [] m' := mapEach_append placed
  rw [List.append_nil] at whole
  exact whole

theorem places_of_mapEach (ran : mapEach name first last place undo pages m = .ok (.ok ()) m') :
    Places place pages m m' := by
  induction pages generalizing m with
  | nil =>
    cases ran
    rfl
  | cons p rest ih =>
    obtain ⟨result, m₁, start, onward⟩ := step_bind_eq_ok.1 ran
    cases result with
    | ok _ => exact ⟨m₁, start, ih onward⟩
    | error e =>
      obtain ⟨_, m₂, -, onward⟩ := step_bind_eq_ok.1 onward
      obtain ⟨undone, m₃, -, last⟩ := step_bind_eq_ok.1 onward
      cases undone <;> cases last

/-- All pages of a row are placed, or there is a first one that is not. -/
theorem places_or_stops (place : VirtualPage → Paging (Except MapError Unit))
    (pages : List VirtualPage) (m : Machine) :
    (∃ m', Places place pages m m') ∨ ∃ before page after m₁, pages = before ++ page :: after ∧
      Places place before m m₁ ∧ ∀ m', place page m₁ ≠ .ok (.ok ()) m' := by
  induction pages generalizing m with
  | nil => exact Or.inl ⟨m, rfl⟩
  | cons p rest ih =>
    by_cases start : ∃ m₁, place p m = .ok (.ok ()) m₁
    · obtain ⟨m₁, start⟩ := start
      rcases ih m₁ with ⟨m', onward⟩ | ⟨before, page, after, m₂, rfl, onward, stops⟩
      · exact Or.inl ⟨m', m₁, start, onward⟩
      · exact Or.inr ⟨p :: before, page, after, m₂, rfl, ⟨m₁, start, onward⟩, stops⟩
    · exact Or.inr ⟨[], p, rest, m, rfl, rfl, fun m' one => start ⟨m', one⟩⟩

theorem mapEach_of_refused {e : MapError} (refused : place page m = .ok (.error e) m₁)
    (undone : ∀ m₂, Paging.Quiet m₁ m₂ → ∃ m₃, undo first page.base m₂ = .ok (.ok ()) m₃) :
    ∃ m', mapEach name first last place undo (page :: after) m = .ok (.error e) m' := by
  obtain ⟨m₃, back⟩ := undone (m₁.said .warn
    (s!"{name} {first.text}..{last.text}: {e.message} at " ++ s!"{page.base.text}, rolling back"))
    ⟨rfl, rfl, rfl⟩
  exact ⟨m₃, (step_bind_ok refused _).trans ((step_bind_ok back _).trans rfl)⟩

end Loop

variable {s : AddressSpace} {m m' m'' m₁ : Machine} {own : Set VirtualPage} {page : VirtualPage}
  {pages done before after : List VirtualPage} {start stop : VirtualAddress}
  {target : PhysicalAddress} {flags : Entry}

theorem add_eq_error {k : AddressKind} {a : Address k} {n : Nat}
    (beyond : 0x100000000 ≤ a.toNat + n) : a.add n = .error .overflow := by
  unfold Address.add Address.add? Address.ofNat?
  rw [dif_neg (Nat.not_lt.2 beyond)]
  rfl

theorem mapDirect_eq (hstart : start.IsAligned) (hstop : stop.IsAligned) (order : start ≤ stop)
    (htarget : target.IsAligned) : s.mapDirect start stop target flags m =
      mapEach "map_direct" start stop (s.placeDirect start target flags) s.unmapDirect
        (Page.between start.page stop.page) m := by
  unfold mapDirect
  rw [step_lift_bind_of_ok (rangePages_of_le ⟨hstart, hstop⟩ order)]
  simp only [if_pos htarget]
  rfl

theorem Placed.places (h : s.Placed m own False (direct start target flags) done m₁)
    (placed : Places (s.placeDirect start target flags) pages m₁ m') :
    s.Placed m own False (direct start target flags) (done ++ pages) m' := by
  induction pages generalizing done m₁ with
  | nil =>
    cases placed
    rwa [List.append_nil]
  | cons p rest ih =>
    obtain ⟨m₂, one, onward⟩ := placed
    have more : s.Placed m own False (direct start target flags) (done ++ [p]) m₂ :=
      (h.placeDirect p).of_ran one (fun _ no => nomatch no) fun _ more => more
    have whole := ih more onward
    rwa [List.append_assoc, List.singleton_append] at whole

def Refuses (page : VirtualPage) (e : MapError) : Prop :=
  e = .outOfMemory ∨ page.directorySlot = .recursive ∧ e = .reservedWindow page.base

theorem Sound.placeDirect_cases (h : s.Sound m own) (page : VirtualPage)
    (unmapped : s.mapping m.memory page = none) :
    (0x100000000 ≤ target.toNat + (page.base.toNat - start.toNat) ∧
      s.placeDirect start target flags page m = .error .overflow m) ∨
    (∃ e m', Refuses page e ∧ s.placeDirect start target flags page m = .ok (.error e) m') ∨
    ∃ m', s.placeDirect start target flags page m = .ok (.ok ()) m' := by
  unfold placeDirect
  by_cases inside : target.toNat + (page.base.toNat - start.toNat) < 0x100000000
  · have found : target.add (page.base.toNat - start.toNat) = .ok ⟨_, inside⟩ :=
      Address.add_eq_ok.2 rfl
    rw [step_lift_bind_of_ok found]
    rcases h.mapPage_cases page (Address.page ⟨_, inside⟩) flags with ⟨last, e⟩ | ⟨mapped, -⟩ |
      ⟨-, -, ⟨-, m₁, e, -⟩ | ⟨m₁, e, -⟩⟩
    · exact Or.inr (Or.inl ⟨_, m, Or.inr ⟨last, rfl⟩, e⟩)
    · exact absurd unmapped mapped
    · exact Or.inr (Or.inl ⟨_, m₁, Or.inl rfl, e⟩)
    · exact Or.inr (Or.inr ⟨m₁, e⟩)
  · refine Or.inl ⟨Nat.le_of_not_lt inside, ?_⟩
    rw [add_eq_error (Nat.le_of_not_lt inside)]
    rfl

theorem Sound.mapDirect_outcome (h : s.Sound m own) (hstart : start.IsAligned)
    (hstop : stop.IsAligned) (order : start ≤ stop) (htarget : target.IsAligned)
    (unmapped : ∀ p ∈ Page.between start.page stop.page, s.mapping m.memory p = none) :
    (∃ page ∈ Page.between start.page stop.page,
      0x100000000 ≤ target.toNat + (page.base.toNat - start.toNat) ∧
      ∃ m', Places (s.placeDirect start target flags) (Page.between start.page page) m m' ∧
        s.mapDirect start stop target flags m = .error .overflow m') ∨
    (∃ page ∈ Page.between start.page stop.page, ∃ e m', Refuses page e ∧
      s.mapDirect start stop target flags m = .ok (.error e) m') ∨
    ∃ m', s.mapDirect start stop target flags m = .ok (.ok ()) m' := by
  rw [mapDirect_eq hstart hstop order htarget]
  rcases places_or_stops (s.placeDirect start target flags) (Page.between start.page stop.page) m
    with ⟨m', placed⟩ | ⟨before, page, after, m₁, split, placed, stops⟩
  · exact Or.inr (Or.inr ⟨m', mapEach_of_places placed⟩)
  · have mem := mem_of_split split
    have sofar : s.Placed m own False (direct start target flags) before m₁ :=
      (Placed.nothing h).places placed
    have still : s.mapping m₁.memory page = none := by
      rw [sofar.others page (notMem_before split)]
      exact unmapped page mem
    rcases sofar.sound.placeDirect_cases page still with ⟨beyond, e⟩ | ⟨e, m₂, why, refused⟩ |
      ⟨m₂, e⟩
    · refine Or.inl ⟨page, mem, beyond, m₁, ?_, ?_⟩
      · rw [Page.between_before split]
        exact placed
      · rw [split, mapEach_append placed]
        exact step_bind_error e _
    · have kept : s.Placed m own False (direct start target flags) before m₂ :=
        (sofar.placeDirect page).of_ran refused (fun _ _ kept => kept) fun no => nomatch no
      have undone : ∀ m₃, Paging.Quiet m₂ m₃ →
          ∃ m', s.unmapDirect start page.base m₃ = .ok (.ok ()) m' := by
        intro m₃ quiet
        obtain ⟨m', back, -⟩ := (kept.quiet quiet).unmapDirect h hstart split
        exact ⟨m', back⟩
      obtain ⟨m', ran⟩ := mapEach_of_refused refused undone
      refine Or.inr (Or.inl ⟨page, mem, e, m', why, ?_⟩)
      rw [split, mapEach_append placed]
      exact ran
    · exact absurd e (stops m₂)

theorem Intact.unchanged_of_mapDirect {e : MapError} (h : s.Intact m none)
    (ran : s.mapDirect start stop target flags m = .ok (.error e) m') : s.Unchanged m m' := by
  have confined := kept_confined.mapDirect s flags start stop target m _ m' ran h.frames
  exact ((h.sound.mapDirect_cases start stop target flags).refused ran).unchanged h confined

/-- A range leads to the frames from one on, and the allocator was asked for nothing but the tables
that were missing. -/
structure Directed (s : AddressSpace) (m : Machine) (start stop : VirtualAddress)
    (target : PhysicalAddress) (flags : Entry) (m' : Machine) : Prop where
  query : ∀ a : VirtualAddress, start ≤ a → a < stop →
    ∃ p, target.add (a.toNat - start.toNat) = .ok p ∧ s.query a m' = .ok (some p) m'
  entry : ∀ page ∈ Page.between start.page stop.page,
    ∃ p, target.add (page.base.toNat - start.toNat) = .ok p ∧
      s.entry? page m' = .ok (some (Entry.aimedAt p.page flags)) m'
  others : ∀ page ∉ Page.between start.page stop.page,
    s.mapping m'.memory page = s.mapping m.memory page
  links : ∀ d f, s.Links m.memory d f → s.Links m'.memory d f
  tables : ∀ d f, s.Links m'.memory d f → ¬s.Links m.memory d f →
    f ∈ m.frames.freePages ∧ ∃ page ∈ Page.between start.page stop.page, page.directorySlot = d
  free : m'.frames.freePages = m.frames.freePages \ (s.tables m'.memory \ s.tables m.memory)
  used : m'.frames.stats.used =
    m.frames.stats.used + (s.tables m'.memory \ s.tables m.memory).ncard
  users : ∀ p, m.frames.stats.Manages p →
    (∀ page ∈ Page.between start.page stop.page, ¬s.Links m'.memory page.directorySlot p) →
    m'.frames.users p = m.frames.users p
  confined : Confined m.frames m'.frames

section Directed
variable (placed : s.Placed m ∅ False (direct start target flags)
  (Page.between start.page stop.page) m')
include placed

theorem Placed.query (hstart : start.IsAligned) (hstop : stop.IsAligned)
    (htarget : target.IsAligned) {a : VirtualAddress} (after : start ≤ a) (before : a < stop) :
    ∃ p, target.add (a.toNat - start.toNat) = .ok p ∧ s.query a m' = .ok (some p) m' := by
  have after : start.toNat ≤ a.toNat := after
  have before : a.toNat < stop.toNat := before
  unfold Address.IsAligned at hstart hstop htarget
  have inside : a.page ∈ Page.between start.page stop.page := by
    simp only [Page.mem_between, Address.number_page]
    omega
  obtain ⟨v, maps, address, found, rfl⟩ := placed.placed a.page inside
  rw [Address.add_eq_ok, Page.toNat_base, Address.number_page] at found
  refine ⟨address.page.join a.offset, Address.add_eq_ok.2 ?_, ?_⟩
  · simp only [Page.toNat_join, Address.number_page, Address.toNat_offset]
    omega
  · rw [placed.sound.actsAsMap.query a (ordinary_of_mapping maps), maps]
    rfl

theorem Placed.entry (page : VirtualPage) (inside : page ∈ Page.between start.page stop.page) :
    ∃ p, target.add (page.base.toNat - start.toNat) = .ok p ∧
      s.entry? page m' = .ok (some (Entry.aimedAt p.page flags)) m' := by
  obtain ⟨v, maps, address, found, rfl⟩ := placed.placed page inside
  exact ⟨address, found, placed.sound.entry?_of_mapping maps⟩

theorem Placed.slot_of_new {d : Slot} {f : PhysicalPage} (linked : s.Links m'.memory d f)
    (new : ¬s.Links m.memory d f) :
    ∃ page ∈ Page.between start.page stop.page, page.directorySlot = d := by
  obtain ⟨t, mapped⟩ := placed.sound.intact.exists_mapped linked
  refine ⟨Page.ofSlots d t, ?_, Page.directorySlot_ofSlots d t⟩
  refine not_not.1 fun outside => new ?_
  rw [placed.others _ outside] at mapped
  obtain ⟨v, maps⟩ := Option.ne_none_iff_exists'.1 mapped
  obtain ⟨g, there, -⟩ := links_of_mapping maps
  rw [Page.directorySlot_ofSlots] at there
  exact linked.of_same (placed.advances.links d there.present).symm

theorem Placed.directed (h : s.Intact m none) (hstart : start.IsAligned) (hstop : stop.IsAligned)
    (htarget : target.IsAligned) (confined : Confined m.frames m'.frames) :
    s.Directed m start stop target flags m' := by
  have links : ∀ d f, s.Links m.memory d f → s.Links m'.memory d f :=
    fun d f linked => linked.of_same (placed.advances.links d linked.present)
  have ledger : s.ledger m' = s.ledger m := by
    have residue := placed.advances.residue
    rwa [gained_of_not, residue_nobody, residue_nobody] at residue
  have intact := placed.sound.intact
  obtain ⟨taken, free, users⟩ := intact.taken_of_ledger (fun _ => h.holds_iff) h.fresh
    placed.sameMemory ledger fun f ⟨d, linked⟩ => ⟨d, links d f linked⟩
  refine ⟨fun a => placed.query hstart hstop htarget, placed.entry, placed.others, links,
    fun d f linked new => ⟨taken ⟨⟨d, linked⟩, ?_⟩, placed.slot_of_new linked new⟩, free,
    h.frames.used_of_taken intact.frames placed.sameMemory taken free, fun p known outside => ?_,
    confined⟩
  · rintro ⟨c, old⟩
    have same : c = d := intact.unique c d f (links c f old) linked
    exact new (same ▸ old)
  · by_cases table : p ∈ s.tables m'.memory
    · -- A table of another slot was there before, and has the pages that it had.
      obtain ⟨d, linked⟩ := table
      have old : s.Links m.memory d p := by
        refine not_not.1 fun new => ?_
        obtain ⟨page, mem, rfl⟩ := placed.slot_of_new linked new
        exact outside page mem linked
      have kept : m'.memory.frame p = m.memory.frame p := by
        refine h.frame_eq intact old linked fun q slot => placed.others q fun mem => ?_
        exact outside q mem (slot ▸ linked)
      rw [(h.table d p old).counted, (intact.table d p linked).counted, kept]
    · exact users p known table

end Directed

theorem Placed.unmapped_again (placed : s.Placed m ∅ False (direct start target flags)
    (Page.between start.page stop.page) m') (h : s.Intact m none) (hstart : start.IsAligned)
    (hstop : stop.IsAligned) (order : start ≤ stop) (confined : Confined m.frames m'.frames) :
    ∃ m'', s.unmapDirect start stop m' = .ok (.ok ()) m'' ∧ s.Unchanged m m'' := by
  obtain ⟨m'', gone, restored⟩ := placed.unmapAll h.sound (Page.nodup_between _ _)
  have ran := unmapDirect_of_pages (rangePages_of_le ⟨hstart, hstop⟩ order) gone
  have back := kept_confined.unmapDirect s start stop m' _ m'' ran confined.managing
  exact ⟨m'', ran, restored.unchanged h (confined.trans back)⟩

theorem unmapped_row (unmapped : ∀ p ∈ Page.between start.page stop.page,
    p.directorySlot ≠ .recursive → s.mapping m.memory p = none) :
    ∀ p ∈ Page.between start.page stop.page, s.mapping m.memory p = none := by
  intro p mem
  by_cases last : p.directorySlot = .recursive
  · exact mapping_of_recursive last
  · exact unmapped p mem last

theorem mapDirect_of_single (hstart : start.IsAligned) (hstop : stop.IsAligned)
    (order : start ≤ stop) (htarget : target.IsAligned)
    (single : Page.between start.page stop.page = [start.page])
    (mapped : s.mapPage start.page target.page flags m = .ok (.ok ()) m') :
    s.mapDirect start stop target flags m = .ok (.ok ()) m' := by
  have found : target.add (start.page.base.toNat - start.toNat) = .ok target := by
    rw [Address.base_page hstart, Nat.sub_self]
    exact Address.add_eq_ok.2 (Nat.add_zero _)
  have placed : s.placeDirect start target flags start.page m = .ok (.ok ()) m' :=
    (step_lift_bind_of_ok found _ _).trans mapped
  rw [mapDirect_eq hstart hstop order htarget, single]
  exact mapEach_of_places ⟨m', placed, rfl⟩

theorem exists_direct {target : PhysicalAddress} (htarget : target.IsAligned) (flags : Entry) :
    ∃ m m' : Machine, (ofRoot .first).Intact m none ∧
      (∀ p, (ofRoot .first).mapping m.memory p = none) ∧
      (ofRoot .first).mapDirect ⟨0xE0000000, by decide⟩ ⟨0xE0001000, by decide⟩ target flags m =
        .ok (.ok ()) m' := by
  obtain ⟨a, m, ready, used, fresh, unmetered, free, -⟩ := exists_fresh
  obtain ⟨ha, -⟩ := FrameAllocator.managing_of_setup ⟨by decide, by decide⟩ ready
  obtain ⟨frames, -, -⟩ := used.follows ha
  have sound := fresh.sound frames
  have ordinary : (⟨0xE0000000, by decide⟩ : VirtualAddress).page.directorySlot ≠ .recursive := by
    decide
  obtain ⟨m', mapped, -⟩ := sound.mapPage_of_free ordinary (fresh.mapping _) unmetered free
    target.page flags
  have single : Page.between (⟨0xE0000000, by decide⟩ : VirtualAddress).page
      (⟨0xE0001000, by decide⟩ : VirtualAddress).page = [Address.page ⟨0xE0000000, by decide⟩] := by
    decide
  exact ⟨m, m', sound.intact, fresh.mapping,
    mapDirect_of_single (by decide) (by decide) (by decide) htarget single mapped⟩

/-- A range whose pages are not mapped is mapped to frames below the end of memory as a whole, and
unmapping it leaves everything as it was; or it is refused, and that leaves everything as it was. -/
theorem mapDirect_reversible (h : s.Intact m none) (start stop : VirtualAddress)
    (target : PhysicalAddress) (flags : Entry) (hstart : start.IsAligned) (hstop : stop.IsAligned)
    (order : start ≤ stop) (htarget : target.IsAligned)
    (fits : target.toNat + (stop.toNat - start.toNat) ≤ 0x100000000)
    (unmapped : ∀ p ∈ Page.between start.page stop.page,
      p.directorySlot ≠ .recursive → s.mapping m.memory p = none) :
    ∃ result m', s.mapDirect start stop target flags m = .ok result m' ∧
      (result = .ok () → s.Directed m start stop target flags m' ∧
        ∃ m'', s.unmapDirect start stop m' = .ok (.ok ()) m'' ∧ s.Unchanged m m'') ∧
      ∀ e, result = .error e →
        (∃ page ∈ Page.between start.page stop.page, Refuses page e) ∧ s.Unchanged m m' := by
  rcases h.sound.mapDirect_outcome hstart hstop order htarget (unmapped_row unmapped) with
    ⟨page, mem, beyond, -⟩ | ⟨page, mem, e, m', why, ran⟩ | ⟨m', ran⟩
  · -- The whole page lies below the end of the range, and so does its frame.
    obtain ⟨behind, inside⟩ := Page.mem_between.1 mem
    unfold Address.IsAligned at hstart hstop
    rw [Page.toNat_base] at beyond
    rw [Address.number_page] at behind inside
    omega
  · refine ⟨_, m', ran, nofun, fun e' same => ?_⟩
    cases same
    exact ⟨⟨page, mem, why⟩, h.unchanged_of_mapDirect ran⟩
  · have confined := kept_confined.mapDirect s flags start stop target m _ m' ran h.frames
    have placed : s.Placed m ∅ False (direct start target flags)
        (Page.between start.page stop.page) m' :=
      (h.sound.mapDirect_cases start stop target flags).of_ran ran (fun _ no => nomatch no)
        fun _ placed => placed
    refine ⟨_, m', ran, fun _ => ?_, nofun⟩
    exact ⟨placed.directed h hstart hstop htarget confined,
      placed.unmapped_again h hstart hstop order confined⟩

theorem mapDirect_reversible_small :
    ∃ m m' m'' : Machine, (ofRoot .first).Intact m none ∧
      (ofRoot .first).mapDirect ⟨0xE0000000, by decide⟩ ⟨0xE0001000, by decide⟩ ⟨0x1000, by decide⟩
        Entry.kernelReadWrite m = .ok (.ok ()) m' ∧
      (ofRoot .first).Directed m ⟨0xE0000000, by decide⟩ ⟨0xE0001000, by decide⟩
        ⟨0x1000, by decide⟩ Entry.kernelReadWrite m' ∧
      (ofRoot .first).unmapDirect ⟨0xE0000000, by decide⟩ ⟨0xE0001000, by decide⟩ m' =
        .ok (.ok ()) m'' ∧
      (ofRoot .first).Unchanged m m'' := by
  have aligned : (⟨0x1000, by decide⟩ : PhysicalAddress).IsAligned := by decide
  obtain ⟨m, m', intact, blank, ran⟩ := exists_direct aligned Entry.kernelReadWrite
  obtain ⟨result, m₁, ran', mapped, -⟩ := mapDirect_reversible intact ⟨0xE0000000, by decide⟩
    ⟨0xE0001000, by decide⟩ ⟨0x1000, by decide⟩ Entry.kernelReadWrite (by decide) (by decide)
    (by decide) aligned (by decide) fun p _ _ => blank p
  cases ran.symm.trans ran'
  obtain ⟨directed, m'', gone, unchanged⟩ := mapped rfl
  exact ⟨m, m', m'', intact, ran, directed, gone, unchanged⟩

theorem mapDirect_of_cut {cut : VirtualAddress} (hstart : start.IsAligned) (hstop : stop.IsAligned)
    (htarget : target.IsAligned) (after : start < cut) (before : cut < stop)
    (reaches : target.toNat + (cut.toNat - start.toNat) = 0x100000000)
    (ran : s.mapDirect start cut target flags m = .ok (.ok ()) m') :
    s.mapDirect start stop target flags m = .error .overflow m' := by
  have after : start.toNat < cut.toNat := after
  have before : cut.toNat < stop.toNat := before
  have hcut : cut.IsAligned := by
    unfold Address.IsAligned at hstart htarget ⊢
    omega
  rw [mapDirect_eq hstart hcut (Nat.le_of_lt after) htarget] at ran
  have inside : cut.page ∈ Page.between start.page stop.page := by
    unfold Address.IsAligned at hstart hstop hcut
    simp only [Page.mem_between, Address.number_page]
    omega
  obtain ⟨row, rest, split⟩ := List.append_of_mem inside
  have placed := places_of_mapEach ran
  rw [Page.between_before split] at placed
  have beyond : target.add (cut.page.base.toNat - start.toNat) = .error .overflow := by
    rw [Address.base_page hcut]
    exact add_eq_error (Nat.le_of_eq reaches.symm)
  have stopped : s.placeDirect start target flags cut.page m' = .error .overflow m' := by
    unfold placeDirect
    rw [beyond]
    rfl
  rw [mapDirect_eq hstart hstop (Nat.le_of_lt (Nat.lt_trans after before)) htarget, split,
    mapEach_append placed]
  exact step_bind_error stopped _

theorem end_reached {target start page : Nat} (behind : start ≤ page)
    (below : target * 4096 + (page * 4096 - start * 4096) < 0x100000000)
    (beyond : 0x100000000 ≤ target * 4096 + ((page + 1) * 4096 - start * 4096)) :
    target * 4096 + ((page + 1) * 4096 - start * 4096) = 0x100000000 := by
  have few : target + (page - start) < 0x100000 := by omega
  have many : 0x100000 ≤ target + (page + 1 - start) := by omega
  omega

theorem Placed.ends_at (hstart : start.IsAligned) (htarget : target.IsAligned)
    (placed : s.Placed m own False (direct start target flags) (Page.between start.page page) m')
    (beyond : 0x100000000 ≤ target.toNat + (page.base.toNat - start.toNat)) :
    start.page.number < page.number ∧
      target.toNat + (page.base.toNat - start.toNat) = 0x100000000 := by
  have first := congrArg Address.toNat (Address.base_page hstart)
  have frame := congrArg Address.toNat (Address.base_page htarget)
  have low := target.isLt
  rw [Page.toNat_base] at first frame beyond ⊢
  rw [← first, ← frame] at beyond ⊢
  have behind : start.page.number < page.number := by omega
  -- The frame of the page before it lies below the end.
  obtain ⟨q, number⟩ : ∃ q : VirtualPage, q.number + 1 = page.number :=
    ⟨⟨page.number - 1, by have := page.isLt; omega⟩,
      Nat.succ_pred_eq_of_pos (Nat.zero_lt_of_lt behind)⟩
  have last : q ∈ Page.between start.page page := Page.mem_between.2 (by omega)
  obtain ⟨v, -, address, found, -⟩ := placed.placed q last
  have below := address.isLt
  rw [Address.add_eq_ok, Page.toNat_base, ← first, ← frame] at found
  refine ⟨behind, ?_⟩
  rw [← number] at beyond ⊢
  exact end_reached (by omega) (found ▸ below) beyond

/-- A fault comes at the page whose frame would be the first one beyond the end of memory. -/
theorem Sound.cut_of_mapDirect {fault : Fault} (h : s.Sound m own) (hstart : start.IsAligned)
    (hstop : stop.IsAligned) (htarget : target.IsAligned)
    (unmapped : ∀ p ∈ Page.between start.page stop.page, s.mapping m.memory p = none)
    (stopped : s.mapDirect start stop target flags m = .error fault m') :
    fault = .overflow ∧ ∃ cut : VirtualAddress, start < cut ∧ cut < stop ∧
      target.toNat + (cut.toNat - start.toNat) = 0x100000000 ∧
      s.mapDirect start cut target flags m = .ok (.ok ()) m' := by
  have order : start ≤ stop := by
    refine Nat.le_of_not_lt fun less => ?_
    unfold mapDirect at stopped
    rw [step_lift_bind_of_ok (rangePages_of_lt ⟨hstart, hstop⟩ less)] at stopped
    exact nomatch stopped
  rcases h.mapDirect_outcome hstart hstop order htarget unmapped with
    ⟨page, mem, beyond, m₁, placed, e⟩ | ⟨-, -, e, m₁, -, e'⟩ | ⟨m₁, e⟩
  · cases e.symm.trans stopped
    obtain ⟨behind, reaches⟩ := ((Placed.nothing h).places placed).ends_at hstart htarget beyond
    have inside := (Page.mem_between.1 mem).2
    have after : start.toNat < page.base.toNat := by
      unfold Address.IsAligned at hstart
      rw [Address.number_page] at behind
      rw [Page.toNat_base]
      omega
    have before : page.base.toNat < stop.toNat := by
      unfold Address.IsAligned at hstop
      rw [Address.number_page] at inside
      rw [Page.toNat_base]
      omega
    refine ⟨rfl, page.base, after, before, reaches, ?_⟩
    rw [mapDirect_eq hstart (Page.isAligned_base page) (Nat.le_of_lt after) htarget,
      Page.page_base]
    exact mapEach_of_places placed
  · exact nomatch e'.symm.trans stopped
  · exact nomatch e.symm.trans stopped

/-- Mapping a range whose pages are not mapped stops with a fault exactly if its frames run past the
end of memory and all that lies below the end can be mapped; the fault leaves it mapped. -/
theorem mapDirect_stops_iff (h : s.Intact m none) (start stop : VirtualAddress)
    (target : PhysicalAddress) (flags : Entry) (hstart : start.IsAligned) (hstop : stop.IsAligned)
    (htarget : target.IsAligned)
    (unmapped : ∀ p ∈ Page.between start.page stop.page,
      p.directorySlot ≠ .recursive → s.mapping m.memory p = none) :
    (∀ e m', s.mapDirect start stop target flags m = .ok (.error e) m' → s.Unchanged m m') ∧
    (∀ fault m', s.mapDirect start stop target flags m = .error fault m' →
      s.mapping m.memory start.page = none ∧ s.mapping m'.memory start.page ≠ none) ∧
    ∀ fault m', s.mapDirect start stop target flags m = .error fault m' ↔
      fault = .overflow ∧ ∃ cut : VirtualAddress, start < cut ∧ cut < stop ∧
        target.toNat + (cut.toNat - start.toNat) = 0x100000000 ∧
        s.mapDirect start cut target flags m = .ok (.ok ()) m' := by
  refine ⟨fun e m' => h.unchanged_of_mapDirect, fun fault m' stopped => ?_,
    fun fault m' => ⟨?_, ?_⟩⟩
  · obtain ⟨-, cut, after, -, reaches, ran⟩ :=
      h.sound.cut_of_mapDirect hstart hstop htarget (unmapped_row unmapped) stopped
    refine (h.sound.mapDirect_cases start cut target flags).of_ran ran (fun _ no => nomatch no)
      fun _ placed => ?_
    have inside : start.page ∈ Page.between start.page cut.page := by
      have after : start.toNat < cut.toNat := after
      unfold Address.IsAligned at hstart htarget
      simp only [Page.mem_between, Address.number_page]
      omega
    obtain ⟨v, maps, -⟩ := placed.placed _ inside
    refine ⟨placed.unmapped _ inside, ?_⟩
    rw [maps]
    exact nofun
  · exact h.sound.cut_of_mapDirect hstart hstop htarget (unmapped_row unmapped)
  · rintro ⟨rfl, cut, after, before, reaches, ran⟩
    exact mapDirect_of_cut hstart hstop htarget after before reaches ran

theorem mapDirect_stops_iff_small :
    ∃ m m' : Machine, (ofRoot .first).Intact m none ∧
      (ofRoot .first).mapDirect ⟨0xE0000000, by decide⟩ ⟨0xE0002000, by decide⟩
        ⟨0xFFFFF000, by decide⟩ Entry.kernelReadWrite m = .error .overflow m' := by
  have aligned : (⟨0xFFFFF000, by decide⟩ : PhysicalAddress).IsAligned := by decide
  obtain ⟨m, m', intact, blank, ran⟩ := exists_direct aligned Entry.kernelReadWrite
  obtain ⟨-, -, stops⟩ := mapDirect_stops_iff intact ⟨0xE0000000, by decide⟩
    ⟨0xE0002000, by decide⟩ ⟨0xFFFFF000, by decide⟩ Entry.kernelReadWrite (by decide) (by decide)
    aligned fun p _ _ => blank p
  exact ⟨m, m', intact, (stops .overflow m').2
    ⟨rfl, ⟨0xE0001000, by decide⟩, by decide, by decide, by decide, ran⟩⟩

/-- A range of two pages is left with the first one mapped. -/
theorem left_partly_mapped :
    ∃ m m' : Machine, (ofRoot .first).Intact m none ∧
      (∀ p, (ofRoot .first).mapping m.memory p = none) ∧
      (ofRoot .first).mapDirect ⟨0xE0000000, by decide⟩ ⟨0xE0002000, by decide⟩
        ⟨0xFFFFF000, by decide⟩ Entry.kernelReadWrite m = .error .overflow m' ∧
      (ofRoot .first).mapping m'.memory ⟨0xE0000, by decide⟩ ≠ none := by
  have aligned : (⟨0xFFFFF000, by decide⟩ : PhysicalAddress).IsAligned := by decide
  obtain ⟨m, m', intact, blank, ran⟩ := exists_direct aligned Entry.kernelReadWrite
  refine ⟨m, m', intact, blank, mapDirect_of_cut (by decide) (by decide) aligned (by decide)
    (by decide) (by decide) ran, ?_⟩
  refine (intact.sound.mapDirect_cases _ _ _ _).of_ran ran (fun _ no => nomatch no)
    fun _ placed => ?_
  obtain ⟨v, maps, -⟩ := placed.placed ⟨0xE0000, by decide⟩ (by decide)
  rw [maps]
  exact nofun

end Ia32Memory.AddressSpace
