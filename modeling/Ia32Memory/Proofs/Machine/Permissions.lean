import Ia32Memory.Proofs.Machine.Rollback

/-! What the processor may do at the pages of a space.
It gets the permissions that the link of a slot and the entry in its table both give.  A link is
made with the table, from the flags of the page that the table came for, but always writable; pages
that are mapped or protected later do not change it, unless the window of a table is protected,
which is the link itself.  So whether a page can be written is told by its own entry. -/

namespace Ia32Memory.AddressSpace

def LinksWritable (s : AddressSpace) (mem : PhysicalMemory) : Prop :=
  ∀ d f, s.Links mem d f → (s.link mem d).writable = true

variable {s : AddressSpace} {m m' : Machine} {mem mem' : PhysicalMemory} {d : Slot}
  {f frame : PhysicalPage} {flags : Entry} {page : VirtualPage} {own : Set VirtualPage}
  {start stop : VirtualAddress}

theorem LinksWritable.of_same (h : s.LinksWritable mem)
    (link : ∀ d, s.link mem' d = s.link mem d) : s.LinksWritable mem' := by
  intro d f linked
  rw [link d]
  exact h d f (linked.of_same (link d).symm)

theorem Intact.link_of_mapPage {result : Except MapError Unit} (h : s.Intact m none)
    (ran : s.mapPage page frame flags m = .ok result m') (linked : s.Links m'.memory d f) :
    s.link m'.memory d = s.link m.memory d ∨
      (d = page.directorySlot ∧ (s.link m.memory d).present = false ∧
        s.link m'.memory d = Entry.aimedAt f (flags.flagsOnly.withWritable true)) := by
  rcases h.mapPage_ran ran with ⟨-, quiet⟩ | ⟨m₁, g, frames, tabled, -, -, rfl⟩
  · rw [quiet.memory]
    exact Or.inl rfl
  · obtain ⟨here, leaves⟩ := h.of_tabled tabled
    have notRoot := leaves.intact.notRoot _ g here
    have entered : ∀ c, s.link (m₁.entered g page (Entry.aimedAt frame flags) frames).memory c =
        s.link m₁.memory c := link_put_of_ne notRoot
    rw [entered]
    cases tabled with
    | linked _ => exact Or.inl rfl
    | @installed g frames' ordinary unlinked _ free became =>
      have made : ∀ c, s.link (s.installed m page.directorySlot g flags frames').memory c =
          if c = page.directorySlot then Entry.aimedAt g (flags.flagsOnly.withWritable true)
          else s.link m.memory c :=
        fun c => (link_clear _ notRoot c).trans (link_put_root m.memory _ c _)
      by_cases same : d = page.directorySlot
      · have aim := linked.frame
        rw [entered, made, if_pos same, Entry.frame_aimedAt] at aim
        refine Or.inr ⟨same, same ▸ unlinked, ?_⟩
        rw [made, if_pos same, aim]
      · exact Or.inl ((made d).trans (if_neg same))

theorem LinksWritable.of_mapPage {result : Except MapError Unit} (all : s.LinksWritable m.memory)
    (h : s.Intact m none) (ran : s.mapPage page frame flags m = .ok result m') :
    s.LinksWritable m'.memory := by
  intro d f linked
  rcases h.link_of_mapPage ran linked with same | ⟨-, -, made⟩
  · rw [same]
    exact all d f (linked.of_same same.symm)
  · rw [made, Entry.writable_aimedAt, Entry.writable_withWritable]

theorem Fresh.linksWritable (h : s.Fresh m) : s.LinksWritable m.memory :=
  fun d f linked => absurd linked (h.not_links d f)

theorem LinksWritable.of_extends (all : s.LinksWritable mem) (links : s.Extends mem' mem) :
    s.LinksWritable mem' := by
  intro d f linked
  have same := links d linked.present
  rw [← same]
  exact all d f (linked.of_same same)

theorem LinksWritable.of_allocPage {result : Except MapError PhysicalPage}
    (all : s.LinksWritable m.memory) (h : s.Sound m own)
    (ran : s.allocPage page flags m = .ok result m') : s.LinksWritable m'.memory := by
  rcases h.allocPage_stages ran with ⟨e, -, memory, -⟩ | ⟨f, m₁, m₂, m₃, -, stages⟩
  · rw [memory]
    exact all
  · obtain ⟨memory, -, intact⟩ := stages.taken
    rw [← memory] at all
    exact (all.of_mapPage intact stages.mapped).of_same stages.link

theorem LinksWritable.of_mapRange {result : Except MapError Unit} (all : s.LinksWritable m.memory)
    (h : s.Sound m own) (ran : s.mapRange start stop flags m = .ok result m') :
    s.LinksWritable m'.memory := by
  obtain ⟨mapped, refused⟩ := h.mapRange_carries (fun _ m => s.LinksWritable m.memory)
    (fun m => s.LinksWritable m.memory) ran all all
    (fun _ _ _ _ _ placed sofar ran => sofar.of_allocPage placed.sound ran)
    (fun _ _ _ _ _ placed sofar ran => sofar.of_allocPage placed.sound ran)
    fun _ _ _ _ _ _ _ _ _ _ restored => all.of_same (restored.link_eq h.intact)
  cases result with
  | ok _ => exact mapped rfl
  | error e => exact refused e rfl

theorem LinksWritable.of_mapDirect {result : Except MapError Unit} {target : PhysicalAddress}
    (all : s.LinksWritable m.memory) (h : s.Sound m own)
    (ran : s.mapDirect start stop target flags m = .ok result m') :
    s.LinksWritable m'.memory := by
  obtain ⟨mapped, refused⟩ := h.mapDirect_carries (fun _ m => s.LinksWritable m.memory)
    (fun m => s.LinksWritable m.memory) ran all all
    (fun _ _ _ _ _ _ placed sofar ran => sofar.of_mapPage placed.sound.intact ran)
    (fun _ _ _ _ _ placed sofar ran => sofar.of_mapPage placed.sound.intact ran)
    fun _ _ _ _ _ _ _ _ _ restored => all.of_same (restored.link_eq h.intact)
  cases result with
  | ok _ => exact mapped rfl
  | error e => exact refused e rfl

def Request.KeepsLinks : Request → Prop
  | .setWritable page _ => page.directorySlot ≠ .recursive
  | _ => True

/-- Tables stay linked writable, whatever is requested but to protect their windows. -/
theorem Sound.linksWritable {request : Request} {answer : Answer} (h : s.Sound m own)
    (all : s.LinksWritable m.memory) (permitted : request.Permitted own)
    (keeps : request.KeepsLinks) (ran : request.run s m = .ok answer m') :
    s.LinksWritable m'.memory := by
  cases request with
  | mapPage page frame flags =>
    obtain ⟨result, m₁, e, rest⟩ := step_bind_eq_ok.1 ran
    cases rest
    exact all.of_mapPage h.intact e
  | unmapPage page =>
    obtain ⟨frame, m₁, e, rest⟩ := step_bind_eq_ok.1 ran
    cases rest
    exact all.of_extends (h.intact.grows_of_unmapPage e).links
  | setWritable page writable =>
    obtain ⟨u, m₁, e, rest⟩ := step_bind_eq_ok.1 ran
    cases rest
    exact all.of_same (h.intact.same_of_setWritable keeps e).2
  | allocPage page flags =>
    obtain ⟨result, m₁, e, rest⟩ := step_bind_eq_ok.1 ran
    cases rest
    exact all.of_allocPage h e
  | freePage page =>
    obtain ⟨u, m₁, e, rest⟩ := step_bind_eq_ok.1 ran
    cases rest
    exact all.of_extends (h.advances_of_freePage permitted e).links
  | mapRange start stop flags =>
    obtain ⟨result, m₁, e, rest⟩ := step_bind_eq_ok.1 ran
    cases rest
    exact all.of_mapRange h e
  | unmapRange start stop =>
    obtain ⟨result, m₁, e, rest⟩ := step_bind_eq_ok.1 ran
    cases rest
    rcases h.unmapRange_cases start stop permitted with ⟨fault, e'⟩ | ⟨why, e'⟩ |
      ⟨m₂, e', -, back⟩
    · cases e'.symm.trans e
    · cases e'.symm.trans e
      exact all
    · cases e'.symm.trans e
      exact all.of_extends back.links
  | mapDirect start stop target flags =>
    obtain ⟨result, m₁, e, rest⟩ := step_bind_eq_ok.1 ran
    cases rest
    exact all.of_mapDirect h e
  | unmapDirect start stop =>
    obtain ⟨result, m₁, e, rest⟩ := step_bind_eq_ok.1 ran
    cases rest
    -- Which pages own their frames does not matter for the links.
    rcases h.intact.sound.unmapDirect_cases start stop with ⟨fault, m₂, e'⟩ | ⟨why, e'⟩ |
      ⟨m₂, e', -, back⟩
    · cases e'.symm.trans e
    · cases e'.symm.trans e
      exact all
    · cases e'.symm.trans e
      exact all.of_extends (back fun p _ => Set.notMem_empty p).links

/-- A page that is mapped is found by the processor, which gets the permissions of its link and of
its entry. -/
theorem walk?_of_mapping {c : Processor} {address : VirtualAddress}
    (maps : s.mapping mem address.page = some (frame, flags)) (root : c.Reaches s.root.base)
    (tables : ∀ d f, s.Links mem d f → c.Reaches f.base) :
    c.walk? mem s.root address = some ⟨frame.join address.offset,
      (s.link mem address.page.directorySlot).writable && flags.writable,
      (s.link mem address.page.directorySlot).userAccess && flags.userAccess⟩ := by
  obtain ⟨f, linked, leaf⟩ := links_of_mapping maps
  have present := Entry.present_of_mapped? leaf
  rw [Entry.mapped?_of_present present, Option.some.injEq, Prod.mk.injEq] at leaf
  obtain ⟨aim, rfl⟩ := leaf
  have link := linked.present
  have table := linked.frame
  unfold AddressSpace.link at link table ⊢
  simp [Processor.walk?, Processor.entry?, root, link, table, tables _ f linked, present, aim]

end Ia32Memory.AddressSpace
