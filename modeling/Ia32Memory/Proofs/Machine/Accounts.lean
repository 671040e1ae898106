import Ia32Memory.Proofs.Machine.Lifetime

/-! No frame is lost and none is freed too early.
To the requests of a run there come releases of the kernel's own frames, which are mapped like any
others and leave through the pages that lead to them.  Then the frames in use are at all times those
that were in use at the start and were not released since, a table for each slot that links one, and
a frame for each page that owns one.  These are different frames, so the count of frames in use is
known from the numbers of slots, pages and releases. -/

namespace Ia32Memory

namespace AddressSpace
open FrameAllocator (Became SameMemory)

def linkedSlots (s : AddressSpace) (mem : PhysicalMemory) : Set Slot :=
  {d | d ≠ .recursive ∧ (s.link mem d).present = true}

def tables (s : AddressSpace) (mem : PhysicalMemory) : Set PhysicalPage :=
  {f | ∃ d, s.Links mem d f}

def framesOf (s : AddressSpace) (mem : PhysicalMemory) (pages : Set VirtualPage) :
    Set PhysicalPage :=
  {f | s.Owned mem pages f}

/-- The frames that are in use without the space. -/
def otherFrames (s : AddressSpace) (m : Machine) (own : Set VirtualPage) : Set PhysicalPage :=
  {f | s.residue m own f ≠ none}

variable {s : AddressSpace} {m m' m'' : Machine} {own : Set VirtualPage} {f : PhysicalPage}
  {page : VirtualPage} {pages : List VirtualPage} {start stop : VirtualAddress}

theorem residue_eq_some {n : Nat} : s.residue m own f = some n ↔
    ¬s.Owned m.memory own f ∧ s.Plain m f ∧ m.frames.users f = n := by
  unfold residue
  by_cases owned : s.Owned m.memory own f
  · simp [owned]
  · simp [owned, ledger_eq_some]

theorem mem_otherFrames : f ∈ s.otherFrames m own ↔
    ¬s.Owned m.memory own f ∧ s.Plain m f := by
  rw [otherFrames, Set.mem_ofPred_eq, Option.ne_none_iff_exists']
  simp [residue_eq_some]

theorem Sound.plain_of_owned (h : s.Sound m own) (owned : s.Owned m.memory own f) :
    s.Plain m f := by
  obtain ⟨p, mem, leads⟩ := owned
  obtain ⟨g, leads', apart⟩ := h.owned p mem
  cases leads.symm.trans leads'
  exact ⟨apart.held, apart.notTable⟩

theorem Sound.usedPages_eq (h : s.Sound m own) : m.frames.usedPages =
    s.otherFrames m own ∪ s.tables m.memory ∪ s.framesOf m.memory own := by
  ext f
  simp only [Set.mem_union, mem_otherFrames]
  constructor
  · intro held
    by_cases table : ∃ d, s.Links m.memory d f
    · exact Or.inl (Or.inr table)
    · by_cases owned : s.Owned m.memory own f
      · exact Or.inr owned
      · exact Or.inl (Or.inl ⟨owned, held, fun d linked => table ⟨d, linked⟩⟩)
  · rintro ((⟨-, plain⟩ | ⟨d, linked⟩) | owned)
    · exact plain.1
    · exact (h.intact.table d f linked).held
    · exact (h.plain_of_owned owned).1

theorem Intact.taken_of_ledger (h' : s.Intact m' none)
    (held : ∀ g, m.frames.Holds g ↔ s.ledger m g ≠ none ∨ g ∈ s.tables m.memory)
    (unused : ∀ p ∈ m.frames.freePages, m.frames.users p = 0)
    (sameMemory : SameMemory m.frames m'.frames) (ledger : s.ledger m' = s.ledger m)
    (kept : s.tables m.memory ⊆ s.tables m'.memory) :
    s.tables m'.memory \ s.tables m.memory ⊆ m.frames.freePages ∧
      m'.frames.freePages = m.frames.freePages \ (s.tables m'.memory \ s.tables m.memory) ∧
      ∀ p, m.frames.stats.Manages p → p ∉ s.tables m'.memory →
        m'.frames.users p = m.frames.users p := by
  have managed : ∀ g, m'.frames.stats.Manages g ↔ m.frames.stats.Manages g :=
    fun g => sameMemory.manages
  have holds : ∀ g, m'.frames.Holds g ↔ m.frames.Holds g ∨ g ∈ s.tables m'.memory := by
    intro g
    rw [h'.holds_iff, held, ledger, or_assoc]
    exact or_congr_right (or_iff_right_of_imp fun was => kept was).symm
  have taken : s.tables m'.memory \ s.tables m.memory ⊆ m.frames.freePages := by
    rintro g ⟨table, new⟩
    refine not_not.1 fun used => ?_
    have now : m'.frames.Holds g := (holds g).2 (Or.inr table)
    rcases (held g).1 ⟨(managed g).1 now.1, used⟩ with entry | old
    · obtain ⟨d, linked⟩ := table
      exact entry (ledger ▸ ledger_of_links linked)
    · exact new old
  have free : m'.frames.freePages =
      m.frames.freePages \ (s.tables m'.memory \ s.tables m.memory) := by
    ext g
    constructor
    · intro now
      obtain ⟨notHeld, notTable⟩ := not_or.1 fun either => ((holds g).2 either).2 now
      exact ⟨not_not.1 fun used => notHeld ⟨(managed g).1 now.1, used⟩, fun mem => notTable mem.1⟩
    · rintro ⟨was, old⟩
      refine not_not.1 fun used => ?_
      rcases (holds g).1 ⟨(managed g).2 was.1, used⟩ with before | table
      · exact before.2 was
      · exact old ⟨table, fun there => ((held g).2 (Or.inr there)).2 was⟩
  refine ⟨taken, free, fun p known notTable => ?_⟩
  by_cases was : p ∈ m.frames.freePages
  · rw [unused p was]
    exact h'.fresh p (free.symm ▸ ⟨was, fun mem => notTable mem.1⟩)
  · have entry : s.ledger m p = some (m.frames.users p) :=
      ledger_eq_some.2 ⟨⟨⟨known, was⟩, fun d linked => notTable (kept ⟨d, linked⟩)⟩, rfl⟩
    rw [← ledger] at entry
    exact (ledger_eq_some.1 entry).2

theorem Intact.ncard_tables (h : s.Intact m none) :
    (s.tables m.memory).ncard = (s.linkedSlots m.memory).ncard := by
  have image : (fun d => (s.link m.memory d).frame) '' s.linkedSlots m.memory =
      s.tables m.memory := by
    ext f
    constructor
    · rintro ⟨d, ⟨ordinary, present⟩, rfl⟩
      exact ⟨d, links_of_present ordinary present⟩
    · rintro ⟨d, linked⟩
      exact ⟨d, ⟨linked.ordinary, linked.present⟩, linked.frame⟩
  rw [← image]
  refine Set.InjOn.ncard_image fun d hd e he same => ?_
  exact h.unique d e _ (links_of_present hd.1 hd.2) ⟨he.1, he.2, same.symm⟩

theorem Sound.ncard_framesOf (h : s.Sound m own) :
    (s.framesOf m.memory own).ncard = own.ncard := by
  have leads : ∀ p ∈ own, frameOf (s.mapping m.memory) p =
      some ((frameOf (s.mapping m.memory) p).getD .first) := by
    intro p mem
    obtain ⟨f, leads, -⟩ := h.owned p mem
    rw [leads]
    rfl
  have image : (fun p => (frameOf (s.mapping m.memory) p).getD .first) '' own =
      s.framesOf m.memory own := by
    ext f
    constructor
    · rintro ⟨p, mem, rfl⟩
      exact ⟨p, mem, leads p mem⟩
    · rintro ⟨p, mem, same⟩
      exact ⟨p, mem, by simp only [same, Option.getD_some]⟩
  rw [← image]
  refine Set.InjOn.ncard_image fun p hp q hq same => h.distinct p hp q hq ?_
  rw [leads p hp, leads q hq]
  exact congrArg some same

/-- The count of frames in use is that of the three kinds together. -/
theorem Sound.used_eq (h : s.Sound m own) : m.frames.stats.used =
    (s.otherFrames m own).ncard + (s.linkedSlots m.memory).ncard + own.ncard := by
  have tablesApart : Disjoint (s.otherFrames m own) (s.tables m.memory) := by
    refine Set.disjoint_left.2 fun f other table => ?_
    obtain ⟨d, linked⟩ := table
    exact (mem_otherFrames.1 other).2.2 d linked
  have ownApart : Disjoint (s.otherFrames m own ∪ s.tables m.memory)
      (s.framesOf m.memory own) := by
    refine Set.disjoint_left.2 fun f inside owned => ?_
    rcases inside with other | ⟨d, linked⟩
    · exact (mem_otherFrames.1 other).1 owned
    · exact (h.plain_of_owned owned).2 d linked
  rw [h.intact.frames.used_eq_ncard, h.usedPages_eq,
    Set.ncard_union_eq ownApart (Set.toFinite _) (Set.toFinite _),
    Set.ncard_union_eq tablesApart (Set.toFinite _) (Set.toFinite _), h.intact.ncard_tables,
    h.ncard_framesOf]

structure Sheds (s : AddressSpace) (m : Machine) (own : Set VirtualPage) (m' : Machine)
    (own' : Set VirtualPage) (fs : Set PhysicalPage) : Prop where
  shed : ∀ f ∈ fs, s.residue m' own' f = none
  kept : ∀ f, f ∉ fs → s.residue m' own' f = s.residue m own f

theorem Sheds.trans {own' own'' : Set VirtualPage} {fs gs : Set PhysicalPage}
    (h : s.Sheds m own m' own' fs) (h' : s.Sheds m' own' m'' own'' gs) :
    s.Sheds m own m'' own'' (fs ∪ gs) := by
  refine ⟨fun f mem => ?_, fun f out => ?_⟩
  · by_cases later : f ∈ gs
    · exact h'.shed f later
    · rw [h'.kept f later, h.shed f (mem.resolve_right later)]
  · rw [h'.kept f fun later => out (Or.inr later), h.kept f fun first => out (Or.inl first)]

theorem sheds_nothing {own' : Set VirtualPage} (same : s.residue m' own' = s.residue m own) :
    s.Sheds m own m' own' ∅ :=
  ⟨fun _ mem => mem.elim, fun f _ => congrFun same f⟩

def releaseAll (s : AddressSpace) (pages : List VirtualPage) : Paging Unit :=
  pages.forM fun page => do Paging.releaseFrame (← s.unmapPage page)

structure LeadsOut (s : AddressSpace) (m : Machine) (own : Set VirtualPage) (p : VirtualPage)
    (f : PhysicalPage) : Prop where
  leads : frameOf (s.mapping m.memory) p = some f
  unused : s.residue m own f = some 0
  notRoot : f ≠ s.root

theorem Sound.releasePage (h : s.Sound m own) (foreign : page ∉ own)
    (out : s.LeadsOut m own page f) :
    ∃ m', (do Paging.releaseFrame (← s.unmapPage page) : Paging Unit) m = .ok () m' ∧
      s.Yields m m' own (Function.update (s.mapping m.memory) page none) ∧
      s.Sheds m own m' own {f} := by
  obtain ⟨v, maps, rfl⟩ := Option.map_eq_some_iff.1 out.leads
  obtain ⟨m₁, unmapped, gone⟩ := h.unmapPage_of_mapped maps
  have before := (h.advances_of_unmapPage foreign unmapped).residue
  rw [Set.sdiff_singleton_eq_self foreign] at gone
  have unused := out.unused
  rw [before, residue_eq_some] at unused
  obtain ⟨notOwned, plain, users⟩ := unused
  have apart : s.Apart m₁ v.1 0 := ⟨plain.1, out.notRoot, plain.2, users⟩
  obtain ⟨frames, released, back, undone⟩ := gone.sound.releaseFrame apart
  let m₂ := m₁.withFrames frames
  have whole := gone.trans undone
  rw [gone.mapping] at whole
  refine ⟨m₂, (step_bind_ok unmapped _).trans released, whole, fun g same => ?_,
    fun g other => ?_⟩
  · subst same
    have free : v.1 ∈ m₂.frames.freePages :=
      Eq.mpr (congrArg (v.1 ∈ ·) back.free) (Or.inr rfl)
    rw [residue, ledger_of_free free, ite_self]
  · have given : s.Grows {v.1} m₁ m₂ ∧ s.Grows {v.1} m₂ m₁ :=
      grows_of_became back (fun g other => ⟨fun now => now.resolve_right other, Or.inl⟩) rfl
    rw [before]
    exact residue_of_ledger (given.1.ledger g other) Iff.rfl

structure Departing (s : AddressSpace) (m : Machine) (own : Set VirtualPage)
    (pages : List VirtualPage) : Prop where
  distinct : pages.Nodup
  foreign : ∀ p ∈ pages, p ∉ own
  out : ∀ p ∈ pages, ∃ f, s.LeadsOut m own p f
  once : ∀ p ∈ pages, ∀ q ∈ pages,
    frameOf (s.mapping m.memory) p = frameOf (s.mapping m.memory) q → p = q

theorem Departing.first {rest : List VirtualPage} (h : s.Departing m own (page :: rest))
    (sound : s.Sound m own) :
    ∃ f m₁, s.LeadsOut m own page f ∧
      (do Paging.releaseFrame (← s.unmapPage page) : Paging Unit) m = .ok () m₁ ∧
      s.Yields m m₁ own (Function.update (s.mapping m.memory) page none) ∧
      s.Sheds m own m₁ own {f} ∧ s.Departing m₁ own rest ∧
      ∀ p ∈ rest, frameOf (s.mapping m₁.memory) p = frameOf (s.mapping m.memory) p := by
  obtain ⟨notAgain, distinct⟩ := List.nodup_cons.1 h.distinct
  obtain ⟨f, first⟩ := h.out page List.mem_cons_self
  obtain ⟨m₁, released, yields, sheds⟩ :=
    sound.releasePage (h.foreign page List.mem_cons_self) first
  have others : ∀ p ∈ rest, frameOf (s.mapping m₁.memory) p = frameOf (s.mapping m.memory) p := by
    intro p mem
    have other : p ≠ page := fun same => notAgain (same ▸ mem)
    rw [yields.mapping, frameOf_update_of_ne other]
  refine ⟨f, m₁, first, released, yields, sheds, ⟨distinct, fun p mem => ?_, fun p mem => ?_,
    fun p hp q hq same => ?_⟩, others⟩
  · exact h.foreign p (List.mem_cons_of_mem _ mem)
  · obtain ⟨g, leads, unused, notRoot⟩ := h.out p (List.mem_cons_of_mem _ mem)
    refine ⟨g, (others p mem).trans leads, ?_, notRoot⟩
    -- No other page of the row leads to the frame that is free now.
    rw [sheds.kept g fun same => ?_, unused]
    cases Set.mem_singleton_iff.1 same
    have again := h.once p (List.mem_cons_of_mem _ mem) page List.mem_cons_self
      (leads.trans first.leads.symm)
    exact notAgain (again ▸ mem)
  · rw [others p hp, others q hq] at same
    exact h.once p (List.mem_cons_of_mem _ hp) q (List.mem_cons_of_mem _ hq) same

theorem Sound.releaseAll (h : s.Sound m own) (departing : s.Departing m own pages) :
    ∃ m', s.releaseAll pages m = .ok () m' ∧
      s.Yields m m' own (erased (s.mapping m.memory) pages) ∧
      s.Sheds m own m' own (s.framesOf m.memory {p | p ∈ pages}) := by
  induction pages generalizing m with
  | nil =>
    have none : s.framesOf m.memory {p | p ∈ ([] : List VirtualPage)} = ∅ :=
      Set.eq_empty_iff_forall_notMem.2 fun f ⟨p, mem, _⟩ => nomatch mem
    rw [none]
    exact ⟨m, rfl, h.refl, sheds_nothing rfl⟩
  | cons page rest ih =>
    obtain ⟨f, m₁, first, released, yields, sheds, still, others⟩ := departing.first h
    obtain ⟨m₂, done, later, more⟩ := ih yields.sound still
    have frames : {f} ∪ s.framesOf m₁.memory {p | p ∈ rest} =
        s.framesOf m.memory {p | p ∈ page :: rest} := by
      ext g
      constructor
      · rintro (rfl | ⟨p, mem, leads⟩)
        · exact ⟨page, List.mem_cons_self, first.leads⟩
        · exact ⟨p, List.mem_cons_of_mem _ mem, (others p mem).symm.trans leads⟩
      · rintro ⟨p, mem, leads⟩
        rcases List.mem_cons.1 mem with rfl | mem
        · exact Or.inl (Option.some.inj (leads.symm.trans first.leads))
        · exact Or.inr ⟨p, mem, (others p mem).trans leads⟩
    have whole := sheds.trans more
    rw [yields.mapping, erased_cons] at later
    rw [frames] at whole
    exact ⟨m₂, (step_bind_ok released _).trans done, yields.trans later, whole⟩

theorem Sound.releaseRange_cases (h : s.Sound m own) (start stop : VirtualAddress)
    (foreign : ∀ p ∈ Request.row start stop, p ∉ own)
    (out : ∀ p ∈ Request.row start stop, ∃ f, s.LeadsOut m own p f)
    (once : ∀ p ∈ Request.row start stop, ∀ q ∈ Request.row start stop,
      frameOf (s.mapping m.memory) p = frameOf (s.mapping m.memory) q → p = q) :
    (¬(start.IsAligned ∧ stop.IsAligned) ∧
      ∃ fault, s.releaseRange start stop m = .error fault m) ∨
    ∃ result m', s.releaseRange start stop m = .ok result m' ∧ s.Sound m' own ∧
      s.Sheds m own m' own (s.framesOf m.memory (Request.row start stop)) := by
  unfold AddressSpace.releaseRange
  rcases rangePages_cases start stop with ⟨crooked, e⟩ | ⟨-, less, e⟩ | ⟨-, -, e⟩
  · exact Or.inl ⟨crooked, _, by rw [e]; rfl⟩
  · have empty : s.framesOf m.memory (Request.row start stop) = ∅ := by
      refine Set.eq_empty_iff_forall_notMem.2 fun f ⟨p, mem, _⟩ => ?_
      obtain ⟨lo, hi⟩ := Page.mem_between.1 mem
      have order : stop.toNat < start.toNat := less
      simp only [Address.number_page] at lo hi
      omega
    rw [e, empty]
    exact Or.inr ⟨_, m, rfl, h, sheds_nothing rfl⟩
  · let pages := Page.between start.page stop.page
    obtain ⟨m₁, released, yields, sheds⟩ :=
      h.releaseAll ⟨Page.nodup_between start.page stop.page, foreign, out, once⟩
    let m₂ := m₁.said .info s!"released {start.text}..{stop.text} ({pages.length * 4} KiB)"
    have quiet : Paging.Quiet m₁ m₂ := ⟨rfl, rfl, rfl⟩
    have kept := yields.sound.quiet quiet
    have same : s.Advances m₁ own m₂ own := (Grows.of_quiet quiet).advances fun _ _ => rfl
    have whole := sheds.trans (sheds_nothing same.residue)
    rw [Set.union_empty] at whole
    refine Or.inr ⟨.ok pages.length, m₂, ?_, kept.sound, whole⟩
    refine (step_lift_bind_of_ok e _ _).trans ?_
    exact (step_bind_ok released _).trans rfl

/-- The pages of a row may be released: each leads to a frame of its own, reserved for the kernel,
without users and not released before. -/
structure Releasable (s : AddressSpace) (kernel : Set PhysicalPage) (m : Machine)
    (own : Set VirtualPage) (gone : Set PhysicalPage) (row : Set VirtualPage) : Prop where
  foreign : ∀ p ∈ row, p ∉ own
  reserved : ∀ p ∈ row, ∃ f ∈ kernel, frameOf (s.mapping m.memory) p = some f ∧ f ∉ gone ∧
    m.frames.users f = 0
  once : ∀ p ∈ row, ∀ q ∈ row,
    frameOf (s.mapping m.memory) p = frameOf (s.mapping m.memory) q → p = q

/-- What can become of a machine, which pages own their frames then, and which frames of the kernel
were released. -/
inductive Spends (s : AddressSpace) (kernel : Set PhysicalPage) (m : Machine) :
    Machine → Set VirtualPage → Set PhysicalPage → Prop
  | start : Spends s kernel m m ∅ ∅
  | step {m₁ m₂ : Machine} {own : Set VirtualPage} {gone : Set PhysicalPage} {request : Request}
      {answer : Answer} : Spends s kernel m m₁ own gone → request.Permitted own →
      request.Tidy own → request.run s m₁ = .ok answer m₂ →
      Spends s kernel m m₂ (ownAfter own (request, answer)) gone
  | release {m₁ m₂ : Machine} {own : Set VirtualPage} {gone : Set PhysicalPage}
      {start stop : VirtualAddress} {result : Except MapError Nat} :
      Spends s kernel m m₁ own gone →
      s.Releasable kernel m₁ own gone (Request.row start stop) →
      s.releaseRange start stop m₁ = .ok result m₂ →
      Spends s kernel m m₂ own (gone ∪ s.framesOf m₁.memory (Request.row start stop))

def reserved (s : AddressSpace) (a : FrameAllocator) (m : Machine) : Set PhysicalPage :=
  {f | a.Holds f ∧ m.frames.Holds f ∧ f ≠ s.root}

variable {kernel gone : Set PhysicalPage}

theorem Spends.accounts (run : s.Spends kernel m m' own gone) (start : s.Sound m ∅)
    (outside : ∀ f ∈ kernel, s.Plain m f ∧ f ≠ s.root) :
    s.Sound m' own ∧ s.Sheds m ∅ m' own gone ∧ gone ⊆ kernel := by
  induction run with
  | start => exact ⟨start, sheds_nothing rfl, Set.empty_subset _⟩
  | step _ permitted tidy ran ih =>
    obtain ⟨sound, sheds, inside⟩ := ih
    have follows := sound.follows permitted ran
    have next := sheds.trans (sheds_nothing (follows.residue tidy))
    rw [Set.union_empty] at next
    exact ⟨follows.sound, next, inside⟩
  | @release m₁ m₂ own gone start stop result _ releasable ran ih =>
    obtain ⟨sound, sheds, inside⟩ := ih
    have out : ∀ p ∈ Request.row start stop, ∃ f, s.LeadsOut m₁ own p f := by
      intro p mem
      obtain ⟨f, known, leads, kept, users⟩ := releasable.reserved p mem
      obtain ⟨plain, notRoot⟩ := outside f known
      have was : s.residue m₁ own f = some (m.frames.users f) := by
        rw [sheds.kept f kept, residue_nobody]
        exact ledger_eq_some.2 ⟨plain, rfl⟩
      have unused : m₁.frames.users f = m.frames.users f := (residue_eq_some.1 was).2.2
      rw [← unused, users] at was
      exact ⟨f, leads, was, notRoot⟩
    rcases sound.releaseRange_cases start stop releasable.foreign out releasable.once with
      ⟨-, fault, e⟩ | ⟨result, m₃, e, after, more⟩
    · exact nomatch e.symm.trans ran
    · cases e.symm.trans ran
      refine ⟨after, sheds.trans more, Set.union_subset inside ?_⟩
      rintro f ⟨p, mem, leads⟩
      obtain ⟨g, known, leads', -⟩ := releasable.reserved p mem
      cases leads.symm.trans leads'
      exact known

theorem Fresh.plain_iff (h : s.Fresh m) : s.Plain m f ↔ m.frames.Holds f :=
  ⟨And.left, fun held => ⟨held, fun d => h.not_links d f⟩⟩

theorem Sheds.otherFrames_eq (h : s.Sheds m ∅ m' own gone) (fresh : s.Fresh m) :
    s.otherFrames m' own = m.frames.usedPages \ gone := by
  ext f
  have start : s.residue m ∅ f ≠ none ↔ f ∈ m.frames.usedPages := by
    rw [residue_nobody, ne_eq, ledger_eq_none, not_not]
    exact fresh.plain_iff
  by_cases left : f ∈ gone
  · exact iff_of_false (not_not_intro (h.shed f left)) fun mem => mem.2 left
  · rw [otherFrames, Set.mem_ofPred_eq, h.kept f left, start]
    exact ⟨fun used => ⟨used, left⟩, And.left⟩

variable {memory : BootMemory} {image : Image} {storage : Words} {a : FrameAllocator}
  {events : List (FrameAllocator.Request × FrameAllocator.Answer)}

/-- In every run from a fresh space the frames in use are those of the start that were not released,
one for each slot that links a table, and one for each page that owns one. -/
theorem used_after_run (addressable : memory.Addressable)
    (ready : FrameAllocator.setup memory image storage = .ok (.ok a))
    (used : FrameAllocator.Trace a events m.frames) (fresh : s.Fresh m)
    (run : s.Spends (s.reserved a m) m m' own gone) :
    m'.frames.stats.used + gone.ncard =
      m.frames.stats.used + (s.linkedSlots m'.memory).ncard + own.ncard ∧
    m'.frames.usedPages = m.frames.usedPages \ gone ∪ s.tables m'.memory ∪
      s.framesOf m'.memory own ∧
    gone ⊆ s.reserved a m ∧ ∀ p ∈ own, s.mapping m'.memory p ≠ none := by
  obtain ⟨ha, -⟩ := FrameAllocator.managing_of_setup addressable ready
  obtain ⟨frames, -, -⟩ := used.follows ha
  obtain ⟨sound, sheds, inside⟩ := run.accounts (fresh.sound frames)
    fun f known => ⟨fresh.plain_iff.2 known.2.1, known.2.2⟩
  have others := sheds.otherFrames_eq fresh
  have released : gone ⊆ m.frames.usedPages := fun f mem => (inside mem).2.1
  refine ⟨?_, ?_, inside, fun p mem unmapped => sound.ne_of_mem unmapped mem rfl⟩
  · have left := Set.ncard_sdiff_add_ncard_of_subset released (Set.toFinite _)
    rw [sound.used_eq, others, frames.used_eq_ncard, ← left]
    omega
  · rw [sound.usedPages_eq, others]

theorem used_after_run_small :
    ∃ (m m' : Machine) (kernel gone : Set PhysicalPage), (ofRoot .first).Fresh m ∧
      (ofRoot .first).Spends kernel m m' ∅ gone ∧ ⟨256, by decide⟩ ∈ gone ∧
      m'.frames.stats.used + gone.ncard = m.frames.stats.used +
        ((ofRoot .first).linkedSlots m'.memory).ncard + (∅ : Set VirtualPage).ncard := by
  let s := ofRoot .first
  let frame : PhysicalPage := ⟨256, by decide⟩
  obtain ⟨a, m, ready, used, fresh, unmetered, free, users, -⟩ := exists_fresh
  obtain ⟨ha, -⟩ := FrameAllocator.managing_of_setup ⟨by decide, by decide⟩ ready
  obtain ⟨frames, now, same⟩ := used.follows ha
  have start := fresh.sound frames
  -- That the frame can be released right after set-up shows that it is reserved.
  have held : a.Holds frame := by
    have answers : FrameAllocator.answersFirst ⟨8, 32⟩ FrameAllocator.smallImage
        (Array.replicate 7 0) (.release frame) .done = true := by decide +kernel
    obtain ⟨a', b, ready', step⟩ := FrameAllocator.exists_of_answersFirst answers
    cases ready'.symm.trans ready
    rcases ha.release frame with ⟨-, f, e⟩ | ⟨managed, out, -⟩
    · obtain ⟨_, _, e', -⟩ := step_bind_eq_ok.1 step
      exact nomatch e'.symm.trans e
    · exact ⟨managed, out⟩
  have known : frame ∈ s.reserved a m := by
    refine ⟨held, ⟨same.manages.2 held.1, ?_⟩, by decide⟩
    rw [now]
    rintro (⟨was, -⟩ | back)
    · exact held.2 was
    · exact back
  have ordinary : (Page.first : VirtualPage).directorySlot ≠ .recursive := by decide
  rcases start.mapPage_of_unmapped ordinary (fresh.mapping _) frame Entry.kernelReadWrite with
    ⟨⟨-, spent | none⟩, -⟩ | ⟨m₁, e, yields⟩
  · rw [unmetered] at spent
    exact nomatch spent
  · exact absurd none free
  · have answered : (Request.mapPage .first frame Entry.kernelReadWrite).run s m =
        .ok (.done (.ok ())) m₁ := (step_bind_ok e _).trans rfl
    have permitted : (Request.mapPage .first frame Entry.kernelReadWrite).Permitted ∅ := trivial
    have mapped : s.Spends (s.reserved a m) m m₁ ∅ ∅ := .step .start permitted trivial answered
    have leads : frameOf (s.mapping m₁.memory) .first = some frame := by
      rw [yields.mapping, frameOf_update_self]
      rfl
    have unused : s.residue m₁ ∅ frame = some 0 := by
      rw [(start.advances_of_mapPage e).residue, residue_nobody]
      exact ledger_eq_some.2 ⟨fresh.plain_iff.2 known.2.1, users frame⟩
    have only : ∀ p ∈ Request.row ⟨0, by decide⟩ ⟨0x1000, by decide⟩, p = .first := by
      intro p mem
      obtain ⟨-, below⟩ := Page.mem_between.1 mem
      exact Page.ext (Nat.lt_one_iff.1 below)
    have releasable : s.Releasable (s.reserved a m) m₁ ∅ ∅
        (Request.row ⟨0, by decide⟩ ⟨0x1000, by decide⟩) := by
      refine ⟨fun _ _ => not_false, fun p mem => ?_, fun p hp q hq _ => ?_⟩
      · rw [only p mem]
        exact ⟨frame, known, leads, not_false, (residue_eq_some.1 unused).2.2⟩
      · rw [only p hp, only q hq]
    rcases yields.sound.releaseRange_cases ⟨0, by decide⟩ ⟨0x1000, by decide⟩ releasable.foreign
      (fun p mem => ⟨frame, by rw [only p mem]; exact leads, unused, known.2.2⟩)
      releasable.once with ⟨crooked, -⟩ | ⟨result, m₂, ran, -⟩
    · exact absurd ⟨by decide, by decide⟩ crooked
    · have run := Spends.release mapped releasable ran
      obtain ⟨count, -⟩ := used_after_run ⟨by decide, by decide⟩ ready used fresh run
      refine ⟨m, m₂, _, _, fresh, run, Or.inr ⟨.first, ?_, leads⟩, count⟩
      exact Page.mem_between.2 (by decide)

end AddressSpace
end Ia32Memory
