import Mathlib.Order.Interval.Set.Nat
import Ia32Memory.Proofs.Machine.Accounts
import Ia32Memory.Proofs.Machine.Imaging
import Ia32Memory.Proofs.Machine.Kept
import Ia32Memory.Proofs.Machine.Refinement

/-! Switching paging on, from the first frame that is taken to the last store.
Once the image is mapped and its code is read-only the directory is ready.  For the time of the
switch its first slot shows the kernel's table; that slot was blank before and is blank again, so
the directory that is left is the one that was ready.  It has one table, and the entries of this
table are the pages of the image. -/

namespace Ia32Memory

def Slot.kernel : Slot := ⟨768, by decide⟩

structure Section.Within (part : Section) (page : VirtualPage) (frames : Nat) : Prop where
  aligned : part.start.IsAligned
  inside : ∀ n < part.pages, page.number ≤ part.start.page.number + n ∧
    part.start.page.number + n < page.number + frames

/-- The image is linked where the kernel is, and its code lies in the frames that are mapped. -/
structure Image.Bootable (image : Image) (frames : Nat) : Prop where
  physical : image.physical.IsAligned
  virtual : image.virtual.IsAligned
  slot : image.virtual.page.directorySlot = .kernel
  text : image.text.Within image.virtual.page frames
  initText : image.initText.Within image.virtual.page frames

def Image.HasCode (image : Image) (page : VirtualPage) : Prop :=
  image.text.Meets page ∨ image.initText.Meets page

def Appends (m m' : Machine) : Prop :=
  ∃ more, m'.record.events.toList = m.record.events.toList ++ more ∧ ∀ e ∈ more, e.Ordinary

theorem kept_appends : Kept Appends where
  trans := by
    rintro m m' m'' ⟨more, first, ordinary⟩ ⟨further, second, ordinary'⟩
    refine ⟨more ++ further, by rw [second, first, List.append_assoc], fun e mem => ?_⟩
    exact (List.mem_append.1 mem).elim (ordinary e) (ordinary' e)
  quiet same := ⟨[], by rw [same.events, List.append_nil], nofun⟩
  frames _ := ⟨[], (List.append_nil _).symm, nofun⟩
  memory _ _ := ⟨[], (List.append_nil _).symm, nofun⟩
  noted m e ordinary := by
    refine ⟨[e], Array.toList_push, fun e' mem => ?_⟩
    rw [List.mem_singleton.1 mem]
    exact ordinary

namespace AddressSpace
open FrameAllocator (Became SameMemory)

variable {s : AddressSpace} {m m₀ m' : Machine} {image : Image} {frames : Nat} {page : VirtualPage}
  {d : Slot} {f : PhysicalPage}

def switched (s : AddressSpace) (m : Machine) (slot : Slot) (frames : Nat) : Machine :=
  let shown := (m.stored s.root .first (s.link m.memory slot)).said .debug
    (s!"boot directory {s.root.debugText}: {frames} kernel pages, " ++
      s!"slot 0 aliases slot {slot.val}")
  let on := (shown.noted (.pagingEnabled s.root (s.link shown.memory .first))).noted
    .segmentsFlattened
  ((on.stored s.root .first 0).noted (.invalidated .first)).said .info
    s!"paging enabled, page directory at {s.root.base.text}"

theorem bootstrap_eq_ok : bootstrap image frames m = .ok (.ok s) m' ↔
    image.virtual.page.tableSlot.val + frames ≤ AddressMap.entries ∧
    ∃ m₁ m₂ m₃ m₄, create m = .ok (some s) m₁ ∧
      s.mapImage image.virtual.page image.physical.page frames (List.range frames) m₁ =
        .ok (.ok ()) m₂ ∧
      s.writeProtect image.text m₂ = .ok () m₃ ∧ s.writeProtect image.initText m₃ = .ok () m₄ ∧
      m' = s.switched m₄ image.virtual.page.directorySlot frames := by
  constructor
  · intro ran
    obtain ⟨slots, m₀, lifted, ran⟩ := step_bind_eq_ok.1 ran
    obtain ⟨fits, rfl⟩ := step_lift_eq_ok.1 lifted
    obtain ⟨-, rfl⟩ := fit_eq_ok.1 fits
    split at ran
    · exact nomatch ran
    · rename_i few
      obtain ⟨found, m₁, begun, ran⟩ := step_bind_eq_ok.1 ran
      cases found with
      | none => exact nomatch ran
      | some s₁ =>
        obtain ⟨mapped, m₂, imaged, ran⟩ := step_bind_eq_ok.1 ran
        cases mapped with
        | error e => exact nomatch ran
        | ok _ =>
          obtain ⟨_, m₃, first, ran⟩ := step_bind_eq_ok.1 ran
          obtain ⟨_, m₄, second, ran⟩ := step_bind_eq_ok.1 ran
          cases ran
          exact ⟨Nat.le_of_not_lt few, m₁, m₂, m₃, m₄, begun, imaged, first, second, rfl⟩
  · rintro ⟨few, m₁, m₂, m₃, m₄, begun, imaged, first, second, rfl⟩
    have fits : fit 64 (image.virtual.page.tableSlot.val + frames) =
        .ok (image.virtual.page.tableSlot.val + frames) :=
      fit_of_lt (Nat.lt_of_le_of_lt few (by decide))
    unfold bootstrap
    rw [step_lift_bind_of_ok fits, if_neg (Nat.not_lt.2 few)]
    refine (step_bind_ok begun _).trans ((step_bind_ok imaged _).trans ?_)
    exact (step_bind_ok first _).trans ((step_bind_ok second _).trans rfl)

/-- On a space that was fresh the pages of the image are mapped, those with code read-only, and
nothing else is; only their entries stand in the way of a store. -/
structure Ready (s : AddressSpace) (image : Image) (frames : Nat) (m₀ m : Machine) : Prop where
  sound : s.Sound m ∅
  sameMemory : SameMemory m₀.frames m.frames
  ledger : s.ledger m = s.ledger m₀
  pages : ∀ n < frames, ∃ page target flags, image.virtual.page.add? n = some page ∧
    image.physical.page.add? n = some target ∧ s.mapping m.memory page = some (target, flags) ∧
    (flags.writable = false ↔ image.HasCode page)
  others : ∀ p, p ∉ behind image.virtual.page (List.range frames) → s.mapping m.memory p = none
  links : s.LinksWritable m.memory

theorem mem_behind_of_meets {part : Section} {p : VirtualPage} (h : part.Within page frames)
    (meets : part.Meets p) : p ∈ behind page (List.range frames) := by
  obtain ⟨n, inside, here⟩ := (Section.meets_iff h.aligned).1 meets
  have number := Page.add?_eq_some.1 here
  have bounds := h.inside n inside
  refine mem_behind.2 ⟨p.number - page.number, List.mem_range.2 (by omega), ?_⟩
  exact Page.add?_eq_some.2 (by omega)

theorem Fresh.ready {m₁ m₂ : Machine} (fresh : s.Fresh m₁) (managing : m₁.frames.Managing)
    (text : image.text.Within image.virtual.page frames)
    (initText : image.initText.Within image.virtual.page frames)
    (imaged : s.mapImage image.virtual.page image.physical.page frames (List.range frames) m₁ =
      .ok (.ok ()) m₂) :
    ∃ m₃ m₄, s.writeProtect image.text m₂ = .ok () m₃ ∧
      s.writeProtect image.initText m₃ = .ok () m₄ ∧ s.Ready image frames m₁ m₄ := by
  obtain ⟨placed, found⟩ := (Placed.nothing (fresh.sound managing)).mapImage imaged
  rw [List.nil_append] at placed
  have sound := placed.sound
  have advances := placed.advances
  rw [gained_of_not] at sound advances
  have mapped : ∀ part : Section, part.Within image.virtual.page frames → ∀ p, part.Meets p →
      s.mapping m₂.memory p ≠ none := by
    intro part within p meets
    obtain ⟨v, maps, -⟩ := placed.placed p (mem_behind_of_meets within meets)
    rw [maps]
    exact nofun
  obtain ⟨m₃, first, one⟩ := sound.writeProtect text.aligned (mapped _ text)
  obtain ⟨m₄, second, two⟩ := one.yields.sound.writeProtect initText.aligned
    fun p meets => by
      rw [one.yields.mapping, ne_eq, readOnly_eq_none]
      exact mapped _ initText p meets
  have done := one.trans two
  refine ⟨m₃, m₄, first, second, done.yields.sound,
    placed.sameMemory.trans done.yields.sameMemory, ?_, fun n inside => ?_, fun p outside => ?_,
    ?_⟩
  · rw [← residue_nobody, done.residue, advances.residue, residue_nobody]
  · obtain ⟨p, here⟩ := Option.ne_none_iff_exists'.1 (found n (List.mem_range.2 inside))
    obtain ⟨v, maps, i, target, here', there, rfl⟩ :=
      placed.placed p (mem_behind.2 ⟨n, List.mem_range.2 inside, here⟩)
    have same : i = n := by
      have := Page.add?_eq_some.1 here
      have := Page.add?_eq_some.1 here'
      omega
    subst same
    have writable : Entry.kernelReadWrite.leafFlags.writable = true := by decide
    rw [done.yields.mapping]
    unfold readOnly
    -- Both sections are code, so it is all one which of them protected the page.
    by_cases code : image.HasCode p
    · refine ⟨p, target, _, here, there, (if_pos code).trans (congrArg _ maps), ?_⟩
      simp [code]
    · refine ⟨p, target, _, here, there, (if_neg code).trans maps, ?_⟩
      simp [code, writable]
  · rw [done.yields.mapping, readOnly_eq_none, placed.others p outside]
    exact fresh.mapping p
  · have imaged := (fresh.sound managing).linksWritable_of_mapImage fresh.linksWritable imaged
    exact imaged.of_same done.link

theorem ncard_slots {first count : Nat} (few : first + count ≤ AddressMap.entries) :
    {t : Slot | first ≤ t.val ∧ t.val < first + count}.ncard = count := by
  have apart : Set.InjOn Fin.val {t : Slot | first ≤ t.val ∧ t.val < first + count} :=
    fun _ _ _ _ => Fin.ext
  have numbers : Fin.val '' {t : Slot | first ≤ t.val ∧ t.val < first + count} =
      Set.Ico first (first + count) := by
    ext i
    rw [Set.mem_image, Set.mem_Ico]
    constructor
    · rintro ⟨t, inside, rfl⟩
      exact inside
    · intro inside
      exact ⟨⟨i, Nat.lt_of_lt_of_le inside.2 few⟩, inside, rfl⟩
  rw [← apart.ncard_image, numbers, Set.ncard_Ico_nat, Nat.add_sub_cancel_left]

variable {home : Slot} (few : image.virtual.page.tableSlot.val + frames ≤ AddressMap.entries)
  (slot : image.virtual.page.directorySlot = home)

include few slot in
theorem mem_image_iff {t : Slot} :
    Page.ofSlots d t ∈ behind image.virtual.page (List.range frames) ↔
      d = home ∧ image.virtual.page.tableSlot.val ≤ t.val ∧
        t.val < image.virtual.page.tableSlot.val + frames := by
  have split := congrArg Fin.val slot
  simp only [mem_behind, List.mem_range, Page.add?_eq_some, Fin.ext_iff]
  simp only [Page.directorySlot, Page.tableSlot, Page.ofSlots, AddressMap.entries] at few split ⊢
  have low := t.isLt
  constructor
  · rintro ⟨n, inside, number⟩
    omega
  · rintro ⟨here, first, last⟩
    exact ⟨t.val - image.virtual.page.number % 1024, by omega, by omega⟩

include few in
theorem exists_image_page {n : Nat} (inside : n < frames) : ∃ p,
    image.virtual.page.add? n = some p ∧
      p.directorySlot = image.virtual.page.directorySlot := by
  have start := image.virtual.page.isLt
  simp only [Page.tableSlot, AddressMap.entries] at few
  refine ⟨⟨image.virtual.page.number + n, by omega⟩, Page.add?_eq_some.2 rfl, ?_⟩
  rw [Fin.ext_iff]
  simp only [Page.directorySlot]
  omega

include few slot in
theorem Ready.blank (h : s.Ready image frames m₀ m) (other : d ≠ home)
    (ordinary : d ≠ .recursive) : s.link m.memory d = 0 := by
  refine h.sound.intact.blank d ?_
  cases present : (s.link m.memory d).present with
  | false => rfl
  | true =>
    obtain ⟨t, mapped⟩ := h.sound.intact.exists_mapped (links_of_present ordinary present)
    have outside : Page.ofSlots d t ∉ behind image.virtual.page (List.range frames) :=
      fun mem => other ((mem_image_iff few slot).1 mem).1
    exact absurd (h.others _ outside) mapped

include few slot in
theorem Intact.users_of_image (h : s.Intact m none) (linked : s.Links m.memory home f)
    (pages : ∀ t, s.mapping m.memory (Page.ofSlots home t) ≠ none ↔
      Page.ofSlots home t ∈ behind image.virtual.page (List.range frames)) :
    m.frames.users f = frames := by
  have entries : {t | ((m.memory.frame f).entry t).present = true} =
      {t | image.virtual.page.tableSlot.val ≤ t.val ∧
        t.val < image.virtual.page.tableSlot.val + frames} := by
    ext t
    have page : s.mapping m.memory (Page.ofSlots home t) =
        Entry.mapped? ((m.memory.frame f).entry t) := by
      rw [mapping_of_links (by rwa [Page.directorySlot_ofSlots]), Page.tableSlot_ofSlots]
      rfl
    have inside := mem_image_iff few slot (d := home) (t := t)
    simp only [true_and] at inside
    rw [Set.mem_ofPred_eq, Set.mem_ofPred_eq, ← inside, ← pages, page, ne_eq,
      Entry.mapped?_eq_none, Bool.not_eq_false]
  rw [(h.table _ f linked).counted, EntryTable.presentCount_eq_ncard, entries, ncard_slots few]

include few slot in
theorem Ready.users (h : s.Ready image frames m₀ m) (linked : s.Links m.memory home f) :
    m.frames.users f = frames := by
  refine h.sound.intact.users_of_image few slot linked fun t => ⟨fun mapped => ?_, fun mem => ?_⟩
  · exact not_not.1 fun outside => mapped (h.others _ outside)
  · obtain ⟨n, below, here⟩ := mem_behind.1 mem
    obtain ⟨p, target, flags, here', -, maps, -⟩ := h.pages n (List.mem_range.1 below)
    cases here.symm.trans here'
    rw [maps]
    exact nofun

theorem Fresh.taken_of_ledger (fresh : s.Fresh m₀) (intact : s.Intact m none)
    (sameMemory : SameMemory m₀.frames m.frames) (ledger : s.ledger m = s.ledger m₀) :
    s.tables m.memory ⊆ m₀.frames.freePages ∧
      m.frames.freePages = m₀.frames.freePages \ s.tables m.memory ∧
      ∀ p, m₀.frames.stats.Manages p → p ∉ s.tables m.memory →
        m.frames.users p = m₀.frames.users p := by
  have vacant : s.tables m₀.memory = ∅ :=
    Set.eq_empty_of_forall_notMem fun g ⟨d, linked⟩ => fresh.not_links d g linked
  have held : ∀ g, m₀.frames.Holds g ↔ s.ledger m₀ g ≠ none ∨ g ∈ s.tables m₀.memory := by
    intro g
    rw [ne_eq, ledger_eq_none, not_not, fresh.plain_iff, vacant]
    simp
  have taken := intact.taken_of_ledger held fresh.fresh sameMemory ledger
    (vacant ▸ Set.empty_subset _)
  rwa [vacant, Set.sdiff_empty] at taken

include few slot in
theorem Ready.freePages (h : s.Ready image frames m₀ m) (fresh : s.Fresh m₀)
    (linked : s.Links m.memory home f) :
    f ∈ m₀.frames.freePages ∧ m.frames.freePages = m₀.frames.freePages \ {f} := by
  have only : s.tables m.memory = {f} := by
    ext g
    refine ⟨?_, fun same => ⟨home, (same : g = f) ▸ linked⟩⟩
    rintro ⟨d, there⟩
    by_cases here : d = home
    · subst here
      exact there.eq_frame linked
    · have present := there.present
      rw [h.blank few slot here there.ordinary] at present
      exact Bool.noConfusion present
  obtain ⟨new, left, -⟩ := fresh.taken_of_ledger h.sound.intact h.sameMemory h.ledger
  rw [only] at new left
  exact ⟨new rfl, left⟩

theorem frame_switched (blank : s.link m.memory .first = 0) (f : PhysicalPage) :
    (s.switched m d frames).memory.frame f = m.memory.frame f := by
  have written : (s.switched m d frames).memory =
      (m.memory.put s.root .first (s.link m.memory d)).put s.root .first 0 := rfl
  refine EntryTable.ext_entry fun t => ?_
  change (s.switched m d frames).memory.word f t = m.memory.word f t
  rw [written, PhysicalMemory.word_put, PhysicalMemory.word_put]
  by_cases here : s.root = f ∧ Slot.first = t
  · obtain ⟨rfl, rfl⟩ := here
    rw [if_pos ⟨rfl, rfl⟩]
    exact blank.symm
  · rw [if_neg here, if_neg here]

theorem frames_switched : (s.switched m d frames).frames = m.frames := by
  unfold switched
  rfl

theorem Ready.switched (h : s.Ready image frames m₀ m) (blank : s.link m.memory .first = 0) :
    s.Ready image frames m₀ (s.switched m d frames) := by
  have undisturbed : s.Undisturbed m (s.switched m d frames) :=
    h.sound.intact.untouched frames_switched (frame_switched blank)
  have grows : s.Grows ∅ m (s.switched m d frames) ∧ s.Grows ∅ (s.switched m d frames) m :=
    grows_of_same frames_switched undisturbed.link
  refine ⟨h.sound.elsewhere ⟨undisturbed, nofun⟩, ?_, ?_, ?_, ?_,
    h.links.of_same undisturbed.link⟩
  · rw [frames_switched]
    exact h.sameMemory
  · rw [← h.ledger]
    exact funext fun g => grows.1.ledger g (Set.notMem_empty g)
  · rw [undisturbed.mapping]
    exact h.pages
  · rw [undisturbed.mapping]
    exact h.others

theorem events_switched : (s.switched m d frames).record.events.toList =
    m.record.events.toList ++ [.stored s.root .first (s.link m.memory d),
      .pagingEnabled s.root (s.link m.memory d), .segmentsFlattened, .stored s.root .first 0,
      .invalidated .first] := by
  have shown : s.link (m.memory.put s.root .first (s.link m.memory d)) .first =
      s.link m.memory d := link_put_root_self m.memory .first _
  have events : (s.switched m d frames).record.events =
      ((((m.record.events.push (.stored s.root .first (s.link m.memory d))).push
        (.pagingEnabled s.root (s.link (m.memory.put s.root .first (s.link m.memory d))
          .first))).push .segmentsFlattened).push (.stored s.root .first 0)).push
        (.invalidated .first) := rfl
  rw [events, shown]
  simp

/-- What is there once the bootstrap has succeeded. -/
structure Booted (s : AddressSpace) (image : Image) (frames : Nat) (m m' : Machine) : Prop where
  query : ∀ o < frames * 4096, ∃ v p, image.virtual.add o = .ok v ∧ image.physical.add o = .ok p ∧
    s.query v m' = .ok (some p) m'
  protection : ∀ n < frames, ∃ page e, image.virtual.page.add? n = some page ∧
    s.entry? page m' = .ok (some e) m' ∧ (e.writable = false ↔ image.HasCode page)
  window : s.LoopsBack m'.memory
  blank : ∀ d, d ≠ .kernel → d ≠ .recursive → s.link m'.memory d = 0
  taken : ∃ table, s.Links m'.memory .kernel table ∧ m'.frames.users table = frames ∧
    table ≠ s.root ∧ {s.root, table} ⊆ m.frames.freePages ∧
    m'.frames.freePages = m.frames.freePages \ {s.root, table} ∧
    m'.frames.stats.used = m.frames.stats.used + 2
  switch : ∃ before, (∀ e ∈ before, e.Ordinary) ∧
    m'.record.events.toList = m.record.events.toList ++ before ++
      [.stored s.root .first (s.link m'.memory .kernel),
        .pagingEnabled s.root (s.link m'.memory .kernel), .segmentsFlattened,
        .stored s.root .first 0, .invalidated .first]

theorem Ready.query (h : s.Ready image frames m₀ m) (virtual : image.virtual.IsAligned)
    (physical : image.physical.IsAligned) {o : Nat} (inside : o < frames * 4096) :
    ∃ v p, image.virtual.add o = .ok v ∧ image.physical.add o = .ok p ∧
      s.query v m = .ok (some p) m := by
  obtain ⟨page, target, flags, here, there, maps, -⟩ := h.pages (o / 4096) (by omega)
  let rest : PageOffset := ⟨o % 4096, Nat.mod_lt _ (by decide)⟩
  have number := Page.add?_eq_some.1 here
  have number' := Page.add?_eq_some.1 there
  unfold Address.IsAligned at virtual physical
  simp only [Address.number_page] at number number'
  have ordinary : (page.join rest).page.directorySlot ≠ .recursive := by
    rw [Page.page_join]
    exact ordinary_of_mapping maps
  refine ⟨page.join rest, target.join rest, Address.add_eq_ok.2 ?_, Address.add_eq_ok.2 ?_, ?_⟩
  · simp only [Page.toNat_join, rest]
    omega
  · simp only [Page.toNat_join, rest]
    omega
  · rw [h.sound.actsAsMap.query _ ordinary, Page.page_join, Page.offset_join, maps]
    rfl

theorem Ready.protection (h : s.Ready image frames m₀ m) {n : Nat} (inside : n < frames) :
    ∃ page e, image.virtual.page.add? n = some page ∧ s.entry? page m = .ok (some e) m ∧
      (e.writable = false ↔ image.HasCode page) := by
  obtain ⟨page, target, flags, here, -, maps, code⟩ := h.pages n inside
  obtain ⟨found, ran, leaf⟩ := h.sound.actsAsMap.entry page (ordinary_of_mapping maps)
  rw [maps] at leaf
  obtain ⟨e, rfl, entry⟩ := Option.bind_eq_some_iff.1 leaf
  rw [Entry.mapped?_of_present (Entry.present_of_mapped? entry), Option.some.injEq,
    Prod.mk.injEq] at entry
  rw [← entry.2, Entry.writable_flagsOnly] at code
  exact ⟨page, e, here, ran, code⟩

theorem bootstrap_ready (managing : m.frames.Managing)
    (unused : ∀ p ∈ m.frames.freePages, m.frames.users p = 0)
    (text : image.text.Within image.virtual.page frames)
    (initText : image.initText.Within image.virtual.page frames)
    (ran : bootstrap image frames m = .ok (.ok s) m') :
    image.virtual.page.tableSlot.val + frames ≤ AddressMap.entries ∧
    ∃ m₁ m₂, s.root ∈ m.frames.freePages ∧
      Became m.frames m₁.frames (m.frames.freePages \ {s.root}) ∧ s.Fresh m₁ ∧
      s.Ready image frames m₁ m₂ ∧ Appends m m₂ ∧
      m' = s.switched m₂ image.virtual.page.directorySlot frames := by
  obtain ⟨few, m₁, m₂, m₃, m₄, begun, imaged, first, second, rfl⟩ := bootstrap_eq_ok.1 ran
  have appends : Appends m m₄ := by
    refine kept_appends.trans (kept_appends.create m _ m₁ begun) ?_
    refine kept_appends.trans (kept_appends.mapImage s _ _ _ _ m₁ _ m₂ imaged) ?_
    refine kept_appends.trans (kept_appends.writeProtect s _ m₂ _ m₃ first) ?_
    exact kept_appends.writeProtect s _ m₃ _ m₄ second
  rcases create_cases managing with ⟨-, m₅, e, -⟩ | ⟨-, root, frames₁, free, became, e⟩
  · exact nomatch e.symm.trans begun
  · cases e.symm.trans begun
    have fresh := fresh_created unused free became
    obtain ⟨m₆, m₇, first', second', ready⟩ := fresh.ready became.managing text initText imaged
    cases first'.symm.trans first
    cases second'.symm.trans second
    exact ⟨few, _, m₄, free, became, fresh, ready, appends, rfl⟩

theorem Sound.mapImage_of_room {own : Set VirtualPage} {target : PhysicalPage} {ns : List Nat}
    {home : Slot} (h : s.Sound m own) (ordinary : home ≠ .recursive) (once : ns.Nodup)
    (pages : ∀ n ∈ ns, ∃ p f, page.add? n = some p ∧ target.add? n = some f ∧
      p.directorySlot = home ∧ s.mapping m.memory p = none)
    (room : (s.link m.memory home).present = true ∨
      m.quota ≠ some 0 ∧ m.frames.freePages ≠ ∅) :
    ∃ m', s.mapImage page target frames ns m = .ok (.ok ()) m' := by
  induction ns generalizing m with
  | nil => exact ⟨m, rfl⟩
  | cons n rest ih =>
    obtain ⟨p, f, here, there, rfl, unmapped⟩ := pages n List.mem_cons_self
    obtain ⟨other, later⟩ := List.nodup_cons.1 once
    rcases h.mapPage_of_unmapped ordinary unmapped f Entry.kernelReadWrite with
      ⟨⟨absent, wanting⟩, -⟩ | ⟨m₁, e, yields⟩
    · rcases room with present | ⟨left, free⟩
      · exact absurd present (Bool.eq_false_iff.1 absent)
      · exact absurd wanting (not_or.2 ⟨left, free⟩)
    · have maps : s.mapping m₁.memory p = some (f, Entry.kernelReadWrite.leafFlags) := by
        rw [yields.mapping, Function.update_self]
      obtain ⟨table, linked, -⟩ := links_of_mapping maps
      have still : ∀ i ∈ rest, ∃ q g, page.add? i = some q ∧ target.add? i = some g ∧
          q.directorySlot = p.directorySlot ∧ s.mapping m₁.memory q = none := by
        intro i mem
        obtain ⟨q, g, here', there', slot, unmapped'⟩ := pages i (List.mem_cons_of_mem _ mem)
        have apart : q ≠ p := by
          rintro rfl
          have := Page.add?_eq_some.1 here
          have := Page.add?_eq_some.1 here'
          exact other ((show i = n by omega) ▸ mem)
        refine ⟨q, g, here', there', slot, ?_⟩
        rw [yields.mapping, Function.update_of_ne apart, unmapped']
      obtain ⟨m', ran⟩ := ih yields.sound later still (Or.inl linked.present)
      exact ⟨m', mapImage_cons_eq_ok.2 ⟨p, f, m₁, here, there, e, ran⟩⟩

/-- Two free frames are all that a bootstrap needs for an image that fits one table. -/
theorem bootstrap_succeeds (managing : m.frames.Managing)
    (unused : ∀ p ∈ m.frames.freePages, m.frames.users p = 0) (quota : m.quota = none)
    (few : image.virtual.page.tableSlot.val + frames ≤ AddressMap.entries)
    (ordinary : image.virtual.page.directorySlot ≠ .recursive)
    (backed : image.physical.page.number + frames ≤ pageCount)
    (text : image.text.Within image.virtual.page frames)
    (initText : image.initText.Within image.virtual.page frames)
    (free : ∃ p ∈ m.frames.freePages, ∃ q ∈ m.frames.freePages, p ≠ q) :
    ∃ s m', bootstrap image frames m = .ok (.ok s) m' := by
  obtain ⟨p, hp, q, hq, apart⟩ := free
  rcases create_cases managing with ⟨spent | none, -⟩ |
    ⟨-, root, left, mem, became, begun⟩
  · rw [quota] at spent
    exact nomatch spent
  · exact absurd none (Set.nonempty_iff_ne_empty.1 ⟨p, hp⟩)
  · have fresh : (ofRoot root).Fresh (created m root left) := fresh_created unused mem became
    have unmetered : (created m root left).quota = none := congrArg (Option.map (· - 1)) quota
    have another : (created m root left).frames.freePages ≠ ∅ := by
      refine Set.nonempty_iff_ne_empty.1 (became.free.symm ▸ ?_)
      by_cases same : p = root
      · exact ⟨q, hq, fun here => apart (same.trans here.symm)⟩
      · exact ⟨p, hp, same⟩
    have pages : ∀ n ∈ List.range frames, ∃ p f, image.virtual.page.add? n = some p ∧
        image.physical.page.add? n = some f ∧
        p.directorySlot = image.virtual.page.directorySlot ∧
        (ofRoot root).mapping (created m root left).memory p = none := by
      intro n inside
      have inside := List.mem_range.1 inside
      have room : image.physical.page.number + n < pageCount := by omega
      obtain ⟨p, here, slot⟩ := exists_image_page few inside
      exact ⟨p, ⟨_, room⟩, here, Page.add?_eq_some.2 rfl, slot, fresh.mapping p⟩
    obtain ⟨m₂, imaged⟩ := (fresh.sound became.managing).mapImage_of_room ordinary
      List.nodup_range pages (Or.inr ⟨by rw [unmetered]; exact nofun, another⟩)
    obtain ⟨m₃, m₄, first, second, -⟩ := fresh.ready became.managing text initText imaged
    exact ⟨_, _, bootstrap_eq_ok.2 ⟨few, _, m₂, m₃, m₄, begun, imaged, first, second, rfl⟩⟩

/-- A bootstrap that succeeds leaves the image mapped as a whole, its code read-only, nothing else
in the directory, two frames less, and paging on since the first slot showed the kernel's table. -/
theorem bootstrap_builds (managing : m.frames.Managing)
    (unused : ∀ p ∈ m.frames.freePages, m.frames.users p = 0) (positive : 1 ≤ frames)
    (bootable : image.Bootable frames) (ran : bootstrap image frames m = .ok (.ok s) m') :
    s.Booted image frames m m' := by
  obtain ⟨few, m₁, m₂, free, became, fresh, before, ⟨more, continued, ordinary⟩, rfl⟩ :=
    bootstrap_ready managing unused bootable.text bootable.initText ran
  have blank := before.blank few bootable.slot (d := .first) (by decide) (by decide)
  have ready := before.switched (d := image.virtual.page.directorySlot) blank
  obtain ⟨page, target, flags, here, -, maps, -⟩ := ready.pages 0 positive
  obtain ⟨table, linked, -⟩ := links_of_mapping maps
  have same : page = image.virtual.page := Page.ext (Page.add?_eq_some.1 here).symm
  have inKernel : page.directorySlot = .kernel := by rw [same, bootable.slot]
  rw [inKernel] at linked
  obtain ⟨wasFree, left⟩ := ready.freePages few bootable.slot fresh linked
  rw [became.free] at wasFree left
  rw [Set.sdiff_sdiff, Set.singleton_union] at left
  have both : {s.root, table} ⊆ m.frames.freePages :=
    Set.insert_subset free (Set.singleton_subset_iff.2 wasFree.1)
  refine ⟨fun o => ready.query bootable.virtual bootable.physical, fun n => ready.protection,
    ready.sound.intact.loop, fun d => ready.blank few bootable.slot, ⟨table, linked,
      ready.users few bootable.slot linked, wasFree.2, both, left, ?_⟩, more, ordinary, ?_⟩
  · rw [managing.used_of_taken ready.sound.intact.frames
      (became.sameMemory.trans ready.sameMemory) both left, Set.ncard_pair (Ne.symm wasFree.2)]
  · have link : s.link (s.switched m₂ image.virtual.page.directorySlot frames).memory .kernel =
        s.link m₂.memory image.virtual.page.directorySlot := by
      unfold AddressSpace.link PhysicalMemory.word
      rw [frame_switched blank, bootable.slot]
    rw [events_switched, continued, link]

def codeImage : Image :=
  { FrameAllocator.smallImage with text := ⟨FrameAllocator.smallImage.virtual, 8⟩ }

theorem bootstrap_builds_small :
    ∃ (m : Machine) (s : AddressSpace) (m' : Machine), m.frames.Managing ∧
      (∀ p ∈ m.frames.freePages, m.frames.users p = 0) ∧
      bootstrap codeImage 1 m = .ok (.ok s) m' ∧ s.Booted codeImage 1 m m' := by
  obtain ⟨a, b, ready, -⟩ := FrameAllocator.exists_small_run
  obtain ⟨ha, -, start, unused⟩ := FrameAllocator.managing_of_setup ⟨by decide, by decide⟩ ready
  let m : Machine := ⟨a, none, .fresh 0, .empty⟩
  have users : ∀ p ∈ m.frames.freePages, m.frames.users p = 0 := fun p _ => unused p
  have free : ∀ p : PhysicalPage, p.number < 2 → p ∈ m.frames.freePages := by
    intro p low
    have below : p.base.toNat < 2 * 4096 := by
      rw [Page.toNat_base]
      omega
    refine start.symm ▸ ⟨Or.inl below, fun kernel => ?_⟩
    have above : 0x100000 ≤ p.base.toNat := kernel.1
    omega
  have bootable : codeImage.Bootable 1 :=
    ⟨by decide, by decide, by decide, ⟨by decide, by decide⟩, ⟨by decide, by decide⟩⟩
  rcases create_cases (m := m) ha with ⟨spent | none, -⟩ |
    ⟨-, root, frames, mem, became, begun⟩
  · exact nomatch spent
  · exact absurd none (Set.nonempty_iff_ne_empty.1 ⟨.first, free _ (by decide)⟩)
  · have fresh : (ofRoot root).Fresh (created m root frames) := fresh_created users mem became
    have ordinary : codeImage.virtual.page.directorySlot ≠ .recursive := by decide
    rcases (fresh.sound became.managing).mapPage_of_unmapped ordinary (fresh.mapping _)
      codeImage.physical.page Entry.kernelReadWrite with ⟨⟨-, spent | none⟩, -⟩ | ⟨m₂, e, -⟩
    · exact nomatch spent
    · -- Of the two frames below 1 MiB at most one has become the root.
      have left : ∃ p, p ∈ m.frames.freePages \ {root} := by
        by_cases same : root = .first
        · refine ⟨⟨1, by decide⟩, free _ (by decide), fun other => ?_⟩
          exact absurd (other.trans same) (by decide)
        · exact ⟨.first, free _ (by decide), fun other => same other.symm⟩
      exact absurd (became.free.symm.trans none) (Set.nonempty_iff_ne_empty.1 left)
    · have imaged : (ofRoot root).mapImage codeImage.virtual.page codeImage.physical.page 1
          (List.range 1) (created m root frames) = .ok (.ok ()) m₂ :=
        (step_bind_ok e _).trans rfl
      obtain ⟨m₃, m₄, first, second, -⟩ := fresh.ready became.managing bootable.text
        bootable.initText imaged
      have ran : bootstrap codeImage 1 m = .ok (.ok (ofRoot root))
          ((ofRoot root).switched m₄ codeImage.virtual.page.directorySlot 1) :=
        bootstrap_eq_ok.2 ⟨by decide, _, m₂, m₃, m₄, begun, imaged, first, second, rfl⟩
      exact ⟨m, _, _, ha, users, ran, bootstrap_builds ha users (by decide) bootable ran⟩

end AddressSpace
end Ia32Memory
