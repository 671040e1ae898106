import Ia32Memory.Kernel.Basic
import Ia32Memory.Proofs.Frame.Reservation
import Ia32Memory.Proofs.Machine.Bootstrap

/-! Where the maps of the allocator lie.
The image is linked from some page of the upper gigabyte on, the words of the maps come right behind
its last page, and what is reserved is counted in frames: those of the image, rounded up, and those
that the words fill, rounded up by themselves.  The two counts meet at the end of the image, so the
words are inside what is reserved and outside the image.  The allocator does not hand out what it
has reserved, and the boot directory maps all of it where it was seen before, the maps writable. -/

namespace Ia32Memory
open FrameAllocator (kernelFrames upperEnd Trace givenBack)

variable {image : Image} {memory : BootMemory} {storage : Words} {a b : FrameAllocator}
  {start stop words frames : Nat} {v : VirtualAddress} {part : Section} {page : VirtualPage}

namespace Image

/-- The image begins and ends with a page, in the upper gigabyte, and its physical place is at the
kernel's offset. -/
structure Linked (image : Image) : Prop where
  start : image.virtual.toNat % 4096 = 0
  size : image.size % 4096 = 0
  physical : image.physical.toNat + AddressMap.kernelOffset = image.virtual.toNat
  stop : image.virtual.toNat + image.size ≤ 0x100000000

def bytes (image : Image) : Set PhysicalAddress :=
  {b | image.physical.toNat ≤ b.toNat ∧ b.toNat < image.physical.toNat + image.size}

def reserved (image : Image) (frames : Nat) : Set PhysicalAddress :=
  {b | image.physical.toNat ≤ b.toNat ∧ b.toNat < image.physical.toNat + frames * 4096}

def wordsBehind (image : Image) (words : Nat) : Set VirtualAddress :=
  {v | image.virtual.toNat + image.size ≤ v.toNat ∧
    v.toNat < image.virtual.toNat + image.size + words * 4}

structure Contains (image : Image) (part : Section) : Prop where
  aligned : part.start.IsAligned
  start : image.virtual.toNat ≤ part.start.toNat
  stop : part.start.toNat + part.size ≤ image.virtual.toNat + image.size

theorem le_of_mem_wordsBehind (here : v ∈ image.wordsBehind words) :
    image.virtual.toNat ≤ v.toNat :=
  Nat.le_trans (Nat.le_add_right ..) here.1

theorem linked_of_between {text initText init : Nat × Nat} (aligned : start % 4096 = 0)
    (high : AddressMap.kernelOffset ≤ start) (below : stop < 0x100000000)
    (linked : between start stop text initText init = .ok image) : image.Linked := by
  obtain ⟨size, difference, linked⟩ := except_bind_eq_ok.1 linked
  obtain ⟨_, -, linked⟩ := except_bind_eq_ok.1 linked
  obtain ⟨_, -, linked⟩ := except_bind_eq_ok.1 linked
  obtain ⟨_, -, linked⟩ := except_bind_eq_ok.1 linked
  obtain ⟨_, rounded, linked⟩ := except_bind_eq_ok.1 linked
  obtain ⟨order, rfl⟩ := minus_eq_ok.1 difference
  obtain ⟨-, rfl⟩ := fit_eq_ok.1 rounded
  have place : start % 0x100000000 = start := Nat.mod_eq_of_lt (by omega)
  have length : (stop - start) % 0x100000000 = stop - start := Nat.mod_eq_of_lt (by omega)
  obtain rfl := Except.ok.inj linked
  unfold AddressMap.kernelOffset at high
  refine ⟨?_, ?_, ?_, ?_⟩
  · rw [Address.toNat_truncate, place, aligned]
  · exact Nat.mul_mod_left ..
  · rw [AddressMap.toPhysical, Address.toNat_truncate, Address.toNat_truncate, place,
      AddressMap.kernelOffset]
    omega
  · rw [Address.toNat_truncate, place]
    change start + framesFor ((stop - start) % 0x100000000) * 4096 ≤ 0x100000000
    rw [length, framesFor]
    omega

namespace Linked
variable (h : image.Linked)
include h

theorem isAligned : image.virtual.IsAligned := h.start

theorem physical_aligned : image.physical.IsAligned := by
  have start := h.start
  have place := h.physical
  unfold AddressMap.kernelOffset at place
  unfold Address.IsAligned
  omega

theorem frames_mul : image.frames * 4096 = image.size := by
  have size := h.size
  unfold frames framesFor
  omega

theorem toNat_toPhysical (above : image.virtual.toNat ≤ v.toNat) :
    (AddressMap.toPhysical v.toNat).toNat + image.virtual.toNat =
      image.physical.toNat + v.toNat := by
  have place := h.physical
  have range := v.isLt
  rw [AddressMap.toPhysical, Address.toNat_truncate]
  unfold AddressMap.kernelOffset at *
  omega

theorem toPhysical_eq (above : image.virtual.toNat ≤ v.toNat) :
    image.toPhysical v = .ok (AddressMap.toPhysical v.toNat) := by
  have distance := h.toNat_toPhysical above
  rw [Image.toPhysical, minus_of_le above, except_ok_bind, Address.add_eq_ok]
  omega

theorem reserved_below (addressable : memory.Addressable) :
    image.size < 0x100000000 ∧
      image.physical.toNat + kernelFrames memory image * 4096 < 0x100000000 := by
  have lower := addressable.lower
  have upper := addressable.upper
  have place := h.physical
  have last := h.stop
  have whole := h.frames_mul
  have few := MapLayout.mapFrames_le memory.totalFrames
  unfold AddressMap.upperMemoryStart at upper
  unfold BootMemory.totalFrames at few
  unfold AddressMap.kernelOffset at place
  unfold kernelFrames BootMemory.totalFrames
  omega

theorem bytes_subset (memory : BootMemory) :
    image.bytes ⊆ image.reserved (kernelFrames memory image) := by
  have whole := h.frames_mul
  intro b inside
  unfold kernelFrames
  exact ⟨inside.1, by have := inside.2; omega⟩

theorem wordsBehind_reserved
    (here : v ∈ image.wordsBehind (MapLayout.mapWords memory.totalFrames)) :
    AddressMap.toPhysical v.toNat ∉ image.bytes ∧
      AddressMap.toPhysical v.toNat ∈ image.reserved (kernelFrames memory image) := by
  have distance := h.toNat_toPhysical (le_of_mem_wordsBehind here)
  obtain ⟨above, below⟩ := here
  have whole := h.frames_mul
  have filled := MapLayout.mapWords_le_mapFrames memory.totalFrames
  refine ⟨fun inside => ?_, ?_, ?_⟩
  · have := inside.2
    omega
  · omega
  · unfold kernelFrames
    omega

theorem base_reserved {b : PhysicalAddress} (inside : b ∈ image.reserved frames) :
    b.page.base ∈ image.reserved frames := by
  have start := h.physical_aligned
  obtain ⟨low, high⟩ := inside
  unfold Address.IsAligned at start
  refine ⟨?_, ?_⟩
  · rw [Page.toNat_base, Address.number_page]
    omega
  · rw [Page.toNat_base, Address.number_page]
    omega

theorem within (contains : image.Contains part) (enough : image.size ≤ frames * 4096) :
    part.Within image.virtual.page frames := by
  obtain ⟨aligned, first, last⟩ := contains
  refine ⟨aligned, fun n inside => ?_⟩
  have start := h.start
  unfold Address.IsAligned at aligned
  unfold Section.pages framesFor at inside
  simp only [Address.number_page]
  omega

theorem not_meets (contains : image.Contains part) (here : v ∈ image.wordsBehind words) :
    ¬part.Meets v.page := by
  rintro ⟨i, inside, same⟩
  obtain ⟨-, -, last⟩ := contains
  have start := h.start
  have size := h.size
  have above := here.1
  rw [Address.number_page] at same
  omega

end Linked

end Image

theorem BootMemory.Addressable.base_lt (h : memory.Addressable) {p : PhysicalPage}
    (mem : p ∈ memory.pages) : p.base.toNat < upperEnd memory := by
  have lower := h.lower
  unfold upperEnd
  unfold AddressMap.upperMemoryStart
  rcases mem with low | ⟨-, high⟩
  · omega
  · exact high

theorem Kernel.bootStorage_eq_ok {range : Kernel.WordRange}
    (small : memory.totalFrames < 0x100000000)
    (slice : Kernel.bootStorage memory image = .ok range) :
    range.count = MapLayout.mapWords memory.totalFrames ∧ ∃ stop : VirtualAddress,
      stop.toNat = image.virtual.toNat + image.size ∧
        range.start = AddressMap.toPhysical stop.toNat := by
  obtain ⟨count, counted, slice⟩ := except_bind_eq_ok.1 slice
  obtain ⟨stop, last, slice⟩ := except_bind_eq_ok.1 slice
  rw [MapLayout.storageWords_eq small, Except.ok.injEq] at counted
  obtain rfl := Except.ok.inj slice
  exact ⟨counted.symm, stop, (Address.add_eq_ok.1 last).symm, rfl⟩

namespace AddressSpace
variable {s : AddressSpace} {m m' : Machine}

theorem Ready.writable {m₀ : Machine} {c : Processor} (h : s.Ready image frames m₀ m)
    (virtual : image.virtual.IsAligned) (physical : image.physical.IsAligned)
    (above : image.virtual.toNat ≤ v.toNat)
    (inside : v.toNat < image.virtual.toNat + frames * 4096) (data : ¬image.HasCode v.page)
    (active : c.directory = some s.root)
    (reaches : ∀ p, m.frames.stats.Manages p → c.Reaches p.base)
    {target : PhysicalAddress}
    (place : target.toNat + image.virtual.toNat = image.physical.toNat + v.toNat)
    (reached : c.Reaches target) :
    ∃ user, c.translate m.memory v = some ⟨target, true, user⟩ := by
  obtain ⟨page, frame, flags, here, there, maps, code⟩ :=
    h.pages ((v.toNat - image.virtual.toNat) / 4096) (by omega)
  have number := Page.add?_eq_some.1 here
  have number' := Page.add?_eq_some.1 there
  unfold Address.IsAligned at virtual physical
  simp only [Address.number_page] at number number'
  have same : page = v.page := by
    ext
    rw [Address.number_page]
    omega
  subst same
  have joined : frame.join v.offset = target := by
    ext
    rw [Page.toNat_join, Address.toNat_offset]
    omega
  obtain ⟨table, linked, -⟩ := links_of_mapping maps
  have walk := walk?_of_mapping maps (reaches _ h.sound.intact.rootHeld.1)
    fun d f linked => reaches f (h.sound.intact.table d f linked).held.1
  have leaf : flags.writable = true := Bool.eq_true_of_not_eq_false fun off => data (code.1 off)
  rw [h.links _ table linked, leaf, joined] at walk
  refine ⟨(s.link m.memory v.page.directorySlot).userAccess && flags.userAccess, ?_⟩
  rw [Processor.translate, active]
  simp only [walk]
  exact Option.filter_eq_some_iff.2 ⟨rfl, decide_eq_true reached⟩

/-- The words behind the image are mapped where they were, and writable, once the bootstrap has
succeeded. -/
structure ShowsWords (s : AddressSpace) (memory : BootMemory) (image : Image) (words : Nat)
    (m : Machine) : Prop where
  query : ∀ v ∈ image.wordsBehind words,
    s.query v m = .ok (some (AddressMap.toPhysical v.toNat)) m
  writable : ∀ v ∈ image.wordsBehind words, ∀ c : Processor, c.directory = some s.root →
    upperEnd memory ≤ c.memoryBytes → ∃ user,
      c.translate m.memory v = some ⟨AddressMap.toPhysical v.toNat, true, user⟩

theorem ready_of_bootstrap (linked : image.Linked) (addressable : memory.Addressable)
    (ready : FrameAllocator.setup memory image storage = .ok (.ok a)) (begun : m.frames = a)
    (text : image.Contains image.text) (initText : image.Contains image.initText)
    (ran : bootstrap image a.stats.kernel m = .ok (.ok s) m') :
    (∃ m₁, s.Ready image (kernelFrames memory image) m₁ m') ∧
      ∀ p, m'.frames.stats.Manages p → p.base.toNat < upperEnd memory := by
  subst begun
  have small := addressable.total_small
  obtain ⟨size, below⟩ := linked.reserved_below addressable
  have kernel : m.frames.stats.kernel = kernelFrames memory image :=
    (FrameAllocator.reserved_of_setup small size linked.physical_aligned below ready).counted
  obtain ⟨managing, managed, -, unused⟩ := FrameAllocator.managing_of_setup addressable ready
  rw [kernel] at ran
  have enough : image.size ≤ kernelFrames memory image * 4096 := by
    have whole := linked.frames_mul
    unfold kernelFrames
    omega
  obtain ⟨few, m₁, m₂, free, became, fresh, before, -, rfl⟩ := bootstrap_ready managing
    (fun p _ => unused p) (linked.within text enough) (linked.within initText enough) ran
  have apart : (Slot.first : Slot) ≠ image.virtual.page.directorySlot := by
    have place := linked.physical
    unfold AddressMap.kernelOffset at place
    intro same
    have number := congrArg Fin.val same
    simp only [Slot.first, Page.directorySlot, Address.number_page] at number
    omega
  have done := before.switched (d := image.virtual.page.directorySlot)
    (before.blank few rfl apart (by decide))
  have same := became.sameMemory.trans done.sameMemory
  refine ⟨⟨m₁, done⟩, fun p known => ?_⟩
  have mem : p ∈ memory.pages := managed ▸ same.manages.1 known
  exact addressable.base_lt mem

theorem showsWords_of_bootstrap (linked : image.Linked) (addressable : memory.Addressable)
    (ready : FrameAllocator.setup memory image storage = .ok (.ok a)) (begun : m.frames = a)
    (text : image.Contains image.text) (initText : image.Contains image.initText)
    (ran : bootstrap image a.stats.kernel m = .ok (.ok s) m') :
    s.ShowsWords memory image (MapLayout.mapWords memory.totalFrames) m' := by
  obtain ⟨⟨m₁, done⟩, inside⟩ :=
    ready_of_bootstrap linked addressable ready begun text initText ran
  obtain ⟨size, below⟩ := linked.reserved_below addressable
  have accepts := FrameAllocator.accepts_of_setup addressable.total_small size
    linked.physical_aligned below ready
  refine ⟨fun v here => ?_, fun v here c active reaches => ?_⟩
  all_goals
    obtain ⟨-, -, reached⟩ := linked.wordsBehind_reserved here
    have least := Image.le_of_mem_wordsBehind here
    have place := linked.toNat_toPhysical least
  · obtain ⟨v', p, there, target, found⟩ := done.query (o := v.toNat - image.virtual.toNat)
      linked.isAligned linked.physical_aligned (by omega)
    rw [Address.add_eq_ok] at there target
    obtain rfl : v' = v := Address.ext (by omega)
    obtain rfl : p = AddressMap.toPhysical v'.toNat := Address.ext (by omega)
    exact found
  · refine done.writable linked.isAligned linked.physical_aligned least (by omega) ?_ active ?_
      place (Nat.lt_of_lt_of_le reached (Nat.le_trans accepts.below reaches))
    · exact not_or.2 ⟨linked.not_meets text here, linked.not_meets initText here⟩
    · exact fun p known => Nat.lt_of_lt_of_le (inside p known) reaches

/-- The words of the maps lie in what is reserved and not in the image; nothing that is reserved is
handed out before it was given back; and the boot directory shows the words where they were. -/
theorem maps_kept_behind_image {text initText init : Nat × Nat} {range : Kernel.WordRange}
    {ram : PhysicalMemory} (aligned : start % 4096 = 0) (high : AddressMap.kernelOffset ≤ start)
    (below : stop < 0x100000000)
    (linked : Image.between start stop text initText init = .ok image)
    (addressable : memory.Addressable) (slice : Kernel.bootStorage memory image = .ok range)
    (room : image.virtual.toNat + image.size + range.count * 4 ≤ 0x100000000)
    (ready : FrameAllocator.setup memory image (range.load ram) = .ok (.ok a)) :
    ((∀ i < range.count * 4, ∃ v ∈ image.wordsBehind range.count,
        v.toNat = image.virtual.toNat + image.size + i ∧
        (AddressMap.toPhysical v.toNat).toNat = range.start.toNat + i) ∧
      (∀ v ∈ image.wordsBehind range.count,
        image.toPhysical v = .ok (AddressMap.toPhysical v.toNat) ∧
        AddressMap.toPhysical v.toNat ∉ image.bytes ∧
        AddressMap.toPhysical v.toNat ∈ image.reserved a.stats.kernel)) ∧
    (image.bytes ⊆ image.reserved a.stats.kernel ∧
      ∀ events b p c, Trace a events b →
        (∀ event ∈ events, ∀ q ∈ givenBack event, q.base ∉ image.reserved a.stats.kernel) →
        FrameAllocator.take b = .ok (.frame p) c →
        ∀ byte : PhysicalAddress, byte.page = p → byte ∉ image.reserved a.stats.kernel) ∧
    ∀ (m : Machine) (s : AddressSpace) (m' : Machine), m.frames = a →
      image.Contains image.text → image.Contains image.initText →
      bootstrap image a.stats.kernel m = .ok (.ok s) m' →
      s.ShowsWords memory image range.count m' := by
  have place := Image.linked_of_between aligned high below linked
  have small := addressable.total_small
  obtain ⟨size, limit⟩ := place.reserved_below addressable
  have kernel : a.stats.kernel = kernelFrames memory image :=
    (FrameAllocator.reserved_of_setup small size place.physical_aligned limit ready).counted
  obtain ⟨count, last, ends, begins⟩ := Kernel.bootStorage_eq_ok small slice
  have lastPlace := place.toNat_toPhysical (v := last) (by omega)
  refine ⟨⟨fun i inside => ?_, fun v here => ?_⟩, ⟨?_, ?_⟩, ?_⟩
  · let v : VirtualAddress := ⟨image.virtual.toNat + image.size + i, by omega⟩
    have at_v : v.toNat = image.virtual.toNat + image.size + i := rfl
    have vPlace := place.toNat_toPhysical (v := v) (by omega)
    refine ⟨v, ⟨by omega, by omega⟩, rfl, ?_⟩
    rw [begins]
    omega
  · rw [kernel]
    exact ⟨place.toPhysical_eq (Image.le_of_mem_wordsBehind here),
      place.wordsBehind_reserved (count ▸ here)⟩
  · rw [kernel]
    exact place.bytes_subset memory
  · rintro events b p c run kept taken byte rfl inside
    have pages : ∀ q, q ∈ FrameAllocator.regionPages image.physical
        (FrameAllocator.endOfFrames image.physical a.stats.kernel) ↔
        q.base ∈ image.reserved a.stats.kernel := by
      intro q
      rw [kernel]
      unfold FrameAllocator.regionPages Stats.InRegion
      rw [Set.mem_ofPred_eq, FrameAllocator.toNat_endOfFrames limit]
      rfl
    have base := place.base_reserved inside
    exact run.not_taken addressable ready ((pages _).2 base)
      (fun event mem gives => kept event mem _ gives base) taken
  · intro m s m' begun text initText ran
    rw [count]
    exact showsWords_of_bootstrap place addressable ready begun text initText ran

def linkedImage : Image :=
  { FrameAllocator.smallImage with
    text := ⟨FrameAllocator.smallImage.virtual, 8⟩
    initText := ⟨FrameAllocator.smallImage.virtual, 0⟩
    init := ⟨FrameAllocator.smallImage.virtual, 0⟩ }

theorem maps_kept_behind_image_small :
    ∃ (range : Kernel.WordRange) (a : FrameAllocator) (m : Machine) (s : AddressSpace)
      (m' : Machine),
      Image.between 0xC0100000 0xC0101000 (0xC0100000, 0xC0100008) (0xC0100000, 0xC0100000)
        (0xC0100000, 0xC0100000) = .ok linkedImage ∧
      Kernel.bootStorage ⟨8, 32⟩ linkedImage = .ok range ∧ range.count = 7 ∧
      FrameAllocator.setup ⟨8, 32⟩ linkedImage (range.load (.fresh 0)) = .ok (.ok a) ∧
      bootstrap linkedImage a.stats.kernel m = .ok (.ok s) m' ∧
      s.ShowsWords ⟨8, 32⟩ linkedImage range.count m' := by
  have linked : Image.between 0xC0100000 0xC0101000 (0xC0100000, 0xC0100008)
    (0xC0100000, 0xC0100000) (0xC0100000, 0xC0100000) = .ok linkedImage := rfl
  have addressable : BootMemory.Addressable ⟨8, 32⟩ := ⟨by decide, by decide⟩
  let range : Kernel.WordRange := ⟨⟨0x101000, by decide⟩, 7⟩
  have slice : Kernel.bootStorage ⟨8, 32⟩ linkedImage = .ok range := rfl
  have enough : MapLayout.mapWords (BootMemory.totalFrames ⟨8, 32⟩) ≤
      (range.load (.fresh 0)).size := by
    rw [Kernel.WordRange.load, Array.size_map, Array.size_range]
    decide
  rcases FrameAllocator.setup_cases addressable.total_small
    (by decide : linkedImage.size < 0x100000000) (by decide) (range.load (.fresh 0)) with
    ⟨refused, -⟩ | ⟨-, a, ready, -⟩
  · exact absurd ⟨by decide, enough, by decide, by decide, by decide⟩ refused
  · obtain ⟨-, -, boots⟩ := maps_kept_behind_image (by decide) (by decide) (by decide) linked
      addressable slice (by decide) ready
    have kernel : a.stats.kernel = 2 :=
      (FrameAllocator.reserved_of_setup addressable.total_small (by decide) (by decide)
        (by decide) ready).counted
    obtain ⟨managing, -, start, unused⟩ := FrameAllocator.managing_of_setup addressable ready
    let m : Machine := ⟨a, none, .fresh 0, .empty⟩
    have free : ∀ p : PhysicalPage, p.number < 2 → p ∈ m.frames.freePages := by
      intro p low
      have below : p.base.toNat < 2 * 4096 := by
        rw [Page.toNat_base]
        omega
      refine start.symm ▸ ⟨Or.inl below, fun reserved => ?_⟩
      have above : 0x100000 ≤ p.base.toNat := reserved.1
      omega
    have text : linkedImage.Contains linkedImage.text := ⟨by decide, by decide, by decide⟩
    have initText : linkedImage.Contains linkedImage.initText := ⟨by decide, by decide, by decide⟩
    have place := Image.linked_of_between (by decide) (by decide) (by decide) linked
    have succeeds : ∃ s m', bootstrap linkedImage a.stats.kernel m = .ok (.ok s) m' :=
      bootstrap_succeeds managing (fun p _ => unused p) rfl (by rw [kernel]; decide)
        (by decide) (by rw [kernel]; decide) (place.within text (by rw [kernel]; decide))
        (place.within initText (by rw [kernel]; decide))
        ⟨.first, free _ (by decide), ⟨1, by decide⟩, free _ (by decide), by decide⟩
    obtain ⟨s, m', ran⟩ := succeeds
    exact ⟨range, a, m, s, m', linked, slice, rfl, ready, ran,
      boots m s m' rfl text initText ran⟩

end AddressSpace
end Ia32Memory
