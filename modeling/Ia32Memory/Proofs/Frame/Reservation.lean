import Ia32Memory.Proofs.Frame.FreeSet

/-! Which reservations an allocator is set up with.
The kernel and the maps behind it are reserved from the start.  Where their end is below 4 GiB, a
set-up accepts them exactly when they lie in upper memory and the storage is large enough, and
names what is wrong otherwise.  The end is counted round at 4 GiB, though: a reservation that is
larger than the address space, whose end comes out small again, is accepted as well, and one that
ends with the last byte of it is refused. -/

namespace Ia32Memory

namespace MapLayout

def mapWords (frames : Nat) : Nat :=
  wordsFor frames + wordsFor (superframesFor frames) + (frames + 1) / 2

def mapFrames (frames : Nat) : Nat := framesFor (mapWords frames * 4)

variable {frames : Nat}

theorem mapWords_le (frames : Nat) : mapWords frames ≤ frames + 3 := by
  unfold mapWords wordsFor superframesFor
  omega

theorem mapFrames_le (frames : Nat) : mapFrames frames ≤ frames / 1024 + 2 := by
  have := mapWords_le frames
  unfold mapFrames framesFor
  omega

theorem mapWords_le_mapFrames (frames : Nat) : mapWords frames * 4 ≤ mapFrames frames * 4096 := by
  unfold mapFrames framesFor
  omega

theorem mapFrames_pos (some : 0 < frames) : 0 < mapFrames frames := by
  unfold mapFrames framesFor mapWords wordsFor
  omega

theorem words_forFrames (small : frames < 0x100000000) :
    (forFrames frames).words = .ok (mapWords frames) := by
  have all := mapWords_le frames
  have bound : frames + 3 < 1 <<< 64 :=
    Nat.lt_of_lt_of_le (m := 0x200000000) (by omega) (by decide)
  unfold mapWords at all
  simp only [words, forFrames]
  rw [fit_of_lt (by omega), except_ok_bind, fit_of_lt (by omega)]
  rfl

theorem storageWords_eq (small : frames < 0x100000000) :
    storageWords frames = .ok (mapWords frames) :=
  words_forFrames small

theorem frames_forFrames (small : frames < 0x100000000) :
    (forFrames frames).frames = .ok (mapFrames frames) := by
  have all := mapWords_le frames
  have bound : mapWords frames * 4 < 1 <<< 64 :=
    Nat.lt_of_lt_of_le (m := 0x1000000000) (by omega) (by decide)
  simp only [MapLayout.frames, bytes, words_forFrames small, except_ok_bind, fit_of_lt bound]
  rfl

end MapLayout

theorem BootMemory.Reported.total_small {m : BootMemory} (h : m.Reported) :
    m.totalFrames < 0x100000000 := by
  have := h.lower
  have := h.upper
  simp only [totalFrames, lowerFrames, upperFrames, kibFrames]
  omega

theorem BootMemory.Addressable.total_small {m : BootMemory} (h : m.Addressable) :
    m.totalFrames < 0x100000000 := by
  have lower := h.lower
  have upper := h.upper
  unfold AddressMap.upperMemoryStart at upper
  unfold totalFrames
  omega

namespace Stats
variable {s : Stats} {p : PhysicalPage} {i : Nat}

theorem frameIndex_upper (total : s.total = s.lower + s.upper) (low : 256 ≤ p.number)
    (high : p.number < 256 + s.upper) : s.frameIndex p = .ok (p.number - 256 + s.lower) := by
  unfold frameIndex firstUpperFrame
  rw [if_neg (by omega)]
  exact requireIndex_eq_ok.2 ⟨by omega, rfl⟩

theorem number_of_frameIndex (index : s.frameIndex p = .ok i) (upper : s.lower ≤ i) :
    256 ≤ p.number ∧ p.number - 256 + s.lower = i := by
  unfold frameIndex firstUpperFrame at index
  split at index
  · split at index
    · obtain ⟨-, rfl⟩ := requireIndex_eq_ok.1 index
      omega
    · exact nomatch index
  · obtain ⟨-, same⟩ := requireIndex_eq_ok.1 index
    exact ⟨by omega, same⟩

end Stats

namespace FrameAllocator
variable {memory : BootMemory} {image : Image} {storage spare : Words} {kernel first count : Nat}
  {a b : FrameAllocator} {start stop : PhysicalAddress}

/-- The frames that are reserved: those of the image and those of the maps behind it. -/
def kernelFrames (memory : BootMemory) (image : Image) : Nat :=
  image.frames + MapLayout.mapFrames memory.totalFrames

def upperEnd (memory : BootMemory) : Nat :=
  AddressMap.upperMemoryStart + memory.upperFrames * 4096

/-- A reservation up to `stop` can be made: there is memory, the storage holds its maps, and
upper memory holds the reservation. -/
structure Accepts (memory : BootMemory) (image : Image) (storage : Words) (stop : Nat) : Prop where
  reported : 0 < memory.totalFrames
  room : MapLayout.mapWords memory.totalFrames ≤ storage.size
  above : AddressMap.upperMemoryStart ≤ image.physical.toNat
  order : image.physical.toNat ≤ stop
  below : stop ≤ upperEnd memory

def refusal (memory : BootMemory) (image : Image) (storage : Words) : FrameSetupError :=
  if memory.totalFrames = 0 then .noMemory
  else if storage.size < MapLayout.mapWords memory.totalFrames then
    .storageTooSmall storage.size (MapLayout.mapWords memory.totalFrames)
  else .kernelOutsideUpperMemory image.physical
    (endOfFrames image.physical (kernelFrames memory image))

theorem total_lt_two_pow (small : memory.totalFrames < 0x100000000) :
    memory.totalFrames < 1 <<< 64 :=
  Nat.lt_of_lt_of_le small (by decide)

theorem kernelFrames_pos (some : 0 < memory.totalFrames) : 0 < kernelFrames memory image :=
  Nat.add_pos_right _ (MapLayout.mapFrames_pos some)

theorem kernelFrames_lt (small : memory.totalFrames < 0x100000000)
    (size : image.size < 0x100000000) : kernelFrames memory image < 1 <<< 64 := by
  have := MapLayout.mapFrames_le memory.totalFrames
  refine Nat.lt_of_lt_of_le (m := 0x200000000) ?_ (by decide)
  unfold kernelFrames Image.frames framesFor
  omega

theorem isAligned_endOfFrames (aligned : start.IsAligned) (n : Nat) :
    (endOfFrames start n).IsAligned := by
  unfold Address.IsAligned at *
  unfold endOfFrames
  rw [Address.toNat_truncate]
  omega

theorem setup_eq (small : memory.totalFrames < 0x100000000) (size : image.size < 0x100000000) :
    setup memory image storage =
      if memory.totalFrames = 0 then .ok (.error .noMemory)
      else if storage.size < MapLayout.mapWords memory.totalFrames then
        .ok (.error (.storageTooSmall storage.size (MapLayout.mapWords memory.totalFrames)))
      else if image.physical.toNat < AddressMap.upperMemoryStart ∨
          upperEnd memory < (endOfFrames image.physical (kernelFrames memory image)).toNat ∨
          endOfFrames image.physical (kernelFrames memory image) < image.physical then
        .ok (.error (.kernelOutsideUpperMemory image.physical
          (endOfFrames image.physical (kernelFrames memory image))))
      else match takeRegion image.physical (endOfFrames image.physical (kernelFrames memory image))
          (allFree memory (kernelFrames memory image)
            (storage.extract (MapLayout.mapWords memory.totalFrames) storage.size)) with
        | .ok _ a => .ok (.ok a)
        | .error f _ => .error f := by
  have counted : fit 64 (image.frames + MapLayout.mapFrames memory.totalFrames) =
      .ok (kernelFrames memory image) := fit_of_lt (kernelFrames_lt small size)
  unfold setup
  simp only [MapLayout.words_forFrames small, MapLayout.frames_forFrames small, counted,
    except_ok_bind]
  by_cases short : storage.size < MapLayout.mapWords memory.totalFrames
  · rw [if_pos short, if_pos short]
    rfl
  · rw [if_neg short, if_neg short,
      carve_eq (MapLayout.words_forFrames small) (Nat.le_of_not_lt short),
      fit_of_lt (total_lt_two_pow small)]
    rfl

theorem takeRegion_allFree (small : memory.totalFrames < 1 <<< 64) (kernel : Nat) (spare : Words)
    (aligned : start.IsAligned ∧ stop.IsAligned) (above : AddressMap.upperMemoryStart ≤ start.toNat)
    (order : start.toNat < stop.toNat) (below : stop.toNat ≤ upperEnd memory) :
    ∃ a, takeRegion start stop (allFree memory kernel spare) = .ok () a ∧
      Marked false (start.page.number - 256 + memory.lowerFrames) (Stats.pagesBetween start stop)
        (allFree memory kernel spare) a := by
  have fresh : Consistent (allFree memory kernel spare) := consistent_allFree small
  have last := Stats.number_lastPage stop
  have numbers : 256 ≤ start.page.number ∧ start.page.number < stop.page.number ∧
      stop.page.number ≤ 256 + memory.upperFrames := by
    obtain ⟨startAligned, stopAligned⟩ := aligned
    unfold Address.IsAligned at startAligned stopAligned
    unfold upperEnd AddressMap.upperMemoryStart at *
    simp only [Address.number_page]
    omega
  have hfirst := Stats.frameIndex_upper (s := (allFree memory kernel spare).stats)
    (p := start.page) rfl numbers.1 (by show _ < 256 + memory.upperFrames; omega)
  have hlast := Stats.frameIndex_upper (s := (allFree memory kernel spare).stats)
    (p := Stats.lastPage stop) rfl (by omega) (by show _ < 256 + memory.upperFrames; omega)
  have region := Stats.region_eq aligned order hfirst hlast
  have length : (Stats.lastPage stop).number - 256 + (allFree memory kernel spare).stats.lower -
      (start.page.number - 256 + (allFree memory kernel spare).stats.lower) + 1 =
        Stats.pagesBetween start stop := by
    unfold Stats.pagesBetween
    omega
  rw [if_pos length, length] at region
  obtain ⟨positive, inside⟩ := Stats.region_eq_some region
  refine takeRegion_of_all_free fresh region positive inside fun i _ hi => ?_
  rw [freeBit_allFree, decide_eq_true_eq]
  exact Nat.lt_of_lt_of_le hi inside

structure Reserved (a : FrameAllocator) (image : Image) (kernel : Nat) : Prop where
  counted : a.stats.kernel = kernel
  used : a.stats.used = kernel
  frames : ∀ p, isFree p a = .ok false a ↔
    image.physical.toNat ≤ p.base.toNat ∧
      p.base.toNat < image.physical.toNat + kernel * 4096
  counters : ∀ i, a.usage.count i = 0

theorem isFree_eq_false_iff (ha : Shaped a) (p : PhysicalPage) :
    isFree p a = .ok false a ↔ ∃ i, a.stats.frameIndex p = .ok i ∧ a.freeBit i = false := by
  cases index : a.stats.frameIndex p with
  | error f => simp [isFree, index]
  | ok i =>
    have inside : i < a.frames.capacity := by
      rw [ha.frameBits]
      exact Stats.lt_total_of_frameIndex index
    simp [isFree, index, Bitmap.get, Bitmap.requireBit_of_lt inside, freeBit]

theorem Marked.reserved (small : memory.totalFrames < 1 <<< 64)
    (aligned : image.physical.IsAligned)
    (above : AddressMap.upperMemoryStart ≤ image.physical.toNat)
    (below : image.physical.toNat + kernel * 4096 ≤ upperEnd memory)
    (h : Marked false (image.physical.page.number - 256 + memory.lowerFrames) kernel
      (allFree memory kernel spare) a) : Reserved a image kernel := by
  have fresh : Consistent (allFree memory kernel spare) := consistent_allFree small
  have fixed := h.sameMemory
  unfold SameMemory at fixed
  have all : (allFree memory kernel spare).stats.total = memory.totalFrames := rfl
  have total : a.stats.total = memory.totalFrames := by
    rw [fixed]
    rfl
  have lower : a.stats.lower = memory.lowerFrames := by
    rw [fixed]
    rfl
  have upper : a.stats.upper = memory.upperFrames := by
    rw [fixed]
    rfl
  have start : image.physical.toNat = image.physical.page.number * 4096 ∧
      256 ≤ image.physical.page.number ∧
      image.physical.page.number + kernel ≤ 256 + memory.upperFrames := by
    unfold Address.IsAligned at aligned
    unfold upperEnd AddressMap.upperMemoryStart at *
    rw [Address.number_page]
    omega
  have inside : image.physical.page.number - 256 + memory.lowerFrames + kernel ≤
      memory.totalFrames := by
    unfold BootMemory.totalFrames
    omega
  refine ⟨by rw [fixed]; rfl, ?_, fun p => ?_, fun i => ?_⟩
  · have counted := fresh.count_used (all ▸ inside) (fun i _ hi => by
      rw [freeBit_allFree, decide_eq_true_eq]
      exact Nat.lt_of_lt_of_le hi inside) h.bits
    have free : (allFree memory kernel spare).stats.free = memory.totalFrames := rfl
    rw [all, ← total, ← countSet_of_shaped h.consistent.toShaped, ← h.consistent.free, free,
      ← total, ← h.consistent.used] at counted
    exact (Nat.add_left_cancel counted).symm
  · rw [isFree_eq_false_iff h.consistent.toShaped, start.1, Page.toNat_base]
    constructor
    · rintro ⟨i, index, bit⟩
      have lt := Stats.lt_total_of_frameIndex index
      have taken : image.physical.page.number - 256 + memory.lowerFrames ≤ i ∧
          i < image.physical.page.number - 256 + memory.lowerFrames + kernel := by
        refine Classical.not_not.1 fun outside => ?_
        rw [h.bits, if_neg outside, freeBit_allFree, decide_eq_false_iff_not] at bit
        exact bit (total ▸ lt)
      have number := Stats.number_of_frameIndex index (by omega)
      omega
    · intro taken
      refine ⟨_, Stats.frameIndex_upper h.consistent.total (by omega) (by omega), ?_⟩
      rw [h.bits, if_pos (by omega)]
  · rw [h.usage]
    exact Counters.count_replicate_zero _ _

/-- A set-up never stops with a fault, and it is made exactly when the reservation up to the end
that is counted round at 4 GiB can be made. -/
theorem setup_cases (small : memory.totalFrames < 0x100000000)
    (size : image.size < 0x100000000) (aligned : image.physical.IsAligned) (storage : Words) :
    (¬Accepts memory image storage (endOfFrames image.physical (kernelFrames memory image)).toNat ∧
      setup memory image storage = .ok (.error (refusal memory image storage))) ∨
    (Accepts memory image storage (endOfFrames image.physical (kernelFrames memory image)).toNat ∧
      ∃ a, setup memory image storage = .ok (.ok a) ∧
        takeRegion image.physical (endOfFrames image.physical (kernelFrames memory image))
          (allFree memory (kernelFrames memory image)
            (storage.extract (MapLayout.mapWords memory.totalFrames) storage.size)) =
          .ok () a) := by
  rw [setup_eq small size]
  unfold refusal
  by_cases none : memory.totalFrames = 0
  · refine Or.inl ⟨fun h => absurd none (Nat.ne_of_gt h.reported), ?_⟩
    rw [if_pos none, if_pos none]
  · rw [if_neg none, if_neg none]
    by_cases short : storage.size < MapLayout.mapWords memory.totalFrames
    · refine Or.inl ⟨fun h => absurd h.room (Nat.not_le.2 short), ?_⟩
      rw [if_pos short, if_pos short]
    · rw [if_neg short, if_neg short]
      split
      · rename_i outside
        refine Or.inl ⟨fun h => ?_, rfl⟩
        rcases outside with low | high | turned
        · exact absurd h.above (Nat.not_le.2 low)
        · exact absurd h.below (Nat.not_le.2 high)
        · exact absurd h.order (Nat.not_le.2 turned)
      · rename_i inside
        simp only [not_or, Nat.not_lt] at inside
        obtain ⟨above, below, order⟩ := inside
        have order : image.physical.toNat ≤
          (endOfFrames image.physical (kernelFrames memory image)).toNat := Nat.not_lt.1 order
        refine Or.inr ⟨⟨Nat.pos_of_ne_zero none, Nat.not_lt.1 short, above, order, below⟩, ?_⟩
        rcases Nat.lt_or_eq_of_le order with lt | same
        · obtain ⟨a, taken, -⟩ := takeRegion_allFree (total_lt_two_pow small)
            (kernelFrames memory image)
            (storage.extract (MapLayout.mapWords memory.totalFrames) storage.size)
            ⟨aligned, isAligned_endOfFrames aligned _⟩ above lt below
          rw [taken]
          exact ⟨a, rfl, rfl⟩
        · rw [takeRegion_of_empty (Stats.region_of_empty
            ⟨aligned, isAligned_endOfFrames aligned _⟩ (Nat.le_of_eq same.symm))]
          exact ⟨_, rfl, rfl⟩

theorem toNat_endOfFrames {n : Nat} (below : start.toNat + n * 4096 < 0x100000000) :
    (endOfFrames start n).toNat = start.toNat + n * 4096 :=
  Nat.mod_eq_of_lt below

theorem accepts_of_setup (small : memory.totalFrames < 0x100000000)
    (size : image.size < 0x100000000) (aligned : image.physical.IsAligned)
    (below : image.physical.toNat + kernelFrames memory image * 4096 < 0x100000000)
    (ready : setup memory image storage = .ok (.ok a)) :
    Accepts memory image storage (image.physical.toNat + kernelFrames memory image * 4096) := by
  rcases setup_cases small size aligned storage with ⟨-, e⟩ | ⟨accepts, -⟩
  · cases e.symm.trans ready
  · rwa [toNat_endOfFrames below] at accepts

theorem reserved_of_setup (small : memory.totalFrames < 0x100000000)
    (size : image.size < 0x100000000) (aligned : image.physical.IsAligned)
    (below : image.physical.toNat + kernelFrames memory image * 4096 < 0x100000000)
    (ready : setup memory image storage = .ok (.ok a)) :
    Reserved a image (kernelFrames memory image) := by
  have stop := toNat_endOfFrames below
  rcases setup_cases small size aligned storage with ⟨-, e⟩ | ⟨accepts, b, e, taken⟩
  · cases e.symm.trans ready
  · cases e.symm.trans ready
    rw [stop] at accepts
    have some : 0 < kernelFrames memory image := kernelFrames_pos accepts.reported
    have stopAligned := isAligned_endOfFrames aligned (kernelFrames memory image)
    obtain ⟨c, taken', marked⟩ := takeRegion_allFree (total_lt_two_pow small)
      (kernelFrames memory image)
      (storage.extract (MapLayout.mapWords memory.totalFrames) storage.size)
      ⟨aligned, stopAligned⟩ accepts.above (by rw [stop]; omega)
      (by rw [stop]; exact accepts.below)
    cases taken'.symm.trans taken
    have length : Stats.pagesBetween image.physical
        (endOfFrames image.physical (kernelFrames memory image)) = kernelFrames memory image := by
      unfold Stats.pagesBetween
      unfold Address.IsAligned at aligned
      rw [Address.number_page, Address.number_page, stop]
      omega
    rw [length] at marked
    exact marked.reserved (total_lt_two_pow small) aligned accepts.above accepts.below

theorem Trace.not_taken (addressable : memory.Addressable)
    (ready : setup memory image storage = .ok (.ok a)) {events : List (Request × Answer)}
    (run : Trace a events b) {p : PhysicalPage}
    (reserved : p ∈ regionPages image.physical (endOfFrames image.physical a.stats.kernel))
    (kept : ∀ event ∈ events, p ∉ givenBack event) {c : FrameAllocator} :
    take b ≠ .ok (.frame p) c := by
  intro taken
  obtain ⟨ha, -, free, -⟩ := managing_of_setup addressable ready
  obtain ⟨hb, reached, -⟩ := run.follows ha
  have step : Request.run .take b = .ok (.taken (.frame p)) c := step_bind_ok taken _
  have now : p ∈ events.foldl freeAfter a.freePages := reached ▸ (hb.follows step).legal rfl
  have used : p ∉ a.freePages := by
    rw [free]
    exact fun start => start.2 reserved
  obtain ⟨event, mem, gives⟩ := exists_givenBack used now
  exact kept event mem gives

/-- A reservation whose end is below 4 GiB is accepted exactly when it can be made; what is
refused is answered with what is wrong, and after a success exactly the kernel is used. -/
theorem setup_accepts_exactly (reported : memory.Reported) (size : image.size < 0x100000000)
    (aligned : image.physical.IsAligned) (storage : Words)
    (below : image.physical.toNat + kernelFrames memory image * 4096 < 0x100000000) :
    (MapLayout.storageWords memory.totalFrames = .ok (MapLayout.mapWords memory.totalFrames) ∧
      (MapLayout.forFrames memory.totalFrames).frames =
        .ok (MapLayout.mapFrames memory.totalFrames)) ∧
    ((∃ a, setup memory image storage = .ok (.ok a)) ↔
      Accepts memory image storage
        (image.physical.toNat + kernelFrames memory image * 4096)) ∧
    (¬Accepts memory image storage (image.physical.toNat + kernelFrames memory image * 4096) →
      setup memory image storage = .ok (.error (refusal memory image storage))) ∧
    ∀ a, setup memory image storage = .ok (.ok a) →
      Reserved a image (kernelFrames memory image) := by
  have small := reported.total_small
  have cases := setup_cases small size aligned storage
  rw [toNat_endOfFrames below] at cases
  refine ⟨⟨MapLayout.storageWords_eq small, MapLayout.frames_forFrames small⟩, ?_, ?_,
    fun a ready => reserved_of_setup small size aligned below ready⟩
  · rcases cases with ⟨refused, e⟩ | ⟨accepts, a, e, -⟩
    · exact iff_of_false (fun ⟨a, ready⟩ => nomatch e.symm.trans ready) refused
    · exact iff_of_true ⟨a, e⟩ accepts
  · intro refused
    rcases cases with ⟨-, e⟩ | ⟨accepts, -⟩
    · exact e
    · exact absurd accepts refused

theorem setup_accepts_exactly_small :
    ∃ a, setup ⟨8, 32⟩ smallImage (Array.replicate 7 0) = .ok (.ok a) ∧
      Reserved a smallImage (kernelFrames ⟨8, 32⟩ smallImage) ∧
      kernelFrames ⟨8, 32⟩ smallImage = 2 := by
  obtain ⟨-, accepted, -, reserved⟩ := setup_accepts_exactly
    (⟨by decide, by decide⟩ : BootMemory.Reported ⟨8, 32⟩)
    (by decide : smallImage.size < 0x100000000) (by decide) (Array.replicate 7 0) (by decide)
  obtain ⟨a, ready⟩ := accepted.2 ⟨by decide, by decide, by decide, by decide, by decide⟩
  exact ⟨a, ready, reserved a ready, by decide⟩

def wideImage : Image := { smallImage with size := 0xFFFFFFFF }

/-- The end of the widest image comes out just behind its start, where upper memory has room for
it: it is accepted with one frame used, though its end, counted without a bound, lies far outside
memory. -/
theorem accepts_wide_image :
    ¬Accepts ⟨8, 32⟩ wideImage (Array.replicate 7 0)
        (wideImage.physical.toNat + kernelFrames ⟨8, 32⟩ wideImage * 4096) ∧
      ∃ a, setup ⟨8, 32⟩ wideImage (Array.replicate 7 0) = .ok (.ok a) ∧
        a.stats.used = 1 ∧ a.stats.kernel = kernelFrames ⟨8, 32⟩ wideImage ∧
        kernelFrames ⟨8, 32⟩ wideImage = 0x100001 := by
  refine ⟨fun h => absurd h.below (by decide), ?_⟩
  have counts : ((setup ⟨8, 32⟩ wideImage (Array.replicate 7 0)).toOption.bind
      Except.toOption).map (fun a => (a.stats.used, a.stats.kernel)) = some (1, 0x100001) := by
    decide +kernel
  rcases setup_cases (by decide : BootMemory.totalFrames ⟨8, 32⟩ < 0x100000000)
    (by decide : wideImage.size < 0x100000000) (by decide) (Array.replicate 7 0) with
    ⟨refused, -⟩ | ⟨-, a, ready, -⟩
  · exact absurd ⟨by decide, by decide, by decide, by decide, by decide⟩ refused
  · rw [ready] at counts
    obtain ⟨used, kernel⟩ := Prod.mk.inj (Option.some.inj counts)
    exact ⟨a, ready, used, kernel, by decide⟩

/-- A reservation that ends with the address space is refused, however much memory there is. -/
theorem setup_refuses_last (small : memory.totalFrames < 0x100000000)
    (size : image.size < 0x100000000) (aligned : image.physical.IsAligned) (storage : Words)
    (last : image.physical.toNat + kernelFrames memory image * 4096 = 0x100000000) :
    setup memory image storage = .ok (.error (refusal memory image storage)) := by
  have stop : (endOfFrames image.physical (kernelFrames memory image)).toNat = 0 := by
    rw [endOfFrames, Address.toNat_truncate, last]
  rcases setup_cases small size aligned storage with ⟨-, e⟩ | ⟨accepts, -⟩
  · exact e
  · have above := accepts.above
    have order := accepts.order
    unfold AddressMap.upperMemoryStart at above
    omega

end FrameAllocator
end Ia32Memory
