import Ia32Memory.Kernel.Access
import Ia32Memory.Proofs.Kernel.Healthy
import Ia32Memory.Proofs.Machine.Filling
import Ia32Memory.Proofs.Machine.Teardown

/-! The self check at the end of boot.
It maps four pages, looks at the first of them and writes to it, unmaps them and compares the counts
of frames.  On a kernel that is in order nothing of that goes wrong.  If frames are lacking the
pages are refused, which changes nothing.  Otherwise the first page shows a frame that was filled
with zeros, and may be written, for tables are linked writable.  The word that is written there is
in no table, so the pages can be given back all the same, and then each word that counts is what it
was. -/

namespace Ia32Memory

theorem Critical.Bracketed.takesFree {L σ ε α : Type} [DecidableEq L] {rank : L → Nat}
    {p : Critical L σ ε α} {off : Bool} {held : List L} {c : Core L σ}
    (bracketed : p.Bracketed rank off held) (there : c.held = held) : p.TakesFree c := by
  induction p generalizing c off held with
  | done a => trivial
  | step touches body => trivial
  | andThen first next ihFirst ihNext =>
    have free := ihFirst bracketed.1 there
    refine ⟨free, fun b c' ran => ihNext b (bracketed.2 b) ?_⟩
    have balanced := free.plays.balanced
    rw [ran] at balanced
    exact balanced.held.trans there
  | masked body ih => exact ih bracketed there
  | locked l body ih =>
    obtain ⟨-, above, inside⟩ := bracketed
    refine ⟨fun again => ?_, ih inside (congrArg _ there)⟩
    rw [there] at again
    exact Nat.lt_irrefl _ (above l again)

namespace AddressSpace
open FrameAllocator (Confined)

variable {s : AddressSpace} {m m' m'' : Machine} {own : Set VirtualPage} {joins : Prop} {d : Slot}
  {n : Nat} {f : PhysicalPage} {flags : Entry} {page : VirtualPage} {done : List VirtualPage}
  {start stop : VirtualAddress} {wanted : VirtualPage → PhysicalPage × Entry → Prop}

theorem Sound.elsewhere_put (h : s.Sound m own) (apart : s.Apart m f n) (t : Slot) (e : Entry) :
    s.Elsewhere m own { m with memory := m.memory.put f t e } := by
  refine ⟨⟨h.intact.frames, h.intact.fresh, .refl _, fun _ _ held => held, fun _ _ _ => rfl,
    fun g structural => ?_⟩, fun p mem g leads => ?_⟩
  · refine (PhysicalMemory.frame_put ..).trans (if_neg ?_)
    rintro rfl
    rcases structural with root | ⟨d, linked⟩
    · exact apart.notRoot root
    · exact apart.notTable d linked
  · obtain ⟨g', leads', apart'⟩ := h.owned p mem
    cases leads.symm.trans leads'
    exact ⟨apart'.held, rfl⟩

theorem Placed.elsewhere (h : s.Placed m own joins wanted done m')
    (others : s.Elsewhere m' (gained own joins done) m'') (frames : m''.frames = m'.frames) :
    s.Placed m own joins wanted done m'' := by
  have mapping := others.undisturbed.mapping
  have grows : s.Grows ∅ m' m'' := (grows_of_same frames others.undisturbed.link).1
  exact h.trans ⟨h.sound.elsewhere others, mapping, others.undisturbed.sameMemory⟩
    (grows.advances fun p _ => by rw [mapping])

theorem Sound.zeros_of_mapRange (h : s.Sound m own)
    (ran : s.mapRange start stop flags m = .ok (.ok ()) m')
    (mem : page ∈ Page.between start.page stop.page) :
    ∃ f, s.mapping m'.memory page = some (f, flags.leafFlags) ∧
      m'.memory.frame f = EntryTable.zero ∧ s.Apart m' f 1 := by
  have placed := (h.mapRange_cases start stop flags).granted ran
  obtain ⟨⟨f, kept⟩, maps, same⟩ := placed.placed page mem
  obtain rfl : kept = flags.leafFlags := same
  have leads : frameOf (s.mapping m'.memory) page = some f := congrArg (Option.map Prod.fst) maps
  obtain ⟨f', leads', apart⟩ := placed.sound.owned page (Or.inr ⟨trivial, mem⟩)
  cases leads.symm.trans leads'
  exact ⟨f, maps, h.zeroed_of_mapRange ran page mem f leads, apart⟩

/-- Pages that own their frames are given back as a range, and the words are what they were. -/
theorem Placed.given_back
    (placed : s.Placed m ∅ True wanted (Page.between start.page stop.page) m')
    (h : s.Intact m none) (aligned : start.IsAligned ∧ stop.IsAligned) (order : start ≤ stop)
    (confined : Confined m.frames m'.frames) :
    ∃ m'', s.unmapRange start stop m' = .ok (.ok ()) m'' ∧ s.Unchanged m m'' := by
  obtain ⟨m'', freed, restored⟩ := placed.freed h.sound (Page.nodup_between _ _)
  have back := kept_confined.forM (kept_confined.freePage s) _ m' _ m'' freed confined.managing
  exact ⟨m'', unmapRange_of_pages (rangePages_of_le aligned order) freed,
    restored.unchanged h (confined.trans back)⟩

end AddressSpace

namespace Kernel
open AddressSpace

variable {α : Type} {k : Kernel} {root f : PhysicalPage} {memory : KernelMemory} {m m' : Machine}
  {a : VirtualAddress} {flags : Entry} {flag : Bool} {held : List Lock}

theorem Healthy.plain_stats (h : k.Healthy root memory) :
    stats.plain flag held k = .ok (some memory.frames.stats) k := by
  show EStateM.Result.ok (k.owned.map fun owned => owned.frames.stats) k = _
  rw [h.owned]
  rfl

theorem Healthy.plain_onward {run : AddressSpace → Paging α} {x : α} (h : k.Healthy root memory)
    (ran : run (k.spaceUnder root) ⟨m.frames, none, m.memory, m.record⟩ = .ok x m') :
    (withSpace run).plain flag held (k.withMachine memory m) = .ok x (k.withMachine memory m') := by
  have active : (k.withMachine memory m).root = some root := h.active
  have ended : (withSpace run).plain flag held (k.withMachine memory m) =
      .ok x ((k.withMachine memory m).withMachine ⟨m.frames, memory.image⟩ m') :=
    plain_withSpace active rfl ran
  exact ended

theorem place_base (f : PhysicalPage) :
    PhysicalMemory.place (f.base.toNat / 4) = (f, Slot.first) := by
  have small := f.isLt
  have word : f.base.toNat / 4 = 1024 * f.number := by
    rw [Page.toNat_base]
    omega
  refine Prod.ext (Page.ext ?_) (Fin.ext ?_)
  · show (Page.truncate (f.base.toNat / 4 / 1024) : PhysicalPage).number = f.number
    rw [word, Nat.mul_div_cancel_left _ (by decide), Page.number_truncate small]
  · show f.base.toNat / 4 % 1024 = 0
    rw [word, Nat.mul_mod_right]

theorem Healthy.translate (h : k.Healthy root memory) (aligned : a.IsAligned)
    (maps : (k.spaceUnder root).mapping k.ram a.page = some (f, flags))
    (managed : memory.frames.stats.Manages f) :
    ∃ t, k.translate a = some t ∧ t.address = f.base ∧
      t.writable = (((k.spaceUnder root).link k.ram a.page.directorySlot).writable &&
        flags.writable) := by
  obtain ⟨active, reaches⟩ := h.directory
  have walk := walk?_of_mapping maps (reaches _ h.intact.rootHeld.1)
    fun d g linked => reaches g (h.intact.table d g linked).held.1
  have start : f.join a.offset = f.base := by
    ext
    rw [Page.toNat_join, Page.toNat_base, Address.toNat_offset, aligned, Nat.add_zero]
  rw [start] at walk
  refine ⟨_, Eq.trans ?_ walk, rfl, rfl⟩
  rw [Kernel.translate, Processor.translate, active]
  show (k.processor.walk? k.ram (k.spaceUnder root).root a).filter _ = _
  rw [walk]
  exact Option.filter_eq_some_iff.2 ⟨rfl, decide_eq_true (reaches f managed)⟩

section Word
variable {t : Translation} (aligned : a.IsAligned) (found : k.translate a = some t)
  (start : t.address = f.base)
include aligned found

theorem translateWord_of_aligned : a.toNat % 4 = 0 ∧ k.translateWord a = some (t, t) := by
  have word : a.toNat % 4 = 0 := by
    unfold Address.IsAligned at aligned
    omega
  exact ⟨word, by simp [translateWord, found, word]⟩

include start

theorem readWord_of_aligned : readWord a k = .ok (k.ram.word f .first) k := by
  obtain ⟨word, whole⟩ := translateWord_of_aligned aligned found
  have read : k.read? a = some (k.ram.word f .first) := by
    simp only [read?, whole, Option.map_some, start, word, PhysicalMemory.loadAcross, if_true,
      PhysicalMemory.wordAt, place_base]
  rw [readWord, step_get_bind, read]
  rfl

theorem writeWord_of_aligned (writable : t.writable = true) (w : Word) :
    writeWord a w k = .ok () { k with ram := k.ram.put f .first w } := by
  obtain ⟨word, whole⟩ := translateWord_of_aligned aligned found
  have written : k.write? a w = some { k with ram := k.ram.put f .first w } := by
    rw [write?, whole]
    simp only [Option.bind_eq_bind, Option.bind_some, start, word, writable, Bool.and_self, if_true,
      PhysicalMemory.storeAcross, PhysicalMemory.putAt, place_base]
  rw [writeWord, step_get_bind, written]
  rfl

end Word

def scratchStop : VirtualAddress :=
  Address.truncate (AddressMap.scratchStart.toNat + AddressMap.scratchPages * 4096)

def scratchRow : List VirtualPage := Page.between AddressMap.scratchStart.page scratchStop.page

example : scratchRow.map Page.number = [0xD0000, 0xD0001, 0xD0002, 0xD0003] := by decide

def touchScratch : Step Unit := do
  let w ← readWord AddressMap.scratchStart
  if w ≠ 0 then throw (.scratchNotZero w.toNat)
  writeWord AddressMap.scratchStart scratchWord

def compareStats (before : Option Stats) : Call Unit := do
  let after ← stats
  if after ≠ before then .touch [] (throw (.scratchLeaked after before))

theorem bracketed_compareStats (before : Option Stats) :
    (compareStats before).Bracketed Lock.rank false [] := by
  refine ⟨bracketed_onMemory _, fun after => ?_⟩
  dsimp only
  split
  · exact List.nil_subset _
  · trivial

theorem plain_compareStats (same : m.frames = memory.frames) :
    (compareStats (some memory.frames.stats)).plain flag held (k.withMachine memory m) =
      .ok () (k.withMachine memory m) := by
  have counted : stats.plain flag held (k.withMachine memory m) =
      .ok (some memory.frames.stats) (k.withMachine memory m) := by
    rw [← same]
    rfl
  refine (Critical.plain_andThen_ok counted).trans ?_
  rw [if_neg (not_not_intro rfl)]
  rfl

theorem bracketed_checkMappings (boot : BootMemory) :
    (checkMappings boot).Bracketed Lock.rank false [] := by
  refine ⟨bracketed_onMemory _, fun before => ⟨bracketed_withSpace _, fun mapped => ?_⟩⟩
  cases mapped with
  | error e => exact List.nil_subset _
  | ok _ =>
    refine ⟨List.nil_subset _, fun _ => ⟨bracketed_withSpace _, fun target =>
      ⟨List.nil_subset _, fun _ => ⟨bracketed_withSpace _, fun gone => ?_⟩⟩⟩⟩
    cases gone with
    | error e => exact ⟨List.nil_subset _, fun _ => bracketed_compareStats before⟩
    | ok _ => exact bracketed_compareStats before

/-- The active directory is the same, the allocator is, and the words of the directory and of the
tables that it links are what they were. -/
structure LeftAsWas (k : Kernel) (root : PhysicalPage) (k' : Kernel) : Prop where
  active : k'.root = k.root
  paging : k'.paging = k.paging
  ramBytes : k'.ramBytes = k.ramBytes
  owned : k'.owned = k.owned
  directory : k'.ram.frame root = k.ram.frame root
  tables : ∀ d f, (k.spaceUnder root).Links k.ram d f → k'.ram.frame f = k.ram.frame f

theorem Healthy.leftAsWas (h : k.Healthy root memory)
    (unchanged : (k.spaceUnder root).Unchanged (k.machine memory) m) (record : Record) :
    k.LeftAsWas root { k.withMachine memory m with record } where
  active := rfl
  paging := rfl
  ramBytes := rfl
  owned := by
    show some (KernelMemory.mk m.frames memory.image) = k.owned
    rw [unchanged.frames, h.owned]
    rfl
  directory := unchanged.directory
  tables := unchanged.tables

theorem Healthy.touchScratch (h : k.Healthy root memory)
    (ran : (k.spaceUnder root).mapRange AddressMap.scratchStart scratchStop Entry.kernelReadWrite
      (k.machine memory) = .ok (.ok ()) m) :
    ∃ m', touchScratch (k.withMachine memory m) = .ok () (k.withMachine memory m') ∧
      (k.spaceUnder root).Placed (k.machine memory) ∅ True (anonymous Entry.kernelReadWrite)
        scratchRow m' ∧ m'.frames = m.frames := by
  have sound := h.intact.sound
  have placed := (sound.mapRange_cases _ _ _).granted ran
  obtain ⟨f, maps, zeros, apart⟩ :=
    sound.zeros_of_mapRange ran (by decide : AddressMap.scratchStart.page ∈ scratchRow)
  obtain ⟨table, linked, -⟩ := links_of_mapping maps
  have healthy : (k.withMachine memory m).Healthy root ⟨m.frames, memory.image⟩ :=
    ⟨rfl, (placed.quiet (Paging.quiet_unmetered m)).sound.intact, h.links.of_mapRange sound ran⟩
  have aligned : AddressMap.scratchStart.IsAligned := by decide
  obtain ⟨t, found, start, may⟩ := healthy.translate aligned maps apart.held.1
  have zero : (k.withMachine memory m).ram.word f .first = 0 :=
    (congrArg (EntryTable.entry · Slot.first) zeros).trans (EntryTable.entry_zero _)
  have all : t.writable = true := by
    refine may.trans (Bool.and_eq_true_iff.2 ⟨?_, Entry.writable_leafFlags.trans (by decide)⟩)
    exact healthy.links _ table linked
  refine ⟨{ m with memory := m.memory.put f .first scratchWord }, ?_, ?_, rfl⟩
  · refine (step_bind_ok (readWord_of_aligned aligned found start) _).trans ?_
    rw [zero]
    exact writeWord_of_aligned aligned found start all scratchWord
  · exact placed.elsewhere (placed.sound.elsewhere_put apart _ _) rfl

theorem Healthy.plain_of_granted (h : k.Healthy root memory)
    (ran : (k.spaceUnder root).mapRange AddressMap.scratchStart scratchStop Entry.kernelReadWrite
      (k.machine memory) = .ok (.ok ()) m) (boot : BootMemory) :
    ∃ k', (checkMappings boot).plain flag held k = .ok () k' ∧ k.LeftAsWas root k' := by
  obtain ⟨m₁, touched, placed, frames⟩ := h.touchScratch ran
  have confined := kept_confined.mapRange (k.spaceUnder root) _ _ _ _ _ m ran h.intact.frames
  rw [← frames] at confined
  have mapped : (mapRange AddressMap.scratchStart scratchStop Entry.kernelReadWrite).plain flag
      held k = .ok (.ok ()) (k.withMachine memory m) := plain_withSpace h.active h.owned ran
  have wrote : (.touch [] Kernel.touchScratch : Call Unit).plain flag held
      (k.withMachine memory m) = .ok () (k.withMachine memory m₁) := touched
  have ordinary : AddressMap.scratchStart.page.directorySlot ≠ .recursive := by decide
  have found := (placed.quiet (Paging.quiet_unmetered m₁)).sound.actsAsMap.query
    AddressMap.scratchStart ordinary
  have asked : (query AddressMap.scratchStart).plain flag held (k.withMachine memory m₁) =
      .ok _ (k.withMachine memory ⟨m₁.frames, none, m₁.memory, m₁.record⟩) := h.plain_onward found
  -- Whatever is said in between, the pages are given back.
  have released : ∀ message, ∃ m', (unmapRange AddressMap.scratchStart scratchStop).plain flag held
      (k.withMachine memory (m₁.said .info message)) = .ok (.ok ()) (k.withMachine memory m') ∧
      (k.spaceUnder root).Unchanged (k.machine memory) m' := by
    intro message
    have said : Paging.Quiet m₁ ⟨m₁.frames, none, m₁.memory, m₁.record.say .info message⟩ :=
      ⟨rfl, rfl, rfl⟩
    obtain ⟨m', gone, unchanged⟩ :=
      (placed.quiet said).given_back h.intact (by decide) (by decide) confined
    exact ⟨m', h.plain_onward gone, unchanged⟩
  choose left gone unchanged using released
  refine ⟨_, (Critical.plain_andThen_ok h.plain_stats).trans
    ((Critical.plain_andThen_ok mapped).trans ((Critical.plain_andThen_ok wrote).trans
    ((Critical.plain_andThen_ok asked).trans ((Critical.plain_andThen_ok rfl).trans
    ((Critical.plain_andThen_ok (gone _)).trans (plain_compareStats (unchanged _).frames)))))),
    h.leftAsWas (unchanged _) _⟩

theorem Healthy.plain_checkMappings (h : k.Healthy root memory)
    (unmapped : ∀ p ∈ scratchRow, (k.spaceUnder root).mapping k.ram p = none)
    (boot : BootMemory) (flag : Bool) (held : List Lock) :
    ∃ k', (checkMappings boot).plain flag held k = .ok () k' ∧ k.LeftAsWas root k' := by
  rcases h.intact.sound.mapRange_cases AddressMap.scratchStart scratchStop Entry.kernelReadWrite
    with ⟨crooked | ⟨p, mem, mapped⟩, -⟩ | ⟨e, m, ran, -⟩ | ⟨m, ran, -⟩
  · exact absurd (by decide) crooked
  · exact absurd (unmapped p mem) mapped
  · have refused : (mapRange AddressMap.scratchStart scratchStop Entry.kernelReadWrite).plain flag
        held k = .ok (.error e) (k.withMachine memory m) := plain_withSpace h.active h.owned ran
    refine ⟨_, (Critical.plain_andThen_ok h.plain_stats).trans
      ((Critical.plain_andThen_ok refused).trans rfl), ?_⟩
    exact h.leftAsWas (h.intact.unchanged_of_mapRange ran) _
  · exact h.plain_of_granted ran boot

/-- After boot, and whatever was called with care since then, the check finds nothing wrong. -/
theorem plain_checkMappings_of_boot {boot : BootMemory} {image : Image} {storage : WordRange}
    {stats : Stats} {k₁ k₂ k₃ : Kernel} {own : Set VirtualPage} (addressable : boot.Addressable)
    (backed : FrameAllocator.upperEnd boot ≤ k.ramBytes) (linked : image.Linked)
    (text : image.Contains image.text) (initText : image.Contains image.initText)
    (framed : (initFrames boot image storage).plain flag held k = .ok (.ok stats) k₁)
    (paged : initPaging.plain flag held k₁ = .ok (.ok root) k₂)
    (serves : Serves root k₂ ∅ k₃ own)
    (unmapped : ∀ p ∈ scratchRow, (k₃.spaceUnder root).mapping k₃.ram p = none) :
    ∃ k', (checkMappings boot).plain flag held k₃ = .ok () k' ∧ k₃.LeftAsWas root k' := by
  obtain ⟨memory, booted⟩ :=
    healthy_of_boot addressable backed linked text initText framed paged
  obtain ⟨memory', healthy⟩ := healthy_of_serves booted serves
  exact healthy.plain_checkMappings unmapped boot flag held

/-- Where the allocator and the tables are in order and the four scratch pages are not mapped the
self check returns, however many frames are free, and leaves all of that as it was. -/
theorem selfCheck_passes (boot : BootMemory) (c : Core Lock Kernel) (free : c.held = [])
    (healthy : c.value.Healthy root memory)
    (unmapped : ∀ p ∈ scratchRow, (c.value.spaceUnder root).mapping c.value.ram p = none) :
    ∃ c', (checkMappings boot).run id c = (.returned (), c') ∧ c'.held = [] ∧
      c'.interrupts = c.interrupts ∧ c.value.LeftAsWas root c'.value := by
  obtain ⟨ended, balanced⟩ := ((bracketed_checkMappings boot).takesFree free).plays
  obtain ⟨k', passes, left⟩ := healthy.plain_checkMappings unmapped boot c.interrupts c.held
  rw [passes] at ended
  generalize (checkMappings boot).run id c = ran at ended balanced
  rcases ran with ⟨a | e | -, c'⟩
  · cases ended
    exact ⟨c', rfl, balanced.held.trans free, balanced.interrupts, left⟩
  · exact nomatch ended
  · exact nomatch ended

theorem selfCheck_passes_small :
    ∃ (c c' : Core Lock Kernel) (memory : KernelMemory), c.held = [] ∧
      c.value.Healthy .first memory ∧ memory.frames.stats.free = 7 ∧
      (checkMappings ⟨8, 32⟩).run id c = (.returned (), c') ∧ c'.held = [] ∧
      c.value.LeftAsWas .first c'.value := by
  obtain ⟨a, m, ready, used, fresh, -, -, -, free⟩ := exists_fresh
  obtain ⟨ha, -⟩ := FrameAllocator.managing_of_setup ⟨by decide, by decide⟩ ready
  obtain ⟨frames, -, -⟩ := used.follows ha
  let memory : KernelMemory := ⟨m.frames, FrameAllocator.smallImage⟩
  let k : Kernel := ⟨some .first, true, some memory, 0x100000000, m.memory, m.record⟩
  have reaches : ∀ p : PhysicalPage, k.processor.Reaches p.base := fun p => p.base.isLt
  have virtual : (k.spaceUnder .first).Fresh (k.machine memory) :=
    ⟨fresh.fresh, Or.inr ⟨k.processor, rfl, rfl, fun p _ => reaches p⟩, fresh.rootHeld,
      ⟨fresh.loop.present, fresh.loop.frame, fresh.loop.small⟩, fresh.blank⟩
  have healthy : k.Healthy .first memory :=
    ⟨rfl, (virtual.sound frames).intact, virtual.linksWritable⟩
  obtain ⟨c', ran, free', -, left⟩ := selfCheck_passes ⟨8, 32⟩ (.start k) rfl healthy
    fun p _ => virtual.mapping p
  exact ⟨.start k, c', memory, rfl, healthy, free, ran, free', left⟩

end Kernel
end Ia32Memory
