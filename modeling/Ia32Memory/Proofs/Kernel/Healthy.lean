import Ia32Memory.Proofs.Kernel.Calls
import Ia32Memory.Proofs.Lock.Nesting
import Ia32Memory.Proofs.Machine.Layout
import Ia32Memory.Proofs.Machine.Sharing

/-! A kernel that is in order, and what keeps it so.
Once the frames are set up and paging is on, the active directory is intact and links its tables
writable.  None of the calls protects the window of a table, so the links stay as they are.  What
else a caller has to see to is that only frames that a call has given are given back, whether
through their pages or by themselves; then the kernel is in order after every call. -/

namespace Ia32Memory

/-- A directory that is intact as physical memory shows it is so for a processor that runs under it
and reaches all frames. -/
theorem AddressSpace.Intact.under {root : PhysicalPage} {m : Machine} {c : Processor}
    (h : (AddressSpace.ofRoot root).Intact m none) (active : c.directory = some root)
    (reaches : ∀ p, m.frames.stats.Manages p → c.Reaches p.base) :
    AddressSpace.Intact ⟨root, .virtual c⟩ m none where
  frames := h.frames
  fresh := h.fresh
  sees := Or.inr ⟨c, rfl, active, reaches⟩
  rootHeld := h.rootHeld
  loop := ⟨h.loop.present, h.loop.frame, h.loop.small⟩
  small d f linked := h.small d f ⟨linked.ordinary, linked.present, linked.frame⟩
  notRoot d f linked := h.notRoot d f ⟨linked.ordinary, linked.present, linked.frame⟩
  unique d e f linked linked' := h.unique d e f ⟨linked.ordinary, linked.present, linked.frame⟩
    ⟨linked'.ordinary, linked'.present, linked'.frame⟩
  table d f linked := h.table d f ⟨linked.ordinary, linked.present, linked.frame⟩
  blank := h.blank

namespace Kernel
open AddressSpace

variable {α : Type} {k k' : Kernel} {root f : PhysicalPage} {memory : KernelMemory} {m : Machine}
  {own : Set VirtualPage} {flag : Bool} {held : List Lock}

def machine (k : Kernel) (memory : KernelMemory) : Machine :=
  ⟨memory.frames, none, k.ram, k.record⟩

def withMachine (k : Kernel) (memory : KernelMemory) (m : Machine) : Kernel :=
  { k with owned := some ⟨m.frames, memory.image⟩, ram := m.memory, record := m.record }

/-- The frames are set up and the active directory is in order, as its processor sees it, with all
tables linked writable. -/
structure Healthy (k : Kernel) (root : PhysicalPage) (memory : KernelMemory) : Prop where
  owned : k.owned = some memory
  intact : (k.spaceUnder root).Intact (k.machine memory) none
  links : (k.spaceUnder root).LinksWritable k.ram

theorem onMachine_eq_ok {run : Paging α} {x : α} (owned : k.owned = some memory) :
    onMachine run k = .ok x k' ↔
      ∃ m, run (k.machine memory) = .ok x m ∧ k' = k.withMachine memory m := by
  obtain ⟨active, paging, _, ramBytes, ram, record⟩ := k
  cases owned
  unfold onMachine machine
  cases outcome : run ⟨memory.frames, none, ram, record⟩ with
  | ok a m =>
    simp only [outcome, EStateM.Result.ok.injEq]
    constructor
    · rintro ⟨rfl, rfl⟩
      exact ⟨m, ⟨rfl, rfl⟩, rfl⟩
    · rintro ⟨m', ⟨rfl, rfl⟩, rfl⟩
      exact ⟨rfl, rfl⟩
  | error fault m => simp [outcome]

theorem plain_withSpace_eq_ok {run : AddressSpace → Paging α} {x : α} (active : k.root = some root)
    (owned : k.owned = some memory) :
    (withSpace run).plain flag held k = .ok x k' ↔
      ∃ m, run (k.spaceUnder root) (k.machine memory) = .ok x m ∧ k' = k.withMachine memory m := by
  have found : requireSpace k = .ok (k.spaceUnder root) k := by
    rw [requireSpace, step_get_bind, active]
    rfl
  rw [← onMachine_eq_ok owned]
  exact iff_of_eq (congrArg (· = _) (step_bind_ok found _))

theorem plain_withSpace {run : AddressSpace → Paging α} {x : α} (active : k.root = some root)
    (owned : k.owned = some memory) (ran : run (k.spaceUnder root) (k.machine memory) = .ok x m) :
    (withSpace run).plain flag held k = .ok x (k.withMachine memory m) :=
  (plain_withSpace_eq_ok active owned).2 ⟨m, ran, rfl⟩

theorem Healthy.directory (h : k.Healthy root memory) : k.processor.directory = some root ∧
    ∀ p, memory.frames.stats.Manages p → k.processor.Reaches p.base := by
  rcases h.intact.sees with physical | ⟨c, shown, active, reaches⟩
  · exact nomatch physical
  · cases shown
    exact ⟨active, reaches⟩

theorem Healthy.active (h : k.Healthy root memory) : k.root = some root := by
  obtain ⟨directory, -⟩ := h.directory
  unfold processor at directory
  dsimp only at directory
  split at directory
  · exact directory
  · exact nomatch directory

theorem initFrames_eq_ok {boot : BootMemory} {image : Image} {storage : WordRange} {stats : Stats}
    (ran : (initFrames boot image storage).plain flag held k = .ok (.ok stats) k') :
    ∃ a record, FrameAllocator.setup boot image (storage.load k.ram) = .ok (.ok a) ∧
      k' = { k with owned := some ⟨a, image⟩, record } := by
  have ran : setupFrames boot image storage k = .ok (.ok stats) k' := ran
  rw [setupFrames, step_get_bind] at ran
  split at ran
  · exact nomatch ran
  · simp only [step_get_bind] at ran
    obtain ⟨result, k₁, lifted, ran⟩ := step_bind_eq_ok.1 ran
    obtain ⟨done, rfl⟩ := step_lift_eq_ok.1 lifted
    cases result with
    | error why => exact nomatch ran
    | ok a =>
      simp only [say, step_modify_bind] at ran
      obtain ⟨text, k₂, lifted, ran⟩ := step_bind_eq_ok.1 ran
      obtain ⟨-, rfl⟩ := step_lift_eq_ok.1 lifted
      cases ran
      exact ⟨a, _, done, rfl⟩

theorem initPaging_eq_ok (ran : initPaging.plain flag held k = .ok (.ok root) k') :
    ∃ memory s m, k.owned = some memory ∧
      bootstrap memory.image memory.frames.stats.kernel (k.machine memory) = .ok (.ok s) m ∧
      root = s.root ∧ k' = { k.withMachine memory m with root := some root, paging := true } := by
  obtain ⟨u, k₁, checked, ran⟩ := step_bind_eq_ok.1 ran
  have checked : (if k.root.isSome then throw .pagingReady else pure ⟨⟩ : Step Unit) k =
      .ok u k₁ := checked
  split at checked
  · exact nomatch checked
  cases checked
  obtain ⟨built, k₂, booted, ran⟩ := step_bind_eq_ok.1 ran
  obtain ⟨k₃, k₃', same, booted⟩ := step_bind_eq_ok.1 booted
  cases same
  cases owned : k.owned with
  | none =>
    rw [owned] at booted
    exact nomatch booted
  | some memory =>
    rw [owned] at booted
    obtain ⟨m, done, rfl⟩ := (onMachine_eq_ok owned).1 booted
    cases built with
    | error why => exact nomatch ran
    | ok s =>
      obtain ⟨u, k₄, noted, ran⟩ := step_bind_eq_ok.1 ran
      cases noted
      cases ran
      exact ⟨memory, s, m, rfl, done, rfl, rfl⟩

theorem space_of_bootstrap {image : Image} {frames : Nat} {s : AddressSpace} {m' : Machine}
    (ran : bootstrap image frames m = .ok (.ok s) m') : s = ofRoot s.root := by
  obtain ⟨-, m₁, -, -, -, begun, -⟩ := bootstrap_eq_ok.1 ran
  obtain ⟨taken, m₂, -, rest⟩ := step_bind_eq_ok.1 begun
  cases taken with
  | none => exact nomatch rest
  | some root =>
    obtain ⟨u, m₃, -, rest⟩ := step_bind_eq_ok.1 rest
    obtain ⟨u, m₄, -, rest⟩ := step_bind_eq_ok.1 rest
    cases rest
    rfl

/-- Set-up and the switch to paging, one behind the other, leave the kernel in order if it reaches
all memory that it was told of. -/
theorem healthy_of_boot {boot : BootMemory} {image : Image} {storage : WordRange} {stats : Stats}
    {k₁ k₂ : Kernel} (addressable : boot.Addressable)
    (backed : FrameAllocator.upperEnd boot ≤ k.ramBytes) (linked : image.Linked)
    (text : image.Contains image.text) (initText : image.Contains image.initText)
    (framed : (initFrames boot image storage).plain flag held k = .ok (.ok stats) k₁)
    (paged : initPaging.plain flag held k₁ = .ok (.ok root) k₂) :
    ∃ memory, k₂.Healthy root memory := by
  obtain ⟨a, record, ready, rfl⟩ := initFrames_eq_ok framed
  obtain ⟨memory, s, m, owned, ran, rfl, rfl⟩ := initPaging_eq_ok paged
  cases owned
  obtain ⟨⟨m₁, done⟩, inside⟩ :=
    ready_of_bootstrap linked addressable ready rfl text initText ran
  have physical := space_of_bootstrap ran
  refine ⟨⟨m.frames, image⟩, rfl, ?_, ?_⟩
  · have intact := done.sound.intact
    rw [physical] at intact
    exact (intact.quiet (Paging.quiet_unmetered m)).intact.under rfl
      fun p known => Nat.lt_of_lt_of_le (inside p known) backed
  · intro d f there
    exact done.links d f ⟨there.ordinary, there.present, there.frame⟩

/-- The kernel is in order, and these pages own the frames that they are mapped to. -/
structure Sound (k : Kernel) (root : PhysicalPage) (memory : KernelMemory)
    (own : Set VirtualPage) : Prop where
  owned : k.owned = some memory
  space : (k.spaceUnder root).Sound (k.machine memory) own
  links : (k.spaceUnder root).LinksWritable k.ram

theorem Sound.healthy (h : k.Sound root memory own) : k.Healthy root memory :=
  ⟨h.owned, h.space.intact, h.links⟩

theorem Healthy.sound (h : k.Healthy root memory) : k.Sound root memory ∅ :=
  ⟨h.owned, h.intact.sound, h.links⟩

theorem sound_withMachine (space : (k.spaceUnder root).Sound m own)
    (links : (k.spaceUnder root).LinksWritable m.memory) :
    (k.withMachine memory m).Sound root ⟨m.frames, memory.image⟩ own :=
  ⟨rfl, (space.quiet (Paging.quiet_unmetered m)).sound, links⟩

inductive Asks : (α : Type) → Call α → Request → (α → Answer) → Prop
  | mapPage (page : VirtualPage) (frame : PhysicalPage) (flags : Entry) :
      Asks _ (mapPage page frame flags) (.mapPage page frame flags) .done
  | unmapPage (page : VirtualPage) : Asks _ (unmapPage page) (.unmapPage page) .removed
  | allocPage (page : VirtualPage) (flags : Entry) :
      Asks _ (allocPage page flags) (.allocPage page flags) .got
  | freePage (page : VirtualPage) :
      Asks _ (freePage page) (.freePage page) fun _ => .done (.ok ())
  | mapRange (start stop : VirtualAddress) (flags : Entry) :
      Asks _ (mapRange start stop flags) (.mapRange start stop flags) .done
  | unmapRange (start stop : VirtualAddress) :
      Asks _ (unmapRange start stop) (.unmapRange start stop) .done
  | mapDirect (start stop : VirtualAddress) (target : PhysicalAddress) (flags : Entry) :
      Asks _ (mapDirect start stop target flags) (.mapDirect start stop target flags) .done
  | unmapDirect (start stop : VirtualAddress) :
      Asks _ (unmapDirect start stop) (.unmapDirect start stop) .done

inductive Takes : (α : Type) → Call α → FrameAllocator.Request → Prop
  | takeFrame : Takes _ takeFrame .take
  | releaseFrame (f : PhysicalPage) : Takes _ (releaseFrame f) (.release f)
  | takeRegion (start stop : PhysicalAddress) :
      Takes _ (takeRegion start stop) (.takeRegion start stop)
  | releaseRegion (start stop : PhysicalAddress) :
      Takes _ (releaseRegion start stop) (.releaseRegion start stop)
  | addUser (f : PhysicalPage) : Takes _ (addUser f) (.addUser f)
  | removeUser (f : PhysicalPage) : Takes _ (removeUser f) (.removeUser f)

inductive Reads : (α : Type) → Call α → Prop
  | image : Reads _ image
  | stats : Reads _ stats
  | dumpMaps : Reads _ dumpMaps
  | currentRoot : Reads _ currentRoot
  | query (a : VirtualAddress) : Reads _ (query a)
  | initFrames (boot : BootMemory) (image : Image) (storage : WordRange) :
      Reads _ (initFrames boot image storage)
  | initPaging : Reads _ initPaging

/-- Calls that give back only what was given, and which pages own their frames when they have
returned. -/
inductive Careful (k : Kernel) (root : PhysicalPage) (memory : KernelMemory)
    (own : Set VirtualPage) : (α : Type) → Call α → (α → Set VirtualPage) → Prop
  | asks {α : Type} {call : Call α} {request : Request} {answer : α → Answer} :
      Asks α call request answer → request.Permitted own →
      Careful k root memory own α call fun x => ownAfter own (request, answer x)
  | takes {α : Type} {call : Call α} {request : FrameAllocator.Request} :
      Takes α call request → (k.spaceUnder root).Spares (k.machine memory) own request →
      Careful k root memory own α call fun _ => own
  | reads {α : Type} {call : Call α} : Reads α call → Careful k root memory own α call fun _ => own
  | releaseInit : (∀ stop, memory.image.init.pageStop = .ok stop →
      (k.spaceUnder root).Departing (k.machine memory) own
        (Page.between memory.image.init.start.page stop.page)) →
      Careful k root memory own _ releaseInit fun _ => own
  | switchSpace : Careful k root memory own _ (switchSpace root) fun _ => own

section Calls
variable {call : Call α} {x : α}

theorem Asks.ran {request : Request} {answer : α → Answer} (asks : Asks α call request answer)
    (active : k.root = some root) (owned : k.owned = some memory)
    (ran : call.plain flag held k = .ok x k') :
    ∃ m, request.run (k.spaceUnder root) (k.machine memory) = .ok (answer x) m ∧
      k' = k.withMachine memory m := by
  cases asks with
  | _ =>
    obtain ⟨m, done, rfl⟩ := (plain_withSpace_eq_ok active owned).1 ran
    exact ⟨m, (step_bind_ok done _).trans rfl, rfl⟩

theorem Asks.keepsLinks {request : Request} {answer : α → Answer}
    (asks : Asks α call request answer) : request.KeepsLinks := by
  cases asks with
  | _ => trivial

theorem Takes.ran {request : FrameAllocator.Request} (takes : Takes α call request)
    (owned : k.owned = some memory) (ran : call.plain flag held k = .ok x k') :
    ∃ answer m, request.run memory.frames = .ok answer m.frames ∧ m.memory = k.ram ∧
      k' = k.withMachine memory m := by
  cases takes with
  | takeFrame =>
    obtain ⟨m, done, rfl⟩ := (onMachine_eq_ok owned).1 ran
    have unmetered : Paging.takeUnmetered (k.machine memory) = .ok x m := done
    obtain ⟨t, m₁, took, rest⟩ := step_bind_eq_ok.1 unmetered
    obtain ⟨frames, taken, rfl⟩ := Paging.onFrames_eq_ok.1 took
    refine ⟨.taken t, m, ?_⟩
    cases t <;> cases rest <;> exact ⟨(step_bind_ok taken _).trans rfl, rfl, rfl⟩
  | _ =>
    obtain ⟨m, done, rfl⟩ := (onMachine_eq_ok owned).1 ran
    obtain ⟨frames, answered, rfl⟩ := Paging.onFrames_eq_ok.1 done
    exact ⟨_, _, (step_bind_ok answered _).trans rfl, rfl, rfl⟩

theorem withMachine_of_same (owned : k.owned = some memory) (frames : m.frames = memory.frames)
    (ram : m.memory = k.ram) : k.withMachine memory m = { k with record := m.record } := by
  rw [withMachine, frames, ram, ← owned]

theorem Reads.ran (reads : Reads α call) (active : k.root = some root)
    (owned : k.owned = some memory) (ran : call.plain flag held k = .ok x k') :
    ∃ record, record.events = k.record.events ∧ k' = { k with record } := by
  cases reads with
  | image | stats | currentRoot =>
    cases ran
    exact ⟨_, rfl, rfl⟩
  | dumpMaps =>
    obtain ⟨m, done, rfl⟩ := (onMachine_eq_ok owned).1 ran
    simp only [Paging.dumpMaps, Paging.say, step_get_bind, step_modify_bind] at done
    obtain ⟨text, m₁, lifted, said⟩ := step_bind_eq_ok.1 done
    obtain ⟨-, rfl⟩ := step_lift_eq_ok.1 lifted
    cases said
    refine ⟨_, ?_, withMachine_of_same owned rfl rfl⟩
    rfl
  | query a =>
    obtain ⟨m, done, rfl⟩ := (plain_withSpace_eq_ok active owned).1 ran
    rw [AddressSpace.query, step_get_bind] at done
    obtain ⟨-, rfl⟩ := step_lift_eq_ok.1 done
    refine ⟨_, ?_, withMachine_of_same owned rfl rfl⟩
    rfl
  | initFrames boot image storage =>
    have ran : setupFrames boot image storage k = .ok x k' := ran
    rw [setupFrames, step_get_bind, owned] at ran
    exact nomatch ran
  | initPaging =>
    obtain ⟨u, k₁, checked, -⟩ := step_bind_eq_ok.1 ran
    have checked : (if k.root.isSome then throw .pagingReady else pure ⟨⟩ : Step Unit) k =
      .ok u k₁ := checked
    rw [active] at checked
    exact nomatch checked

theorem releaseInit_eq_ok {x : Except MapError Nat} (active : k.root = some root)
    (owned : k.owned = some memory) (ran : releaseInit.plain flag held k = .ok x k') :
    ∃ stop m, memory.image.init.pageStop = .ok stop ∧
      (k.spaceUnder root).releaseRange memory.image.init.start stop (k.machine memory) =
        .ok x m ∧ k' = k.withMachine memory m := by
  obtain ⟨found, k₁, looked, onward⟩ := step_bind_eq_ok.1 ran
  have looked : EStateM.Result.ok (k.owned.map (·.image)) k = .ok found k₁ := looked
  rw [owned] at looked
  cases looked
  obtain ⟨stop, k₂, lifted, last⟩ := step_bind_eq_ok.1 onward
  obtain ⟨ends, rfl⟩ := step_lift_eq_ok.1 lifted
  obtain ⟨m, done, rfl⟩ := (plain_withSpace_eq_ok active owned).1 last
  exact ⟨stop, m, ends, done, rfl⟩

theorem Sound.of_careful {after : α → Set VirtualPage} (h : k.Sound root memory own)
    (careful : Careful k root memory own α call after)
    (ran : call.plain flag held k = .ok x k') :
    ∃ memory', k'.Sound root memory' (after x) := by
  have active := h.healthy.active
  cases careful with
  | asks asks permitted =>
    obtain ⟨m, done, rfl⟩ := asks.ran active h.owned ran
    exact ⟨_, sound_withMachine (h.space.follows permitted done).sound
      (h.space.linksWritable h.links permitted asks.keepsLinks done)⟩
  | takes takes spares =>
    obtain ⟨answer, m, done, memory, rfl⟩ := takes.ran h.owned ran
    have others := h.space.elsewhere_of_request spares done rfl memory
    exact ⟨_, sound_withMachine (h.space.elsewhere others)
      (h.links.of_same others.undisturbed.link)⟩
  | reads reads =>
    obtain ⟨record, events, rfl⟩ := reads.ran active h.owned ran
    have quiet : Paging.Quiet (k.machine memory) (machine { k with record } memory) :=
      ⟨rfl, rfl, events⟩
    exact ⟨memory, h.owned, (h.space.quiet quiet).sound, h.links⟩
  | releaseInit departing =>
    obtain ⟨stop, m, ends, done, rfl⟩ := releaseInit_eq_ok active h.owned ran
    obtain ⟨space, links⟩ := h.space.of_releaseRange h.links (departing stop ends) done
    exact ⟨_, sound_withMachine space links⟩
  | switchSpace =>
    cases ran
    have same : { k with root := some root } = k := by rw [← active]
    exact ⟨memory, same.symm ▸ h⟩

theorem Careful.shared {after : α → Set VirtualPage}
    (careful : Careful k root memory own α call after) : SharedCall α call := by
  cases careful with
  | asks asks _ =>
    refine .mapping ?_
    cases asks <;> constructor
  | takes takes _ =>
    cases takes with
    | takeFrame => exact .takeFrame
    | releaseFrame f => exact .releaseFrame f
    | takeRegion start stop => exact .takeRegion start stop
    | releaseRegion start stop => exact .releaseRegion start stop
    | addUser f => exact .addUser f
    | removeUser f => exact .removeUser f
  | reads reads =>
    cases reads with
    | image => exact .image
    | stats => exact .stats
    | dumpMaps => exact .dumpMaps
    | currentRoot => exact .currentRoot
    | query a => exact .mapping (.query a)
    | initFrames boot image storage => exact .initFrames boot image storage
    | initPaging => exact .mapping .initPaging
  | releaseInit _ => exact .mapping .releaseInit
  | switchSpace => exact .switchSpace root

end Calls

inductive Serves (root : PhysicalPage) (k : Kernel) (own : Set VirtualPage) :
    Kernel → Set VirtualPage → Prop
  | start : Serves root k own k own
  | call {k₁ k₂ : Kernel} {own₁ : Set VirtualPage} {memory : KernelMemory} {α : Type}
      {call : Call α} {after : α → Set VirtualPage} {x : α} {flag : Bool} {held : List Lock} :
      Serves root k own k₁ own₁ → k₁.owned = some memory →
      Careful k₁ root memory own₁ α call after → call.plain flag held k₁ = .ok x k₂ →
      Serves root k own k₂ (after x)

theorem Sound.of_serves {own' : Set VirtualPage} (h : k.Sound root memory own)
    (serves : Serves root k own k' own') : ∃ memory', k'.Sound root memory' own' := by
  induction serves with
  | start => exact ⟨memory, h⟩
  | call _ owned careful ran ih =>
    obtain ⟨memory', sound⟩ := ih
    cases owned.symm.trans sound.owned
    exact sound.of_careful careful ran

/-- Whatever is called with care once the kernel has booted, it stays in order. -/
theorem healthy_of_serves {own' : Set VirtualPage} (h : k.Healthy root memory)
    (serves : Serves root k ∅ k' own') : ∃ memory', k'.Healthy root memory' := by
  obtain ⟨memory', sound⟩ := h.sound.of_serves serves
  exact ⟨memory', sound.healthy⟩

end Kernel
end Ia32Memory
