import Ia32Memory.Proofs.Frame.Census
import Ia32Memory.Proofs.Frame.FreeSet
import Ia32Memory.Proofs.Machine.Ranges

/-! Runs of mapping operations on one space.
A space starts with a directory that holds nothing but its own window.  Requests follow in any
order, some of them refused, and in between others may use the allocator and memory as long as they
keep off the directory, the tables and the frames that pages own.  Pages that got frames of their
own are the only ones that may be given back with their frames.  Throughout the space stays
intact. -/

namespace Ia32Memory.AddressSpace
open FrameAllocator (SameMemory)

inductive Request
  | mapPage (page : VirtualPage) (frame : PhysicalPage) (flags : Entry)
  | unmapPage (page : VirtualPage)
  | setWritable (page : VirtualPage) (writable : Bool)
  | allocPage (page : VirtualPage) (flags : Entry)
  | freePage (page : VirtualPage)
  | mapRange (start stop : VirtualAddress) (flags : Entry)
  | unmapRange (start stop : VirtualAddress)
  | mapDirect (start stop : VirtualAddress) (target : PhysicalAddress) (flags : Entry)
  | unmapDirect (start stop : VirtualAddress)

inductive Answer
  | done (result : Except MapError Unit)
  | got (result : Except MapError PhysicalPage)
  | removed (frame : PhysicalPage)

def Answer.Refuses : Answer → Prop
  | .done (.error _) | .got (.error _) => True
  | _ => False

namespace Request

def run (s : AddressSpace) : Request → Paging Answer
  | .mapPage page frame flags => do return .done (← s.mapPage page frame flags)
  | .unmapPage page => do return .removed (← s.unmapPage page)
  | .setWritable page writable => do
    s.setWritable page writable
    return .done (.ok ())
  | .allocPage page flags => do return .got (← s.allocPage page flags)
  | .freePage page => do
    s.freePage page
    return .done (.ok ())
  | .mapRange start stop flags => do return .done (← s.mapRange start stop flags)
  | .unmapRange start stop => do return .done (← s.unmapRange start stop)
  | .mapDirect start stop target flags => do
    return .done (← s.mapDirect start stop target flags)
  | .unmapDirect start stop => do return .done (← s.unmapDirect start stop)

def row (start stop : VirtualAddress) : Set VirtualPage :=
  {p | p ∈ Page.between start.page stop.page}

def pages : Request → Set VirtualPage
  | .mapPage page _ _ | .unmapPage page | .setWritable page _ | .allocPage page _
  | .freePage page => {page}
  | .mapRange start stop _ | .unmapRange start stop | .mapDirect start stop _ _
  | .unmapDirect start stop => row start stop

/-- Only pages that own their frames are given back with them. -/
def Permitted (own : Set VirtualPage) : Request → Prop
  | .freePage page => page ∈ own
  | .unmapRange start stop => row start stop ⊆ own
  | _ => True

def Tidy (own : Set VirtualPage) : Request → Prop
  | .unmapPage page => page ∉ own
  | .unmapDirect start stop => ∀ p ∈ row start stop, p ∉ own
  | _ => True

end Request

def ownAfter (own : Set VirtualPage) : Request × Answer → Set VirtualPage
  | (.allocPage page _, .got (.ok _)) => insert page own
  | (.mapRange start stop _, .done (.ok _)) => own ∪ Request.row start stop
  | (.unmapPage page, _) => own \ {page}
  | (.freePage page, _) => own \ {page}
  | (.unmapRange start stop, .done (.ok _)) => own \ Request.row start stop
  | (.unmapDirect start stop, .done (.ok _)) => own \ Request.row start stop
  | _ => own

/-- Others were at work: neither the directory nor tables were touched, nor what the allocator
knows of them and of the frames that pages own. -/
structure Elsewhere (s : AddressSpace) (m : Machine) (own : Set VirtualPage) (m' : Machine) :
    Prop where
  undisturbed : s.Undisturbed m m'
  owned : ∀ p ∈ own, ∀ f, frameOf (s.mapping m.memory) p = some f →
    m'.frames.Holds f ∧ m'.frames.users f = m.frames.users f

/-- What can become of a machine, and which pages own their frames then. -/
inductive Runs (s : AddressSpace) (m : Machine) : Machine → Set VirtualPage → Prop
  | start : Runs s m m ∅
  | step {m₁ m₂ : Machine} {own : Set VirtualPage} {request : Request} {answer : Answer} :
      Runs s m m₁ own → request.Permitted own → request.run s m₁ = .ok answer m₂ →
      Runs s m m₂ (ownAfter own (request, answer))
  | elsewhere {m₁ m₂ : Machine} {own : Set VirtualPage} :
      Runs s m m₁ own → s.Elsewhere m₁ own m₂ → Runs s m m₂ own

/-- A directory in a frame that is in use links itself in its last slot and holds nothing else; no
free frame has users. -/
structure Fresh (s : AddressSpace) (m : Machine) : Prop where
  fresh : ∀ p ∈ m.frames.freePages, m.frames.users p = 0
  sees : s.Sees m.frames.stats
  rootHeld : m.frames.Holds s.root
  loop : s.LoopsBack m.memory
  blank : ∀ d, d ≠ .recursive → s.link m.memory d = 0

variable {s : AddressSpace} {m m' : Machine} {own : Set VirtualPage} {request : Request}
  {answer : Answer}

theorem Fresh.not_links (h : s.Fresh m) (d : Slot) (f : PhysicalPage) :
    ¬s.Links m.memory d f := by
  rintro ⟨ordinary, present, -⟩
  rw [h.blank d ordinary, Entry.present_zero] at present
  exact Bool.noConfusion present

theorem Fresh.mapping (h : s.Fresh m) (p : VirtualPage) : s.mapping m.memory p = none := by
  cases maps : s.mapping m.memory p with
  | none => rfl
  | some v =>
    obtain ⟨f, linked, -⟩ := links_of_mapping maps
    exact absurd linked (h.not_links _ f)

theorem Fresh.sound (h : s.Fresh m) (frames : m.frames.Managing) : s.Sound m ∅ where
  intact :=
    { frames
      fresh := h.fresh
      sees := h.sees
      rootHeld := h.rootHeld
      loop := h.loop
      small := fun d f linked => absurd linked (h.not_links d f)
      notRoot := fun d f linked => absurd linked (h.not_links d f)
      unique := fun d _ f linked => absurd linked (h.not_links d f)
      table := fun d f linked => absurd linked (h.not_links d f)
      blank := fun d absent => by
        refine h.blank d fun last => ?_
        rw [last, h.loop.present] at absent
        exact Bool.noConfusion absent }
  owned p mem := mem.elim
  distinct p mem := mem.elim

theorem Sound.elsewhere (h : s.Sound m own) (others : s.Elsewhere m own m') :
    s.Sound m' own where
  intact := h.intact.elsewhere others.undisturbed
  owned p mem := by
    obtain ⟨f, leads, apart⟩ := h.owned p mem
    obtain ⟨held, users⟩ := others.owned p mem f leads
    rw [others.undisturbed.mapping]
    exact ⟨f, leads, others.undisturbed.apart held (users.trans apart.users) apart⟩
  distinct p hp q hq same := by
    rw [others.undisturbed.mapping] at same
    exact h.distinct p hp q hq same

/-- What an answered request leaves: a sound space, other pages as they were, after a refusal all of
them, and what the space had not taken. -/
structure Follows (s : AddressSpace) (m : Machine) (own : Set VirtualPage) (request : Request)
    (answer : Answer) (m' : Machine) : Prop where
  sound : s.Sound m' (ownAfter own (request, answer))
  others : ∀ p, p ∉ request.pages → s.mapping m'.memory p = s.mapping m.memory p
  refused : answer.Refuses → s.mapping m'.memory = s.mapping m.memory
  residue : request.Tidy own → s.residue m' (ownAfter own (request, answer)) = s.residue m own

theorem Yields.follows_same (h : s.Yields m m' own (s.mapping m.memory))
    (same : ownAfter own (request, answer) = own)
    (residue : s.residue m' own = s.residue m own) : s.Follows m own request answer m' :=
  ⟨by rw [same]; exact h.sound, fun p _ => by rw [h.mapping], fun _ => h.mapping,
    fun _ => by rw [same]; exact residue⟩

theorem Yields.follows_update {page : VirtualPage} {v : Option (PhysicalPage × Entry)}
    {own' : Set VirtualPage}
    (h : s.Yields m m' own' (Function.update (s.mapping m.memory) page v))
    (grown : ownAfter own (request, answer) = own') (about : request.pages = {page})
    (granted : ¬answer.Refuses)
    (residue : request.Tidy own → s.residue m' own' = s.residue m own) :
    s.Follows m own request answer m' := by
  subst grown
  refine ⟨h.sound, fun p outside => ?_, fun refuses => absurd refuses granted, residue⟩
  rw [about] at outside
  rw [h.mapping, Function.update_of_ne outside]

theorem Yields.follows_erased {start stop : VirtualAddress} {own' : Set VirtualPage}
    (h : s.Yields m m' own' (erased (s.mapping m.memory) (Page.between start.page stop.page)))
    (grown : ownAfter own (request, answer) = own') (about : request.pages = Request.row start stop)
    (granted : ¬answer.Refuses)
    (residue : request.Tidy own → s.residue m' own' = s.residue m own) :
    s.Follows m own request answer m' := by
  subst grown
  refine ⟨h.sound, fun p outside => ?_, fun refuses => absurd refuses granted, residue⟩
  rw [about] at outside
  rw [h.mapping]
  exact if_neg outside

theorem Placed.follows {start stop : VirtualAddress} {joins : Prop}
    {wanted : VirtualPage → PhysicalPage × Entry → Prop}
    (h : s.Placed m own joins wanted (Page.between start.page stop.page) m')
    (grown : ownAfter own (request, answer) = gained own joins (Page.between start.page stop.page))
    (about : request.pages = Request.row start stop)
    (granted : ¬answer.Refuses) : s.Follows m own request answer m' := by
  refine ⟨grown ▸ h.sound, fun p outside => ?_, fun refuses => absurd refuses granted,
    fun _ => grown ▸ h.advances.residue⟩
  rw [about] at outside
  exact h.others p outside

theorem Sound.follows (h : s.Sound m own) (permitted : request.Permitted own)
    (ran : request.run s m = .ok answer m') : s.Follows m own request answer m' := by
  cases request with
  | mapPage page frame flags =>
    obtain ⟨result, m₁, e, rest⟩ := step_bind_eq_ok.1 ran
    cases rest
    have residue := (h.advances_of_mapPage e).residue
    cases result with
    | error why => exact (h.quiet (h.intact.quiet_of_refused e)).follows_same rfl residue
    | ok _ => exact (h.of_mapPage e).2.follows_update rfl rfl id fun _ => residue
  | unmapPage page =>
    obtain ⟨frame, m₁, e, rest⟩ := step_bind_eq_ok.1 ran
    cases rest
    refine (h.of_unmapPage e).follows_update rfl rfl id fun (foreign : page ∉ own) => ?_
    rw [Set.sdiff_singleton_eq_self foreign]
    exact (h.advances_of_unmapPage foreign e).residue.symm
  | setWritable page writable =>
    obtain ⟨u, m₁, e, rest⟩ := step_bind_eq_ok.1 ran
    cases rest
    exact (h.of_setWritable e).follows_update rfl rfl id fun _ => h.residue_of_setWritable e
  | allocPage page flags =>
    obtain ⟨result, m₁, e, rest⟩ := step_bind_eq_ok.1 ran
    cases rest
    rcases h.allocPage_cases page flags with ⟨why, m₂, e', same, -⟩ | ⟨-, fault, m₂, e'⟩ |
      ⟨-, -, f, m₂, e', mapped, -⟩
    · cases e'.symm.trans e
      exact same.follows_same rfl (h.advances_of_refused e').residue
    · cases e'.symm.trans e
    · cases e'.symm.trans e
      exact mapped.follows_update rfl rfl id fun _ => (h.advances_of_allocPage e').residue
  | freePage page =>
    obtain ⟨u, m₁, e, rest⟩ := step_bind_eq_ok.1 ran
    cases rest
    obtain ⟨m₂, e', gone, -⟩ := h.freePage permitted
    cases e'.symm.trans e
    exact gone.follows_update rfl rfl id fun _ => (h.advances_of_freePage permitted e').residue.symm
  | mapRange start stop flags =>
    obtain ⟨result, m₁, e, rest⟩ := step_bind_eq_ok.1 ran
    cases rest
    have ends := h.mapRange_cases start stop flags
    cases result with
    | error why =>
      have same := ends.refused e
      exact same.yields.follows_same rfl same.residue
    | ok _ =>
      refine (ends.granted e).follows ?_ rfl id
      ext p
      simp [ownAfter, gained, Request.row]
  | unmapRange start stop =>
    obtain ⟨result, m₁, e, rest⟩ := step_bind_eq_ok.1 ran
    cases rest
    rcases h.unmapRange_cases start stop permitted with ⟨fault, e'⟩ | ⟨why, e'⟩ |
      ⟨m₂, e', gone, back⟩
    · cases e'.symm.trans e
    · cases e'.symm.trans e
      exact h.refl.follows_same rfl rfl
    · cases e'.symm.trans e
      exact gone.follows_erased rfl rfl id fun _ => back.residue.symm
  | mapDirect start stop target flags =>
    obtain ⟨result, m₁, e, rest⟩ := step_bind_eq_ok.1 ran
    cases rest
    have ends := h.mapDirect_cases start stop target flags
    cases result with
    | error why =>
      have same := ends.refused e
      exact same.yields.follows_same rfl same.residue
    | ok _ => exact (ends.granted e).follows (gained_of_not _ _).symm rfl id
  | unmapDirect start stop =>
    obtain ⟨result, m₁, e, rest⟩ := step_bind_eq_ok.1 ran
    cases rest
    rcases h.unmapDirect_cases start stop with ⟨fault, m₂, e'⟩ | ⟨why, e'⟩ | ⟨m₂, e', gone, back⟩
    · cases e'.symm.trans e
    · cases e'.symm.trans e
      exact h.refl.follows_same rfl rfl
    · cases e'.symm.trans e
      exact gone.follows_erased rfl rfl id fun tidy => (back tidy).residue.symm

theorem Runs.sound (run : s.Runs m m' own) (start : s.Sound m ∅) : s.Sound m' own := by
  induction run with
  | start => exact start
  | step _ permitted ran ih => exact (ih.follows permitted ran).sound
  | elsewhere _ others ih => exact ih.elsewhere others

theorem word_fresh_zero (p : PhysicalPage) (t : Slot) : (PhysicalMemory.fresh 0).word p t = 0 := by
  unfold PhysicalMemory.word PhysicalMemory.frame PhysicalMemory.fresh
  rw [Std.HashMap.getD_empty]
  exact EntryTable.entry_zero t

def blankButLoop (root : PhysicalPage) : PhysicalMemory :=
  (PhysicalMemory.fresh 0).put root .recursive (Entry.aimedAt root Entry.kernelReadWrite)

theorem link_blankButLoop (s : AddressSpace) (d : Slot) :
    s.link (blankButLoop s.root) d =
      if d = .recursive then Entry.aimedAt s.root Entry.kernelReadWrite else 0 := by
  rw [blankButLoop, link_put_root, link, word_fresh_zero]

theorem exists_fresh :
    ∃ (a : FrameAllocator) (m : Machine),
      FrameAllocator.setup ⟨8, 32⟩ FrameAllocator.smallImage (Array.replicate 7 0) = .ok (.ok a) ∧
      FrameAllocator.Trace a [(.take, .taken (.frame .first))] m.frames ∧
      (ofRoot .first).Fresh m ∧ m.quota = none ∧ m.frames.freePages ≠ ∅ ∧
      (∀ p, m.frames.users p = 0) ∧
      m.frames.stats.free = 7 := by
  obtain ⟨a, b, ready, step⟩ := FrameAllocator.exists_small_run
  obtain ⟨ha, -, start, unused⟩ := FrameAllocator.managing_of_setup ⟨by decide, by decide⟩ ready
  obtain ⟨taken, a', e, rest⟩ := step_bind_eq_ok.1 step
  cases rest
  rcases ha.take with ⟨-, e'⟩ | ⟨p, b', free, -, e', became⟩
  · exact nomatch e'.symm.trans e
  · cases e'.symm.trans e
    have loop : (ofRoot .first).link (blankButLoop .first) .recursive =
        Entry.aimedAt .first Entry.kernelReadWrite :=
      (link_blankButLoop (ofRoot .first) .recursive).trans (if_pos rfl)
    have few : b.stats.free = 7 := by
      have taken := became.free_taken ha free
      rw [FrameAllocator.free_of_small ready] at taken
      exact Nat.succ.inj taken
    have users : ∀ p, b.users p = 0 := fun p => became.users.trans (unused p)
    refine ⟨a, ⟨b, none, blankButLoop .first, .empty⟩, ready, .snoc .nil step, ?_, rfl, ?_, users,
      few⟩
    · refine ⟨fun q _ => users q, Or.inl rfl, ⟨?_, ?_⟩, ⟨?_, ?_, ?_⟩, ?_⟩
      · exact became.sameMemory.manages.2 free.1
      · rw [became.free]
        exact fun ⟨_, other⟩ => other rfl
      · rw [loop]
        exact Entry.present_aimedAt
      · rw [loop]
        exact Entry.frame_aimedAt
      · rw [loop]
        exact Entry.large_aimedAt
      · exact fun d ordinary => (link_blankButLoop (ofRoot .first) d).trans (if_neg ordinary)
    · intro none
      rw [became.managing.free_eq_ncard, none, Set.ncard_empty] at few
      exact nomatch few

theorem exists_mapped :
    ∃ (a : FrameAllocator) (m m' : Machine),
      FrameAllocator.setup ⟨8, 32⟩ FrameAllocator.smallImage (Array.replicate 7 0) = .ok (.ok a) ∧
      FrameAllocator.Trace a [(.take, .taken (.frame .first))] m.frames ∧
      (ofRoot .first).Fresh m ∧ (ofRoot .first).Runs m m' ∅ ∧
      (ofRoot .first).mapping m'.memory .first =
        some (.first, Entry.kernelReadWrite.leafFlags) := by
  obtain ⟨a, m, ready, used, fresh, unmetered, free, -⟩ := exists_fresh
  obtain ⟨ha, -⟩ := FrameAllocator.managing_of_setup ⟨by decide, by decide⟩ ready
  obtain ⟨frames, -, -⟩ := used.follows ha
  have ordinary : (Page.first : VirtualPage).directorySlot ≠ .recursive := by decide
  obtain ⟨m', e, yields⟩ := (fresh.sound frames).mapPage_of_free ordinary (fresh.mapping _)
    unmetered free .first Entry.kernelReadWrite
  have ran : (Request.mapPage .first .first Entry.kernelReadWrite).run (ofRoot .first) m =
      .ok (.done (.ok ())) m' := (step_bind_ok e _).trans rfl
  have permitted : (Request.mapPage .first .first Entry.kernelReadWrite).Permitted ∅ := trivial
  refine ⟨a, m, m', ready, used, fresh, .step .start permitted ran, ?_⟩
  rw [yields.mapping]
  exact Function.update_self ..

variable {memory : BootMemory} {image : Image} {storage : Words} {a : FrameAllocator}
  {events : List (FrameAllocator.Request × FrameAllocator.Answer)}

/-- In every run from a fresh space the last slot goes on linking the directory, each other link
leads to a table of its own with as many users as entries, and what is not in use is blank. -/
theorem intact_after_run (addressable : memory.Addressable)
    (ready : FrameAllocator.setup memory image storage = .ok (.ok a))
    (used : FrameAllocator.Trace a events m.frames) (fresh : s.Fresh m)
    (run : s.Runs m m' own) :
    s.Intact m' none ∧ ∀ d f, s.Links m'.memory d f →
      m'.frames.users f = (m'.memory.frame f).presentCount ∧
        1 ≤ m'.frames.users f ∧ m'.frames.users f ≤ 1024 := by
  obtain ⟨ha, -⟩ := FrameAllocator.managing_of_setup addressable ready
  obtain ⟨frames, -, -⟩ := used.follows ha
  have intact := (run.sound (fresh.sound frames)).intact
  refine ⟨intact, fun d f linked => ?_⟩
  have table := intact.table d f linked
  refine ⟨table.counted, ?_, ?_⟩
  · rw [table.counted]
    exact table.least
  · rw [table.counted]
    exact EntryTable.presentCount_le _

theorem intact_after_run_small :
    ∃ m m' : Machine, (ofRoot .first).Fresh m ∧ (ofRoot .first).Runs m m' ∅ ∧
      (ofRoot .first).Intact m' none ∧ ∃ f, m'.frames.users f = (m'.memory.frame f).presentCount ∧
        1 ≤ m'.frames.users f ∧ m'.frames.users f ≤ 1024 := by
  obtain ⟨a, m, m', ready, used, fresh, run, maps⟩ := exists_mapped
  obtain ⟨intact, tables⟩ := intact_after_run ⟨by decide, by decide⟩ ready used fresh run
  obtain ⟨f, linked, -⟩ := links_of_mapping maps
  exact ⟨m, m', fresh, run, intact, f, tables _ f linked⟩

end Ia32Memory.AddressSpace
