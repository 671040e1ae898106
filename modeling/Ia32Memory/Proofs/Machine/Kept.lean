import Ia32Memory.Machine.Bootstrap
import Ia32Memory.Machine.Range
import Ia32Memory.Proofs.Machine.PageOperations

/-! Relations that paging code keeps, whatever state the tables are in.
Paging code reaches the allocator through requests for a frame, releases and counters alone; besides
that it writes to memory and leaves events and lines in the record.  A relation between machines
that is kept by each of these is kept by every operation that ends without a fault, for operations
are put together from them. -/

namespace Ia32Memory

/-- What paging code does to an allocator. -/
inductive FrameAllocator.Moves (a : FrameAllocator) : FrameAllocator → Prop
  | take {t : Taken} {b : FrameAllocator} : FrameAllocator.take a = .ok t b → Moves a b
  | release {p : PhysicalPage} {b : FrameAllocator} :
      FrameAllocator.release p a = .ok () b → Moves a b
  | addUser {p : PhysicalPage} {n : Nat} {b : FrameAllocator} :
      FrameAllocator.addUser p a = .ok n b → Moves a b
  | removeUser {p : PhysicalPage} {n : Nat} {b : FrameAllocator} :
      FrameAllocator.removeUser p a = .ok n b → Moves a b

def Event.Ordinary : Event → Prop
  | .pagingEnabled .. | .segmentsFlattened => False
  | _ => True

/-- A relation that single steps keep. -/
structure Kept (R : Machine → Machine → Prop) : Prop where
  trans : ∀ {m m' m''}, R m m' → R m' m'' → R m m''
  quiet : ∀ {m m'}, Paging.Quiet m m' → R m m'
  frames : ∀ {m frames}, m.frames.Moves frames → R m (m.withFrames frames)
  memory : ∀ m memory, R m { m with memory }
  noted : ∀ m {e : Event}, e.Ordinary → R m (m.noted e)

def Keeps {α : Type} (R : Machine → Machine → Prop) (run : Paging α) : Prop :=
  ∀ m a m', run m = .ok a m' → R m m'

variable {α β : Type} {R : Machine → Machine → Prop} {run run' : Paging α}

theorem keeps_throw (f : Fault) : Keeps R (throw f : Paging α) := fun _ _ _ ran => nomatch ran

theorem Keeps.ite {c : Prop} [Decidable c] (h : Keeps R run) (h' : Keeps R run') :
    Keeps R (if c then run else run') := by
  split
  · exact h
  · exact h'

namespace Kept
variable (kept : Kept R)
include kept

theorem refl (m : Machine) : R m m := kept.quiet (.refl m)

theorem pure (a : α) : Keeps R (Pure.pure a : Paging α) := fun m _ _ ran => by
  cases ran
  exact kept.refl m

theorem get : Keeps R (MonadState.get : Paging Machine) := fun m _ _ ran => by
  cases ran
  exact kept.refl m

theorem lift (x : Except Fault α) : Keeps R (liftM x : Paging α) := by
  cases x with
  | ok a => exact kept.pure a
  | error f => exact keeps_throw f

theorem bind {next : α → Paging β} (h : Keeps R run) (h' : ∀ a, Keeps R (next a)) :
    Keeps R (run >>= next) := by
  intro m b m' ran
  obtain ⟨a, m₁, first, second⟩ := step_bind_eq_ok.1 ran
  exact kept.trans (h m a m₁ first) (h' a m₁ b m' second)

theorem forM {step : α → Paging Unit} (h : ∀ a, Keeps R (step a)) (as : List α) :
    Keeps R (as.forM step) := by
  induction as with
  | nil => exact kept.pure _
  | cons a rest ih => exact kept.bind (h a) fun _ => ih

theorem onFrames {step : FrameAllocator.Step α}
    (h : ∀ {a x b}, step a = .ok x b → a.Moves b) : Keeps R (Paging.onFrames step) := by
  intro m x m' ran
  obtain ⟨frames, took, rfl⟩ := Paging.onFrames_eq_ok.1 ran
  exact kept.frames (h took)

theorem say (level : Level) (message : String) : Keeps R (Paging.say level message) :=
  fun _ _ _ ran => by
    cases ran
    exact kept.quiet ⟨rfl, rfl, rfl⟩

theorem note {e : Event} (ordinary : e.Ordinary) : Keeps R (Paging.note e) := fun m _ _ ran => by
  cases ran
  exact kept.noted m ordinary

theorem write (f : PhysicalMemory → PhysicalMemory) :
    Keeps R (modify fun m => { m with memory := f m.memory } : Paging PUnit) := fun m _ _ ran => by
  cases ran
  exact kept.memory m _

theorem takeFrame : Keeps R Paging.takeFrame := by
  refine kept.bind (fun m b m' ran => ?_) fun allowed => ?_
  · rcases Paging.withinQuota_cases m with ⟨-, e⟩ | ⟨-, e⟩
    · cases e.symm.trans ran
      exact kept.refl m
    · cases e.symm.trans ran
      exact kept.quiet ⟨rfl, rfl, rfl⟩
  · refine Keeps.ite (kept.bind (kept.onFrames .take) fun taken => ?_) (kept.pure _)
    cases taken with
    | frame p => exact kept.pure _
    | exhausted => exact kept.bind (kept.say _ _) fun _ => kept.pure _
    | miscounted free => exact kept.bind (kept.say _ _) fun _ => kept.pure _

theorem releaseFrame (p : PhysicalPage) : Keeps R (Paging.releaseFrame p) := kept.onFrames .release

theorem addUser (p : PhysicalPage) : Keeps R (Paging.addUser p) := kept.onFrames .addUser

theorem removeUser (p : PhysicalPage) : Keeps R (Paging.removeUser p) := kept.onFrames .removeUser

theorem entry (table : PhysicalPage) (slot : Slot) : Keeps R (Paging.entry table slot) :=
  kept.bind kept.get fun _ => kept.pure _

theorem store (table : PhysicalPage) (slot : Slot) (e : Entry) :
    Keeps R (Paging.store table slot e) :=
  kept.bind (kept.write (·.put table slot e)) fun _ => kept.note trivial

theorem clearTable (table : PhysicalPage) : Keeps R (Paging.clearTable table) :=
  kept.bind (kept.write (·.clear table)) fun _ => kept.note trivial

theorem invalidate (page : VirtualPage) : Keeps R (Paging.invalidate page) := kept.note trivial

variable (s : AddressSpace) (page : VirtualPage) (flags : Entry)

theorem create : Keeps R AddressSpace.create := by
  refine kept.bind kept.takeFrame fun taken => ?_
  cases taken with
  | none => exact kept.pure _
  | some root =>
    refine kept.bind (kept.clearTable _) fun _ => kept.bind (kept.store _ _ _) fun _ => ?_
    exact kept.pure _

theorem directory : Keeps R s.directory := kept.bind kept.get fun _ => kept.lift _

theorem table? (directory : PhysicalPage) (slot : Slot) : Keeps R (s.table? directory slot) :=
  kept.bind kept.get fun _ => kept.lift _

theorem installTable (directory : PhysicalPage) (slot : Slot) :
    Keeps R (s.installTable directory slot flags) := by
  refine kept.bind kept.takeFrame fun taken => ?_
  cases taken with
  | none => exact kept.pure _
  | some frame =>
    refine kept.bind (kept.store _ _ _) fun _ => kept.bind (kept.invalidate _) fun _ => ?_
    refine kept.bind kept.get fun _ => kept.bind (kept.lift _) fun shown => ?_
    refine kept.bind (kept.clearTable _) fun _ => kept.bind (kept.say _ _) fun _ => ?_
    exact kept.pure _

theorem enter (table : LinkedTable) (frame : PhysicalPage) :
    Keeps R (AddressSpace.enter table page frame flags) := by
  refine kept.bind (kept.entry _ _) fun old => ?_
  cases old.mapped? with
  | some there => exact keeps_throw _
  | none =>
    refine kept.bind (kept.store _ _ _) fun _ => kept.bind (kept.invalidate _) fun _ => ?_
    exact kept.bind (kept.addUser _) fun _ => kept.pure _

theorem mapPage (frame : PhysicalPage) : Keeps R (s.mapPage page frame flags) := by
  rw [AddressSpace.mapPage_eq]
  refine Keeps.ite (kept.pure _) ?_
  refine kept.bind (kept.directory s) fun directory => ?_
  refine kept.bind (kept.table? s _ _) fun linked => ?_
  -- Found or installed, the table is used in the same way.
  refine Keeps.ite (kept.bind (kept.pure _) fun found => ?_)
    (kept.bind (kept.installTable s _ _ _) fun found => ?_)
  all_goals
    cases found with
    | none => exact kept.pure _
    | some table => exact kept.enter page flags table frame

theorem requireTable (directory : PhysicalPage) (action : PageAction) :
    Keeps R (s.requireTable directory action page) := by
  refine kept.bind (kept.table? s _ _) fun found => ?_
  cases found with
  | none => exact keeps_throw _
  | some table => exact kept.pure _

theorem removeTable (directory : PhysicalPage) (slot : Slot) (frame : PhysicalPage) :
    Keeps R (AddressSpace.removeTable directory slot frame) := by
  refine kept.bind (kept.store _ _ _) fun _ => kept.bind (kept.releaseFrame _) fun _ => ?_
  exact kept.bind (kept.invalidate _) fun _ => kept.say _ _

theorem unmapPage : Keeps R (s.unmapPage page) := by
  refine Keeps.ite (keeps_throw _) (kept.bind (kept.directory s) fun directory => ?_)
  refine kept.bind (kept.requireTable s _ _ _) fun table => kept.bind (kept.entry _ _) fun old => ?_
  cases old.mapped? with
  | none => exact keeps_throw _
  | some v =>
    refine kept.bind (kept.store _ _ _) fun _ => kept.bind (kept.invalidate _) fun _ => ?_
    refine kept.bind (kept.removeUser _) fun left => ?_
    exact Keeps.ite (kept.bind (kept.removeTable _ _ _) fun _ => kept.pure _) (kept.pure _)

theorem setWritable (writable : Bool) : Keeps R (s.setWritable page writable) := by
  refine kept.bind (kept.directory s) fun directory => ?_
  refine kept.bind (kept.requireTable s _ _ _) fun table => kept.bind (kept.entry _ _) fun old => ?_
  refine Keeps.ite ?_ (keeps_throw _)
  exact kept.bind (kept.store _ _ _) fun _ => kept.invalidate _

theorem zeroPage (frame : PhysicalPage) : Keeps R (s.zeroPage page frame) := by
  refine kept.bind kept.get fun _ => kept.bind (kept.lift _) fun shown => ?_
  exact kept.bind (kept.write (·.clear shown)) fun _ => kept.note trivial

theorem allocPage : Keeps R (s.allocPage page flags) := by
  refine kept.bind kept.takeFrame fun taken => ?_
  cases taken with
  | none => exact kept.pure _
  | some frame =>
    refine kept.bind (kept.mapPage s _ _ _) fun mapped => ?_
    cases mapped with
    | error e => exact kept.bind (kept.releaseFrame _) fun _ => kept.pure _
    | ok _ =>
      refine kept.bind (kept.addUser _) fun _ => kept.bind (kept.zeroPage s _ _) fun _ => ?_
      exact Keeps.ite (kept.pure _) (kept.bind (kept.setWritable s _ _) fun _ => kept.pure _)

theorem freePage : Keeps R (s.freePage page) := by
  refine kept.bind (kept.unmapPage s _) fun frame => kept.bind (kept.removeUser _) fun left => ?_
  exact Keeps.ite (kept.releaseFrame _) (kept.pure _)

theorem unmapRange (start stop : VirtualAddress) : Keeps R (s.unmapRange start stop) := by
  refine kept.bind (kept.lift _) fun pages => ?_
  cases pages with
  | error e => exact kept.pure _
  | ok pages => exact kept.bind (kept.forM (kept.freePage s) pages) fun _ => kept.pure _

theorem mapEach (name : String) (start stop : VirtualAddress)
    {place : VirtualPage → Paging (Except MapError Unit)}
    {undo : VirtualAddress → VirtualAddress → Paging (Except MapError Unit)}
    (placing : ∀ page, Keeps R (place page)) (undoing : ∀ a b, Keeps R (undo a b))
    (pages : List VirtualPage) :
    Keeps R (AddressSpace.mapEach name start stop place undo pages) := by
  induction pages with
  | nil => exact kept.pure _
  | cons page rest ih =>
    refine kept.bind (placing page) fun placed => ?_
    cases placed with
    | ok _ => exact ih
    | error e =>
      refine kept.bind (kept.say _ _) fun _ => kept.bind (undoing _ _) fun undone => ?_
      cases undone with
      | error e => exact kept.pure _
      | ok _ => exact kept.pure _

theorem mapRange (start stop : VirtualAddress) : Keeps R (s.mapRange start stop flags) := by
  refine kept.bind (kept.lift _) fun pages => ?_
  cases pages with
  | error e => exact kept.pure _
  | ok pages =>
    refine kept.mapEach _ _ _ (fun page => ?_) (kept.unmapRange s) pages
    exact kept.bind (kept.allocPage s page flags) fun _ => kept.pure _

theorem unmapDirect (start stop : VirtualAddress) : Keeps R (s.unmapDirect start stop) := by
  refine kept.bind (kept.lift _) fun pages => ?_
  cases pages with
  | error e => exact kept.pure _
  | ok pages =>
    refine kept.bind (kept.forM (fun page => ?_) pages) fun _ => kept.pure _
    exact kept.bind (kept.unmapPage s page) fun _ => kept.pure _

theorem mapDirect (start stop : VirtualAddress) (target : PhysicalAddress) :
    Keeps R (s.mapDirect start stop target flags) := by
  refine kept.bind (kept.lift _) fun pages => ?_
  cases pages with
  | error e => exact kept.pure _
  | ok pages =>
    refine Keeps.ite (kept.mapEach _ _ _ (fun page => ?_) (kept.unmapDirect s) pages)
      (keeps_throw _)
    exact kept.bind (kept.lift _) fun address => kept.mapPage s page flags address.page

theorem mapImage (frame : PhysicalPage) (frames : Nat) (ns : List Nat) :
    Keeps R (s.mapImage page frame frames ns) := by
  induction ns with
  | nil => exact kept.pure _
  | cons n rest ih =>
    unfold AddressSpace.mapImage
    split
    · split
      · refine kept.bind (kept.mapPage s _ _ _) fun mapped => ?_
        cases mapped with
        | error e => exact kept.pure _
        | ok _ => exact ih
      · exact kept.pure _
    · exact kept.pure _

theorem writeProtect (part : Section) : Keeps R (s.writeProtect part) := by
  refine kept.forM (fun n => ?_) (List.range part.pages)
  split
  · exact kept.setWritable s _ _
  · exact kept.pure _

end Kept
end Ia32Memory
