import Ia32Memory.Proofs.Frame.Requests

/-! What an allocator finds in its storage, and what it leaves there.
The words of the maps are zeroed before they are used, and no operation reads or writes the spare
words behind them.  So an allocator in any storage does what one without spare words does, with the
spare words put back afterwards: two set-ups in different storage cannot be told apart by what is
asked of them later, nor by their own words. -/

namespace Ia32Memory.FrameAllocator

/-- Everything that may be asked of an allocator, questions that change nothing among it. -/
inductive Operation
  | request (request : Request)
  | usageOf (frame : PhysicalPage)
  | isFree (frame : PhysicalPage)
  | frameIndex (frame : PhysicalPage)
  | frameAt (index : Nat)
  | dump
  deriving DecidableEq

inductive Reply
  | answer (answer : Answer)
  | number (n : Nat)
  | free (yes : Bool)
  | frame (frame : PhysicalPage)
  | maps (superframes frames memory : String)
  deriving DecidableEq

def Operation.run : Operation → Step Reply
  | .request r => do return .answer (← r.run)
  | .usageOf p => do return .number (← FrameAllocator.usageOf p)
  | .isFree p => do return .free (← FrameAllocator.isFree p)
  | .frameIndex p => do return .number (← FrameAllocator.frameIndex p)
  | .frameAt i => do return .frame (← FrameAllocator.frameAt i)
  | .dump => do
    let a ← get
    return .maps a.superframeMapText a.frameMapText (← a.memoryText)

/-- What is seen of an operation: the reply or the fault, and the counts and the first words of the
storage afterwards. -/
structure Observation where
  reply : Except Fault Reply
  stats : Stats
  own : Words

/-- A run of operations.  One that is stopped by a fault is followed by the next all the same. -/
def observations (n : Nat) : List Operation → FrameAllocator → List Observation
  | [], _ => []
  | operation :: rest, a =>
    let b := endState (operation.run a)
    ⟨endValue (operation.run a), b.stats, b.storage.extract 0 n⟩ :: observations n rest b

def after : List Operation → FrameAllocator → FrameAllocator
  | [], a => a
  | operation :: rest, a => after rest (endState (operation.run a))

def KeepsBehind (n : Nat) (storage : Words) (a : FrameAllocator) : Prop :=
  a.storage.size = storage.size ∧ ∀ i, n ≤ i → a.storage[i]? = storage[i]?

def maps (a : FrameAllocator) : Words := a.frames.words ++ a.superframes.words ++ a.usage

def withSpare (spare : Words) (a : FrameAllocator) : FrameAllocator := { a with spare }

variable {a b c : FrameAllocator} {n required : Nat} {memory : BootMemory} {image : Image}
  {s t storage spare : Words}

theorem blind_setStats (change : Stats → Except Fault Stats) :
    Blind withSpare (setStats change) :=
  blind_get_bind (fun _ _ => rfl) fun _ =>
    .bind (blind_lift withSpare _) fun _ => blind_modify fun _ _ => rfl

theorem blind_superframeFull (k : Nat) : Blind withSpare (superframeFull k) :=
  blind_get_bind (fun _ _ => rfl) fun _ =>
    .bind (blind_lift withSpare _) fun _ => blind_lift withSpare _

theorem blind_clearFullSuperframe (k : Nat) : Blind withSpare (clearFullSuperframe k) := by
  refine .bind (blind_superframeFull k) fun full => .ite ?_ (blind_pure withSpare _)
  exact blind_get_bind (fun _ _ => rfl) fun _ =>
    .bind (blind_lift withSpare _) fun _ => blind_modify fun _ _ => rfl

theorem blind_take : Blind withSpare take := by
  refine blind_get_bind (fun _ _ => rfl) fun a => .ite (blind_pure withSpare _) ?_
  cases a.superframes.findFirstSet with
  | none => exact blind_pure withSpare _
  | some superframe =>
    refine .bind (blind_lift withSpare _) fun found => ?_
    cases found with
    | none => exact blind_throw withSpare _
    | some index =>
      refine .bind (blind_lift withSpare _) fun _ => .bind (blind_modify fun _ _ => rfl) fun _ =>
        .bind (blind_clearFullSuperframe superframe) fun _ => .bind (blind_setStats _) fun _ => ?_
      exact blind_get_bind (fun _ _ => rfl) fun _ =>
        .bind (blind_lift withSpare _) fun _ => blind_pure withSpare _

theorem blind_release (p : PhysicalPage) : Blind withSpare (release p) := by
  refine blind_get_bind (fun _ _ => rfl) fun a => .bind (blind_lift withSpare _) fun index =>
    .bind (blind_lift withSpare _) fun free => .ite ?_ ?_
  · exact blind_throw withSpare _
  · exact .bind (blind_lift withSpare _) fun _ => .bind (blind_modify fun _ _ => rfl) fun _ =>
      blind_setStats _

theorem blind_takeRegion (start stop : PhysicalAddress) :
    Blind withSpare (takeRegion start stop) := by
  refine blind_get_bind (fun _ _ => rfl) fun a => .bind (blind_lift withSpare _) fun found => ?_
  rcases found with - | ⟨first, count⟩
  · exact blind_pure withSpare _
  refine .bind (blind_lift withSpare _) fun free => .ite ?_ (blind_throw_bind withSpare _ _)
  refine .bind (blind_lift withSpare _) fun _ => .bind (blind_modify fun _ _ => rfl) fun _ => ?_
  have settle : Blind withSpare (do
      clearFullSuperframe (first / AddressMap.superframe)
      clearFullSuperframe ((first + count - 1) / AddressMap.superframe)
      setStats (·.take count)) :=
    .bind (blind_clearFullSuperframe _) fun _ =>
      .bind (blind_clearFullSuperframe _) fun _ => blind_setStats _
  refine .ite ?_ settle
  exact blind_get_bind (fun _ _ => rfl) fun _ => .bind (blind_lift withSpare _) fun _ =>
    .bind (blind_modify fun _ _ => rfl) fun _ => settle

theorem blind_releaseRegion (start stop : PhysicalAddress) :
    Blind withSpare (releaseRegion start stop) := by
  refine blind_get_bind (fun _ _ => rfl) fun a => .bind (blind_lift withSpare _) fun found => ?_
  rcases found with - | ⟨first, count⟩
  · exact blind_pure withSpare _
  refine .bind (blind_lift withSpare _) fun used => .ite ?_ (blind_throw_bind withSpare _ _)
  refine .bind (blind_lift withSpare _) fun _ => .bind (blind_modify fun _ _ => rfl) fun _ => ?_
  exact blind_get_bind (fun _ _ => rfl) fun _ => .bind (blind_lift withSpare _) fun _ =>
    .bind (blind_modify fun _ _ => rfl) fun _ => blind_setStats _

theorem blind_usageOf (p : PhysicalPage) : Blind withSpare (usageOf p) :=
  blind_get_bind (fun _ _ => rfl) fun _ => .bind (blind_lift withSpare _) fun _ =>
    .ite (blind_pure withSpare _) (blind_throw withSpare _)

theorem blind_frameIndex (p : PhysicalPage) : Blind withSpare (frameIndex p) :=
  blind_get_bind (fun _ _ => rfl) fun _ => blind_lift withSpare _

theorem blind_setUsage (p : PhysicalPage) (n : Nat) : Blind withSpare (setUsage p n) :=
  .bind (blind_frameIndex p) fun _ => blind_modify fun _ _ => rfl

theorem blind_addUser (p : PhysicalPage) : Blind withSpare (addUser p) := by
  refine .bind (blind_usageOf p) fun n => .ite (blind_throw_bind withSpare _ _) ?_
  exact .bind (blind_setUsage p _) fun _ => blind_pure withSpare _

theorem blind_removeUser (p : PhysicalPage) : Blind withSpare (removeUser p) := by
  refine .bind (blind_usageOf p) fun n => .ite (blind_throw_bind withSpare _ _) ?_
  exact .bind (blind_setUsage p _) fun _ => blind_pure withSpare _

theorem Request.blind (request : Request) : Blind withSpare request.run := by
  have answered {α : Type} {x : Step α} (h : Blind withSpare x) (g : α → Answer) :
      Blind withSpare (do return g (← x) : Step Answer) :=
    h.bind fun _ => blind_pure withSpare _
  cases request with
  | take => exact answered blind_take .taken
  | release p => exact answered (blind_release p) fun _ => .done
  | takeRegion start stop => exact answered (blind_takeRegion start stop) fun _ => .done
  | releaseRegion start stop => exact answered (blind_releaseRegion start stop) fun _ => .done
  | addUser p => exact answered (blind_addUser p) .users
  | removeUser p => exact answered (blind_removeUser p) .users

theorem Operation.blind (operation : Operation) : Blind withSpare operation.run := by
  cases operation with
  | request r => exact .bind r.blind fun _ => blind_pure withSpare _
  | usageOf p => exact .bind (blind_usageOf p) fun _ => blind_pure withSpare _
  | isFree p =>
    refine .bind (blind_get_bind (fun _ _ => rfl) fun _ => ?_) fun _ => blind_pure withSpare _
    exact .bind (blind_lift withSpare _) fun _ => blind_lift withSpare _
  | frameIndex p => exact .bind (blind_frameIndex p) fun _ => blind_pure withSpare _
  | frameAt i =>
    refine .bind (blind_get_bind (fun _ _ => rfl) fun _ => ?_) fun _ => blind_pure withSpare _
    exact blind_lift withSpare _
  | dump =>
    exact blind_get_bind (fun _ _ => rfl) fun _ => .bind (blind_lift withSpare _) fun _ =>
      blind_pure withSpare _

def Asks {α : Type} (question : Step α) : Prop := ∀ a, endState (question a) = a

theorem asks_lift {α : Type} (x : Except Fault α) : Asks (liftM x) := by
  intro a
  cases x <;> rfl

theorem asks_get_bind {α : Type} {next : FrameAllocator → Step α} (h : ∀ a, Asks (next a)) :
    Asks (get >>= next) :=
  fun a => h a a

theorem Asks.bind {α β : Type} {first : Step α} {next : α → Step β} (asks : Asks first)
    (h : ∀ v, Asks (next v)) : Asks (first >>= next) := by
  intro a
  have here := asks a
  cases e : first a with
  | ok v b =>
    rw [e] at here
    rw [step_bind_ok e, ← here]
    exact h v b
  | error f b =>
    rw [e] at here
    rw [step_bind_error e]
    exact here

theorem asks_usageOf (p : PhysicalPage) : Asks (usageOf p) := by
  refine asks_get_bind fun _ => (asks_lift _).bind fun _ a => ?_
  split <;> rfl

theorem Operation.kept (ha : a.Consistent) (operation : Operation) :
    (endState (operation.run a)).Consistent ∧
      (endState (operation.run a)).stats.total = a.stats.total := by
  have asked {question : Step Reply} (h : Asks question) :
      (endState (question a)).Consistent ∧ (endState (question a)).stats.total = a.stats.total := by
    rw [h a]
    exact ⟨ha, rfl⟩
  cases operation with
  | request r =>
    have sound := Request.sound ha r
    have run : (Operation.request r).run a = (r.run >>= fun v => pure (.answer v)) a := rfl
    rw [run]
    cases e : r.run a with
    | ok answer b =>
      rw [e] at sound
      rw [step_bind_ok e]
      exact ⟨sound.1, sound.2.total⟩
    | error f b =>
      rw [e] at sound
      rw [step_bind_error e]
      obtain ⟨rfl, -⟩ := sound
      exact ⟨ha, rfl⟩
  | usageOf p => exact asked ((asks_usageOf p).bind fun _ _ => rfl)
  | isFree p =>
    refine asked (Asks.bind ?_ fun _ _ => rfl)
    exact asks_get_bind fun _ => (asks_lift _).bind fun _ => asks_lift _
  | frameIndex p => exact asked ((asks_get_bind fun _ => asks_lift _).bind fun _ _ => rfl)
  | frameAt i => exact asked ((asks_get_bind fun _ => asks_lift _).bind fun _ _ => rfl)
  | dump => exact asked (asks_get_bind fun _ => (asks_lift _).bind fun _ _ => rfl)

theorem storage_eq_maps (a : FrameAllocator) : a.storage = a.maps ++ a.spare := rfl

theorem Shaped.maps_size (h : Shaped a) (words : MapLayout.storageWords a.stats.total = .ok n) :
    a.maps.size = n := by
  obtain ⟨m, bits, all⟩ := except_bind_eq_ok.1 words
  obtain ⟨-, rfl⟩ := fit_eq_ok.1 bits
  obtain ⟨-, rfl⟩ := fit_eq_ok.1 all
  simp only [maps, Array.size_append, h.frameWords, h.superframeWords, h.counters,
    MapLayout.forFrames]

theorem maps_withSpare (spare : Words) (a : FrameAllocator) :
    (a.withSpare spare).maps = a.maps := rfl

theorem own_withSpare (h : Shaped a) (words : MapLayout.storageWords a.stats.total = .ok n)
    (spare : Words) : (a.withSpare spare).storage.extract 0 n = a.maps := by
  rw [storage_eq_maps, maps_withSpare, ← h.maps_size words]
  simp

theorem observations_withSpare (ha : a.Consistent)
    (words : MapLayout.storageWords a.stats.total = .ok n) (spare : Words)
    (operations : List Operation) :
    observations n operations (a.withSpare spare) = observations n operations a := by
  induction operations generalizing a with
  | nil => rfl
  | cons operation rest ih =>
    obtain ⟨hb, total⟩ := operation.kept ha
    rw [observations, observations, operation.blind spare a, endState_inState, endValue_inState,
      ih hb (total ▸ words), own_withSpare hb.toShaped (total ▸ words)]
    exact congrArg (fun own => Observation.mk _ _ own :: _)
      (own_withSpare hb.toShaped (total ▸ words) _).symm

theorem after_withSpare (spare : Words) (operations : List Operation) (a : FrameAllocator) :
    after operations (a.withSpare spare) = (after operations a).withSpare spare := by
  induction operations generalizing a with
  | nil => rfl
  | cons operation rest ih =>
    rw [after, after, operation.blind spare a, endState_inState, ih]

theorem after_kept (ha : a.Consistent) (operations : List Operation) :
    (after operations a).Consistent ∧ (after operations a).stats.total = a.stats.total := by
  induction operations generalizing a with
  | nil => exact ⟨ha, rfl⟩
  | cons operation rest ih =>
    obtain ⟨hb, total⟩ := operation.kept ha
    obtain ⟨hc, total'⟩ := ih hb
    exact ⟨hc, total'.trans total⟩

theorem keepsBehind_after (ha : a.Consistent)
    (words : MapLayout.storageWords a.stats.total = .ok n) (enough : n ≤ storage.size)
    (operations : List Operation) :
    KeepsBehind n storage
      (after operations (a.withSpare (storage.extract n storage.size))) := by
  obtain ⟨hb, total⟩ := after_kept ha operations
  have size := hb.maps_size (total ▸ words)
  rw [after_withSpare, KeepsBehind, storage_eq_maps, maps_withSpare, Array.size_append, size]
  refine ⟨?_, fun i behind => ?_⟩
  · simp only [withSpare, Array.size_extract]
    omega
  · rw [Array.getElem?_append_right (by omega), size]
    simp only [withSpare, Array.getElem?_extract, Nat.min_self]
    split
    · rw [show n + (i - n) = i by omega]
    · exact (Array.getElem?_eq_none (by omega)).symm

theorem withSpare_allFree (kernel : Nat) (spare : Words) :
    (allFree memory kernel #[]).withSpare spare = allFree memory kernel spare := rfl

theorem setup_withSpare (words : MapLayout.storageWords memory.totalFrames = .ok n)
    (enough : n ≤ storage.size) :
    setup memory image storage = (setup memory image (Array.replicate n 0)).map
      (·.map (withSpare (storage.extract n storage.size))) := by
  have words : (MapLayout.forFrames memory.totalFrames).words = .ok n := words
  have zeros : n ≤ (Array.replicate n (0 : Word)).size := by simp
  simp only [setup, words, except_ok_bind, if_neg (Nat.not_lt.2 enough),
    if_neg (Nat.not_lt.2 zeros), carve_eq words enough, carve_eq words zeros]
  split
  · rfl
  rcases (MapLayout.forFrames memory.totalFrames).frames with f | own
  · rfl
  simp only [except_ok_bind]
  rcases fit 64 (image.frames + own) with f | kernel
  · rfl
  simp only [except_ok_bind]
  split
  · rfl
  rcases fit 64 memory.totalFrames with f | -
  · rfl
  have none : (Array.replicate n (0 : Word)).extract n (Array.replicate n (0 : Word)).size =
      #[] := by
    simp
  simp only [except_ok_bind, none]
  rw [← withSpare_allFree, blind_takeRegion]
  rcases takeRegion image.physical (endOfFrames image.physical kernel) (allFree memory kernel #[])
    with - | - <;> rfl

def setupEnd (memory : BootMemory) (image : Image) (storage : Words) :
    Except Fault (Except FrameSetupError Unit) :=
  (setup memory image storage).map (·.map fun _ => ())

theorem setupEnd_eq (words : MapLayout.storageWords memory.totalFrames = .ok n)
    (enough : n ≤ storage.size) :
    setupEnd memory image storage = setupEnd memory image (Array.replicate n 0) := by
  rw [setupEnd, setup_withSpare words enough, setupEnd]
  rcases setup memory image (Array.replicate n 0) with f | (e | c) <;> rfl

theorem exists_withSpare_of_setup (words : MapLayout.storageWords memory.totalFrames = .ok n)
    (enough : n ≤ storage.size) (ready : setup memory image storage = .ok (.ok a)) :
    ∃ c, setup memory image (Array.replicate n 0) = .ok (.ok c) ∧ c.Consistent ∧
      c.stats.total = memory.totalFrames ∧ a = c.withSpare (storage.extract n storage.size) := by
  rw [setup_withSpare words enough] at ready
  cases bare : setup memory image (Array.replicate n 0) with
  | error f => rw [bare] at ready; cases ready
  | ok made =>
    rw [bare] at ready
    cases made with
    | error e => cases ready
    | ok c =>
      cases ready
      obtain ⟨_, _, _, -, -, -, -, small, -⟩ := setup_eq_ok bare
      obtain ⟨hc, total, -⟩ := consistent_of_setup small bare
      exact ⟨c, rfl, hc, total, rfl⟩

/-- What the storage held is ignored: two set-ups in storage that is long enough end alike, and of
the two allocators nothing that is asked tells which is which, nor do the counts and the own words
after any operation.  Behind its own words an allocator leaves the storage as it was, from the
carving of the maps on. -/
theorem storage_ignored (words : MapLayout.storageWords memory.totalFrames = .ok n)
    (hs : n ≤ s.size) (ht : n ≤ t.size) :
    setupEnd memory image s = setupEnd memory image t ∧
      (∀ a b, setup memory image s = .ok (.ok a) → setup memory image t = .ok (.ok b) →
        a.stats = b.stats ∧ a.storage.extract 0 n = b.storage.extract 0 n ∧
        ∀ operations, observations n operations a = observations n operations b ∧
          KeepsBehind n s (after operations a) ∧ KeepsBehind n t (after operations b)) ∧
      ∀ kernel blank operations, carve memory kernel s = .ok blank →
        KeepsBehind n s (after operations blank) := by
  refine ⟨(setupEnd_eq words hs).trans (setupEnd_eq words ht).symm, fun a b ready ready' => ?_,
    fun kernel blank operations carved => ?_⟩
  · obtain ⟨c, bare, hc, total, rfl⟩ := exists_withSpare_of_setup words hs ready
    obtain ⟨c', bare', -, -, rfl⟩ := exists_withSpare_of_setup words ht ready'
    cases bare.symm.trans bare'
    rw [← total] at words
    refine ⟨rfl, ?_, fun operations => ⟨?_, keepsBehind_after hc words hs operations,
      keepsBehind_after hc words ht operations⟩⟩
    · rw [own_withSpare hc.toShaped words, own_withSpare hc.toShaped words]
    · rw [observations_withSpare hc words, observations_withSpare hc words]
  · rw [carve_eq words hs] at carved
    obtain ⟨_, small, made⟩ := except_bind_eq_ok.1 carved
    cases made
    rw [← withSpare_allFree]
    exact keepsBehind_after (consistent_allFree (fit_eq_ok.1 small).1) words hs operations

def litter : Words := Array.replicate 9 0xDEADBEEF

theorem storage_ignored_small :
    ∃ a b, setup ⟨8, 32⟩ smallImage (Array.replicate 7 0) = .ok (.ok a) ∧
      setup ⟨8, 32⟩ smallImage litter = .ok (.ok b) ∧ ∀ operations,
        observations 7 operations a = observations 7 operations b ∧
          KeepsBehind 7 litter (after operations b) := by
  obtain ⟨a, -, ready, -⟩ := exists_small_run
  obtain ⟨b, -, ready', -⟩ : ∃ b b', setup ⟨8, 32⟩ smallImage litter = .ok (.ok b) ∧
      Request.run .take b = .ok (.taken (.frame .first)) b' :=
    exists_of_answersFirst (by decide +kernel)
  have words : MapLayout.storageWords (BootMemory.totalFrames ⟨8, 32⟩) = .ok 7 := by rfl
  have hs : 7 ≤ (Array.replicate 7 0 : Words).size := by decide
  have ht : 7 ≤ litter.size := by decide
  obtain ⟨-, -, runs⟩ := (storage_ignored words hs ht).2.1 a b ready ready'
  exact ⟨a, b, ready, ready', fun operations => ⟨(runs operations).1, (runs operations).2.2⟩⟩

end Ia32Memory.FrameAllocator
