import Ia32Memory.Kernel.Basic
import Ia32Memory.Proofs.Step
import Ia32Memory.Proofs.Lock.Brackets

/-! The calls on the kernel's shared state, interrupted anywhere.
All of them are in order, the lock of the root ranking below that of the memory.  So none waits for
a lock, even if handlers that make such calls come wherever interrupts are on, and into these more
handlers.  That the steps hold the locks that they name means something only if they name what they
touch; what they do not name they neither read nor write. -/

namespace Ia32Memory

def Critical.EachStep {L σ ε : Type}
    (P : {α : Type} → List L → (Bool → List L → EStateM ε σ α) → Prop) {α : Type} :
    Critical L σ ε α → Prop
  | .done _ => True
  | .step touches body => P touches body
  | .andThen first next => first.EachStep P ∧ ∀ b, (next b).EachStep P
  | .masked body => body.EachStep P
  | .locked _ body => body.EachStep P

namespace Lock

def rank : Lock → Nat
  | root => 0
  | memory => 1

end Lock

namespace Kernel

inductive MappingCall : (α : Type) → Call α → Prop
  | initPaging : MappingCall _ initPaging
  | mapPage (page : VirtualPage) (frame : PhysicalPage) (flags : Entry) :
      MappingCall _ (mapPage page frame flags)
  | unmapPage (page : VirtualPage) : MappingCall _ (unmapPage page)
  | allocPage (page : VirtualPage) (flags : Entry) : MappingCall _ (allocPage page flags)
  | freePage (page : VirtualPage) : MappingCall _ (freePage page)
  | mapRange (start stop : VirtualAddress) (flags : Entry) :
      MappingCall _ (mapRange start stop flags)
  | unmapRange (start stop : VirtualAddress) : MappingCall _ (unmapRange start stop)
  | mapDirect (start stop : VirtualAddress) (target : PhysicalAddress) (flags : Entry) :
      MappingCall _ (mapDirect start stop target flags)
  | unmapDirect (start stop : VirtualAddress) : MappingCall _ (unmapDirect start stop)
  | query (address : VirtualAddress) : MappingCall _ (query address)
  | releaseInit : MappingCall _ releaseInit

inductive SharedCall : (α : Type) → Call α → Prop
  | mapping {α : Type} {call : Call α} : MappingCall α call → SharedCall α call
  | initFrames (memory : BootMemory) (image : Image) (storage : WordRange) :
      SharedCall _ (initFrames memory image storage)
  | image : SharedCall _ image
  | stats : SharedCall _ stats
  | takeFrame : SharedCall _ takeFrame
  | releaseFrame (frame : PhysicalPage) : SharedCall _ (releaseFrame frame)
  | takeRegion (start stop : PhysicalAddress) : SharedCall _ (takeRegion start stop)
  | releaseRegion (start stop : PhysicalAddress) : SharedCall _ (releaseRegion start stop)
  | addUser (frame : PhysicalPage) : SharedCall _ (addUser frame)
  | removeUser (frame : PhysicalPage) : SharedCall _ (removeUser frame)
  | dumpMaps : SharedCall _ dumpMaps
  | currentRoot : SharedCall _ currentRoot
  | switchSpace (root : PhysicalPage) : SharedCall _ (switchSpace root)

variable {α : Type}

theorem bracketed_onMemory (run : Step α) :
    Critical.Bracketed Lock.rank (.maskedLocked .memory (.touch [.memory] run) : Call α) false [] :=
  ⟨rfl, nofun, List.Subset.refl _⟩

theorem bracketed_onRoot (run : Step α) :
    Critical.Bracketed Lock.rank (.maskedLocked .root (.touch [.root] run) : Call α) false [] :=
  ⟨rfl, nofun, List.Subset.refl _⟩

theorem bracketed_inRoot (run : Step α) :
    Critical.Bracketed Lock.rank (.locked .memory (.touch [.root, .memory] run) : Call α) true
      [.root] :=
  ⟨rfl, by decide, List.Perm.subset (.swap _ _ _)⟩

theorem bracketed_withSpace (run : AddressSpace → Paging α) :
    (withSpace run).Bracketed Lock.rank false [] :=
  ⟨rfl, nofun, List.Subset.refl _, fun space => bracketed_inRoot (onMachine (run space))⟩

theorem bracketed_initPaging : initPaging.Bracketed Lock.rank false [] := by
  refine ⟨rfl, nofun, List.Subset.refl _, fun _ => ⟨bracketed_inRoot _, fun built => ?_⟩⟩
  cases built with
  | error e => trivial
  | ok space => exact ⟨List.Subset.refl _, fun _ => trivial⟩

theorem bracketed_releaseInit : releaseInit.Bracketed Lock.rank false [] := by
  refine ⟨bracketed_onMemory _, fun found => ?_⟩
  cases found with
  | none => exact List.nil_subset _
  | some image => exact ⟨List.nil_subset _, fun stop => bracketed_withSpace _⟩

theorem MappingCall.bracketed {call : Call α} (h : MappingCall α call) :
    call.Bracketed Lock.rank false [] := by
  cases h with
  | initPaging => exact bracketed_initPaging
  | releaseInit => exact bracketed_releaseInit
  | _ => exact bracketed_withSpace _

theorem SharedCall.bracketed {call : Call α} (h : SharedCall α call) :
    call.Bracketed Lock.rank false [] := by
  cases h with
  | mapping h => exact h.bracketed
  | currentRoot | switchSpace => exact bracketed_onRoot _
  | _ => exact bracketed_onMemory _

/-- A step names these locks, or it neither reads nor writes this part of the state. -/
def Names {ν : Type} (put : ν → Kernel → Kernel) (locks : List Lock) {α : Type}
    (touches : List Lock) (body : Bool → List Lock → Step α) : Prop :=
  locks ⊆ touches ∨ ∀ flag held, Blind put (body flag held)

def withOwned (owned : Option KernelMemory) (k : Kernel) : Kernel := { k with owned }

def withRam (ram : PhysicalMemory) (k : Kernel) : Kernel := { k with ram }

structure Apart {ν : Type} (put : ν → Kernel → Kernel) : Prop where
  root : ∀ v k, (put v k).root = k.root
  processor : ∀ v k, (put v k).processor = k.processor
  active : ∀ v k root paging, put v { k with root, paging } = { put v k with root, paging }

theorem apart_withOwned : Apart withOwned := ⟨fun _ _ => rfl, fun _ _ => rfl, fun _ _ _ _ => rfl⟩

theorem apart_withRam : Apart withRam := ⟨fun _ _ => rfl, fun _ _ => rfl, fun _ _ _ _ => rfl⟩

section Apart
variable {ν : Type} {put : ν → Kernel → Kernel} {locks : List Lock}

theorem Apart.blind_requireSpace (apart : Apart put) : Blind put requireSpace := by
  intro v k
  unfold requireSpace
  rw [step_get_bind, step_get_bind, apart.root]
  cases k.root with
  | none => rfl
  | some root =>
    have same : (put v k).spaceUnder root = k.spaceUnder root := by
      unfold spaceUnder
      rw [apart.processor]
    exact congrArg (fun space => EStateM.Result.ok space (put v k)) same

theorem Apart.names_withSpace (apart : Apart put) (among : locks ⊆ [.root, .memory])
    (run : AddressSpace → Paging α) : (withSpace run).EachStep (Names put locks) :=
  ⟨.inr fun _ _ => apart.blind_requireSpace, fun _ => .inl among⟩

theorem Apart.names_initPaging (apart : Apart put) (among : locks ⊆ [.root, .memory]) :
    initPaging.EachStep (Names put locks) := by
  have once : Blind put (do if (← get).root.isSome then throw .pagingReady : Step Unit) := by
    intro v k
    rw [step_get_bind, step_get_bind, apart.root]
    cases k.root <;> rfl
  refine ⟨.inr fun _ _ => once, fun _ => ⟨.inl among, fun built => ?_⟩⟩
  cases built with
  | error e => trivial
  | ok space =>
    refine ⟨.inr fun _ _ v k => ?_, fun _ => trivial⟩
    exact congrArg (EStateM.Result.ok ()) (apart.active v k _ _).symm

theorem Apart.names_releaseInit (apart : Apart put) (among : locks ⊆ [.root, .memory])
    (found : image.EachStep (Names put locks)) : releaseInit.EachStep (Names put locks) := by
  refine ⟨found, fun found => ?_⟩
  cases found with
  | none => exact .inr fun _ _ => blind_throw put _
  | some image =>
    exact ⟨.inr fun _ _ => blind_lift put image.init.pageStop,
      fun _ => apart.names_withSpace among _⟩

theorem Apart.names_mappingCall (apart : Apart put) (among : locks ⊆ [.root, .memory])
    (found : image.EachStep (Names put locks)) {call : Call α} (h : MappingCall α call) :
    call.EachStep (Names put locks) := by
  cases h with
  | initPaging => exact apart.names_initPaging among
  | releaseInit => exact apart.names_releaseInit among found
  | _ => exact apart.names_withSpace among _

end Apart

theorem MappingCall.names_ram {call : Call α} (h : MappingCall α call) :
    call.EachStep (Names withRam [.root, .memory]) :=
  apart_withRam.names_mappingCall (List.Subset.refl _) (.inr fun _ _ _ _ => rfl) h

theorem SharedCall.names_owned {call : Call α} (h : SharedCall α call) :
    call.EachStep (Names withOwned [.memory]) := by
  have named {β : Type} {body : Bool → List Lock → Step β} :
      Names withOwned [.memory] [.memory] body :=
    .inl (List.Subset.refl _)
  cases h with
  | mapping h => exact apart_withOwned.names_mappingCall (by decide) named h
  | currentRoot | switchSpace => exact .inr fun _ _ _ _ => rfl
  | _ => exact named

open Outcomes

/-- How things are right after an act. -/
structure Sheltered (m : Moment Lock) : Prop where
  masked : m.held ≠ [] → m.interrupts = false
  was_free : ∀ l, m.act = .acquired l → ∃ rest, m.held = l :: rest ∧ l ∉ rest
  root_first : m.act = .acquired .root → .memory ∉ m.held
  touched : ∀ locks, m.act = .touched locks → ∀ l ∈ locks, l ∈ m.held ∧ m.interrupts = false

theorem sheltered_of_inOrder {m : Moment Lock} (h : m.InOrder Lock.rank) : Sheltered m := by
  refine ⟨h.masked, fun l took => ?_, fun took held => ?_, fun locks touched l named => ?_⟩
  · obtain ⟨rest, e, lower⟩ := h.ascending l took
    exact ⟨rest, e, fun again => Nat.lt_irrefl _ (lower l again)⟩
  · obtain ⟨rest, e, lower⟩ := h.ascending .root took
    rw [e] at held
    rcases List.mem_cons.1 held with same | below
    · exact nomatch same
    · exact Nat.not_lt_zero _ (lower .memory below)
  · have held := h.covered locks touched named
    exact ⟨held, h.masked (List.ne_nil_of_mem held)⟩

/-- All that was done in between was sheltered. -/
def ShelteredSince (c c' : Core Lock Kernel) : Prop :=
  ∃ more, c'.journal = more ++ c.journal ∧ ∀ m ∈ more, Sheltered m

theorem shelteredSince_of_orderly {c c' : Core Lock Kernel} (h : c.Orderly Lock.rank c') :
    ShelteredSince c c' := by
  obtain ⟨more, e, ordered⟩ := h
  exact ⟨more, e, fun m mem => sheltered_of_inOrder (ordered m mem)⟩

/-- From free locks, no call waits forever, wherever handlers come that make such calls; it ends,
returning or stopped, with the locks free and the flag as it was, and so does each run.  The same
holds for programs of such calls.  Steps hold the locks that they name, with interrupts off, and
name what they touch: the allocator with the lock of the memory, and in calls on the mappings,
memory with both locks. -/
theorem calls_never_wait (depth : Nat) (c : Core Lock Kernel) (free : c.held = []) :
    (∀ (α : Type) (call : Call α), SharedCall α call →
      (∀ o, call.ends (pauseAt SharedCall depth) c o → ∃ result c', o = some (result, c') ∧
        c'.held = [] ∧ c'.interrupts = c.interrupts ∧ ShelteredSince c c') ∧
      (∀ between, (∀ c, pauseAt SharedCall depth c (some ((), between c))) →
        call.ends (pauseAt SharedCall depth) c (Critical.outcome (call.run between c))) ∧
      call.EachStep (Names withOwned [.memory])) ∧
    (∀ (α : Type) (call : Call α), MappingCall α call →
      call.EachStep (Names withRam [.root, .memory])) ∧
    ∀ o, program SharedCall (pauseAt SharedCall depth) c o →
      ∃ c', o = some ((), c') ∧ c'.held = [] ∧ ShelteredSince c c' := by
  have harmless : Harmless Lock.rank (pauseAt SharedCall depth) :=
    harmless_pauseAt (fun _ _ => SharedCall.bracketed) depth
  refine ⟨fun α call shared => ⟨fun o ended => ?_, fun between may => ?_, shared.names_owned⟩,
    fun α call mapping => mapping.names_ram, fun o ended => ?_⟩
  · obtain ⟨result, c', e, settled⟩ :=
      harmless.surely_ends shared.bracketed free nofun (Core.shielded_of_free free) o ended
    exact ⟨result, c', e, settled.held.trans free, settled.interrupts,
      shelteredSince_of_orderly settled.orderly⟩
  · exact Critical.ends_run may call c
  · obtain ⟨_, c', e, free', orderly⟩ :=
      harmless.surely_program (fun _ _ => SharedCall.bracketed) free o ended
    exact ⟨c', e, free', shelteredSince_of_orderly orderly⟩

def asksFirst (c : Core Lock Kernel) : Core Lock Kernel :=
  if c.interrupts = true ∧ c.held = [] ∧ c.journal = [] then (currentRoot.run id c).2 else c

theorem pauseAt_asksFirst (c : Core Lock Kernel) :
    pauseAt SharedCall 1 c (some ((), asksFirst c)) := by
  unfold asksFirst
  split
  · rename_i early
    obtain ⟨interrupts, held, journal, k⟩ := c
    obtain ⟨rfl, rfl, rfl⟩ := early
    let c : Core Lock Kernel := ⟨true, [], [], k⟩
    let c' := (currentRoot.run id c).2
    have still : ∀ c : Core Lock Kernel, pauseAt SharedCall 0 c (some ((), id c)) := fun _ => rfl
    have asks : currentRoot.ends (pauseAt SharedCall 0) c (some (.ok k.root, c')) :=
      Critical.ends_run still currentRoot c
    have ran : program SharedCall (pauseAt SharedCall 0) c (some ((), c')) :=
      .again (.inl ⟨_, _, .currentRoot, bind_of_some asks rfl⟩) (.never c')
    have came : handled (program SharedCall (pauseAt SharedCall 0)) c (some ((), c')) :=
      ⟨rfl, true, bind_of_some rfl (bind_of_some ran rfl)⟩
    exact .again came (.never c')
  · exact .never c

theorem calls_never_wait_small :
    (Core.start (fresh 0 0) : Core Lock Kernel).held = [] ∧
      ∃ result c', Critical.outcome (stats.run asksFirst (.start (fresh 0 0))) = some (result, c') ∧
        c'.held = [] ∧ c'.interrupts = true ∧ c'.journal.length = 10 := by
  obtain ⟨ends, runs, -⟩ := (calls_never_wait 1 (.start (fresh 0 0)) rfl).1 _ stats .stats
  obtain ⟨result, c', e, free, interrupts, -⟩ := ends _ (runs asksFirst pauseAt_asksFirst)
  have length : ∀ r d, Critical.outcome (stats.run asksFirst (.start (fresh 0 0))) = some (r, d) →
      d.journal.length = 10 := fun _ _ e => by cases e; rfl
  exact ⟨rfl, result, c', e, free, interrupts, length _ _ e⟩

end Kernel
end Ia32Memory
