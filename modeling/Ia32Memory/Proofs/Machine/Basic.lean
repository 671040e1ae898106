import Ia32Memory.Machine.Basic
import Ia32Memory.Proofs.Frame.Pages

/-! Steps of a machine, evaluated.
Stores, clearings and notes always succeed and are given by the machine that they leave.  What the
allocator does inside a machine is what it does alone, and a request for a frame ends either with
none or with the lowest free one. -/

namespace Ia32Memory

namespace Machine

def withFrames (m : Machine) (frames : FrameAllocator) : Machine := { m with frames }

def noted (m : Machine) (e : Event) : Machine := { m with record := m.record.note e }

def said (m : Machine) (level : Level) (message : String) : Machine :=
  { m with record := m.record.say level message }

def stored (m : Machine) (table : PhysicalPage) (slot : Slot) (e : Entry) : Machine :=
  { m with
    memory := m.memory.put table slot e
    record := m.record.note (.stored table slot e) }

def cleared (m : Machine) (table : PhysicalPage) : Machine :=
  { m with
    memory := m.memory.clear table
    record := m.record.note (.cleared table) }

end Machine

namespace Paging
variable {m : Machine} {frames : FrameAllocator} {α : Type} {step : FrameAllocator.Step α} {x : α}

@[simp] theorem entry_eq (table : PhysicalPage) (slot : Slot) :
    entry table slot m = .ok (m.memory.word table slot) m := rfl

@[simp] theorem store_eq (table : PhysicalPage) (slot : Slot) (e : Entry) :
    store table slot e m = .ok () (m.stored table slot e) := rfl

@[simp] theorem invalidate_eq (page : VirtualPage) :
    invalidate page m = .ok () (m.noted (.invalidated page)) := rfl

theorem onFrames_ok (h : step m.frames = .ok x frames) :
    onFrames step m = .ok x (m.withFrames frames) := by
  unfold onFrames
  split
  rw [h]
  rfl

theorem onFrames_eq_ok {m' : Machine} :
    onFrames step m = .ok x m' ↔ ∃ frames, step m.frames = .ok x frames ∧
      m' = m.withFrames frames := by
  constructor
  · intro ran
    unfold onFrames at ran
    split at ran
    split at ran
    · rename_i took
      cases ran
      exact ⟨_, took, rfl⟩
    · exact nomatch ran
  · rintro ⟨frames, took, rfl⟩
    exact onFrames_ok took

def metered (m : Machine) : Machine := { m with quota := m.quota.map (· - 1) }

theorem withinQuota_cases (m : Machine) :
    (m.quota = some 0 ∧ withinQuota m = .ok false m) ∨
      (m.quota ≠ some 0 ∧ withinQuota m = .ok true (metered m)) := by
  obtain ⟨frames, quota, memory, record⟩ := m
  cases quota with
  | none => exact Or.inr ⟨nofun, rfl⟩
  | some n =>
    cases n with
    | zero => exact Or.inl ⟨rfl, rfl⟩
    | succ n => exact Or.inr ⟨by simp, rfl⟩

/-- A machine that only differs in its quota and in what it has said. -/
structure Quiet (m m' : Machine) : Prop where
  frames : m'.frames = m.frames
  memory : m'.memory = m.memory
  events : m'.record.events = m.record.events

theorem Quiet.refl (m : Machine) : Quiet m m := ⟨rfl, rfl, rfl⟩

theorem quiet_unmetered (m : Machine) : Quiet m ⟨m.frames, none, m.memory, m.record⟩ :=
  ⟨rfl, rfl, rfl⟩

theorem takeFrame_cases (h : m.frames.Managing) :
    ((m.quota = some 0 ∨ m.frames.freePages = ∅) ∧
      ∃ m', takeFrame m = .ok none m' ∧ Quiet m m') ∨
    (m.quota ≠ some 0 ∧ ∃ p frames, p ∈ m.frames.freePages ∧
      (∀ q ∈ m.frames.freePages, p.number ≤ q.number) ∧
      takeFrame m = .ok (some p) ((metered m).withFrames frames) ∧
      FrameAllocator.Became m.frames frames (m.frames.freePages \ {p})) := by
  rcases withinQuota_cases m with ⟨spent, e⟩ | ⟨left, e⟩
  · exact Or.inl ⟨Or.inl spent, m, by rw [takeFrame, step_bind_ok e]; rfl, .refl m⟩
  · have begun : takeFrame m = takeUnmetered (metered m) := by
      rw [takeFrame, step_bind_ok e]
      rfl
    have same : (metered m).frames = m.frames := rfl
    rcases h.take with ⟨none, took⟩ | ⟨p, frames, free, lowest, took, became⟩
    · rw [← same] at took
      refine Or.inl ⟨Or.inr none, (metered m).said .warn "out of physical memory", ?_,
        rfl, rfl, rfl⟩
      rw [begun, takeUnmetered, step_bind_ok (onFrames_ok took)]
      rfl
    · rw [← same] at took
      refine Or.inr ⟨left, p, frames, free, lowest, ?_, became⟩
      rw [begun, takeUnmetered, step_bind_ok (onFrames_ok took)]
      rfl

end Paging
end Ia32Memory
