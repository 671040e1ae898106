import Ia32Memory.Proofs.Machine.Accounts

/-! What the record tells of memory, and of the walks through it.
The stores, clearings and fillings that a run records are all that it does to memory, so memory at
any moment of the run is got by replaying them.  A translation that a processor has kept is stale as
soon as the walk of its page has changed, until the page is invalidated.  So each event that changes
a walk has to be followed by an invalidation of the page; only pages of slots without a table at the
start are let off, for there is nothing of them to be kept. -/

namespace Ia32Memory

def Event.applyTo (mem : PhysicalMemory) : Event → PhysicalMemory
  | .stored table slot entry => mem.put table slot entry
  | .cleared table => mem.clear table
  | .zeroed _ frame _ => mem.clear frame
  | .invalidated _ | .pagingEnabled _ _ | .segmentsFlattened => mem

def PhysicalMemory.replay (mem : PhysicalMemory) (events : List Event) : PhysicalMemory :=
  events.foldl Event.applyTo mem

theorem PhysicalMemory.replay_append (mem : PhysicalMemory) (es es' : List Event) :
    mem.replay (es ++ es') = (mem.replay es).replay es' := List.foldl_append

/-- What was recorded in between, and memory as that tells it. -/
structure Journal (m m' : Machine) (events : List Event) : Prop where
  record : m'.record.events.toList = m.record.events.toList ++ events
  memory : m'.memory = m.memory.replay events

theorem Journal.trans {m m' m'' : Machine} {es es' : List Event} (h : Journal m m' es)
    (h' : Journal m' m'' es') : Journal m m'' (es ++ es') := by
  refine ⟨?_, ?_⟩
  · rw [h'.record, h.record, List.append_assoc]
  · rw [h'.memory, h.memory, PhysicalMemory.replay_append]

theorem journal_of_same {m m' : Machine} (memory : m'.memory = m.memory)
    (events : m'.record.events = m.record.events) : Journal m m' [] :=
  ⟨by rw [events, List.append_nil], memory⟩

namespace AddressSpace

/-- Frame and flags that the walk of a page ends with, the windows of tables included. -/
def walked (s : AddressSpace) (mem : PhysicalMemory) (p : VirtualPage) :
    Option (PhysicalPage × Entry) :=
  if (s.link mem p.directorySlot).present then
    Entry.mapped? (mem.word (s.link mem p.directorySlot).frame p.tableSlot)
  else none

def tableless (s : AddressSpace) (mem : PhysicalMemory) : Set VirtualPage :=
  {p | (s.link mem p.directorySlot).present = false}

/-- What is asked of an event: a page whose walk it changes is invalidated later on, and a table
that it takes away leads nowhere any more, so that no walk changes but that of its window. -/
structure Clean (s : AddressSpace) (hidden : Set VirtualPage) (mem : PhysicalMemory) (e : Event)
    (after : List Event) : Prop where
  flushed : ∀ p, p ∉ hidden → s.walked (e.applyTo mem) p ≠ s.walked mem p →
    .invalidated p ∈ after
  vacant : ∀ d, (s.link mem d).present = true → (s.link (e.applyTo mem) d).present = false →
    (∀ p, p.directorySlot = d → s.walked mem p = none) ∧
      ∀ p, p ≠ d.window → s.walked (e.applyTo mem) p = s.walked mem p

def AllClean (s : AddressSpace) (hidden : Set VirtualPage) : PhysicalMemory → List Event → Prop
  | _, [] => True
  | mem, e :: es => s.Clean hidden mem e es ∧ AllClean s hidden (e.applyTo mem) es

def Coherent (s : AddressSpace) (m m' : Machine) (hidden : Set VirtualPage) : Prop :=
  ∃ events, Journal m m' events ∧ s.AllClean hidden m.memory events

variable {s : AddressSpace} {m m' m'' : Machine} {mem mem' : PhysicalMemory} {bare : Option Slot}
  {d : Slot} {f : PhysicalPage} {e : Entry} {p page : VirtualPage}
  {hidden hidden' : Set VirtualPage} {event : Event} {es es' before after : List Event}

theorem walked_of_ordinary (ordinary : p.directorySlot ≠ .recursive) :
    s.walked mem p = s.mapping mem p := by
  rw [mapping, if_neg ordinary, walked]

theorem walked_of_absent (absent : (s.link mem p.directorySlot).present = false) :
    s.walked mem p = none := by
  rw [walked, absent]
  rfl

theorem LoopsBack.walked_window (loop : s.LoopsBack mem) (d : Slot) :
    s.walked mem d.window = (s.link mem d).mapped? := by
  rw [walked, d.directorySlot_window, d.tableSlot_window, if_pos loop.present, loop.frame]
  rfl

theorem walked_of_aim
    (present : (s.link mem' p.directorySlot).present = (s.link mem p.directorySlot).present)
    (frame : (s.link mem' p.directorySlot).frame = (s.link mem p.directorySlot).frame)
    (word : (s.link mem p.directorySlot).present = true →
      mem'.word (s.link mem p.directorySlot).frame p.tableSlot =
        mem.word (s.link mem p.directorySlot).frame p.tableSlot) :
    s.walked mem' p = s.walked mem p := by
  unfold walked
  rw [present, frame]
  cases here : (s.link mem p.directorySlot).present with
  | false => rfl
  | true => rw [if_pos rfl, if_pos rfl, word here]

theorem Intact.frame_of_present (h : s.Intact m bare)
    (present : (s.link m.memory d).present = true) :
    (d = .recursive ∧ (s.link m.memory d).frame = s.root) ∨
      s.Links m.memory d (s.link m.memory d).frame := by
  by_cases last : d = .recursive
  · subst last
    exact Or.inl ⟨rfl, h.loop.frame⟩
  · exact Or.inr (links_of_present last present)

theorem Intact.walked_put (h : s.Intact m bare) (linked : s.Links m.memory page.directorySlot f)
    (other : p ≠ page) :
    s.walked (m.memory.put f page.tableSlot e) p = s.walked m.memory p := by
  have ne := h.notRoot _ f linked
  have link : ∀ d, s.link (m.memory.put f page.tableSlot e) d = s.link m.memory d :=
    link_put_of_ne ne
  refine walked_of_aim (by rw [link]) (by rw [link]) fun present => ?_
  rw [PhysicalMemory.word_put, if_neg]
  rintro ⟨frame, slot⟩
  rcases h.frame_of_present present with ⟨-, root⟩ | there
  · exact ne (frame.trans root)
  · rw [← frame] at there
    have same := h.unique _ _ _ linked there
    rw [← Page.ofSlots_slots p, ← Page.ofSlots_slots page, same, slot] at other
    exact other rfl

theorem Intact.walked_put_root (h : s.Intact m bare) (other : p ≠ d.window)
    (aim : p.directorySlot = d →
      e.present = (s.link m.memory d).present ∧ e.frame = (s.link m.memory d).frame) :
    s.walked (m.memory.put s.root d e) p = s.walked m.memory p := by
  have link : (s.link (m.memory.put s.root d e) p.directorySlot).present =
        (s.link m.memory p.directorySlot).present ∧
      (s.link (m.memory.put s.root d e) p.directorySlot).frame =
        (s.link m.memory p.directorySlot).frame := by
    rw [link_put_root]
    by_cases here : p.directorySlot = d
    · rw [if_pos here, here]
      exact aim here
    · rw [if_neg here]
      exact ⟨rfl, rfl⟩
  refine walked_of_aim link.1 link.2 fun present => ?_
  rw [PhysicalMemory.word_put, if_neg]
  rintro ⟨frame, slot⟩
  rcases h.frame_of_present present with ⟨last, -⟩ | there
  · rw [← Page.ofSlots_slots p, last, ← slot] at other
    exact other rfl
  · exact h.notRoot _ _ there frame.symm

theorem walked_clear (notRoot : f ≠ s.root)
    (notLinked : (s.link mem p.directorySlot).present = true →
      (s.link mem p.directorySlot).frame ≠ f) :
    s.walked (mem.clear f) p = s.walked mem p := by
  have link := link_clear (s := s) mem notRoot
  refine walked_of_aim (by rw [link]) (by rw [link]) fun present => ?_
  rw [PhysicalMemory.word_clear, if_neg (notLinked present).symm]

theorem clean_of_same (walk : ∀ p, p ∉ hidden → s.walked (event.applyTo mem) p = s.walked mem p)
    (link : ∀ d, (s.link mem d).present = true → (s.link (event.applyTo mem) d).present = true) :
    s.Clean hidden mem event after := by
  refine ⟨fun p seen changed => absurd (walk p seen) changed, fun d present absent => ?_⟩
  rw [link d present] at absent
  exact Bool.noConfusion absent

theorem clean_invalidated (page : VirtualPage) :
    s.Clean hidden mem (.invalidated page) after :=
  clean_of_same (fun _ _ => rfl) fun _ present => present

theorem Clean.mono (h : s.Clean hidden mem event es) (wider : hidden ⊆ hidden')
    (more : es ⊆ es') : s.Clean hidden' mem event es' :=
  ⟨fun p seen changed => more (h.flushed p (fun mem => seen (wider mem)) changed), h.vacant⟩

theorem AllClean.mono (h : s.AllClean hidden mem es) (wider : hidden ⊆ hidden') :
    s.AllClean hidden' mem es := by
  induction es generalizing mem with
  | nil => trivial
  | cons event es ih => exact ⟨h.1.mono wider (List.Subset.refl _), ih h.2⟩

theorem AllClean.append (h : s.AllClean hidden mem es)
    (h' : s.AllClean hidden (mem.replay es) es') : s.AllClean hidden mem (es ++ es') := by
  induction es generalizing mem with
  | nil => exact h'
  | cons event es ih =>
    exact ⟨h.1.mono subset_rfl (List.subset_append_left es es'), ih h.2 h'⟩

theorem AllClean.at (h : s.AllClean hidden mem (before ++ event :: after)) :
    s.Clean hidden (mem.replay before) event after := by
  induction before generalizing mem with
  | nil => exact h.1
  | cons _ _ ih => exact ih h.2

def Steady (s : AddressSpace) (p : VirtualPage) (mem : PhysicalMemory) (es : List Event) : Prop :=
  ∀ stage, stage <+: es → s.walked (mem.replay stage) p = s.walked mem p

theorem Steady.last (h : s.Steady p mem es) : s.walked (mem.replay es) p = s.walked mem p :=
  h es List.prefix_rfl

theorem Steady.cons (h : s.Steady p (event.applyTo mem) es)
    (same : s.walked (event.applyTo mem) p = s.walked mem p) : s.Steady p mem (event :: es) := by
  rintro stage inside
  rcases List.prefix_cons_iff.1 inside with rfl | ⟨rest, rfl, within⟩
  · rfl
  · exact (h rest within).trans same

theorem Steady.drop (h : s.Steady p mem (before ++ after)) :
    s.Steady p (mem.replay before) after := by
  intro stage inside
  have whole := h (before ++ stage) ((List.prefix_append_right_inj before).2 inside)
  rw [PhysicalMemory.replay_append] at whole
  exact whole.trans (h before (List.prefix_append before after)).symm

/-- After the last change of a walk the page is invalidated. -/
theorem AllClean.settles (h : s.AllClean hidden mem es) (seen : p ∉ hidden) :
    s.Steady p mem es ∨ ∃ before after, es = before ++ .invalidated p :: after ∧
      s.Steady p (mem.replay before) (.invalidated p :: after) := by
  -- The last change is sought from behind, so the rest of the row is settled before its head.
  induction es generalizing mem with
  | nil =>
    refine Or.inl fun stage inside => ?_
    rw [List.prefix_nil.1 inside]
    rfl
  | cons event es ih =>
    obtain ⟨clean, rest⟩ := h
    rcases ih rest with steady | ⟨before, after, rfl, steady⟩
    · by_cases same : s.walked (event.applyTo mem) p = s.walked mem p
      · exact Or.inl (steady.cons same)
      · obtain ⟨before, after, rfl⟩ := List.append_of_mem (clean.flushed p seen same)
        exact Or.inr ⟨event :: before, after, rfl, steady.drop⟩
    · exact Or.inr ⟨event :: before, after, rfl, steady⟩

theorem coherent_of_same (memory : m'.memory = m.memory)
    (events : m'.record.events = m.record.events) : s.Coherent m m' hidden :=
  ⟨[], journal_of_same memory events, trivial⟩

theorem Coherent.mono (h : s.Coherent m m' hidden) (wider : hidden ⊆ hidden') :
    s.Coherent m m' hidden' := by
  obtain ⟨events, journal, clean⟩ := h
  exact ⟨events, journal, clean.mono wider⟩

theorem Coherent.trans (h : s.Coherent m m' hidden) (h' : s.Coherent m' m'' hidden) :
    s.Coherent m m'' hidden := by
  obtain ⟨es, journal, clean⟩ := h
  obtain ⟨es', journal', clean'⟩ := h'
  rw [journal.memory] at clean'
  exact ⟨es ++ es', journal.trans journal', clean.append clean'⟩

theorem Coherent.widen (h : s.Coherent m m' ∅) : s.Coherent m m' hidden :=
  h.mono (Set.empty_subset hidden)

end AddressSpace
end Ia32Memory
