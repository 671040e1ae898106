import Mathlib.Data.Set.Function
import Ia32Memory.Proofs.Machine.Lifetime

/-! The window of the recursive slot.
The slot that links the directory makes it a table of its own links, so the page at each place of
the window shows what the link of that slot leads to, and the last page the directory.  Nothing else
is asked of the directory for that.  Mapping and unmapping keep off the last slot and write to other
slots and to tables only.  As long as no other slot links the directory and the allocator does not
hand out its frame, the window therefore goes on showing what the links say, whatever is mapped and
unmapped in between, and also where a call is stopped halfway. -/

namespace Ia32Memory

def Surely {σ α : Type} (run : EStateM Fault σ α) (x : σ) (after : σ → Prop)
    (gives : α → σ → Prop) : Prop :=
  match run x with
  | .ok a y => after y ∧ gives a y
  | .error _ y => after y

def EndsIn {σ α : Type} (run : EStateM Fault σ α) (x y : σ) : Prop :=
  (∃ a, run x = .ok a y) ∨ ∃ f, run x = .error f y

namespace Surely
variable {σ α β : Type} {run : EStateM Fault σ α} {x y : σ} {after : σ → Prop}
  {gives : α → σ → Prop}

theorem of_ok {a : α} (ran : run x = .ok a y) (done : after y) (given : gives a y) :
    Surely run x after gives := by
  rw [Surely, ran]
  exact ⟨done, given⟩

theorem of_error {f : Fault} (ran : run x = .error f y) (done : after y) :
    Surely run x after gives := by
  rw [Surely, ran]
  exact done

theorem bind {next : α → EStateM Fault σ β} {gives' : β → σ → Prop}
    (first : Surely run x after gives)
    (second : ∀ a y, after y → gives a y → Surely (next a) y after gives') :
    Surely (run >>= next) x after gives' := by
  unfold Surely at first
  cases ran : run x with
  | ok a y =>
    rw [ran] at first
    rw [Surely, step_bind_ok ran]
    exact second a y first.1 first.2
  | error f y =>
    rw [ran] at first
    rw [Surely, step_bind_error ran]
    exact first

theorem step {next : α → EStateM Fault σ β} {gives' : β → σ → Prop} {a : α}
    (ran : run x = .ok a y) (rest : Surely (next a) y after gives') :
    Surely (run >>= next) x after gives' := by
  rw [Surely, step_bind_ok ran]
  exact rest

theorem lift {value : Except Fault α} (done : after x) (given : ∀ a, value = .ok a → gives a x) :
    Surely (liftM value : EStateM Fault σ α) x after gives := by
  cases value with
  | ok a => exact ⟨done, given a rfl⟩
  | error f => exact done

theorem ite {c : Prop} [Decidable c] {run' : EStateM Fault σ α}
    (yes : c → Surely run x after gives) (no : ¬c → Surely run' x after gives) :
    Surely (if c then run else run') x after gives := by
  split
  · exact yes ‹c›
  · exact no ‹¬c›

theorem endsIn (h : Surely run x after gives) (ends : EndsIn run x y) : after y := by
  unfold Surely at h
  rcases ends with ⟨a, ran⟩ | ⟨f, ran⟩
  · rw [ran] at h
    exact h.1
  · rw [ran] at h
    exact h

end Surely

namespace FrameAllocator
variable {a : FrameAllocator} {p root : PhysicalPage}

structure Keeps (root : PhysicalPage) (a : FrameAllocator) : Prop where
  managing : a.Managing
  held : a.Holds root

theorem Keeps.addUser (h : a.Keeps root) (p : PhysicalPage) :
    Surely (FrameAllocator.addUser p) a (Keeps root) fun _ _ => True := by
  cases ran : FrameAllocator.addUser p a with
  | ok n b =>
    obtain ⟨-, -, counted⟩ := h.managing.counted_of_addUser ran
    exact .of_ok ran ⟨counted.managing, counted.holds.2 h.held⟩ trivial
  | error f b =>
    rcases addUser_cases h.managing.toShaped p with ⟨f, -, e⟩ | ⟨i, -, ⟨-, e⟩ | ⟨-, e⟩⟩
    · exact .of_error e h
    · exact .of_error e h
    · exact nomatch e.symm.trans ran

theorem Keeps.removeUser (h : a.Keeps root) (p : PhysicalPage) :
    Surely (FrameAllocator.removeUser p) a (Keeps root) fun _ _ => True := by
  cases ran : FrameAllocator.removeUser p a with
  | ok n b =>
    obtain ⟨-, -, counted⟩ := h.managing.counted_of_removeUser ran
    exact .of_ok ran ⟨counted.managing, counted.holds.2 h.held⟩ trivial
  | error f b =>
    rcases removeUser_cases h.managing.toShaped p with ⟨f, -, e⟩ | ⟨i, -, ⟨-, e⟩ | ⟨-, e⟩⟩
    · exact .of_error e h
    · exact .of_error e h
    · exact nomatch e.symm.trans ran

theorem Keeps.release (h : a.Keeps root) (other : p ≠ root) :
    Surely (FrameAllocator.release p) a (Keeps root) fun _ _ => True := by
  rcases h.managing.release p with ⟨-, f, e⟩ | ⟨-, -, b, e, became⟩
  · exact .of_error e h
  · refine .of_ok e ⟨became.managing, became.holds.2 ⟨h.held.1, ?_⟩⟩ trivial
    exact fun now => now.elim h.held.2 other.symm

end FrameAllocator

theorem Page.base_eq_join {k : AddressKind} (p : Page k) : p.base = p.join ⟨0, by decide⟩ := by
  ext
  simp

namespace AddressSpace

variable {s : AddressSpace} {m m' m₀ : Machine} {mem mem' : PhysicalMemory} {d : Slot}
  {f g frame root : PhysicalPage} {flags e : Entry} {page : VirtualPage} {c : Processor}
  {pages : List VirtualPage}

def shownAt (s : AddressSpace) (mem : PhysicalMemory) (d : Slot) (b : PageOffset) :
    Option PhysicalAddress :=
  if (s.link mem d).present then some ((s.link mem d).frame.join b) else none

/-- In the window the walk finds what the links lead to, and in its last page the directory. -/
structure ShowsTables (s : AddressSpace) (m : Machine) : Prop where
  tables : ∀ (d : Slot) (b : PageOffset),
    (ofRoot s.root).query (d.window.join b) m = .ok (s.shownAt m.memory d b) m
  directory : ∀ b : PageOffset,
    (ofRoot s.root).query (Slot.directoryWindow.join b) m = .ok (some (s.root.join b)) m

theorem LoopsBack.entryIn_window (loop : s.LoopsBack mem) (d : Slot) :
    (ofRoot s.root).entryIn mem d.window = .ok (some (s.link mem d)) := by
  obtain ⟨present, frame, small⟩ := loop
  unfold link at present frame small
  have table : (ofRoot s.root).tableIn mem s.root .recursive = .ok (some ⟨s.root, s.root⟩) := by
    simp only [tableIn, Entry.table?, present, small, frame, if_true, Bool.false_eq_true, if_false,
      except_ok_bind]
    rfl
  have directory : (ofRoot s.root).directoryIn mem = .ok s.root := rfl
  rw [entryIn, directory, except_ok_bind, d.directorySlot_window, table, d.tableSlot_window]
  rfl

theorem LoopsBack.showsTables (loop : s.LoopsBack m.memory) : s.ShowsTables m := by
  have window : ∀ (d : Slot) (b : PageOffset),
      (ofRoot s.root).query (d.window.join b) m = .ok (s.shownAt m.memory d b) m := by
    intro d b
    have walk : (ofRoot s.root).walkIn m.memory (d.window.join b) =
        .ok ⟨d.window.join b, s.link m.memory .recursive, some (s.link m.memory d)⟩ := by
      have directory : (ofRoot s.root).directoryIn m.memory = .ok s.root := rfl
      rw [walkIn, directory, except_ok_bind, Page.page_join, loop.entryIn_window d,
        d.directorySlot_window]
      rfl
    have found : (ofRoot s.root).queryIn m.memory (d.window.join b) =
        .ok (s.shownAt m.memory d b) := by
      rw [queryIn, walk, except_ok_bind, Walk.target?, Page.offset_join, shownAt, Option.bind_some,
        Entry.mapped?]
      split <;> rfl
    simp [query, found]
  refine ⟨window, fun b => ?_⟩
  rw [Slot.directoryWindow, window, shownAt, if_pos loop.present, loop.frame]

theorem bijOn_window : Set.BijOn Slot.window Set.univ {p | p.directorySlot = .recursive} := by
  refine ⟨fun d _ => d.directorySlot_window, fun d _ c _ same => ?_, fun p last => ?_⟩
  · rw [← d.tableSlot_window, same, c.tableSlot_window]
  · refine ⟨p.tableSlot, trivial, ?_⟩
    have last : p.directorySlot = .recursive := last
    rw [Slot.window_eq, ← last, Page.ofSlots_slots]

theorem toNat_base_window (d : Slot) : d.window.base.toNat = 0xFFC00000 + d.val * 4096 := by
  simp only [Page.toNat_base, Slot.window]
  omega

theorem LoopsBack.walk?_window (loop : s.LoopsBack mem) (held : c.Reaches s.root.base)
    (present : (s.link mem d).present = true) (b : PageOffset) :
    ∃ t, c.walk? mem s.root (d.window.join b) = some t ∧
      t.address = (s.link mem d).frame.join b := by
  have last := loop.present
  have back := loop.frame
  unfold link at last back present ⊢
  simp [Processor.walk?, Processor.entry?, Slot.window_eq, held, last, back, present]

theorem LoopsBack.translate_window (loop : s.LoopsBack mem) (active : c.directory = some s.root)
    (held : c.Reaches s.root.base) (present : (s.link mem d).present = true) {b : PageOffset}
    (reached : c.Reaches ((s.link mem d).frame.join b)) :
    ∃ t, c.translate mem (d.window.join b) = some t ∧ t.address = (s.link mem d).frame.join b := by
  obtain ⟨t, walk, address⟩ := loop.walk?_window held present b
  refine ⟨t, ?_, address⟩
  rw [Processor.translate, active]
  simp only [walk]
  exact Option.filter_eq_some_iff.2 ⟨rfl, decide_eq_true (address ▸ reached)⟩

/-- Paging code that runs under the directory gets at it, and at the tables that it links, in the
same frames and at the same bytes as where memory lies open. -/
structure SeenThrough (s : AddressSpace) (mem : PhysicalMemory) (c : Processor) : Prop where
  directory : (⟨s.root, .virtual c⟩ : AddressSpace).directoryIn mem =
    (ofRoot s.root).directoryIn mem
  table : ∀ d, ((s.link mem d).present = true → c.Reaches (s.link mem d).frame.base) →
    (⟨s.root, .virtual c⟩ : AddressSpace).tableIn mem s.root d =
      (ofRoot s.root).tableIn mem s.root d
  directoryBytes : ∀ b, c.Reaches (s.root.join b) →
    ∃ t, c.translate mem (Slot.directoryWindow.join b) = some t ∧ t.address = s.root.join b
  tableBytes : ∀ d b, (s.link mem d).present = true →
    c.Reaches ((s.link mem d).frame.join b) →
    ∃ t, c.translate mem (d.window.join b) = some t ∧ t.address = (s.link mem d).frame.join b

theorem LoopsBack.seenThrough (loop : s.LoopsBack mem) (active : c.directory = some s.root)
    (held : c.Reaches s.root.base) : s.SeenThrough mem c where
  directory :=
    View.frameIn_window active held loop.present loop.frame loop.present loop.frame held
  table d reached := by
    unfold tableIn Entry.table?
    by_cases present : Entry.present (mem.word s.root d)
    · have shown := View.frameIn_window active held loop.present loop.frame present rfl
        (reached present)
      cases Entry.large (mem.word s.root d) with
      | true => simp [present]
      | false =>
        simp only [present, if_true, Bool.false_eq_true, if_false, except_ok_bind, shown]
        rfl
    · simp [present]
  directoryBytes b reached := by
    have shown := loop.translate_window active held loop.present
      (b := b) (by rwa [loop.frame])
    rwa [loop.frame] at shown
  tableBytes d b present reached := loop.translate_window active held present reached

def Faces (s : AddressSpace) : Prop :=
  s.view = .physical ∨ ∃ c : Processor, s.view = .virtual c ∧ c.directory = some s.root

structure Looped (s : AddressSpace) (m : Machine) : Prop where
  loop : s.LoopsBack m.memory
  notRoot : ∀ d f, s.Links m.memory d f → f ≠ s.root
  keeps : m.frames.Keeps s.root

/-- The space is looped, and of the links of one machine that of one slot may have changed, unless
the slot is the last one. -/
structure Turned (s : AddressSpace) (d : Slot) (m m' : Machine) : Prop where
  looped : s.Looped m'
  others : ∀ c, c ≠ d ∨ c = .recursive → s.link m'.memory c = s.link m.memory c

def Apart? (s : AddressSpace) (found : Option LinkedTable) (_ : Machine) : Prop :=
  ∀ t, found = some t → t.shown = t.frame ∧ t.frame ≠ s.root

theorem Looped.turned (h : s.Looped m) (d : Slot) : s.Turned d m m := ⟨h, fun _ _ => rfl⟩

theorem Turned.edited (h : s.Turned d m₀ m) (link : ∀ c, s.link m'.memory c = s.link m.memory c)
    (keeps : m'.frames.Keeps s.root) : s.Turned d m₀ m' := by
  refine ⟨⟨h.looped.loop.of_same (link _), fun c f linked => ?_, keeps⟩, fun c other => ?_⟩
  · exact h.looped.notRoot c f (linked.of_same (link c).symm)
  · exact (link c).trans (h.others c other)

theorem Turned.relinked (h : s.Turned d m₀ m) (ordinary : d ≠ .recursive)
    (away : e.present = true → e.frame ≠ s.root) : s.Turned d m₀ (m.stored s.root d e) := by
  have other : ∀ c, c ≠ d → s.link (m.stored s.root d e).memory c = s.link m.memory c :=
    fun c other => link_put_root_of_ne m.memory other e
  have here : s.link (m.stored s.root d e).memory d = e := link_put_root_self m.memory d e
  refine ⟨⟨h.looped.loop.of_same (other _ ordinary.symm), fun c f linked => ?_, h.looped.keeps⟩,
    fun c far => ?_⟩
  · by_cases same : c = d
    · obtain ⟨-, present, frame⟩ := linked
      rw [same, here] at present frame
      rw [← frame]
      exact away present
    · exact h.looped.notRoot c f (linked.of_same (other c same).symm)
  · have same : c ≠ d := by
      rcases far with far | last
      · exact far
      · exact fun same => ordinary (same.symm.trans last)
    exact (other c same).trans (h.others c far)

theorem Turned.onFrames {α : Type} {step : FrameAllocator.Step α} (h : s.Turned d m₀ m)
    (keeps : Surely step m.frames (FrameAllocator.Keeps s.root) fun _ _ => True) :
    Surely (Paging.onFrames step) m (s.Turned d m₀) fun _ _ => True := by
  obtain ⟨frames, quota, memory, record⟩ := m
  unfold Surely at keeps
  cases ran : step frames with
  | ok a b =>
    rw [ran] at keeps
    have ended : Paging.onFrames step ⟨frames, quota, memory, record⟩ =
        .ok a ⟨b, quota, memory, record⟩ := by
      simp only [Paging.onFrames, ran]
    exact .of_ok ended (h.edited (fun _ => rfl) keeps.1) trivial
  | error f b =>
    rw [ran] at keeps
    have ended : Paging.onFrames step ⟨frames, quota, memory, record⟩ =
        .error f ⟨b, quota, memory, record⟩ := by
      simp only [Paging.onFrames, ran]
    exact .of_error ended (h.edited (fun _ => rfl) keeps)

theorem Turned.takeFrame (h : s.Turned d m₀ m) :
    Surely Paging.takeFrame m (s.Turned d m₀) fun taken _ => ∀ f, taken = some f → f ≠ s.root := by
  obtain ⟨managing, held⟩ := h.looped.keeps
  rcases Paging.takeFrame_cases managing with ⟨-, m', e, quiet⟩ | ⟨-, f, frames, free, -, e, became⟩
  · refine .of_ok e (h.edited (fun c => by rw [link, quiet.memory, link]) ?_) nofun
    rw [quiet.frames]
    exact ⟨managing, held⟩
  · have notRoot : f ≠ s.root := fun same => held.2 (same ▸ free)
    refine .of_ok e (h.edited (fun _ => rfl) ⟨became.managing, ?_⟩) fun g same => ?_
    · exact became.holds.2 ⟨held.1, fun now => held.2 now.1⟩
    · cases same
      exact notRoot

theorem Faces.frameIn_window (faces : s.Faces) (loop : s.LoopsBack mem)
    (present : (s.link mem d).present = true)
    (shown : s.view.frameIn mem d.window (s.link mem d).frame = .ok g) :
    g = (s.link mem d).frame := by
  rcases faces with physical | ⟨c, processor, active⟩
  · rw [physical] at shown
    exact (Except.ok.inj shown).symm
  · rw [processor, View.frameIn] at shown
    cases found : c.translate mem d.window.base with
    | none => simp [found, orFault, Except.map] at shown
    | some t =>
      rw [found] at shown
      have walk : c.walk? mem s.root (d.window.join ⟨0, by decide⟩) = some t := by
        rw [Processor.translate, active, Page.base_eq_join] at found
        exact (Option.filter_eq_some_iff.1 found).1
      have held : c.Reaches s.root.base := by
        unfold Processor.walk? Processor.entry? at walk
        by_cases reached : c.Reaches s.root.base
        · exact reached
        · simp [reached] at walk
      obtain ⟨t', walk', address⟩ := loop.walk?_window held present ⟨0, by decide⟩
      cases walk'.symm.trans walk
      have page : t.address.page = g := Except.ok.inj shown
      rw [← page, address, Page.page_join]

theorem Faces.directory (faces : s.Faces) (h : s.Turned d m₀ m) :
    Surely s.directory m (s.Turned d m₀) fun root _ => root = s.root := by
  refine .step (step_get m) (.lift h fun root shown => ?_)
  have loop := h.looped.loop
  rw [directoryIn, ← loop.frame] at shown
  exact (faces.frameIn_window loop loop.present shown).trans loop.frame

theorem Faces.table? (faces : s.Faces) (h : s.Turned d m₀ m) (ordinary : d ≠ .recursive) :
    Surely (s.table? s.root d) m (s.Turned d m₀) s.Apart? := by
  refine .step (step_get m) (.lift h fun found shown t some => ?_)
  subst some
  obtain ⟨linked, table, rest⟩ := except_bind_eq_ok.1 shown
  cases linked with
  | none => exact nomatch rest
  | some f =>
    obtain ⟨g, window, rest⟩ := except_bind_eq_ok.1 rest
    cases rest
    have here : s.Links m.memory d f := by
      unfold Entry.table? at table
      split at table
      · rename_i present
        split at table
        · exact nomatch table
        · exact ⟨ordinary, present, Option.some.inj (Except.ok.inj table)⟩
      · exact nomatch table
    obtain rfl := here.frame
    exact ⟨faces.frameIn_window h.looped.loop here.present window, h.looped.notRoot d _ here⟩

theorem Faces.installTable (faces : s.Faces) (h : s.Turned d m₀ m) (ordinary : d ≠ .recursive)
    (flags : Entry) :
    Surely (s.installTable s.root d flags) m (s.Turned d m₀) s.Apart? := by
  refine h.takeFrame.bind fun taken m₁ h away => ?_
  cases taken with
  | none => exact .of_ok rfl h nofun
  | some f =>
    have notRoot := away f rfl
    let e := Entry.aimedAt f (flags.flagsOnly.withWritable true)
    have linked : s.Turned d m₀ (m₁.stored s.root d e) := by
      refine h.relinked ordinary fun _ => ?_
      rw [Entry.frame_aimedAt]
      exact notRoot
    refine .step (Paging.store_eq s.root d e) (.step (Paging.invalidate_eq d.window) ?_)
    let m₂ := (m₁.stored s.root d e).noted (.invalidated d.window)
    have h : s.Turned d m₀ m₂ := linked.edited (fun _ => rfl) linked.looped.keeps
    have here : s.link m₂.memory d = e := link_put_root_self m₁.memory d e
    have shows : ∀ g, s.view.frameIn m₂.memory d.window f = .ok g → g = f := by
      intro g shown
      have aim : (s.link m₂.memory d).frame = f := by
        rw [here]
        exact Entry.frame_aimedAt
      have present : (s.link m₂.memory d).present = true := by
        rw [here]
        exact Entry.present_aimedAt
      rw [← aim] at shown
      exact (faces.frameIn_window h.looped.loop present shown).trans aim
    have window : Surely (liftM (s.view.frameIn m₂.memory d.window f)) m₂ (s.Turned d m₀)
        fun g _ => g = f := .lift h shows
    refine .step (step_get m₂) (window.bind ?_)
    rintro g m₃ last rfl
    refine .step (a := ()) (y := m₃.cleared g) rfl (.step (a := ()) rfl ?_)
    refine .of_ok rfl (last.edited (link_clear m₃.memory notRoot) last.looped.keeps)
      fun t same => ?_
    cases same
    exact ⟨rfl, notRoot⟩

theorem Turned.enter (h : s.Turned d m₀ m) (notRoot : f ≠ s.root) (page : VirtualPage)
    (frame : PhysicalPage) (flags : Entry) :
    Surely (AddressSpace.enter ⟨f, f⟩ page frame flags) m (s.Turned d m₀) fun _ _ => True := by
  refine .step (Paging.entry_eq f page.tableSlot) ?_
  cases Entry.mapped? (m.memory.word f page.tableSlot) with
  | some v => exact .of_error rfl h
  | none =>
    let e := Entry.aimedAt frame flags
    refine .step (Paging.store_eq f page.tableSlot e) (.step (Paging.invalidate_eq page) ?_)
    let m₁ := (m.stored f page.tableSlot e).noted (.invalidated page)
    have h : s.Turned d m₀ m₁ := h.edited (link_put_of_ne notRoot) h.looped.keeps
    exact (h.onFrames (h.looped.keeps.addUser f)).bind fun _ _ h _ => .of_ok rfl h trivial

theorem Looped.mapPage (h : s.Looped m) (faces : s.Faces) (page : VirtualPage)
    (frame : PhysicalPage) (flags : Entry) :
    Surely (s.mapPage page frame flags) m (s.Turned page.directorySlot m) fun _ _ => True := by
  rw [mapPage_eq]
  refine .ite (fun _ => .of_ok rfl (h.turned _) trivial) fun ordinary => ?_
  refine (faces.directory (h.turned _)).bind ?_
  rintro _ m₁ h₁ rfl
  refine (faces.table? h₁ ordinary).bind fun linked m₂ h₂ apart => ?_
  -- Found or installed, the table is used in the same way.
  refine .ite (fun _ => Surely.bind (.of_ok rfl h₂ apart) fun found m₃ h₃ apart => ?_)
    fun _ => (faces.installTable h₂ ordinary flags).bind fun found m₃ h₃ apart => ?_
  all_goals
    cases found with
    | none => exact .of_ok rfl h₃ trivial
    | some table =>
      obtain ⟨f, shown⟩ := table
      obtain ⟨same, notRoot⟩ := apart _ rfl
      cases same
      exact h₃.enter notRoot page frame flags

theorem Faces.requireTable (faces : s.Faces) (h : s.Turned page.directorySlot m₀ m)
    (ordinary : page.directorySlot ≠ .recursive) (action : PageAction) :
    Surely (s.requireTable s.root action page) m (s.Turned page.directorySlot m₀)
      fun table => s.Apart? (some table) := by
  refine (faces.table? h ordinary).bind fun found m₁ h₁ apart => ?_
  cases found with
  | none => exact .of_error rfl h₁
  | some table => exact .of_ok rfl h₁ apart

theorem Turned.removeTable (h : s.Turned d m₀ m) (ordinary : d ≠ .recursive)
    (notRoot : f ≠ s.root) :
    Surely (AddressSpace.removeTable s.root d f) m (s.Turned d m₀) fun _ _ => True := by
  refine .step (Paging.store_eq s.root d 0) ?_
  have blank : s.Turned d m₀ (m.stored s.root d 0) :=
    h.relinked ordinary fun present => nomatch Entry.present_zero.symm.trans present
  refine (blank.onFrames (blank.looped.keeps.release notRoot)).bind fun _ m₁ h₁ _ => ?_
  exact .of_ok rfl (h₁.edited (fun _ => rfl) h₁.looped.keeps) trivial

theorem Looped.unmapPage (h : s.Looped m) (faces : s.Faces) (page : VirtualPage) :
    Surely (s.unmapPage page) m (s.Turned page.directorySlot m) fun _ _ => True := by
  refine .ite (fun _ => .of_error rfl (h.turned _)) fun ordinary => ?_
  refine (faces.directory (h.turned _)).bind ?_
  rintro _ m₁ h₁ rfl
  refine (faces.requireTable h₁ ordinary .unmap).bind fun table m₂ h₂ apart => ?_
  obtain ⟨f, shown⟩ := table
  obtain ⟨same, notRoot⟩ := apart _ rfl
  cases same
  refine .step (Paging.entry_eq f page.tableSlot) ?_
  cases Entry.mapped? (m₂.memory.word f page.tableSlot) with
  | none => exact .of_error rfl h₂
  | some v =>
    refine .step (Paging.store_eq f page.tableSlot 0) (.step (Paging.invalidate_eq page) ?_)
    have h₃ : s.Turned page.directorySlot m
        ((m₂.stored f page.tableSlot 0).noted (.invalidated page)) :=
      h₂.edited (link_put_of_ne notRoot) h₂.looped.keeps
    refine (h₃.onFrames (h₃.looped.keeps.removeUser f)).bind fun left m₄ h₄ _ => ?_
    refine .ite (fun _ => ?_) fun _ => .of_ok rfl h₄ trivial
    exact (h₄.removeTable ordinary notRoot).bind fun _ m₅ h₅ _ => .of_ok rfl h₅ trivial

/-- The machines that mappings and unmappings lead to, returned from or stopped, and the pages
that these were about. -/
inductive Edits (s : AddressSpace) (m : Machine) : Machine → List VirtualPage → Prop
  | nothing : Edits s m m []
  | map {m₁ m₂ : Machine} {pages : List VirtualPage} {page : VirtualPage} {frame : PhysicalPage}
      {flags : Entry} : Edits s m m₁ pages → EndsIn (s.mapPage page frame flags) m₁ m₂ →
      Edits s m m₂ (page :: pages)
  | unmap {m₁ m₂ : Machine} {pages : List VirtualPage} {page : VirtualPage} :
      Edits s m m₁ pages → EndsIn (s.unmapPage page) m₁ m₂ → Edits s m m₂ (page :: pages)

theorem Edits.links (edits : s.Edits m m' pages) (h : s.Looped m) (faces : s.Faces) :
    s.Looped m' ∧ ∀ d, d = .recursive ∨ (∀ p ∈ pages, p.directorySlot ≠ d) →
      s.link m'.memory d = s.link m.memory d := by
  -- One call turns at most the slot of its page.
  have next : ∀ {m₁ m₂ : Machine} {page : VirtualPage} {pages : List VirtualPage},
      s.Turned page.directorySlot m₁ m₂ →
      (s.Looped m₁ ∧ ∀ d, d = .recursive ∨ (∀ p ∈ pages, p.directorySlot ≠ d) →
        s.link m₁.memory d = s.link m.memory d) →
      s.Looped m₂ ∧ ∀ d, d = .recursive ∨ (∀ p ∈ page :: pages, p.directorySlot ≠ d) →
        s.link m₂.memory d = s.link m.memory d := by
    rintro m₁ m₂ page pages turned ⟨-, before⟩
    refine ⟨turned.looped, fun d untouched => ?_⟩
    rcases untouched with last | others
    · exact (turned.others d (Or.inr last)).trans (before d (Or.inl last))
    · obtain ⟨here, others⟩ := List.forall_mem_cons.1 others
      exact (turned.others d (Or.inl here.symm)).trans (before d (Or.inr others))
  induction edits with
  | nothing => exact ⟨h, fun _ _ => rfl⟩
  | map _ ends ih => exact next ((ih.1.mapPage faces _ _ _).endsIn ends) ih
  | unmap _ ends ih => exact next ((ih.1.unmapPage faces _).endsIn ends) ih

/-- Where the last slot of a directory links it, the walk finds in the window of each slot the
table that the slot links, at the same byte, and in the last page the directory; the windows are
the pages of the last slot, each once.  So a processor under the directory gets at the bytes of the
directory and the tables where code with open memory does.  Mapping and unmapping never take a page
of the window, and whatever they have done to other pages, the window shows just what slots link
then, the last slot links what it did, and so does each slot that no call was about. -/
theorem window_shows_tables (loop : s.LoopsBack m.memory) :
    s.ShowsTables m ∧
    (Set.BijOn Slot.window Set.univ {p | p.directorySlot = .recursive} ∧
      ∀ d : Slot, d.window.base.toNat = 0xFFC00000 + d.val * 4096) ∧
    (∀ c : Processor, c.directory = some s.root → c.Reaches s.root.base →
      s.SeenThrough m.memory c) ∧
    (∀ page : VirtualPage, page.directorySlot = .recursive →
      (∀ frame flags, s.mapPage page frame flags m = .ok (.error (.reservedWindow page.base)) m) ∧
      s.unmapPage page m = .error (.reservedPage page) m) ∧
    (s.Faces → s.Looped m → ∀ m' pages, s.Edits m m' pages →
      s.ShowsTables m' ∧ ∀ d, d = .recursive ∨ (∀ p ∈ pages, p.directorySlot ≠ d) →
        s.link m'.memory d = s.link m.memory d) := by
  refine ⟨loop.showsTables, ⟨bijOn_window, toNat_base_window⟩,
    fun c active held => loop.seenThrough active held,
    fun page last => ⟨fun _ _ => mapPage_of_recursive last, unmapPage_of_recursive last⟩,
    fun faces looped m' pages edits => ?_⟩
  obtain ⟨still, links⟩ := edits.links looped faces
  exact ⟨still.loop.showsTables, links⟩

theorem window_shows_tables_small :
    ∃ (m m' : Machine) (table : PhysicalPage), (ofRoot .first).LoopsBack m.memory ∧
      (ofRoot .first).query (Slot.window .first).base m = .ok none m ∧
      (ofRoot .first).Edits m m' [.first] ∧
      (ofRoot .first).query (Slot.window .first).base m' = .ok (some table.base) m' := by
  let s := ofRoot .first
  obtain ⟨a, m, ready, used, fresh, unmetered, free, -⟩ := exists_fresh
  obtain ⟨ha, -⟩ := FrameAllocator.managing_of_setup ⟨by decide, by decide⟩ ready
  obtain ⟨frames, -, -⟩ := used.follows ha
  obtain ⟨shows, -, -, -, edited⟩ := window_shows_tables fresh.loop
  have ordinary : (Page.first : VirtualPage).directorySlot ≠ .recursive := by decide
  have before := shows.tables .first ⟨0, by decide⟩
  rw [← Page.base_eq_join, shownAt, fresh.blank .first ordinary, if_neg (by decide)] at before
  have looped : s.Looped m := by
    refine ⟨fresh.loop, fun d f linked => ?_, frames, fresh.rootHeld⟩
    exact absurd linked (fresh.not_links d f)
  obtain ⟨m', ran, yields⟩ := (fresh.sound frames).mapPage_of_free ordinary (fresh.mapping .first)
    unmetered free .first Entry.kernelReadWrite
  have edits : s.Edits m m' [.first] := .map .nothing (Or.inl ⟨_, ran⟩)
  obtain ⟨shows', -⟩ := edited (Or.inl rfl) looped m' _ edits
  have maps : s.mapping m'.memory .first = some (.first, Entry.kernelReadWrite.leafFlags) := by
    rw [yields.mapping, Function.update_self]
  obtain ⟨table, linked, -⟩ := links_of_mapping maps
  have linked : s.Links m'.memory .first table := linked
  have after := shows'.tables .first ⟨0, by decide⟩
  rw [← Page.base_eq_join, shownAt, if_pos linked.present, linked.frame, ← Page.base_eq_join]
    at after
  exact ⟨m, m', table, fresh.loop, before, edits, after⟩

end AddressSpace
end Ia32Memory
