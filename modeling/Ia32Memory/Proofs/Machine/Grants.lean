import Ia32Memory.Proofs.Machine.Permissions

/-! Permissions over a run.
A page is granted what its own entry and the link of its slot both allow.  The entry has the flags
that the page was mapped with.  The link is always writable, but its user bit is that of the page
for which the table was made; pages that come to the slot later leave it, and it goes with the last
of them.  So a history of the flags that were asked for, in which each slot has those of the page
that opened it, tells what the processor grants. -/

namespace Ia32Memory.AddressSpace

/-- The flags that pages were mapped with, and for each slot those of the page that opened it. -/
@[ext] structure History where
  asked : VirtualPage → Option Entry
  opener : Slot → Entry

namespace History

def blank : History := ⟨fun _ => none, fun _ => 0⟩

def InUse (h : History) (d : Slot) : Prop := ∃ t, (h.asked (Page.ofSlots d t)).isSome = true

instance (h : History) (d : Slot) : Decidable (h.InUse d) :=
  inferInstanceAs (Decidable (∃ t, (h.asked (Page.ofSlots d t)).isSome = true))

/-- Pages were mapped.  They open the slots that were not in use; what such a slot was opened with
before does not matter any more. -/
def mapped (h : History) (pages : List VirtualPage) (flags : Entry) : History where
  asked p := if pages.contains p then some flags else h.asked p
  opener d := if h.InUse d then h.opener d else flags

def unmapped (h : History) (pages : List VirtualPage) : History where
  asked p := if pages.contains p then none else h.asked p
  opener := h.opener

def answered {α : Type} (h : History) (pages : List VirtualPage) (flags : Entry) :
    Except MapError α → History
  | .ok _ => h.mapped pages flags
  | .error _ => h

def after (h : History) : Request × Answer → History
  | (.mapPage page _ flags, .done result) => h.answered [page] flags result
  | (.allocPage page flags, .got result) => h.answered [page] flags result
  | (.mapRange start stop flags, .done result) =>
    h.answered (Page.between start.page stop.page) flags result
  | (.mapDirect start stop _ flags, .done result) =>
    h.answered (Page.between start.page stop.page) flags result
  | (.unmapPage page, _) => h.unmapped [page]
  | (.freePage page, _) => h.unmapped [page]
  | (.unmapRange start stop, .done (.ok _)) => h.unmapped (Page.between start.page stop.page)
  | (.unmapDirect start stop, .done (.ok _)) => h.unmapped (Page.between start.page stop.page)
  | _ => h

variable {h : History} {d : Slot} {flags : Entry}

@[simp] theorem asked_mapped (h : History) (pages : List VirtualPage) (flags : Entry)
    (p : VirtualPage) :
    (h.mapped pages flags).asked p = if p ∈ pages then some flags else h.asked p := by
  simp only [mapped, List.contains_iff_mem]

@[simp] theorem asked_unmapped (h : History) (pages : List VirtualPage) (p : VirtualPage) :
    (h.unmapped pages).asked p = if p ∈ pages then none else h.asked p := by
  simp only [unmapped, List.contains_iff_mem]

theorem opener_of_inUse (used : h.InUse d) (pages : List VirtualPage) (flags : Entry) :
    (h.mapped pages flags).opener d = h.opener d := by
  simp only [mapped, if_pos used]

theorem opener_of_unused (unused : ¬h.InUse d) (pages : List VirtualPage) (flags : Entry) :
    (h.mapped pages flags).opener d = flags := by
  simp only [mapped, if_neg unused]

theorem InUse.mapped (used : h.InUse d) (pages : List VirtualPage) (flags : Entry) :
    (h.mapped pages flags).InUse d := by
  obtain ⟨t, some⟩ := used
  refine ⟨t, ?_⟩
  rw [asked_mapped]
  split
  · rfl
  · exact some

theorem mapped_append (h : History) (done more : List VirtualPage) (flags : Entry) :
    (h.mapped done flags).mapped more flags = h.mapped (done ++ more) flags := by
  refine History.ext (funext fun p => ?_) (funext fun d => ?_)
  · by_cases later : p ∈ more <;> by_cases before : p ∈ done <;> simp [later, before]
  · by_cases used : h.InUse d
    · rw [opener_of_inUse (used.mapped done flags), opener_of_inUse used, opener_of_inUse used]
    · rw [opener_of_unused used]
      by_cases now : (h.mapped done flags).InUse d
      · rw [opener_of_inUse now, opener_of_unused used]
      · rw [opener_of_unused now]

end History

/-- The map and the links are as the history tells. -/
structure Recalls (s : AddressSpace) (mem : PhysicalMemory) (h : History) : Prop where
  asked : ∀ p, (s.mapping mem p).map Prod.snd = (h.asked p).map Entry.leafFlags
  links : ∀ d f, s.Links mem d f → (s.link mem d).writable = true ∧
    (s.link mem d).userAccess = (h.opener d).userAccess

def Request.KeepsFlags : Request → Prop
  | .setWritable _ _ => False
  | _ => True

/-- What can become of a machine, which pages own their frames then, and the history of it. -/
inductive Recorded (s : AddressSpace) (m : Machine) :
    Machine → Set VirtualPage → History → Prop
  | start : Recorded s m m ∅ .blank
  | step {m₁ m₂ : Machine} {own : Set VirtualPage} {h : History} {request : Request}
      {answer : Answer} : Recorded s m m₁ own h → request.Permitted own → request.KeepsFlags →
      request.run s m₁ = .ok answer m₂ →
      Recorded s m m₂ (ownAfter own (request, answer)) (h.after (request, answer))
  | elsewhere {m₁ m₂ : Machine} {own : Set VirtualPage} {h : History} :
      Recorded s m m₁ own h → s.Elsewhere m₁ own m₂ → Recorded s m m₂ own h

variable {s : AddressSpace} {m m' m'' m₁ m₂ m₃ : Machine} {mem mem' : PhysicalMemory} {d : Slot}
  {f frame : PhysicalPage} {flags : Entry} {page p : VirtualPage} {own : Set VirtualPage}
  {pages : List VirtualPage} {start stop : VirtualAddress} {history : History}

theorem Recalls.isSome (r : s.Recalls mem history) (p : VirtualPage) :
    (s.mapping mem p).isSome = (history.asked p).isSome := by
  have same := congrArg Option.isSome (r.asked p)
  rwa [Option.isSome_map, Option.isSome_map] at same

theorem Recalls.inUse_iff (r : s.Recalls m.memory history) (h : s.Intact m none) :
    history.InUse d ↔ ∃ f, s.Links m.memory d f := by
  constructor
  · rintro ⟨t, some⟩
    rw [← r.isSome] at some
    obtain ⟨v, maps⟩ := Option.isSome_iff_exists.1 some
    obtain ⟨f, linked, -⟩ := links_of_mapping maps
    rw [Page.directorySlot_ofSlots] at linked
    exact ⟨f, linked⟩
  · rintro ⟨f, linked⟩
    obtain ⟨t, mapped⟩ := h.exists_mapped linked
    refine ⟨t, ?_⟩
    rw [← r.isSome]
    exact Option.isSome_iff_ne_none.2 mapped

theorem Recalls.grants (r : s.Recalls mem history) {c : Processor} {address : VirtualAddress}
    {asked : Entry} (mapped : history.asked address.page = some asked)
    (root : c.Reaches s.root.base) (tables : ∀ d f, s.Links mem d f → c.Reaches f.base) :
    ∃ t, c.walk? mem s.root address = some t ∧ t.writable = asked.writable ∧
      t.userAccess =
        (asked.userAccess && (history.opener address.page.directorySlot).userAccess) := by
  have found := r.asked address.page
  rw [mapped, Option.map_some] at found
  obtain ⟨⟨f, flags⟩, maps, leaf⟩ := Option.map_eq_some_iff.1 found
  have leaf : flags = asked.leafFlags := leaf
  obtain ⟨g, linked, -⟩ := links_of_mapping maps
  obtain ⟨writable, user⟩ := r.links _ g linked
  refine ⟨_, walk?_of_mapping maps root tables, ?_, ?_⟩
  · simp only [writable, leaf, Entry.writable_leafFlags, Bool.true_and]
  · simp only [user, leaf, Entry.userAccess_leafFlags, Bool.and_comm]

theorem Recalls.of_same (r : s.Recalls mem history) (mapping : s.mapping mem' = s.mapping mem)
    (link : ∀ d, s.link mem' d = s.link mem d) : s.Recalls mem' history := by
  refine ⟨fun p => by rw [mapping, r.asked], fun d f linked => ?_⟩
  rw [link d]
  exact r.links d f (linked.of_same (link d).symm)

theorem Restored.recalls (restored : s.Restored m own m') (h : s.Intact m none)
    (r : s.Recalls m.memory history) : s.Recalls m'.memory history :=
  r.of_same restored.yields.mapping (restored.link_eq h)

theorem Recalls.mapped_nil (r : s.Recalls m.memory history) (h : s.Intact m none)
    (flags : Entry) : s.Recalls m.memory (history.mapped [] flags) := by
  refine ⟨fun p => ?_, fun d f linked => ?_⟩
  · rw [History.asked_mapped, if_neg List.not_mem_nil, r.asked]
  · have used : history.InUse d := (r.inUse_iff h).2 ⟨f, linked⟩
    rw [History.opener_of_inUse used]
    exact r.links d f linked

theorem Recalls.mapped {flags' : Entry} {target : PhysicalPage} {result : Except MapError Unit}
    (r : s.Recalls m.memory history) (h : s.Intact m none)
    (ran : s.mapPage page frame flags' m = .ok result m₁)
    (user : flags'.userAccess = flags.userAccess)
    (link : ∀ d, s.link mem' d = s.link m₁.memory d)
    (mapping : s.mapping mem' =
      Function.update (s.mapping m.memory) page (some (target, flags.leafFlags))) :
    s.Recalls mem' (history.mapped [page] flags) := by
  refine ⟨fun p => ?_, fun d f linked => ?_⟩
  · rw [mapping, History.asked_mapped]
    by_cases here : p = page
    · rw [here, Function.update_self, if_pos (List.mem_singleton_self page)]
      rfl
    · rw [Function.update_of_ne here, if_neg (mt List.mem_singleton.1 here)]
      exact r.asked p
  · rw [link d]
    have there : s.Links m₁.memory d f := linked.of_same (link d).symm
    rcases h.link_of_mapPage ran there with same | ⟨rfl, absent, made⟩
    · have before : s.Links m.memory d f := there.of_same same.symm
      have used : history.InUse d := (r.inUse_iff h).2 ⟨f, before⟩
      rw [same, History.opener_of_inUse used]
      exact r.links d f before
    · have unused : ¬history.InUse page.directorySlot := by
        intro used
        obtain ⟨g, linked⟩ := (r.inUse_iff h).1 used
        exact Bool.eq_false_iff.1 absent linked.present
      rw [made, History.opener_of_unused unused, Entry.writable_aimedAt,
        Entry.writable_withWritable, Entry.userAccess_aimedAt, Entry.userAccess_withWritable,
        Entry.userAccess_flagsOnly]
      exact ⟨rfl, user⟩

theorem Recalls.unmapped (r : s.Recalls mem history)
    (mapping : s.mapping mem' = erased (s.mapping mem) pages) (links : s.Extends mem' mem) :
    s.Recalls mem' (history.unmapped pages) := by
  refine ⟨fun p => ?_, fun d f linked => ?_⟩
  · rw [mapping, History.asked_unmapped, erased]
    split
    · rfl
    · exact r.asked p
  · have same := links d linked.present
    rw [← same]
    exact r.links d f (linked.of_same same)

theorem erased_singleton (map : VirtualPage → Option (PhysicalPage × Entry)) (page : VirtualPage) :
    Function.update map page none = erased map [page] := by
  rw [← erased_cons]
  funext p
  exact (if_neg List.not_mem_nil).symm

theorem Sound.recalls_of_mapPage {result : Except MapError Unit} (h : s.Sound m own)
    (r : s.Recalls m.memory history) (ran : s.mapPage page frame flags m = .ok result m') :
    s.Recalls m'.memory (history.answered [page] flags result) := by
  cases result with
  | error e =>
    rw [(h.intact.quiet_of_refused ran).memory]
    exact r
  | ok _ => exact r.mapped h.intact ran rfl (fun _ => rfl) (h.of_mapPage ran).2.mapping

theorem Sound.recalls_of_allocPage {result : Except MapError PhysicalPage} (h : s.Sound m own)
    (r : s.Recalls m.memory history) (ran : s.allocPage page flags m = .ok result m') :
    s.Recalls m'.memory (history.answered [page] flags result) := by
  rcases h.allocPage_stages ran with ⟨e, rfl, memory, -⟩ | ⟨f, m₁, m₂, m₃, rfl, stages⟩
  · rw [memory]
    exact r
  · obtain ⟨memory, -, intact⟩ := stages.taken
    obtain ⟨-, -, mapped, -⟩ := h.of_allocPage ran
    have maps := mapped.mapping
    rw [← memory] at r maps
    exact r.mapped intact stages.mapped (Entry.userAccess_withWritable true) stages.link maps

theorem Intact.recalls_of_unmapPage (h : s.Intact m none) (r : s.Recalls m.memory history)
    (ran : s.unmapPage page m = .ok frame m') :
    s.Recalls m'.memory (history.unmapped [page]) := by
  refine r.unmapped ?_ (h.grows_of_unmapPage ran).links
  rw [(h.of_unmapPage ran).2.mapping, erased_singleton]

theorem Sound.recalls_of_mapRange {result : Except MapError Unit} (h : s.Sound m own)
    (r : s.Recalls m.memory history) (ran : s.mapRange start stop flags m = .ok result m') :
    s.Recalls m'.memory
      (history.answered (Page.between start.page stop.page) flags result) := by
  let told (done : List VirtualPage) (m' : Machine) : Prop :=
    s.Recalls m'.memory (history.mapped done flags)
  obtain ⟨mapped, refused⟩ := h.mapRange_carries told (fun m' => s.Recalls m'.memory history) ran
    (r.mapped_nil h.intact flags) r
    (fun done page m₁ m₂ e placed now ran => placed.sound.recalls_of_allocPage now ran)
    (fun done page m₁ m₂ f placed now ran => by
      change s.Recalls m₂.memory (history.mapped (done ++ [page]) flags)
      rw [← History.mapped_append]
      exact placed.sound.recalls_of_allocPage now ran)
    fun done page m₁ m₂ m₃ _ _ _ _ _ restored => restored.recalls h.intact r
  cases result with
  | ok _ => exact mapped rfl
  | error e => exact refused e rfl

theorem Sound.recalls_of_mapDirect {result : Except MapError Unit} {target : PhysicalAddress}
    (h : s.Sound m own) (r : s.Recalls m.memory history)
    (ran : s.mapDirect start stop target flags m = .ok result m') :
    s.Recalls m'.memory
      (history.answered (Page.between start.page stop.page) flags result) := by
  let told (done : List VirtualPage) (m' : Machine) : Prop :=
    s.Recalls m'.memory (history.mapped done flags)
  obtain ⟨mapped, refused⟩ := h.mapDirect_carries told (fun m' => s.Recalls m'.memory history) ran
    (r.mapped_nil h.intact flags) r
    (fun done page frame m₁ m₂ e placed now ran => placed.sound.recalls_of_mapPage now ran)
    (fun done page frame m₁ m₂ placed now ran => by
      change s.Recalls m₂.memory (history.mapped (done ++ [page]) flags)
      rw [← History.mapped_append]
      exact placed.sound.recalls_of_mapPage now ran)
    fun done page m₁ m₂ m₃ _ _ _ _ restored => restored.recalls h.intact r
  cases result with
  | ok _ => exact mapped rfl
  | error e => exact refused e rfl

theorem Sound.recalls {request : Request} {answer : Answer} (h : s.Sound m own)
    (r : s.Recalls m.memory history) (permitted : request.Permitted own)
    (keeps : request.KeepsFlags) (ran : request.run s m = .ok answer m') :
    s.Recalls m'.memory (history.after (request, answer)) := by
  cases request with
  | setWritable page writable => exact keeps.elim
  | mapPage page frame flags =>
    obtain ⟨result, m₁, e, rest⟩ := step_bind_eq_ok.1 ran
    cases rest
    exact h.recalls_of_mapPage r e
  | unmapPage page =>
    obtain ⟨frame, m₁, e, rest⟩ := step_bind_eq_ok.1 ran
    cases rest
    exact h.intact.recalls_of_unmapPage r e
  | allocPage page flags =>
    obtain ⟨result, m₁, e, rest⟩ := step_bind_eq_ok.1 ran
    cases rest
    exact h.recalls_of_allocPage r e
  | freePage page =>
    obtain ⟨u, m₁, e, rest⟩ := step_bind_eq_ok.1 ran
    cases rest
    obtain ⟨m₂, e', gone, -⟩ := h.freePage permitted
    cases e'.symm.trans e
    refine r.unmapped ?_ (h.advances_of_freePage permitted e).links
    rw [gone.mapping, erased_singleton]
  | mapRange start stop flags =>
    obtain ⟨result, m₁, e, rest⟩ := step_bind_eq_ok.1 ran
    cases rest
    exact h.recalls_of_mapRange r e
  | unmapRange start stop =>
    obtain ⟨result, m₁, e, rest⟩ := step_bind_eq_ok.1 ran
    cases rest
    rcases h.unmapRange_cases start stop permitted with ⟨fault, e'⟩ | ⟨why, e'⟩ |
      ⟨m₂, e', gone, back⟩
    · exact nomatch e'.symm.trans e
    · cases e'.symm.trans e
      exact r
    · cases e'.symm.trans e
      exact r.unmapped gone.mapping back.links
  | mapDirect start stop target flags =>
    obtain ⟨result, m₁, e, rest⟩ := step_bind_eq_ok.1 ran
    cases rest
    exact h.recalls_of_mapDirect r e
  | unmapDirect start stop =>
    obtain ⟨result, m₁, e, rest⟩ := step_bind_eq_ok.1 ran
    cases rest
    -- Which pages own their frames does not matter for the links.
    rcases h.intact.sound.unmapDirect_cases start stop with ⟨fault, m₂, e'⟩ | ⟨why, e'⟩ |
      ⟨m₂, e', gone, back⟩
    · exact nomatch e'.symm.trans e
    · cases e'.symm.trans e
      exact r
    · cases e'.symm.trans e
      exact r.unmapped gone.mapping (back fun p _ => Set.notMem_empty p).links

theorem Recorded.runs (run : s.Recorded m m' own history) : s.Runs m m' own := by
  induction run with
  | start => exact .start
  | step _ permitted _ ran ih => exact .step ih permitted ran
  | elsewhere _ others ih => exact .elsewhere ih others

theorem Fresh.recalls (h : s.Fresh m) : s.Recalls m.memory .blank :=
  ⟨fun p => by rw [h.mapping p]; rfl, fun d f linked => absurd linked (h.not_links d f)⟩

theorem Recorded.recalls (run : s.Recorded m m' own history) (fresh : s.Fresh m)
    (frames : m.frames.Managing) : s.Recalls m'.memory history := by
  induction run with
  | start => exact fresh.recalls
  | step before permitted keeps ran ih =>
    exact (before.runs.sound (fresh.sound frames)).recalls ih permitted keeps ran
  | elsewhere _ others ih => exact ih.of_same others.undisturbed.mapping others.undisturbed.link

theorem History.not_inUse_blank (d : Slot) : ¬blank.InUse d := fun ⟨_, mapped⟩ => nomatch mapped

theorem exists_mixed :
    ∃ (a : FrameAllocator) (m m' : Machine) (history : History),
      FrameAllocator.setup ⟨8, 32⟩ FrameAllocator.smallImage (Array.replicate 7 0) = .ok (.ok a) ∧
      FrameAllocator.Trace a [(.take, .taken (.frame .first))] m.frames ∧
      (ofRoot .first).Fresh m ∧ (ofRoot .first).Recorded m m' ∅ history ∧
      history.asked ⟨1, by decide⟩ = some Entry.userReadWrite ∧
      history.opener (Page.directorySlot ⟨1, by decide⟩) = Entry.kernelReadWrite := by
  let s := ofRoot .first
  let second : VirtualPage := ⟨1, by decide⟩
  obtain ⟨a, m, ready, used, fresh, unmetered, free, -⟩ := exists_fresh
  obtain ⟨ha, -⟩ := FrameAllocator.managing_of_setup ⟨by decide, by decide⟩ ready
  obtain ⟨frames, -, -⟩ := used.follows ha
  have ordinary : (Page.first : VirtualPage).directorySlot ≠ .recursive := by decide
  have sound : s.Sound m ∅ := fresh.sound frames
  obtain ⟨m₁, e₁, yields⟩ := sound.mapPage_of_free ordinary (fresh.mapping _) unmetered free .first
    Entry.kernelReadWrite
  have opened : s.mapping m₁.memory .first ≠ none := by
    rw [yields.mapping, Function.update_self]
    exact nofun
  have unmapped : s.mapping m₁.memory second = none := by
    rw [yields.mapping, Function.update_of_ne (by decide)]
    exact fresh.mapping second
  have beside : second.directorySlot = (Page.first : VirtualPage).directorySlot := by decide
  rcases yields.sound.mapPage_of_unmapped (beside ▸ ordinary) unmapped .first
    Entry.userReadWrite with ⟨⟨absent, -⟩, -⟩ | ⟨m₂, e₂, -⟩
  · -- The first page has brought a table with it.
    rw [beside] at absent
    exact absurd (mapping_of_unlinked absent) opened
  · let opening := History.blank.mapped [.first] Entry.kernelReadWrite
    have recorded : ∀ {m₁ m₂ history page flags}, s.Recorded m m₁ ∅ history →
        s.mapPage page .first flags m₁ = .ok (.ok ()) m₂ →
        s.Recorded m m₂ ∅ (history.mapped [page] flags) := by
      intro m₁ m₂ history page flags run e
      have permitted : (Request.mapPage page .first flags).Permitted ∅ := trivial
      exact .step run permitted trivial ((step_bind_ok e _).trans rfl)
    have run : s.Recorded m m₁ ∅ opening := recorded .start e₁
    have more : s.Recorded m m₂ ∅ (opening.mapped [second] Entry.userReadWrite) :=
      recorded run e₂
    have opener : (opening.mapped [second] Entry.userReadWrite).opener .first =
        Entry.kernelReadWrite := by
      rw [History.opener_of_inUse ⟨.first, rfl⟩,
        History.opener_of_unused (History.not_inUse_blank _)]
    exact ⟨a, m, m₂, _, ready, used, fresh, more, rfl, opener⟩

variable {memory : BootMemory} {image : Image} {storage : Words} {a : FrameAllocator}
  {events : List (FrameAllocator.Request × FrameAllocator.Answer)}

/-- After any run from a fresh space the pages that are mapped are those that the history has flags
for.  The processor may write to such a page just if its flags say so, and user code may use it if
they say so and if those of the page that opened its slot do. -/
theorem permissions_after_run (addressable : memory.Addressable)
    (ready : FrameAllocator.setup memory image storage = .ok (.ok a))
    (used : FrameAllocator.Trace a events m.frames) (fresh : s.Fresh m)
    (run : s.Recorded m m' own history) :
    (∀ p, (s.mapping m'.memory p).isSome = (history.asked p).isSome) ∧
      ∀ (c : Processor) (address : VirtualAddress) (asked : Entry),
        c.Reaches s.root.base → (∀ d f, s.Links m'.memory d f → c.Reaches f.base) →
        history.asked address.page = some asked →
        ∃ t, c.walk? m'.memory s.root address = some t ∧ t.writable = asked.writable ∧
          t.userAccess =
            (asked.userAccess && (history.opener address.page.directorySlot).userAccess) := by
  obtain ⟨ha, -⟩ := FrameAllocator.managing_of_setup addressable ready
  obtain ⟨frames, -, -⟩ := used.follows ha
  have recalls := run.recalls fresh frames
  exact ⟨recalls.isSome, fun _ _ _ root tables mapped => recalls.grants mapped root tables⟩

theorem permissions_after_run_small :
    ∃ (m m' : Machine) (history : History) (c : Processor) (t : Translation),
      (ofRoot .first).Fresh m ∧ (ofRoot .first).Recorded m m' ∅ history ∧
      c.walk? m'.memory .first (Page.base ⟨1, by decide⟩) = some t ∧ t.writable = true ∧
      t.userAccess = (Entry.userReadWrite.userAccess && Entry.kernelReadWrite.userAccess) := by
  obtain ⟨a, m, m', history, ready, used, fresh, run, asked, opener⟩ := exists_mixed
  obtain ⟨-, grants⟩ := permissions_after_run ⟨by decide, by decide⟩ ready used fresh run
  let c : Processor := ⟨0x100000000, none⟩
  have reaches : ∀ f : PhysicalPage, c.Reaches f.base := fun f => f.base.isLt
  obtain ⟨t, walk, writable, user⟩ := grants c (Page.base ⟨1, by decide⟩) Entry.userReadWrite
    (reaches _) (fun _ f _ => reaches f) (by rw [Page.page_base, asked])
  rw [Page.page_base, opener] at user
  exact ⟨m, m', history, c, t, fresh, run, walk, writable.trans (by decide), user⟩

/-- A page that was mapped with user access is kept from user code where one without it came
first. -/
theorem user_access_withheld :
    ∃ (m m' : Machine) (history : History) (c : Processor) (t : Translation),
      (ofRoot .first).Fresh m ∧ (ofRoot .first).Recorded m m' ∅ history ∧
      history.asked ⟨1, by decide⟩ = some Entry.userReadWrite ∧
      c.walk? m'.memory .first (Page.base ⟨1, by decide⟩) = some t ∧
      t.userAccess ≠ Entry.userReadWrite.userAccess := by
  obtain ⟨a, m, m', history, ready, used, fresh, run, asked, opener⟩ := exists_mixed
  obtain ⟨ha, -⟩ := FrameAllocator.managing_of_setup ⟨by decide, by decide⟩ ready
  obtain ⟨frames, -, -⟩ := used.follows ha
  let c : Processor := ⟨0x100000000, none⟩
  have reaches : ∀ f : PhysicalPage, c.Reaches f.base := fun f => f.base.isLt
  have mapped : history.asked (Page.base ⟨1, by decide⟩ : VirtualAddress).page =
      some Entry.userReadWrite := by
    rw [Page.page_base, asked]
  obtain ⟨t, walk, -, user⟩ :=
    (run.recalls fresh frames).grants mapped (reaches _) fun _ f _ => reaches f
  rw [Page.page_base, opener] at user
  refine ⟨m, m', history, c, t, fresh, run, asked, walk, ?_⟩
  rw [user]
  decide

end Ia32Memory.AddressSpace
