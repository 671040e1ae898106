import Ia32Memory.Proofs.Address.Between
import Ia32Memory.Proofs.Machine.Residue

/-! Operations on whole ranges.
A range is worked through page by page.  Pages that are unmapped go one after the other; pages that
are mapped come one after the other, and when one of them cannot be mapped those before it, which
are the row up to it, are unmapped again.  So a range that is refused leaves the map as it was, and
the links and the ledger with it. -/

namespace Ia32Memory.AddressSpace
open FrameAllocator (SameMemory)

variable {s : AddressSpace} {m m' m'' : Machine} {own : Set VirtualPage} {page : VirtualPage}
  {pages done rest : List VirtualPage} {start stop : VirtualAddress} {flags : Entry}
  {map : VirtualPage → Option (PhysicalPage × Entry)}

def erased (map : VirtualPage → Option (PhysicalPage × Entry)) (pages : List VirtualPage) :
    VirtualPage → Option (PhysicalPage × Entry) :=
  fun p => if p ∈ pages then none else map p

theorem erased_cons :
    erased (Function.update map page none) rest = erased map (page :: rest) := by
  funext p
  unfold erased
  by_cases here : p = page
  · simp [here]
  · simp [here]

theorem sdiff_sdiff_row (own : Set VirtualPage) (page : VirtualPage) (rest : List VirtualPage) :
    (own \ {page}) \ {p | p ∈ rest} = own \ {p | p ∈ page :: rest} := by
  ext p
  simp only [Set.mem_sdiff, Set.mem_singleton_iff, Set.mem_ofPred_eq, List.mem_cons, not_or,
    and_assoc]

theorem rangePages_of_le (aligned : start.IsAligned ∧ stop.IsAligned) (order : start ≤ stop) :
    rangePages start stop = .ok (.ok (Page.between start.page stop.page)) := by
  have sorted : ¬stop < start := Nat.not_lt.2 order
  rw [rangePages, if_neg (not_not_intro aligned), if_neg sorted]

theorem rangePages_of_lt (aligned : start.IsAligned ∧ stop.IsAligned) (less : stop < start) :
    rangePages start stop = .ok (.error (.invalidRange start stop)) := by
  rw [rangePages, if_neg (not_not_intro aligned), if_pos less]

theorem rangePages_cases (start stop : VirtualAddress) :
    (¬(start.IsAligned ∧ stop.IsAligned) ∧
      rangePages start stop = .error (.unalignedRange start stop)) ∨
    ((start.IsAligned ∧ stop.IsAligned) ∧ stop < start ∧
      rangePages start stop = .ok (.error (.invalidRange start stop))) ∨
    ((start.IsAligned ∧ stop.IsAligned) ∧ start ≤ stop ∧
      rangePages start stop = .ok (.ok (Page.between start.page stop.page))) := by
  by_cases aligned : start.IsAligned ∧ stop.IsAligned
  · by_cases less : stop < start
    · exact Or.inr (Or.inl ⟨aligned, less, rangePages_of_lt aligned less⟩)
    · have order : start ≤ stop := Nat.le_of_not_lt less
      exact Or.inr (Or.inr ⟨aligned, order, rangePages_of_le aligned order⟩)
  · exact Or.inl ⟨aligned, if_pos aligned⟩

theorem rangePages_ran {α : Type} {body : List VirtualPage → Paging (Except MapError α)}
    {result : Except MapError α}
    (ran : (do match ← rangePages start stop with
      | .error e => return .error e
      | .ok pages => body pages : Paging (Except MapError α)) m = .ok result m') :
    ((∃ e, result = .error e) ∧ m' = m) ∨
    ((start.IsAligned ∧ stop.IsAligned) ∧ start ≤ stop ∧
      body (Page.between start.page stop.page) m = .ok result m') := by
  rcases rangePages_cases start stop with ⟨-, e⟩ | ⟨-, -, e⟩ | ⟨aligned, order, e⟩
  · rw [e] at ran
    exact nomatch ran
  · rw [step_lift_bind_of_ok e] at ran
    cases ran
    exact Or.inl ⟨⟨_, rfl⟩, rfl⟩
  · rw [step_lift_bind_of_ok e] at ran
    exact Or.inr ⟨aligned, order, ran⟩

/-- A loop over a row whose step unmaps a page that is ready for it, and leaves the others so. -/
theorem Sound.forM_unmaps {step : VirtualPage → Paging Unit} {tidy : Prop}
    (ready : Machine → Set VirtualPage → VirtualPage → Prop)
    (one : ∀ m own page, s.Sound m own → ready m own page → ∃ m', step page m = .ok () m' ∧
      s.Yields m m' (own \ {page}) (Function.update (s.mapping m.memory) page none) ∧
      (tidy → s.Advances m' (own \ {page}) m own))
    (still : ∀ m m' own page other, ready m own other → other ≠ page →
      s.Yields m m' (own \ {page}) (Function.update (s.mapping m.memory) page none) →
      ready m' (own \ {page}) other)
    (h : s.Sound m own) (distinct : pages.Nodup) (all : ∀ p ∈ pages, ready m own p) :
    ∃ m', pages.forM step m = .ok () m' ∧
      s.Yields m m' (own \ {p | p ∈ pages}) (erased (s.mapping m.memory) pages) ∧
      (tidy → s.Advances m' (own \ {p | p ∈ pages}) m own) := by
  induction pages generalizing m own with
  | nil =>
    have none : own \ {p | p ∈ ([] : List VirtualPage)} = own := by
      ext p
      simp
    rw [none]
    exact ⟨m, rfl, h.refl, fun _ => .refl s m own⟩
  | cons page rest ih =>
    obtain ⟨notAgain, distinct⟩ := List.nodup_cons.1 distinct
    obtain ⟨m₁, unmapped, first, back⟩ := one m own page h (all page List.mem_cons_self)
    -- A page that came twice would not be ready the second time.
    have others : ∀ p ∈ rest, ready m₁ (own \ {page}) p := by
      intro p mem
      refine still m m₁ own page p (all p (List.mem_cons_of_mem _ mem)) ?_ first
      rintro rfl
      exact notAgain mem
    obtain ⟨m₂, done, later, further⟩ := ih first.sound distinct others
    rw [first.mapping, erased_cons, sdiff_sdiff_row] at later
    rw [sdiff_sdiff_row] at further
    exact ⟨m₂, (step_bind_ok unmapped _).trans done, first.trans later,
      fun clean => (further clean).trans (back clean)⟩

theorem Sound.forM_freePage (h : s.Sound m own) (distinct : pages.Nodup)
    (owned : ∀ p ∈ pages, p ∈ own) :
    ∃ m', pages.forM s.freePage m = .ok () m' ∧
      s.Yields m m' (own \ {p | p ∈ pages}) (erased (s.mapping m.memory) pages) ∧
      s.Advances m' (own \ {p | p ∈ pages}) m own := by
  have freed : ∃ m', pages.forM s.freePage m = .ok () m' ∧
      s.Yields m m' (own \ {p | p ∈ pages}) (erased (s.mapping m.memory) pages) ∧
      (True → s.Advances m' (own \ {p | p ∈ pages}) m own) := by
    refine forM_unmaps (fun _ own page => page ∈ own) (fun m own page sound mem => ?_)
      (fun _ _ _ _ _ mem other _ => ⟨mem, other⟩) h distinct owned
    obtain ⟨m', freed, yields, -⟩ := sound.freePage mem
    exact ⟨m', freed, yields, fun _ => sound.advances_of_freePage mem freed⟩
  obtain ⟨m', freed, yields, back⟩ := freed
  exact ⟨m', freed, yields, back trivial⟩

def unmapAll (s : AddressSpace) (pages : List VirtualPage) : Paging Unit :=
  pages.forM fun page => do let _ ← s.unmapPage page

theorem Sound.unmapAll (h : s.Sound m own) (distinct : pages.Nodup)
    (mapped : ∀ p ∈ pages, s.mapping m.memory p ≠ none) :
    ∃ m', s.unmapAll pages m = .ok () m' ∧
      s.Yields m m' (own \ {p | p ∈ pages}) (erased (s.mapping m.memory) pages) ∧
      ((∀ p ∈ pages, p ∉ own) → s.Advances m' (own \ {p | p ∈ pages}) m own) := by
  -- Whether the loop goes backwards is up to the pages that it was given.
  let ready (m : Machine) (now : Set VirtualPage) (page : VirtualPage) : Prop :=
    s.mapping m.memory page ≠ none ∧ ((∀ p ∈ pages, p ∉ own) → page ∉ now)
  refine forM_unmaps ready ?_ ?_ h distinct fun p mem => ⟨mapped p mem, fun tidy => tidy p mem⟩
  · rintro m now page sound ⟨mapped, foreign⟩
    obtain ⟨v, maps⟩ := Option.ne_none_iff_exists'.1 mapped
    obtain ⟨m', gone, yields⟩ := sound.unmapPage_of_mapped maps
    refine ⟨m', (step_bind_ok gone _).trans rfl, yields, fun tidy => ?_⟩
    rw [Set.sdiff_singleton_eq_self (foreign tidy)]
    exact sound.advances_of_unmapPage (foreign tidy) gone
  · rintro m m' now page other ⟨mapped, foreign⟩ ne yields
    refine ⟨?_, fun tidy mem => foreign tidy mem.1⟩
    rw [yields.mapping, Function.update_of_ne ne]
    exact mapped

theorem Sound.unmapAll_fails (h : s.Sound m own) (distinct : pages.Nodup)
    (missing : ∃ p ∈ pages, s.mapping m.memory p = none) :
    ∃ fault m', s.unmapAll pages m = .error fault m' := by
  induction pages generalizing m own with
  | nil =>
    obtain ⟨p, mem, -⟩ := missing
    exact nomatch mem
  | cons page rest ih =>
    obtain ⟨notAgain, distinct⟩ := List.nodup_cons.1 distinct
    cases maps : s.mapping m.memory page with
    | none =>
      obtain ⟨fault, stopped⟩ := h.intact.unmapPage_of_unmapped maps
      have one : (do let _ ← s.unmapPage page : Paging Unit) m = .error fault m :=
        step_bind_error stopped _
      exact ⟨fault, m, step_bind_error one _⟩
    | some v =>
      obtain ⟨m₁, gone, first⟩ := h.unmapPage_of_mapped maps
      have still : ∃ p ∈ rest, s.mapping m₁.memory p = none := by
        obtain ⟨p, mem, unmapped⟩ := missing
        have other : p ≠ page := by
          rintro rfl
          exact nomatch maps.symm.trans unmapped
        refine ⟨p, (List.mem_cons.1 mem).resolve_left other, ?_⟩
        rw [first.mapping, Function.update_of_ne other, unmapped]
      obtain ⟨fault, m₂, stopped⟩ := ih first.sound distinct still
      have one : (do let _ ← s.unmapPage page : Paging Unit) m = .ok () m₁ :=
        (step_bind_ok gone _).trans rfl
      exact ⟨fault, m₂, (step_bind_ok one _).trans stopped⟩

theorem unmapRange_of_pages (pages_eq : rangePages start stop = .ok (.ok pages))
    (freed : pages.forM s.freePage m = .ok () m') :
    s.unmapRange start stop m = .ok (.ok ()) m' := by
  unfold unmapRange
  refine (step_lift_bind_of_ok pages_eq _ _).trans ?_
  exact (step_bind_ok freed _).trans rfl

theorem unmapDirect_of_pages (pages_eq : rangePages start stop = .ok (.ok pages))
    (gone : s.unmapAll pages m = .ok () m') : s.unmapDirect start stop m = .ok (.ok ()) m' := by
  unfold unmapDirect
  refine (step_lift_bind_of_ok pages_eq _ _).trans ?_
  exact (step_bind_ok gone _).trans rfl

def gained (own : Set VirtualPage) (joins : Prop) (done : List VirtualPage) : Set VirtualPage :=
  {p | p ∈ own ∨ (joins ∧ p ∈ done)}

theorem gained_nil (own : Set VirtualPage) (joins : Prop) : gained own joins [] = own := by
  ext p
  simp [gained]

theorem gained_snoc (own : Set VirtualPage) (done : List VirtualPage) (page : VirtualPage) :
    insert page (gained own True done) = gained own True (done ++ [page]) := by
  ext p
  simp only [gained, Set.mem_insert_iff, Set.mem_ofPred_eq, true_and, List.mem_append,
    List.mem_singleton]
  constructor
  · rintro (here | old | mapped)
    · exact Or.inr (Or.inr here)
    · exact Or.inl old
    · exact Or.inr (Or.inl mapped)
  · rintro (old | mapped | here)
    · exact Or.inr (Or.inl old)
    · exact Or.inr (Or.inr mapped)
    · exact Or.inl here

theorem gained_of_not (own : Set VirtualPage) (done : List VirtualPage) :
    gained own False done = own := by
  ext p
  simp [gained]

/-- So far these pages were mapped, each as the operation wants it, and no others have changed. -/
structure Placed (s : AddressSpace) (m : Machine) (own : Set VirtualPage) (joins : Prop)
    (wanted : VirtualPage → PhysicalPage × Entry → Prop) (done : List VirtualPage)
    (m' : Machine) : Prop where
  sound : s.Sound m' (gained own joins done)
  others : ∀ p ∉ done, s.mapping m'.memory p = s.mapping m.memory p
  unmapped : ∀ p ∈ done, s.mapping m.memory p = none
  placed : ∀ p ∈ done, ∃ v, s.mapping m'.memory p = some v ∧ wanted p v
  sameMemory : SameMemory m.frames m'.frames
  advances : s.Advances m own m' (gained own joins done)

/-- The map is as it was before some operation, and so is all that the space had not taken; the
links were all found in one state in between. -/
structure Restored (s : AddressSpace) (m : Machine) (own : Set VirtualPage) (m' : Machine) :
    Prop where
  yields : s.Yields m m' own (s.mapping m.memory)
  residue : s.residue m' own = s.residue m own
  links : ∃ mem, s.Extends m.memory mem ∧ s.Extends m'.memory mem

variable {joins : Prop} {wanted : VirtualPage → PhysicalPage × Entry → Prop}

theorem Sound.restored (h : s.Sound m own) : s.Restored m own m :=
  ⟨h.refl, rfl, m.memory, fun _ _ => rfl, fun _ _ => rfl⟩

theorem Placed.nothing (h : s.Sound m own) : s.Placed m own joins wanted [] m := by
  refine ⟨?_, fun _ _ => rfl, nofun, nofun, .refl _, ?_⟩
  · rw [gained_nil]
    exact h
  · rw [gained_nil]
    exact .refl s m own

theorem Placed.trans (h : s.Placed m own joins wanted done m')
    (same : s.Yields m' m'' (gained own joins done) (s.mapping m'.memory))
    (advances : s.Advances m' (gained own joins done) m'' (gained own joins done)) :
    s.Placed m own joins wanted done m'' := by
  refine ⟨same.sound, fun p other => ?_, h.unmapped, fun p mem => ?_,
    h.sameMemory.trans same.sameMemory, h.advances.trans advances⟩
  · rw [same.mapping]
    exact h.others p other
  · rw [same.mapping]
    exact h.placed p mem

theorem Placed.notMem (h : s.Placed m own joins wanted done m')
    (unmapped : s.mapping m'.memory page = none) : page ∉ done := by
  intro mem
  obtain ⟨v, maps, -⟩ := h.placed page mem
  rw [unmapped] at maps
  exact nomatch maps

theorem Placed.reordered {order : List VirtualPage} (h : s.Placed m own joins wanted done m')
    (same : ∀ p, p ∈ order ↔ p ∈ done) : s.Placed m own joins wanted order m' := by
  have gains : gained own joins order = gained own joins done := by
    ext p
    simp only [gained, same]
  refine ⟨gains ▸ h.sound, fun p other => h.others p fun mem => other ((same p).2 mem),
    fun p mem => h.unmapped p ((same p).1 mem), fun p mem => h.placed p ((same p).1 mem),
    h.sameMemory, gains ▸ h.advances⟩

theorem Placed.snoc (h : s.Placed m own joins wanted done m') {own' : Set VirtualPage}
    {v : PhysicalPage × Entry} (unmapped : s.mapping m'.memory page = none)
    (more : s.Yields m' m'' own' (Function.update (s.mapping m'.memory) page (some v)))
    (advances : s.Advances m' (gained own joins done) m'' own')
    (grown : own' = gained own joins (done ++ [page])) (right : wanted page v) :
    s.Placed m own joins wanted (done ++ [page]) m'' := by
  have new := h.notMem unmapped
  refine ⟨grown ▸ more.sound, fun p other => ?_, fun p mem => ?_, fun p mem => ?_,
    h.sameMemory.trans more.sameMemory, h.advances.trans (grown ▸ advances)⟩
  · rw [List.mem_append, List.mem_singleton, not_or] at other
    rw [more.mapping, Function.update_of_ne other.2]
    exact h.others p other.1
  · rcases List.mem_append.1 mem with old | here
    · exact h.unmapped p old
    · rw [List.mem_singleton.1 here, ← h.others page new]
      exact unmapped
  · rw [more.mapping]
    by_cases here : p = page
    · rw [here, Function.update_self]
      exact ⟨v, rfl, right⟩
    · rw [Function.update_of_ne here]
      have old : p ∈ done := by
        rcases List.mem_append.1 mem with old | same
        · exact old
        · exact absurd (List.mem_singleton.1 same) here
      exact h.placed p old

theorem Placed.undone (h : s.Placed m own joins wanted done m') (start : s.Sound m own)
    (back : s.Yields m' m'' (gained own joins done \ {p | p ∈ done})
      (erased (s.mapping m'.memory) done))
    (advances : s.Advances m'' (gained own joins done \ {p | p ∈ done}) m'
      (gained own joins done)) : s.Restored m own m'' := by
  have same : gained own joins done \ {p | p ∈ done} = own := by
    ext p
    constructor
    · rintro ⟨mem | ⟨-, mem⟩, outside⟩
      · exact mem
      · exact absurd mem outside
    · intro mem
      refine ⟨Or.inl mem, fun inside => ?_⟩
      exact start.ne_of_mem (h.unmapped p inside) mem rfl
  have map : erased (s.mapping m'.memory) done = s.mapping m.memory := by
    funext p
    unfold erased
    by_cases mem : p ∈ done
    · rw [if_pos mem, h.unmapped p mem]
    · rw [if_neg mem, h.others p mem]
  rw [same, map] at back
  rw [same] at advances
  exact ⟨⟨back.sound, back.mapping, h.sameMemory.trans back.sameMemory⟩,
    advances.residue.symm.trans h.advances.residue, m'.memory, h.advances.links, advances.links⟩

theorem Placed.quiet (h : s.Placed m own joins wanted done m') (quiet : Paging.Quiet m' m'') :
    s.Placed m own joins wanted done m'' := by
  refine h.trans (h.sound.quiet quiet) ?_
  exact (Grows.of_quiet quiet).advances fun p _ => by rw [quiet.memory]

/-- What can come of an operation: a fault, where that may be, a refusal that leaves one thing, or
success that leaves another. -/
def Ends (operation : Paging (Except MapError Unit)) (m : Machine) (fails : Prop)
    (refused granted : Machine → Prop) : Prop :=
  (fails ∧ ∃ fault m', operation m = .error fault m') ∨
  (∃ e m', operation m = .ok (.error e) m' ∧ refused m') ∨
  ∃ m', operation m = .ok (.ok ()) m' ∧ granted m'

theorem Ends.imp {operation : Paging (Except MapError Unit)} {fails : Prop}
    {refused granted refused' granted' : Machine → Prop}
    (h : Ends operation m fails refused granted)
    (onRefusal : ∀ e m', operation m = .ok (.error e) m' → refused m' → refused' m')
    (onSuccess : ∀ m', operation m = .ok (.ok ()) m' → granted m' → granted' m') :
    Ends operation m fails refused' granted' := by
  rcases h with stops | ⟨e, m', ran, left⟩ | ⟨m', ran, left⟩
  · exact Or.inl stops
  · exact Or.inr (Or.inl ⟨e, m', ran, onRefusal e m' ran left⟩)
  · exact Or.inr (Or.inr ⟨m', ran, onSuccess m' ran left⟩)

theorem Ends.of_ran {operation : Paging (Except MapError Unit)} {fails conclusion : Prop}
    {refused granted : Machine → Prop} {result : Except MapError Unit}
    (h : Ends operation m fails refused granted) (ran : operation m = .ok result m')
    (afterRefusal : ∀ e, result = .error e → refused m' → conclusion)
    (afterSuccess : result = .ok () → granted m' → conclusion) : conclusion := by
  rcases h with ⟨-, fault, m₁, e⟩ | ⟨why, m₁, e, left⟩ | ⟨m₁, e, left⟩
  · exact nomatch e.symm.trans ran
  · cases e.symm.trans ran
    exact afterRefusal why rfl left
  · cases e.symm.trans ran
    exact afterSuccess rfl left

theorem Ends.granted {operation : Paging (Except MapError Unit)} {fails : Prop}
    {refused onSuccess : Machine → Prop} (h : Ends operation m fails refused onSuccess)
    (ran : operation m = .ok (.ok ()) m') : onSuccess m' :=
  h.of_ran ran (fun _ no => nomatch no) fun _ left => left

theorem Ends.refused {operation : Paging (Except MapError Unit)} {fails : Prop}
    {onRefusal granted : Machine → Prop} (h : Ends operation m fails onRefusal granted)
    {e : MapError} (ran : operation m = .ok (.error e) m') : onRefusal m' :=
  h.of_ran ran (fun _ _ left => left) fun no => nomatch no

/-- The loop over a row: each page is placed, or stops the loop with what came before it undone. -/
theorem mapEach_cases (name : String) (first last : VirtualAddress)
    {place : VirtualPage → Paging (Except MapError Unit)}
    {undo : VirtualAddress → VirtualAddress → Paging (Except MapError Unit)} {fails : Prop}
    {sofar : List VirtualPage → Machine → Prop} {refused : Machine → Prop}
    (step : ∀ done page rest m, pages = done ++ page :: rest → sofar done m →
      Ends (place page) m fails (sofar done) (sofar (done ++ [page])))
    (back : ∀ done page rest m m', pages = done ++ page :: rest → sofar done m →
      Paging.Quiet m m' → ∃ m'', undo first page.base m' = .ok (.ok ()) m'' ∧ refused m'')
    (split : pages = done ++ rest) (now : sofar done m) :
    Ends (mapEach name first last place undo rest) m fails refused (sofar pages) := by
  -- The induction is on the pages still to come; `sofar` holds of those that are done.
  induction rest generalizing done m with
  | nil =>
    rw [List.append_nil] at split
    exact Or.inr (Or.inr ⟨m, rfl, split ▸ now⟩)
  | cons page rest ih =>
    rcases step done page rest m split now with ⟨why, fault, m₁, stopped⟩ |
      ⟨e, m₁, stopped, kept⟩ | ⟨m₁, placed, more⟩
    · exact Or.inl ⟨why, fault, m₁, step_bind_error stopped _⟩
    · let said := m₁.said .warn (s!"{name} {first.text}..{last.text}: {e.message} at " ++
        s!"{page.base.text}, rolling back")
      obtain ⟨m₂, undone, start⟩ := back done page rest m₁ said split kept ⟨rfl, rfl, rfl⟩
      refine Or.inr (Or.inl ⟨e, m₂, (step_bind_ok stopped _).trans ?_, start⟩)
      exact (step_bind_ok undone _).trans rfl
    · have split : pages = (done ++ [page]) ++ rest := by
        rw [split, List.append_assoc, List.singleton_append]
      have onward : mapEach name first last place undo (page :: rest) m =
          mapEach name first last place undo rest m₁ := step_bind_ok placed _
      unfold Ends
      rw [onward]
      exact ih split more

theorem Sound.mapEach_cases (h : s.Sound m own) (name : String) (first last : VirtualAddress)
    {place : VirtualPage → Paging (Except MapError Unit)}
    {undo : VirtualAddress → VirtualAddress → Paging (Except MapError Unit)} {fails : Prop}
    (step : ∀ done page rest m', pages = done ++ page :: rest →
      s.Placed m own joins wanted done m' →
      Ends (place page) m' fails (s.Placed m own joins wanted done)
        (s.Placed m own joins wanted (done ++ [page])))
    (back : ∀ done page rest m', pages = done ++ page :: rest →
      s.Placed m own joins wanted done m' →
      ∃ m'', undo first page.base m' = .ok (.ok ()) m'' ∧ s.Restored m own m'') :
    Ends (mapEach name first last place undo pages) m fails (s.Restored m own)
      (s.Placed m own joins wanted pages) := by
  refine AddressSpace.mapEach_cases name first last step ?_ rfl (.nothing h)
  intro done page rest m₁ m₂ split now quiet
  exact back done page rest m₂ split (now.quiet quiet)

section Split
variable {start stop : VirtualPage} (split : Page.between start stop = done ++ page :: rest)
include split

theorem mem_of_split : page ∈ Page.between start stop := by
  rw [split]
  exact List.mem_append_right _ List.mem_cons_self

theorem nodup_before : done.Nodup := by
  have whole := Page.nodup_between start stop
  rw [split] at whole
  exact (List.nodup_append.1 whole).1

theorem notMem_before : page ∉ done := by
  have whole := Page.nodup_between start stop
  rw [split] at whole
  exact fun again => (List.nodup_append.1 whole).2.2 page again page List.mem_cons_self rfl

end Split

theorem rangePages_before (aligned : start.IsAligned)
    (split : Page.between start.page stop.page = done ++ page :: rest) :
    rangePages start page.base = .ok (.ok done) := by
  obtain ⟨after, -⟩ := Page.mem_between.1 (mem_of_split split)
  have order : start ≤ page.base := by
    show start.toNat ≤ page.base.toNat
    have exact := congrArg Address.toNat (Address.base_page aligned)
    rw [Page.toNat_base] at exact ⊢
    rw [← exact]
    exact Nat.mul_le_mul_right 4096 after
  rw [rangePages_of_le ⟨aligned, Page.isAligned_base page⟩ order, Page.page_base,
    Page.between_before split]

def anonymous (flags : Entry) (_ : VirtualPage) (v : PhysicalPage × Entry) : Prop :=
  v.2 = flags.leafFlags

def direct (start : VirtualAddress) (target : PhysicalAddress) (flags : Entry) (p : VirtualPage)
    (v : PhysicalPage × Entry) : Prop :=
  ∃ address, target.add (p.base.toNat - start.toNat) = .ok address ∧
    v = (address.page, flags.leafFlags)

def placeAnonymous (s : AddressSpace) (flags : Entry) (page : VirtualPage) :
    Paging (Except MapError Unit) := do
  return (← s.allocPage page flags).map fun _ => ()

def placeDirect (s : AddressSpace) (start : VirtualAddress) (target : PhysicalAddress)
    (flags : Entry) (page : VirtualPage) : Paging (Except MapError Unit) := do
  let address ← target.add (page.base.toNat - start.toNat)
  s.mapPage page address.page flags

theorem Placed.placeAnonymous (h : s.Placed m own True (anonymous flags) done m')
    (page : VirtualPage) :
    Ends (s.placeAnonymous flags page) m' (s.mapping m'.memory page ≠ none)
      (s.Placed m own True (anonymous flags) done)
      (s.Placed m own True (anonymous flags) (done ++ [page])) := by
  rcases h.sound.allocPage_cases page flags with ⟨e, m₁, refused, same, -⟩ |
    ⟨mapped, fault, m₁, stopped⟩ | ⟨-, unmapped, f, m₁, mapped, more, -⟩
  · refine Or.inr (Or.inl ⟨e, m₁, (step_bind_ok refused _).trans rfl, h.trans same ?_⟩)
    exact h.sound.advances_of_refused refused
  · exact Or.inl ⟨mapped, fault, m₁, step_bind_error stopped _⟩
  · refine Or.inr (Or.inr ⟨m₁, (step_bind_ok mapped _).trans rfl, ?_⟩)
    exact h.snoc unmapped more (h.sound.advances_of_allocPage mapped)
      (gained_snoc own done page) rfl

theorem Placed.freed (h : s.Placed m own True wanted done m') (sound : s.Sound m own)
    (distinct : done.Nodup) :
    ∃ m'', done.forM s.freePage m' = .ok () m'' ∧ s.Restored m own m'' := by
  have owned : ∀ p ∈ done, p ∈ gained own True done := fun p mem => Or.inr ⟨trivial, mem⟩
  obtain ⟨m₁, freed, yields, back⟩ := h.sound.forM_freePage distinct owned
  exact ⟨m₁, freed, h.undone sound yields back⟩

theorem Placed.unmapRange (h : s.Placed m own True wanted done m') (sound : s.Sound m own)
    (aligned : start.IsAligned)
    (split : Page.between start.page stop.page = done ++ page :: rest) :
    ∃ m'', s.unmapRange start page.base m' = .ok (.ok ()) m'' ∧ s.Restored m own m'' := by
  obtain ⟨m₁, freed, restored⟩ := h.freed sound (nodup_before split)
  exact ⟨m₁, unmapRange_of_pages (rangePages_before aligned split) freed, restored⟩

theorem Sound.mapRange_cases (h : s.Sound m own) (start stop : VirtualAddress) (flags : Entry) :
    Ends (s.mapRange start stop flags) m
      (¬(start.IsAligned ∧ stop.IsAligned) ∨
        ∃ p ∈ Page.between start.page stop.page, s.mapping m.memory p ≠ none)
      (s.Restored m own)
      (s.Placed m own True (anonymous flags) (Page.between start.page stop.page)) := by
  unfold Ends mapRange
  rcases rangePages_cases start stop with ⟨crooked, e⟩ | ⟨-, -, e⟩ | ⟨aligned, -, e⟩
  · exact Or.inl ⟨Or.inl crooked, _, m, by rw [e]; rfl⟩
  · exact Or.inr (Or.inl ⟨_, m, by rw [e]; rfl, h.restored⟩)
  · rw [step_lift_bind_of_ok e]
    refine h.mapEach_cases "map_range" start stop
      (fun done page rest m' split
        (sofar : s.Placed m own True (anonymous flags) done m') => ?_)
      (fun _ _ _ _ split sofar => sofar.unmapRange h aligned.1 split)
    refine (sofar.placeAnonymous page).imp_left (And.imp_left fun mapped => ?_)
    rw [sofar.others page (notMem_before split)] at mapped
    exact Or.inr ⟨page, mem_of_split split, mapped⟩

theorem Placed.placeDirect {target : PhysicalAddress}
    (h : s.Placed m own False (direct start target flags) done m') (page : VirtualPage) :
    Ends (s.placeDirect start target flags page) m' True
      (s.Placed m own False (direct start target flags) done)
      (s.Placed m own False (direct start target flags) (done ++ [page])) := by
  unfold Ends AddressSpace.placeDirect
  cases found : target.add (page.base.toNat - start.toNat) with
  | error fault => exact Or.inl ⟨trivial, fault, m', rfl⟩
  | ok address =>
    rcases h.sound.mapPage_cases page address.page flags with ⟨-, e⟩ | ⟨-, fault, e⟩ |
      ⟨-, unmapped, ⟨-, m₁, e, same⟩ | ⟨m₁, e, more⟩⟩
    · exact Or.inr (Or.inl ⟨_, m', e, h⟩)
    · exact Or.inl ⟨trivial, fault, m', e⟩
    · exact Or.inr (Or.inl ⟨_, m₁, e, h.trans same (h.sound.advances_of_mapPage e)⟩)
    · refine Or.inr (Or.inr ⟨m₁, e, h.snoc unmapped more (h.sound.advances_of_mapPage e) ?_
        ⟨address, found, rfl⟩⟩)
      rw [gained_of_not, gained_of_not]

theorem Placed.unmapAll (h : s.Placed m own False wanted done m') (sound : s.Sound m own)
    (distinct : done.Nodup) :
    ∃ m'', s.unmapAll done m' = .ok () m'' ∧ s.Restored m own m'' := by
  have mapped : ∀ p ∈ done, s.mapping m'.memory p ≠ none := by
    intro p mem
    obtain ⟨v, maps, -⟩ := h.placed p mem
    rw [maps]
    exact nofun
  have foreign : ∀ p ∈ done, p ∉ gained own False done := by
    intro p mem now
    rw [gained_of_not] at now
    exact sound.ne_of_mem (h.unmapped p mem) now rfl
  obtain ⟨m₁, gone, yields, back⟩ := h.sound.unmapAll distinct mapped
  exact ⟨m₁, gone, h.undone sound yields (back foreign)⟩

theorem Placed.unmapDirect (h : s.Placed m own False wanted done m') (sound : s.Sound m own)
    (aligned : start.IsAligned)
    (split : Page.between start.page stop.page = done ++ page :: rest) :
    ∃ m'', s.unmapDirect start page.base m' = .ok (.ok ()) m'' ∧ s.Restored m own m'' := by
  obtain ⟨m₁, gone, restored⟩ := h.unmapAll sound (nodup_before split)
  exact ⟨m₁, unmapDirect_of_pages (rangePages_before aligned split) gone, restored⟩

theorem Sound.mapDirect_cases (h : s.Sound m own) (start stop : VirtualAddress)
    (target : PhysicalAddress) (flags : Entry) :
    Ends (s.mapDirect start stop target flags) m True (s.Restored m own)
      (s.Placed m own False (direct start target flags) (Page.between start.page stop.page)) := by
  unfold Ends mapDirect
  rcases rangePages_cases start stop with ⟨-, e⟩ | ⟨-, -, e⟩ | ⟨aligned, -, e⟩
  · exact Or.inl ⟨trivial, _, m, by rw [e]; rfl⟩
  · exact Or.inr (Or.inl ⟨_, m, by rw [e]; rfl, h.restored⟩)
  · rw [step_lift_bind_of_ok e]
    by_cases fits : target.IsAligned
    · simp only [if_pos fits]
      exact h.mapEach_cases "map_direct" start stop
        (fun _ page _ _ _ (sofar : s.Placed m own False (direct start target flags) _ _) =>
          sofar.placeDirect page)
        (fun _ _ _ _ split sofar => sofar.unmapDirect h aligned.1 split)
    · simp only [if_neg fits]
      exact Or.inl ⟨trivial, .unalignedTarget target, m, rfl⟩

theorem Sound.unmapRange_cases (h : s.Sound m own) (start stop : VirtualAddress)
    (owned : ∀ p ∈ Page.between start.page stop.page, p ∈ own) :
    (∃ fault, s.unmapRange start stop m = .error fault m) ∨
    (∃ e, s.unmapRange start stop m = .ok (.error e) m) ∨
    ∃ m', s.unmapRange start stop m = .ok (.ok ()) m' ∧
      s.Yields m m' (own \ {p | p ∈ Page.between start.page stop.page})
        (erased (s.mapping m.memory) (Page.between start.page stop.page)) ∧
      s.Advances m' (own \ {p | p ∈ Page.between start.page stop.page}) m own := by
  rcases rangePages_cases start stop with ⟨-, e⟩ | ⟨-, -, e⟩ | ⟨-, -, e⟩
  · exact Or.inl ⟨_, by rw [AddressSpace.unmapRange, e]; rfl⟩
  · exact Or.inr (Or.inl ⟨_, by rw [AddressSpace.unmapRange, e]; rfl⟩)
  · obtain ⟨m', freed, yields⟩ := h.forM_freePage (Page.nodup_between _ _) owned
    exact Or.inr (Or.inr ⟨m', unmapRange_of_pages e freed, yields⟩)

theorem Sound.unmapDirect_cases (h : s.Sound m own) (start stop : VirtualAddress) :
    (∃ fault m', s.unmapDirect start stop m = .error fault m') ∨
    (∃ e, s.unmapDirect start stop m = .ok (.error e) m) ∨
    ∃ m', s.unmapDirect start stop m = .ok (.ok ()) m' ∧
      s.Yields m m' (own \ {p | p ∈ Page.between start.page stop.page})
        (erased (s.mapping m.memory) (Page.between start.page stop.page)) ∧
      ((∀ p ∈ Page.between start.page stop.page, p ∉ own) →
        s.Advances m' (own \ {p | p ∈ Page.between start.page stop.page}) m own) := by
  rcases rangePages_cases start stop with ⟨-, e⟩ | ⟨-, -, e⟩ | ⟨-, -, e⟩
  · exact Or.inl ⟨_, m, by rw [AddressSpace.unmapDirect, e]; rfl⟩
  · exact Or.inr (Or.inl ⟨_, by rw [AddressSpace.unmapDirect, e]; rfl⟩)
  · have distinct := Page.nodup_between start.page stop.page
    by_cases missing : ∃ p ∈ Page.between start.page stop.page, s.mapping m.memory p = none
    · obtain ⟨fault, m', stopped⟩ := h.unmapAll_fails distinct missing
      refine Or.inl ⟨fault, m', ?_⟩
      unfold AddressSpace.unmapDirect
      refine (step_lift_bind_of_ok e _ _).trans ?_
      exact step_bind_error stopped _
    · have mapped : ∀ p ∈ Page.between start.page stop.page, s.mapping m.memory p ≠ none :=
        fun p mem unmapped => missing ⟨p, mem, unmapped⟩
      obtain ⟨m', gone, yields⟩ := h.unmapAll distinct mapped
      exact Or.inr (Or.inr ⟨m', unmapDirect_of_pages e gone, yields⟩)

theorem Sound.mapEach_carries {fails : Prop} {result : Except MapError Unit} {name : String}
    {first last : VirtualAddress} {place : VirtualPage → Paging (Except MapError Unit)}
    {undo : VirtualAddress → VirtualAddress → Paging (Except MapError Unit)} (h : s.Sound m own)
    (sofar : List VirtualPage → Machine → Prop) (refused : Machine → Prop)
    (step : ∀ done page rest m', pages = done ++ page :: rest →
      s.Placed m own joins wanted done m' →
      Ends (place page) m' fails (s.Placed m own joins wanted done)
        (s.Placed m own joins wanted (done ++ [page])))
    (back : ∀ done page rest m', pages = done ++ page :: rest →
      s.Placed m own joins wanted done m' →
      ∃ m'', undo first page.base m' = .ok (.ok ()) m'' ∧ s.Restored m own m'')
    (ran : mapEach name first last place undo pages m = .ok result m')
    (begun : sofar [] m)
    (stays : ∀ done page m₁ m₂ e, s.Placed m own joins wanted done m₁ → sofar done m₁ →
      place page m₁ = .ok (.error e) m₂ → sofar done m₂)
    (grows : ∀ done page m₁ m₂, s.Placed m own joins wanted done m₁ → sofar done m₁ →
      place page m₁ = .ok (.ok ()) m₂ → sofar (done ++ [page]) m₂)
    (undone : ∀ done page rest m₁ m₂ m₃, pages = done ++ page :: rest →
      s.Placed m own joins wanted done m₂ → sofar done m₁ → Paging.Quiet m₁ m₂ →
      undo first page.base m₂ = .ok (.ok ()) m₃ → s.Restored m own m₃ → refused m₃) :
    (result = .ok () → sofar pages m') ∧ ∀ e, result = .error e → refused m' := by
  let both (done : List VirtualPage) (m' : Machine) : Prop :=
    s.Placed m own joins wanted done m' ∧ sofar done m'
  have ends : Ends (mapEach name first last place undo pages) m fails refused (both pages) := by
    refine AddressSpace.mapEach_cases name first last ?_ ?_ rfl ⟨.nothing h, begun⟩
    · rintro done page rest m₁ split ⟨placed, told⟩
      exact (step done page rest m₁ split placed).imp
        (fun e m₂ ran kept => ⟨kept, stays done page m₁ m₂ e placed told ran⟩)
        fun m₂ ran more => ⟨more, grows done page m₁ m₂ placed told ran⟩
    · rintro done page rest m₁ m₂ split ⟨placed, told⟩ quiet
      have still := placed.quiet quiet
      obtain ⟨m₃, e, restored⟩ := back done page rest m₂ split still
      exact ⟨m₃, e, undone done page rest m₁ m₂ m₃ split still told quiet e restored⟩
  refine ends.of_ran ran ?_ ?_
  · rintro e rfl left
    exact ⟨nofun, fun _ _ => left⟩
  · rintro rfl ⟨-, told⟩
    exact ⟨fun _ => told, nofun⟩

theorem Sound.mapRange_carries {result : Except MapError Unit} (h : s.Sound m own)
    (sofar : List VirtualPage → Machine → Prop) (refused : Machine → Prop)
    (ran : s.mapRange start stop flags m = .ok result m') (begun : sofar [] m) (same : refused m)
    (stays : ∀ done page m₁ m₂ e, s.Placed m own True (anonymous flags) done m₁ →
      sofar done m₁ → s.allocPage page flags m₁ = .ok (.error e) m₂ → sofar done m₂)
    (grows : ∀ done page m₁ m₂ f, s.Placed m own True (anonymous flags) done m₁ →
      sofar done m₁ → s.allocPage page flags m₁ = .ok (.ok f) m₂ → sofar (done ++ [page]) m₂)
    (undone : ∀ done (page : VirtualPage) m₁ m₂ m₃,
      s.Placed m own True (anonymous flags) done m₂ → sofar done m₁ → Paging.Quiet m₁ m₂ →
      Page.between start.page page = done →
      s.unmapRange start page.base m₂ = .ok (.ok ()) m₃ → s.Restored m own m₃ → refused m₃) :
    (result = .ok () → sofar (Page.between start.page stop.page) m') ∧
      ∀ e, result = .error e → refused m' := by
  rcases rangePages_ran ran with ⟨⟨e, rfl⟩, rfl⟩ | ⟨aligned, -, ran⟩
  · exact ⟨nofun, fun _ _ => same⟩
  · refine h.mapEach_carries sofar refused
      (fun done page rest m' _ (placed : s.Placed m own True (anonymous flags) done m') =>
        (placed.placeAnonymous page).imp_left (And.imp_left fun _ => trivial))
      (fun _ _ _ _ split placed => placed.unmapRange h aligned.1 split) ran begun
      (fun done page m₁ m₂ e placed told placing => ?_)
      (fun done page m₁ m₂ placed told placing => ?_)
      fun done page rest m₁ m₂ m₃ split placed told quiet =>
        undone done page m₁ m₂ m₃ placed told quiet (Page.between_before split)
    all_goals
      obtain ⟨got, m₃, allocated, rest⟩ := step_bind_eq_ok.1 placing
      cases got <;> cases rest
    · exact stays done page m₁ _ _ placed told allocated
    · exact grows done page m₁ _ _ placed told allocated

theorem Sound.mapDirect_carries {target : PhysicalAddress} {result : Except MapError Unit}
    (h : s.Sound m own) (sofar : List VirtualPage → Machine → Prop) (refused : Machine → Prop)
    (ran : s.mapDirect start stop target flags m = .ok result m') (begun : sofar [] m)
    (same : refused m)
    (stays : ∀ done page frame m₁ m₂ e,
      s.Placed m own False (direct start target flags) done m₁ → sofar done m₁ →
      s.mapPage page frame flags m₁ = .ok (.error e) m₂ → sofar done m₂)
    (grows : ∀ done page frame m₁ m₂,
      s.Placed m own False (direct start target flags) done m₁ → sofar done m₁ →
      s.mapPage page frame flags m₁ = .ok (.ok ()) m₂ → sofar (done ++ [page]) m₂)
    (undone : ∀ done (page : VirtualPage) m₁ m₂ m₃,
      s.Placed m own False (direct start target flags) done m₂ → sofar done m₁ →
      Paging.Quiet m₁ m₂ → s.unmapDirect start page.base m₂ = .ok (.ok ()) m₃ →
      s.Restored m own m₃ → refused m₃) :
    (result = .ok () → sofar (Page.between start.page stop.page) m') ∧
      ∀ e, result = .error e → refused m' := by
  rcases rangePages_ran ran with ⟨⟨e, rfl⟩, rfl⟩ | ⟨aligned, -, ran⟩
  · exact ⟨nofun, fun _ _ => same⟩
  · by_cases fits : target.IsAligned
    · simp only [if_pos fits] at ran
      refine h.mapEach_carries sofar refused
        (fun done page rest m' _ (placed : s.Placed m own False (direct start target flags) done
          m') => placed.placeDirect page)
        (fun _ _ _ _ split placed => placed.unmapDirect h aligned.1 split) ran begun
        (fun done page m₁ m₂ e placed told placing => ?_)
        (fun done page m₁ m₂ placed told placing => ?_)
        fun done page rest m₁ m₂ m₃ _ placed told quiet =>
          undone done page m₁ m₂ m₃ placed told quiet
      all_goals
        obtain ⟨address, m₃, found, mapped⟩ := step_bind_eq_ok.1 placing
        obtain ⟨-, rfl⟩ := step_lift_eq_ok.1 found
      · exact stays done page _ _ m₂ e placed told mapped
      · exact grows done page _ _ m₂ placed told mapped
    · simp only [if_neg fits] at ran
      exact nomatch ran

end Ia32Memory.AddressSpace
