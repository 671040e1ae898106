import Ia32Memory.Machine.Bootstrap
import Ia32Memory.Proofs.Machine.Lifetime
import Ia32Memory.Proofs.Machine.Permissions

/-! The parts that the boot directory is made of.
A new space is a frame that was free, blank but for its last slot.  Then page after page of the
image is mapped to the frame at the same distance, until all are or one cannot be; the pages of a
section are made read-only in turn.  Each of these loops is followed by what it has done to the map
so far. -/

namespace Ia32Memory

variable {k : AddressKind}

theorem Page.add?_eq_some {p q : Page k} {n : Nat} :
    p.add? n = some q ↔ p.number + n = q.number := by
  have inside := q.isLt
  unfold Page.add? Page.ofNat?
  split
  · simp [Page.ext_iff]
  · simp only [reduceCtorEq, false_iff]
    omega

namespace Section
variable {part : Section} {page : VirtualPage}

/-- Some byte of the section lies in the page. -/
def Meets (part : Section) (page : VirtualPage) : Prop :=
  ∃ i < part.size, (part.start.toNat + i) / 4096 = page.number

theorem meets_iff (aligned : part.start.IsAligned) :
    part.Meets page ↔ ∃ n < part.pages, part.start.page.add? n = some page := by
  simp only [Page.add?_eq_some, Address.number_page]
  unfold Address.IsAligned at aligned
  unfold Meets pages framesFor
  constructor
  · rintro ⟨i, inside, here⟩
    exact ⟨i / 4096, by omega, by omega⟩
  · rintro ⟨n, inside, here⟩
    exact ⟨n * 4096, by omega, by omega⟩

end Section

namespace AddressSpace
open FrameAllocator (Became)

variable {s : AddressSpace} {m m' m'' : Machine} {own : Set VirtualPage} {page : VirtualPage}
  {frame root : PhysicalPage} {frames : FrameAllocator} {done : List VirtualPage} {count : Nat}
  {ns : List Nat} {map : VirtualPage → Option (PhysicalPage × Entry)} {part : Section}

def created (m : Machine) (root : PhysicalPage) (frames : FrameAllocator) : Machine :=
  (((Paging.metered m).withFrames frames).cleared root).stored root .recursive
    (Entry.aimedAt root Entry.kernelReadWrite)

theorem create_cases (managing : m.frames.Managing) :
    ((m.quota = some 0 ∨ m.frames.freePages = ∅) ∧
      ∃ m', create m = .ok none m' ∧ Paging.Quiet m m') ∨
    (m.quota ≠ some 0 ∧ ∃ root frames, root ∈ m.frames.freePages ∧
      Became m.frames frames (m.frames.freePages \ {root}) ∧
      create m = .ok (some (ofRoot root)) (created m root frames)) := by
  rcases Paging.takeFrame_cases managing with ⟨why, m', taken, quiet⟩ |
    ⟨left, root, frames, free, -, taken, became⟩
  · exact Or.inl ⟨why, m', (step_bind_ok taken _).trans rfl, quiet⟩
  · exact Or.inr ⟨left, root, frames, free, became, (step_bind_ok taken _).trans rfl⟩

theorem fresh_created (unused : ∀ p ∈ m.frames.freePages, m.frames.users p = 0)
    (free : root ∈ m.frames.freePages)
    (became : Became m.frames frames (m.frames.freePages \ {root})) :
    (ofRoot root).Fresh (created m root frames) := by
  have link : ∀ d, (ofRoot root).link (created m root frames).memory d =
      if d = .recursive then Entry.aimedAt root Entry.kernelReadWrite else 0 := by
    intro d
    refine (link_put_root (s := ofRoot root) (m.memory.clear root) .recursive d _).trans ?_
    have here : root = (ofRoot root).root := rfl
    rw [AddressSpace.link, PhysicalMemory.word_clear, if_pos here]
  have last := (link .recursive).trans (if_pos rfl)
  refine ⟨fun p mem => ?_, Or.inl rfl, ⟨?_, ?_⟩, ⟨?_, ?_, ?_⟩, fun d ordinary => ?_⟩
  · have before : p ∈ m.frames.freePages \ {root} := became.free ▸ mem
    exact became.users.trans (unused p before.1)
  · exact became.sameMemory.manages.2 free.1
  · intro now
    have before : root ∈ m.frames.freePages \ {root} := became.free ▸ now
    exact before.2 rfl
  · rw [last]
    exact Entry.present_aimedAt
  · rw [last]
    exact Entry.frame_aimedAt
  · rw [last]
    exact Entry.large_aimedAt
  · exact (link d).trans (if_neg ordinary)

def imaged (page : VirtualPage) (frame : PhysicalPage) (p : VirtualPage)
    (v : PhysicalPage × Entry) : Prop :=
  ∃ n target, page.add? n = some p ∧ frame.add? n = some target ∧
    v = (target, Entry.kernelReadWrite.leafFlags)

def behind (page : VirtualPage) (ns : List Nat) : List VirtualPage := ns.filterMap page.add?

theorem mem_behind {p : VirtualPage} : p ∈ behind page ns ↔ ∃ n ∈ ns, page.add? n = some p :=
  List.mem_filterMap

theorem mapImage_cons_eq_ok {n : Nat} :
    s.mapImage page frame count (n :: ns) m = .ok (.ok ()) m'' ↔
      ∃ p target m', page.add? n = some p ∧ frame.add? n = some target ∧
        s.mapPage p target Entry.kernelReadWrite m = .ok (.ok ()) m' ∧
        s.mapImage page frame count ns m' = .ok (.ok ()) m'' := by
  rw [AddressSpace.mapImage]
  cases here : page.add? n with
  | none => simp
  | some p =>
    cases there : frame.add? n with
    | none => simp
    | some target =>
      constructor
      · intro ran
        obtain ⟨result, m', e, onward⟩ := step_bind_eq_ok.1 ran
        cases result with
        | error why => exact nomatch onward
        | ok _ => exact ⟨p, target, m', rfl, rfl, e, onward⟩
      · rintro ⟨p', target', m', same, same', e, onward⟩
        cases same
        cases same'
        exact (step_bind_ok e _).trans onward

theorem Placed.mapImage (h : s.Placed m own False (imaged page frame) done m')
    (ran : s.mapImage page frame count ns m' = .ok (.ok ()) m'') :
    s.Placed m own False (imaged page frame) (done ++ behind page ns) m'' ∧
      ∀ n ∈ ns, page.add? n ≠ none := by
  induction ns generalizing done m' with
  | nil =>
    cases ran
    rw [behind, List.filterMap_nil, List.append_nil]
    exact ⟨h, nofun⟩
  | cons n rest ih =>
    obtain ⟨p, target, m₁, here, there, e, onward⟩ := mapImage_cons_eq_ok.1 ran
    obtain ⟨unmapped, more⟩ := h.sound.of_mapPage e
    have grown := h.snoc unmapped more (h.sound.advances_of_mapPage e)
      (by rw [gained_of_not, gained_of_not]) ⟨n, target, here, there, rfl⟩
    obtain ⟨placed, found⟩ := ih grown onward
    rw [List.append_assoc, List.singleton_append] at placed
    refine ⟨?_, fun i mem => ?_⟩
    · rw [behind, List.filterMap_cons_some here]
      exact placed
    · rcases List.mem_cons.1 mem with rfl | later
      · rw [here]
        exact nofun
      · exact found i later

theorem Sound.linksWritable_of_mapImage (h : s.Sound m own) (all : s.LinksWritable m.memory)
    (ran : s.mapImage page frame count ns m = .ok (.ok ()) m') : s.LinksWritable m'.memory := by
  induction ns generalizing m with
  | nil =>
    cases ran
    exact all
  | cons n rest ih =>
    obtain ⟨p, target, m₁, -, -, e, onward⟩ := mapImage_cons_eq_ok.1 ran
    exact ih (h.of_mapPage e).2.sound (all.of_mapPage h.intact e) onward

open Classical in
noncomputable def readOnly (map : VirtualPage → Option (PhysicalPage × Entry))
    (pages : Set VirtualPage) (p : VirtualPage) : Option (PhysicalPage × Entry) :=
  if p ∈ pages then (map p).map fun v => (v.1, v.2.withWritable false) else map p

theorem readOnly_nothing : readOnly map ∅ = map := by
  funext p
  exact if_neg (Set.notMem_empty p)

theorem readOnly_readOnly (pages more : Set VirtualPage) :
    readOnly (readOnly map pages) more = readOnly map (pages ∪ more) := by
  funext p
  unfold readOnly
  by_cases first : p ∈ pages <;> by_cases second : p ∈ more <;>
    simp [first, second, Function.comp_def, Entry.withWritable_withWritable]

theorem readOnly_singleton {flags : Entry} (maps : map page = some (frame, flags)) :
    readOnly map {page} = Function.update map page (some (frame, flags.withWritable false)) := by
  funext p
  unfold readOnly
  by_cases same : p = page
  · subst same
    rw [if_pos (Set.mem_singleton p), Function.update_self, maps]
    rfl
  · have outside : p ∉ ({page} : Set VirtualPage) := same
    rw [if_neg outside, Function.update_of_ne same]

theorem readOnly_eq_none {pages : Set VirtualPage} {p : VirtualPage} :
    readOnly map pages p = none ↔ map p = none := by
  unfold readOnly
  split
  · exact Option.map_eq_none_iff
  · exact Iff.rfl

/-- An operation has made pages read-only and has done nothing else; links are as they were. -/
structure Protected (s : AddressSpace) (m : Machine) (own : Set VirtualPage)
    (pages : Set VirtualPage) (m' : Machine) : Prop where
  yields : s.Yields m m' own (readOnly (s.mapping m.memory) pages)
  residue : s.residue m' own = s.residue m own
  link : ∀ d, s.link m'.memory d = s.link m.memory d

theorem Sound.protected (h : s.Sound m own) : s.Protected m own ∅ m := by
  refine ⟨?_, rfl, fun _ => rfl⟩
  rw [readOnly_nothing]
  exact h.refl

theorem Protected.trans {pages more : Set VirtualPage} (h : s.Protected m own pages m')
    (h' : s.Protected m' own more m'') : s.Protected m own (pages ∪ more) m'' := by
  have later := h'.yields
  rw [h.yields.mapping, readOnly_readOnly] at later
  exact ⟨h.yields.trans later, h'.residue.trans h.residue,
    fun d => (h'.link d).trans (h.link d)⟩

def protectBehind (s : AddressSpace) (page : VirtualPage) (ns : List Nat) : Paging Unit :=
  ns.forM fun n =>
    match page.add? n with
    | some p => s.setWritable p false
    | none => return

theorem Sound.protectBehind (h : s.Sound m own)
    (mapped : ∀ p ∈ behind page ns, s.mapping m.memory p ≠ none) :
    ∃ m', s.protectBehind page ns m = .ok () m' ∧
      s.Protected m own {p | p ∈ behind page ns} m' := by
  induction ns generalizing m with
  | nil =>
    refine ⟨m, rfl, ?_⟩
    have nothing : {p | p ∈ behind page []} = (∅ : Set VirtualPage) := by
      ext p
      simp [behind]
    rw [nothing]
    exact h.protected
  | cons n rest ih =>
    cases here : page.add? n with
    | none =>
      have same : behind page (n :: rest) = behind page rest := List.filterMap_cons_none here
      rw [same] at mapped ⊢
      obtain ⟨m₁, ran, done⟩ := ih h mapped
      refine ⟨m₁, ?_, done⟩
      refine Eq.trans (step_bind_ok (a := ()) (t := m) ?_ _) ran
      simp only [here]
      rfl
    | some p =>
      have first : behind page (n :: rest) = p :: behind page rest :=
        List.filterMap_cons_some here
      rw [first] at mapped ⊢
      obtain ⟨⟨target, flags⟩, maps⟩ :=
        Option.ne_none_iff_exists'.1 (mapped p List.mem_cons_self)
      obtain ⟨m₁, ran, yields⟩ := h.setWritable_of_mapped maps false
      rw [← readOnly_singleton maps] at yields
      have one : s.Protected m own {p} m₁ := ⟨yields, h.residue_of_setWritable ran,
        (h.intact.same_of_setWritable (ordinary_of_mapping maps) ran).2⟩
      have still : ∀ q ∈ behind page rest, s.mapping m₁.memory q ≠ none := by
        intro q mem
        rw [yields.mapping, ne_eq, readOnly_eq_none]
        exact mapped q (List.mem_cons_of_mem _ mem)
      obtain ⟨m₂, ran', done⟩ := ih yields.sound still
      refine ⟨m₂, ?_, ?_⟩
      · refine Eq.trans (step_bind_ok (a := ()) (t := m₁) ?_ _) ran'
        simp only [here]
        exact ran
      · have pages : {q | q ∈ p :: behind page rest} = {p} ∪ {q | q ∈ behind page rest} := by
          ext q
          simp
        rw [pages]
        exact one.trans done

theorem Sound.writeProtect (h : s.Sound m own) (aligned : part.start.IsAligned)
    (mapped : ∀ p, part.Meets p → s.mapping m.memory p ≠ none) :
    ∃ m', s.writeProtect part m = .ok () m' ∧ s.Protected m own {p | part.Meets p} m' := by
  have pages : ∀ p, p ∈ behind part.start.page (List.range part.pages) ↔ part.Meets p := by
    intro p
    simp only [mem_behind, List.mem_range, Section.meets_iff aligned]
  obtain ⟨m', ran, done⟩ := h.protectBehind fun p mem => mapped p ((pages p).1 mem)
  simp only [pages] at done
  exact ⟨m', ran, done⟩

end AddressSpace
end Ia32Memory
