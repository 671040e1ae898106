import Mathlib.Order.Interval.Set.Basic
import Ia32Memory.Proofs.Address.Between
import Ia32Memory.Proofs.Frame.FreeSet
import Ia32Memory.Proofs.Frame.Identity

/-! Regions taken apart.
What an operation on frames leaves is known by the set of indices that it marks: marks of two sets
make the marks of their union in either order, and marks that are taken back leave what was there.
So an operation on a region leaves what the operations on its parts leave, whether it is cut in two
or into single pages, and in whatever order the parts come. -/

namespace Ia32Memory.FrameAllocator

/-- `b` is `a` with the frames of a set of indices made free, or made used. -/
structure Marks (value : Bool) (which : Set Nat) (a b : FrameAllocator) : Prop where
  consistent : b.Consistent
  inside : ∀ i ∈ which, b.freeBit i = value
  outside : ∀ i ∉ which, b.freeBit i = a.freeBit i
  usage : b.usage = a.usage
  spare : b.spare = a.spare
  sameMemory : SameMemory a b

/-- An operation on a region can be done in two parts, split where one likes and either part first,
or page by page in any order. -/
structure Decomposes (op : PhysicalAddress → PhysicalAddress → Step Unit)
    (start stop : PhysicalAddress) (a b : FrameAllocator) : Prop where
  lowerFirst : ∀ mid : PhysicalAddress, mid.IsAligned → start ≤ mid → mid ≤ stop →
    (do op start mid; op mid stop) a = .ok () b
  upperFirst : ∀ mid : PhysicalAddress, mid.IsAligned → start ≤ mid → mid ≤ stop →
    (do op mid stop; op start mid) a = .ok () b
  pages : ∀ order : List PhysicalPage, order.Perm (Page.between start.page stop.page) →
    order.forM (fun p => op p.base (endOfFrames p.base 1)) a = .ok () b

variable {a b c : FrameAllocator} {value : Bool} {which more : Set Nat} {first count : Nat}
  {start stop lo hi : PhysicalAddress} {p : PhysicalPage}

theorem SameMemory.frameIndex (h : SameMemory a b) (p : PhysicalPage) :
    b.stats.frameIndex p = a.stats.frameIndex p := by
  unfold SameMemory at h
  rw [h]
  rfl

theorem SameMemory.region (h : SameMemory a b) (start stop : PhysicalAddress) :
    b.stats.region start stop = a.stats.region start stop := by
  unfold SameMemory at h
  rw [h]
  rfl

theorem Marked.marks (h : Marked value first count a b) :
    Marks value (Set.Ico first (first + count)) a b where
  consistent := h.consistent
  inside i mem := (h.bits i).trans (if_pos (Set.mem_Ico.1 mem))
  outside i out := (h.bits i).trans (if_neg fun mem => out (Set.mem_Ico.2 mem))
  usage := h.usage
  spare := h.spare
  sameMemory := h.sameMemory

theorem Marked.marks_one {i : Nat} (h : Marked value i 1 a b) : Marks value {i} a b := by
  convert h.marks using 1
  ext j
  simp only [Set.mem_singleton_iff, Set.mem_Ico]
  omega

theorem Marks.nothing (ha : a.Consistent) : Marks value ∅ a a where
  consistent := ha
  inside _ mem := mem.elim
  outside _ _ := rfl
  usage := rfl
  spare := rfl
  sameMemory := .refl a

theorem Marks.trans (h : Marks value which a b) (h' : Marks value more b c) :
    Marks value (which ∪ more) a c where
  consistent := h'.consistent
  inside i mem := by
    by_cases last : i ∈ more
    · exact h'.inside i last
    · rw [h'.outside i last]
      exact h.inside i (mem.resolve_right last)
  outside i out := by
    rw [h'.outside i fun last => out (Or.inr last), h.outside i fun mem => out (Or.inl mem)]
  usage := h'.usage.trans h.usage
  spare := h'.spare.trans h.spare
  sameMemory := h.sameMemory.trans h'.sameMemory

/-- The marked set leaves one allocator only. -/
theorem Marks.eq (h : Marks value which a b) (h' : Marks value which a c) : c = b := by
  refine h.consistent.eq_of_bits h'.consistent ?_ (fun i => ?_) (h'.usage.trans h.usage.symm)
    (h'.spare.trans h.spare.symm)
  · have kept := h.sameMemory
    have kept' := h'.sameMemory
    unfold SameMemory at *
    rw [kept', kept]
  · by_cases mem : i ∈ which
    · rw [h.inside i mem, h'.inside i mem]
    · rw [h.outside i mem, h'.outside i mem]

theorem Marks.undone (ha : a.Consistent) (old : ∀ i ∈ which, a.freeBit i = !value)
    (h : Marks value which a b) (h' : Marks (!value) which b c) : c = a := by
  refine ha.eq_of_bits h'.consistent (h.sameMemory.trans h'.sameMemory) (fun i => ?_)
    (h'.usage.trans h.usage) (h'.spare.trans h.spare)
  by_cases mem : i ∈ which
  · rw [h'.inside i mem, old i mem]
  · rw [h'.outside i mem, h.outside i mem]

theorem forM_marks {α : Type} {f : α → Step Unit} {indices : α → Set Nat} (order : List α)
    (ha : a.Consistent) (apart : order.Pairwise fun x y => ∀ i ∈ indices y, i ∉ indices x)
    (old : ∀ x ∈ order, ∀ i ∈ indices x, a.freeBit i = !value)
    (step : ∀ x ∈ order, ∀ b : FrameAllocator, b.Consistent → SameMemory a b →
      (∀ i ∈ indices x, b.freeBit i = !value) → ∃ c, f x b = .ok () c ∧
        Marks value (indices x) b c) :
    ∃ b, order.forM f a = .ok () b ∧ Marks value {i | ∃ x ∈ order, i ∈ indices x} a b := by
  induction order generalizing a with
  | nil =>
    have none : {i | ∃ x ∈ ([] : List α), i ∈ indices x} = ∅ :=
      Set.eq_empty_of_forall_notMem fun i ⟨x, mem, _⟩ => List.not_mem_nil mem
    rw [none]
    exact ⟨a, rfl, .nothing ha⟩
  | cons x rest ih =>
    obtain ⟨fromRest, apart⟩ := List.pairwise_cons.1 apart
    obtain ⟨b, ran, marks⟩ := step x List.mem_cons_self a ha (.refl a) (old x List.mem_cons_self)
    -- What the first step has marked, the others are not about.
    have still : ∀ y ∈ rest, ∀ i ∈ indices y, b.freeBit i = !value := by
      intro y hy i mem
      rw [marks.outside i (fromRest y hy i mem)]
      exact old y (List.mem_cons_of_mem x hy) i mem
    obtain ⟨c, ranRest, marksRest⟩ := ih marks.consistent apart still fun y hy d hd kept =>
      step y (List.mem_cons_of_mem x hy) d hd (marks.sameMemory.trans kept)
    have union : {i | ∃ y ∈ x :: rest, i ∈ indices y} =
        indices x ∪ {i | ∃ y ∈ rest, i ∈ indices y} := by
      ext i
      simp only [Set.mem_ofPred_eq, Set.mem_union, List.mem_cons, exists_eq_or_imp]
    rw [union]
    exact ⟨c, (step_bind_ok ran _).trans ranRest, marks.trans marksRest⟩

/-- What an operation on regions has in common with its like: a region that is empty is left alone,
and the stretch of one whose frames are all as they should be is marked. -/
structure MarksRegions (value : Bool) (op : PhysicalAddress → PhysicalAddress → Step Unit) :
    Prop where
  empty : ∀ {a : FrameAllocator} {start stop : PhysicalAddress},
    a.stats.region start stop = .ok none → op start stop a = .ok () a
  marks : ∀ {a : FrameAllocator} {start stop : PhysicalAddress} {first count : Nat},
    a.Consistent → a.stats.region start stop = .ok (some (first, count)) →
    (∀ i, first ≤ i → i < first + count → a.freeBit i = !value) →
    ∃ b, op start stop a = .ok () b ∧ Marked value first count a b
  ran : ∀ {a b : FrameAllocator} {start stop : PhysicalAddress},
    a.Consistent → op start stop a = .ok () b →
    (a.stats.region start stop = .ok none ∧ b = a) ∨
      ∃ first count, a.stats.region start stop = .ok (some (first, count)) ∧
        (∀ i, first ≤ i → i < first + count → a.freeBit i = !value) ∧
          Marked value first count a b

theorem marksRegions_takeRegion : MarksRegions false takeRegion where
  empty := takeRegion_of_empty
  marks ha region free := by
    obtain ⟨positive, inside⟩ := Stats.region_eq_some region
    exact takeRegion_of_all_free ha region positive inside free
  ran := takeRegion_eq_ok

theorem marksRegions_releaseRegion : MarksRegions true releaseRegion where
  empty := releaseRegion_of_empty
  marks ha region used := by
    obtain ⟨positive, inside⟩ := Stats.region_eq_some region
    exact releaseRegion_of_all_used ha region positive inside used
  ran := releaseRegion_eq_ok

structure IsPart (start stop lo hi : PhysicalAddress) : Prop where
  aligned : lo.IsAligned ∧ hi.IsAligned
  above : start.toNat ≤ lo.toNat
  order : lo.toNat ≤ hi.toNat
  below : hi.toNat ≤ stop.toNat

def partIndices (first : Nat) (start lo hi : PhysicalAddress) : Set Nat :=
  Set.Ico (first + (lo.page.number - start.page.number))
    (first + (hi.page.number - start.page.number))

variable {op : PhysicalAddress → PhysicalAddress → Step Unit}

theorem mem_partIndices {i : Nat} : i ∈ partIndices first start lo hi ↔
    first + (lo.page.number - start.page.number) ≤ i ∧
      i < first + (hi.page.number - start.page.number) :=
  Set.mem_Ico

theorem partIndices_subset (region : a.stats.region start stop = .ok (some (first, count)))
    (part : IsPart start stop lo hi) :
    partIndices first start lo hi ⊆ Set.Ico first (first + count) := by
  obtain ⟨-, -, length, -⟩ := Stats.ends_of_region region
  have below := part.below
  intro i mem
  rw [mem_partIndices] at mem
  rw [Set.mem_Ico]
  simp only [length, Stats.pagesBetween, Address.number_page] at mem ⊢
  omega

theorem MarksRegions.part (h : MarksRegions value op) (ha : a.Consistent)
    (region : a.stats.region start stop = .ok (some (first, count)))
    (part : IsPart start stop lo hi)
    (old : ∀ i ∈ partIndices first start lo hi, a.freeBit i = !value) :
    ∃ b, op lo hi a = .ok () b ∧ Marks value (partIndices first start lo hi) a b := by
  rcases Nat.eq_or_lt_of_le part.order with same | lt
  · have nothing : partIndices first start lo hi = ∅ := by
      rw [partIndices, show lo = hi from Address.ext same, Set.Ico_self]
    rw [nothing]
    exact ⟨a, h.empty (Stats.region_of_empty part.aligned (Nat.le_of_eq same.symm)), .nothing ha⟩
  · have length : first + (lo.page.number - start.page.number) + Stats.pagesBetween lo hi =
        first + (hi.page.number - start.page.number) := by
      have above := part.above
      simp only [Stats.pagesBetween, Address.number_page]
      omega
    obtain ⟨b, ran, marked⟩ := h.marks ha
      (Stats.region_of_part region part.aligned part.above part.below lt)
      fun i lo hi => old i ⟨lo, length ▸ hi⟩
    have marks := marked.marks
    rw [length] at marks
    exact ⟨b, ran, marks⟩

theorem MarksRegions.twoParts (h : MarksRegions value op) (ha : a.Consistent)
    (region : a.stats.region start stop = .ok (some (first, count)))
    {lo' hi' : PhysicalAddress} (part : IsPart start stop lo hi) (other : IsPart start stop lo' hi')
    (apart : ∀ i ∈ partIndices first start lo' hi', i ∉ partIndices first start lo hi)
    (old : ∀ i ∈ Set.Ico first (first + count), a.freeBit i = !value) :
    ∃ b, (do op lo hi; op lo' hi') a = .ok () b ∧
      Marks value (partIndices first start lo hi ∪ partIndices first start lo' hi') a b := by
  obtain ⟨b, ran, marks⟩ := h.part ha region part fun i mem =>
    old i (partIndices_subset region part mem)
  have still : ∀ i ∈ partIndices first start lo' hi', b.freeBit i = !value := by
    intro i mem
    rw [marks.outside i (apart i mem)]
    exact old i (partIndices_subset region other mem)
  obtain ⟨c, ran', marks'⟩ := h.part marks.consistent
    ((marks.sameMemory.region start stop).trans region) other still
  exact ⟨c, (step_bind_ok ran _).trans ran', marks.trans marks'⟩

theorem isPart_page (region : a.stats.region start stop = .ok (some (first, count)))
    (mem : p ∈ Page.between start.page stop.page) :
    IsPart start stop p.base (endOfFrames p.base 1) ∧
      partIndices first start p.base (endOfFrames p.base 1) =
        {first + (p.number - start.page.number)} := by
  obtain ⟨⟨startAligned, stopAligned⟩, -⟩ := Stats.ends_of_region region
  unfold Address.IsAligned at startAligned stopAligned
  obtain ⟨lo, hi⟩ := Page.mem_between.1 mem
  have bound := stop.isLt
  rw [Address.number_page] at lo hi
  have behind : (endOfFrames p.base 1).toNat = (p.number + 1) * 4096 := by
    rw [endOfFrames, Address.toNat_truncate, Page.toNat_base]
    omega
  constructor
  · refine ⟨⟨p.isAligned_base, ?_⟩, ?_, ?_, ?_⟩
    · rw [Address.IsAligned, behind]
      omega
    all_goals
      simp only [behind, Page.toNat_base]
      omega
  · ext i
    rw [mem_partIndices, Set.mem_singleton_iff, Page.page_base]
    simp only [Address.number_page, behind]
    omega

theorem forM_pages {f : PhysicalPage → Step Unit} {order : List PhysicalPage} (ha : a.Consistent)
    (region : a.stats.region start stop = .ok (some (first, count)))
    (perm : order.Perm (Page.between start.page stop.page))
    (old : ∀ i ∈ Set.Ico first (first + count), a.freeBit i = !value)
    (step : ∀ p ∈ Page.between start.page stop.page, ∀ b : FrameAllocator, b.Consistent →
      SameMemory a b → b.freeBit (first + (p.number - start.page.number)) = !value →
      ∃ c, f p b = .ok () c ∧ Marks value {first + (p.number - start.page.number)} b c) :
    ∃ b, order.forM f a = .ok () b ∧ Marks value (Set.Ico first (first + count)) a b := by
  obtain ⟨-, -, length, -⟩ := Stats.ends_of_region region
  unfold Stats.pagesBetween at length
  have mem {p : PhysicalPage} : p ∈ order ↔
      start.page.number ≤ p.number ∧ p.number < stop.page.number :=
    perm.mem_iff.trans Page.mem_between
  let indices (p : PhysicalPage) : Set Nat := {first + (p.number - start.page.number)}
  have apart : order.Pairwise fun p q => ∀ i ∈ indices q, i ∉ indices p := by
    refine List.Pairwise.imp_of_mem (fun {p q} hp hq ne i there here => ne (Page.ext ?_))
      (perm.nodup_iff.2 (Page.nodup_between _ _))
    have same := (Set.mem_singleton_iff.1 here).symm.trans (Set.mem_singleton_iff.1 there)
    have := mem.1 hp
    have := mem.1 hq
    omega
  have ready : ∀ p ∈ order, ∀ i ∈ indices p, a.freeBit i = !value := by
    intro p hp i here
    have := mem.1 hp
    refine old i ?_
    rw [Set.mem_singleton_iff.1 here, Set.mem_Ico]
    omega
  obtain ⟨b, ran, marks⟩ := forM_marks order ha apart ready fun p hp b hb kept used =>
    step p (perm.mem_iff.1 hp) b hb kept (used _ rfl)
  have whole : {i | ∃ p ∈ order, i ∈ indices p} = Set.Ico first (first + count) := by
    ext i
    simp only [indices, Set.mem_ofPred_eq, Set.mem_singleton_iff, Set.mem_Ico, mem]
    constructor
    · rintro ⟨p, between, rfl⟩
      omega
    · intro between
      have bound := stop.page.isLt
      refine ⟨Page.truncate (start.page.number + (i - first)), ?_⟩
      rw [Page.number_truncate (by omega)]
      omega
  rw [whole] at marks
  exact ⟨b, ran, marks⟩

theorem between_of_empty (region : a.stats.region start stop = .ok none) :
    Page.between start.page stop.page = [] := by
  obtain ⟨-, le⟩ := Stats.region_eq_none region
  refine List.eq_nil_iff_forall_not_mem.2 fun p mem => ?_
  have := Page.mem_between.1 mem
  simp only [Address.number_page] at this
  omega

theorem MarksRegions.decomposes_of_empty (h : MarksRegions value op)
    (region : a.stats.region start stop = .ok none) : Decomposes op start stop a a := by
  obtain ⟨⟨startAligned, stopAligned⟩, le⟩ := Stats.region_eq_none region
  -- Where the region has no page an address between its ends leaves it two empty parts.
  have empty {lo hi : PhysicalAddress} (aligned : lo.IsAligned ∧ hi.IsAligned)
      (le : hi.toNat ≤ lo.toNat) : op lo hi a = .ok () a :=
    h.empty (Stats.region_of_empty aligned le)
  constructor
  · intro mid aligned above below
    have lower := empty ⟨startAligned, aligned⟩ (Nat.le_trans below le)
    exact (step_bind_ok lower _).trans (empty ⟨aligned, stopAligned⟩ (Nat.le_trans le above))
  · intro mid aligned above below
    have upper := empty ⟨aligned, stopAligned⟩ (Nat.le_trans le above)
    exact (step_bind_ok upper _).trans (empty ⟨startAligned, aligned⟩ (Nat.le_trans below le))
  · intro order perm
    rw [between_of_empty region] at perm
    rw [perm.eq_nil]
    rfl

/-- An operation that succeeded on a region succeeds on its parts and leaves the same. -/
theorem MarksRegions.decomposes (h : MarksRegions value op) (ha : a.Consistent)
    (ran : op start stop a = .ok () b) : Decomposes op start stop a b := by
  rcases h.ran ha ran with ⟨region, rfl⟩ | ⟨first, count, region, old, marked⟩
  · exact h.decomposes_of_empty region
  obtain ⟨⟨startAligned, stopAligned⟩, -, length, -⟩ := Stats.ends_of_region region
  have old : ∀ i ∈ Set.Ico first (first + count), a.freeBit i = !value :=
    fun i mem => old i mem.1 mem.2
  have lower {mid : PhysicalAddress} (aligned : mid.IsAligned) (above : start ≤ mid)
      (below : mid ≤ stop) : IsPart start stop start mid :=
    ⟨⟨startAligned, aligned⟩, Nat.le_refl _, above, below⟩
  have upper {mid : PhysicalAddress} (aligned : mid.IsAligned) (above : start ≤ mid)
      (below : mid ≤ stop) : IsPart start stop mid stop :=
    ⟨⟨aligned, stopAligned⟩, above, below, Nat.le_refl _⟩
  have whole {mid : PhysicalAddress} (above : start ≤ mid) (below : mid ≤ stop) :
      partIndices first start start mid ∪ partIndices first start mid stop =
        Set.Ico first (first + count) := by
    have above : start.toNat ≤ mid.toNat := above
    have below : mid.toNat ≤ stop.toNat := below
    ext i
    simp only [Set.mem_union, mem_partIndices, Set.mem_Ico, length, Stats.pagesBetween,
      Address.number_page]
    omega
  constructor
  · intro mid aligned above below
    obtain ⟨c, ran', marks⟩ := h.twoParts ha region (lower aligned above below)
      (upper aligned above below)
      (fun i hi lo => by
        rw [mem_partIndices] at hi lo
        omega) old
    rw [whole above below] at marks
    rwa [marked.marks.eq marks] at ran'
  · intro mid aligned above below
    obtain ⟨c, ran', marks⟩ := h.twoParts ha region (upper aligned above below)
      (lower aligned above below)
      (fun i lo hi => by
        rw [mem_partIndices] at hi lo
        omega) old
    rw [Set.union_comm, whole above below] at marks
    rwa [marked.marks.eq marks] at ran'
  · intro order perm
    obtain ⟨c, ran', marks⟩ := forM_pages (f := fun p => op p.base (endOfFrames p.base 1)) ha
      region perm old fun p mem d hd kept ready => by
        obtain ⟨part, indices⟩ := isPart_page region mem
        rw [← indices]
        refine h.part hd ((kept.region start stop).trans region) part fun i here => ?_
        rw [indices, Set.mem_singleton_iff] at here
        rw [here, ready]
    rwa [marked.marks.eq marks] at ran'

theorem forM_release {order : List PhysicalPage} (ha : a.Consistent)
    (ran : releaseRegion start stop a = .ok () b)
    (perm : order.Perm (Page.between start.page stop.page)) :
    order.forM release a = .ok () b := by
  rcases releaseRegion_eq_ok ha ran with ⟨region, rfl⟩ | ⟨first, count, region, used, marked⟩
  · rw [between_of_empty region] at perm
    rw [perm.eq_nil]
    rfl
  · have old : ∀ i ∈ Set.Ico first (first + count), a.freeBit i = !true :=
      fun i mem => used i mem.1 mem.2
    obtain ⟨c, ran', marks⟩ := forM_pages ha region perm old fun p mem d hd kept ready => by
      obtain ⟨lo, hi⟩ := Page.mem_between.1 mem
      have index := (kept.frameIndex p).trans (Stats.frameIndex_of_region region lo hi)
      obtain ⟨e, released, marked⟩ := release_of_used hd index ready
      exact ⟨e, released, marked.marks_one⟩
    rwa [marked.marks.eq marks] at ran'

theorem MarksRegions.undone {undo : PhysicalAddress → PhysicalAddress → Step Unit}
    (h : MarksRegions value op) (h' : MarksRegions (!value) undo) (ha : a.Consistent)
    (ran : op start stop a = .ok () b) : undo start stop b = .ok () a := by
  rcases h.ran ha ran with ⟨region, rfl⟩ | ⟨first, count, region, old, marked⟩
  · exact h'.empty region
  · obtain ⟨c, back, marked'⟩ := h'.marks marked.consistent
      ((marked.sameMemory.region start stop).trans region) fun i lo hi => by
        rw [marked.marks.inside i ⟨lo, hi⟩, Bool.not_not]
    rwa [marked.marks.undone ha (fun i mem => old i mem.1 mem.2) marked'.marks] at back

theorem release_after_take (ha : a.Managing) (took : take a = .ok (.frame p) b) :
    release p b = .ok () a := by
  rcases take_eq_ok ha.toConsistent took with ⟨no, -⟩ | ⟨i, q, same, frame, inside, free, marked⟩
  · exact nomatch no
  · cases same
    obtain ⟨r, frame', managed, rfl⟩ := ha.addressable.frameAt_eq inside
    cases frame'.symm.trans frame
    have index := (marked.sameMemory.frameIndex p).trans
      (ha.addressable.frameIndex_of_manages managed)
    have marks := marked.marks_one
    obtain ⟨c, back, marked'⟩ := release_of_used marked.consistent index (marks.inside _ rfl)
    have old : ∀ j ∈ ({a.stats.indexOf p} : Set Nat), a.freeBit j = !false := by
      intro j same
      rwa [Set.mem_singleton_iff.1 same]
    rwa [marks.undone ha.toConsistent old marked'.marks_one] at back

variable {memory : BootMemory} {image : Image} {storage : Words}
  {events : List (Request × Answer)}

/-- In every state that a run can reach, an operation on a region leaves word for word what the
operations on its parts and on its pages leave, in whatever order, and the opposite operation takes
it back.  A frame that is taken and released leaves no trace if the memory is addressable. -/
theorem regions_decompose (reported : memory.Reported)
    (ready : setup memory image storage = .ok (.ok a)) (run : Trace a events b) :
    (∀ start stop c, takeRegion start stop b = .ok () c →
      Decomposes takeRegion start stop b c ∧ releaseRegion start stop c = .ok () b) ∧
    (∀ start stop c, releaseRegion start stop b = .ok () c →
      Decomposes releaseRegion start stop b c ∧
        (∀ order : List PhysicalPage, order.Perm (Page.between start.page stop.page) →
          order.forM release b = .ok () c) ∧
        takeRegion start stop c = .ok () b) ∧
    (memory.Addressable → ∀ p c, take b = .ok (.frame p) c → release p c = .ok () b) := by
  obtain ⟨ha, -⟩ := consistent_of_setup reported.total_lt ready
  obtain ⟨hb, -⟩ := run.consistent ha
  refine ⟨fun start stop c took => ?_, fun start stop c released => ?_,
    fun addressable p c took => ?_⟩
  · exact ⟨marksRegions_takeRegion.decomposes hb took,
      marksRegions_takeRegion.undone marksRegions_releaseRegion hb took⟩
  · exact ⟨marksRegions_releaseRegion.decomposes hb released,
      fun order perm => forM_release hb released perm,
      marksRegions_releaseRegion.undone marksRegions_takeRegion hb released⟩
  · obtain ⟨managing, -⟩ := managing_of_setup addressable ready
    exact release_after_take (run.follows managing).1 took

theorem regions_decompose_small :
    ∃ a b, setup ⟨8, 32⟩ smallImage (Array.replicate 7 0) = .ok (.ok a) ∧
      takeRegion ⟨0x102000, by decide⟩ ⟨0x105000, by decide⟩ a = .ok () b ∧
      Decomposes takeRegion ⟨0x102000, by decide⟩ ⟨0x105000, by decide⟩ a b ∧
      releaseRegion ⟨0x102000, by decide⟩ ⟨0x105000, by decide⟩ b = .ok () a := by
  have taken : ∃ a b, setup ⟨8, 32⟩ smallImage (Array.replicate 7 0) = .ok (.ok a) ∧
      Request.run (.takeRegion ⟨0x102000, by decide⟩ ⟨0x105000, by decide⟩) a = .ok .done b :=
    exists_of_answersFirst (by decide +kernel)
  obtain ⟨a, b, ready, step⟩ := taken
  obtain ⟨u, c, took, rest⟩ := step_bind_eq_ok.1 step
  cases rest
  have whole := (regions_decompose ⟨by decide, by decide⟩ ready .nil).1 _ _ _ took
  exact ⟨a, b, ready, took, whole.1, whole.2⟩

end Ia32Memory.FrameAllocator
