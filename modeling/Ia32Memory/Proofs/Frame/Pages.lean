import Mathlib.Order.BooleanAlgebra.Set
import Ia32Memory.Proofs.Frame.Requests

/-! What the operations of an allocator do, page by page.
On a machine whose memory is addressable an allocator is a set of free pages among those that it
manages, and each operation is a small change of that set.  Indices and bits are left behind
here. -/

namespace Ia32Memory.FrameAllocator

def freePages (a : FrameAllocator) : Set PhysicalPage :=
  {p | a.stats.Manages p ∧ a.freeBit (a.stats.indexOf p) = true}

def Holds (a : FrameAllocator) (p : PhysicalPage) : Prop :=
  a.stats.Manages p ∧ p ∉ a.freePages

def users (a : FrameAllocator) (p : PhysicalPage) : Nat := a.usage.count (a.stats.indexOf p)

/-- A consistent allocator of addressable memory. -/
structure Managing (a : FrameAllocator) : Prop extends Consistent a where
  addressable : a.stats.Addressable

/-- After an operation an allocator has these free pages, and otherwise is what it was. -/
structure Became (a b : FrameAllocator) (free : Set PhysicalPage) : Prop where
  managing : b.Managing
  free : b.freePages = free
  usage : b.usage = a.usage
  sameMemory : SameMemory a b

def regionPages (start stop : PhysicalAddress) : Set PhysicalPage :=
  {p | Stats.InRegion start stop p}

variable {a b : FrameAllocator} {p q : PhysicalPage} {i n first count : Nat} {value : Bool}
  {start stop : PhysicalAddress}

theorem users_le (a : FrameAllocator) (p : PhysicalPage) : a.users p ≤ Counters.max :=
  Nat.le_of_lt_succ (BitVec.isLt _)

theorem SameMemory.manages (h : SameMemory a b) : b.stats.Manages p ↔ a.stats.Manages p := by
  unfold SameMemory at h
  rw [h]
  rfl

theorem SameMemory.indexOf (h : SameMemory a b) : b.stats.indexOf p = a.stats.indexOf p := by
  unfold SameMemory at h
  rw [h]
  rfl

theorem SameMemory.addressable (h : SameMemory a b) (ha : a.stats.Addressable) :
    b.stats.Addressable := by
  unfold SameMemory at h
  rw [h]
  exact ⟨ha.total, ha.lower, ha.upper⟩

theorem Became.users {free : Set PhysicalPage} (h : Became a b free) : b.users p = a.users p := by
  rw [FrameAllocator.users, h.usage, h.sameMemory.indexOf, FrameAllocator.users]

theorem Marked.managing (ha : a.Managing) (h : Marked value first count a b) : b.Managing :=
  { h.consistent with addressable := h.sameMemory.addressable ha.addressable }

theorem Marked.mem_inside (h : Marked value first count a b)
    (inside : first ≤ a.stats.indexOf p ∧ a.stats.indexOf p < first + count) :
    p ∈ b.freePages ↔ a.stats.Manages p ∧ value = true := by
  unfold freePages
  rw [Set.mem_ofPred_eq, h.sameMemory.manages, h.sameMemory.indexOf, h.bits, if_pos inside]

theorem Marked.mem_outside (h : Marked value first count a b)
    (outside : ¬(first ≤ a.stats.indexOf p ∧ a.stats.indexOf p < first + count)) :
    p ∈ b.freePages ↔ p ∈ a.freePages := by
  unfold freePages
  rw [Set.mem_ofPred_eq, h.sameMemory.manages, h.sameMemory.indexOf, h.bits, if_neg outside]
  rfl

theorem Marked.became_used (ha : a.Managing) (h : Marked false first count a b)
    {pages : Set PhysicalPage} (covers : ∀ p, a.stats.Manages p →
      (p ∈ pages ↔ first ≤ a.stats.indexOf p ∧ a.stats.indexOf p < first + count)) :
    Became a b (a.freePages \ pages) := by
  refine ⟨h.managing ha, Set.ext fun p => ?_, h.usage, h.sameMemory⟩
  by_cases inside : first ≤ a.stats.indexOf p ∧ a.stats.indexOf p < first + count
  · rw [h.mem_inside inside]
    refine iff_of_false (fun ⟨_, no⟩ => Bool.noConfusion no) fun ⟨free, outside⟩ => ?_
    exact outside ((covers p free.1).2 inside)
  · rw [h.mem_outside inside]
    exact ⟨fun free => ⟨free, fun mem => inside ((covers p free.1).1 mem)⟩, And.left⟩

theorem Marked.became_free (ha : a.Managing) (h : Marked true first count a b)
    {pages : Set PhysicalPage} (managed : ∀ p ∈ pages, a.stats.Manages p)
    (covers : ∀ p, a.stats.Manages p →
      (p ∈ pages ↔ first ≤ a.stats.indexOf p ∧ a.stats.indexOf p < first + count)) :
    Became a b (a.freePages ∪ pages) := by
  refine ⟨h.managing ha, Set.ext fun p => ?_, h.usage, h.sameMemory⟩
  by_cases inside : first ≤ a.stats.indexOf p ∧ a.stats.indexOf p < first + count
  · rw [h.mem_inside inside]
    refine ⟨fun ⟨known, _⟩ => Or.inr ((covers p known).2 inside), ?_⟩
    rintro (free | mem)
    · exact ⟨free.1, rfl⟩
    · exact ⟨managed p mem, rfl⟩
  · rw [h.mem_outside inside]
    refine ⟨Or.inl, ?_⟩
    rintro (free | mem)
    · exact free
    · exact absurd ((covers p (managed p mem)).1 mem) inside

theorem Managing.mem_singleton (ha : a.Managing) (hp : a.stats.Manages p)
    (hq : a.stats.Manages q) : q ∈ ({p} : Set PhysicalPage) ↔
      a.stats.indexOf p ≤ a.stats.indexOf q ∧ a.stats.indexOf q < a.stats.indexOf p + 1 := by
  have same := ha.addressable.indexOf_inj hq hp
  rw [Set.mem_singleton_iff, ← same]
  omega

theorem Managing.frameIndex_cases (ha : a.Managing) (p : PhysicalPage) :
    (a.stats.Manages p ∧ a.stats.frameIndex p = .ok (a.stats.indexOf p)) ∨
      (¬a.stats.Manages p ∧ ∃ f, a.stats.frameIndex p = .error f) := by
  by_cases managed : a.stats.Manages p
  · exact Or.inl ⟨managed, ha.addressable.frameIndex_of_manages managed⟩
  · cases index : a.stats.frameIndex p with
    | ok i => exact absurd (ha.addressable.manages_of_frameIndex index) managed
    | error f => exact Or.inr ⟨managed, f, rfl⟩

theorem Managing.mem_freePages (hp : a.stats.Manages p) :
    p ∈ a.freePages ↔ a.freeBit (a.stats.indexOf p) = true :=
  and_iff_right hp

theorem Managing.take (ha : a.Managing) :
    (a.freePages = ∅ ∧ take a = .ok .exhausted a) ∨
    ∃ p b, p ∈ a.freePages ∧ (∀ q ∈ a.freePages, p.number ≤ q.number) ∧
      FrameAllocator.take a = .ok (.frame p) b ∧ Became a b (a.freePages \ {p}) := by
  rcases take_cases ha.toConsistent with ⟨none, e⟩ | ⟨i, p, b, hi, free, lowest, frame, e, marked⟩
  · refine Or.inl ⟨Set.eq_empty_iff_forall_notMem.2 fun p free => ?_, e⟩
    have used := none _ (ha.addressable.indexOf_lt free.1)
    rw [free.2] at used
    exact Bool.noConfusion used
  · obtain ⟨q, frame', managed, index⟩ := ha.addressable.frameAt_eq hi
    cases frame'.symm.trans frame
    refine Or.inr ⟨p, b, ⟨managed, by rwa [index]⟩, fun r free' => ?_, e, ?_⟩
    · refine Nat.le_of_not_lt fun less => ?_
      have below := (ha.addressable.indexOf_lt_iff free'.1 managed).2 less
      have used := lowest _ (index ▸ below)
      rw [free'.2] at used
      exact Bool.noConfusion used
    · subst index
      exact marked.became_used ha fun r known => ha.mem_singleton managed known

theorem Managing.release (ha : a.Managing) (p : PhysicalPage) :
    ((¬a.stats.Manages p ∨ p ∈ a.freePages) ∧ ∃ f, release p a = .error f a) ∨
    (a.stats.Manages p ∧ p ∉ a.freePages ∧
      ∃ b, FrameAllocator.release p a = .ok () b ∧ Became a b (a.freePages ∪ {p})) := by
  rcases release_cases ha.toConsistent p with ⟨f, index, e⟩ |
    ⟨i, index, ⟨free, e⟩ | ⟨used, b, e, marked⟩⟩
  · refine Or.inl ⟨Or.inl fun managed => ?_, f, e⟩
    rw [ha.addressable.frameIndex_of_manages managed] at index
    exact nomatch index
  · obtain ⟨managed, rfl⟩ := ha.addressable.frameIndex_eq_ok.1 index
    exact Or.inl ⟨Or.inr ⟨managed, free⟩, _, e⟩
  · obtain ⟨managed, rfl⟩ := ha.addressable.frameIndex_eq_ok.1 index
    refine Or.inr ⟨managed, fun free => ?_, b, e, ?_⟩
    · rw [free.2] at used
      exact Bool.noConfusion used
    · refine marked.became_free ha (fun q same => ?_) fun q known => ha.mem_singleton managed known
      rw [Set.mem_singleton_iff.1 same]
      exact managed

theorem regionPages_of_le (le : stop ≤ start) : regionPages start stop = ∅ := by
  refine Set.eq_empty_iff_forall_notMem.2 fun p ⟨lo, hi⟩ => ?_
  have le : stop.toNat ≤ start.toNat := le
  omega

/-- The indices of a region, if it has any. -/
theorem Managing.region_cases (ha : a.Managing) (start stop : PhysicalAddress) :
    ((¬(start.IsAligned ∧ stop.IsAligned) ∨
        start < stop ∧ ∃ p ∈ regionPages start stop, ¬a.stats.Manages p) ∧
      ∃ f, a.stats.region start stop = .error f) ∨
    (start.IsAligned ∧ stop.IsAligned ∧ stop ≤ start ∧ a.stats.region start stop = .ok none) ∨
    (start.IsAligned ∧ stop.IsAligned ∧ start < stop ∧
      (∀ p ∈ regionPages start stop, a.stats.Manages p) ∧
      a.stats.region start stop =
        .ok (some (a.stats.indexOf start.page, Stats.pagesBetween start stop))) := by
  by_cases aligned : start.IsAligned ∧ stop.IsAligned
  · by_cases lt : start.toNat < stop.toNat
    · by_cases managed : ∀ p ∈ regionPages start stop, a.stats.Manages p
      · exact Or.inr (Or.inr ⟨aligned.1, aligned.2, lt, managed,
          ha.addressable.region_of_managed aligned lt managed⟩)
      · have missing : ∃ p ∈ regionPages start stop, ¬a.stats.Manages p := by
          obtain ⟨p, missing⟩ := Classical.not_forall.1 managed
          exact ⟨p, Classical.not_imp.1 missing⟩
        refine Or.inl ⟨Or.inr ⟨lt, missing⟩, ?_⟩
        rcases Stats.region_cases a.stats start stop with ⟨-, e⟩ | ⟨-, le, e⟩ |
          ⟨-, -, -, f, e, -⟩ | ⟨-, -, i, -, -, -, e⟩
        · exact ⟨_, e⟩
        · exact absurd lt (Nat.not_lt.2 le)
        · exact ⟨f, e⟩
        · exact absurd (ha.addressable.inRegion_of_region e).1 managed
    · exact Or.inr (Or.inl ⟨aligned.1, aligned.2, Nat.not_lt.1 lt,
        Stats.region_of_empty aligned (Nat.not_lt.1 lt)⟩)
  · exact Or.inl ⟨Or.inl aligned, _, Stats.region_of_unaligned aligned⟩

theorem Managing.takeRegion (ha : a.Managing) (start stop : PhysicalAddress) :
    ((¬(start.IsAligned ∧ stop.IsAligned) ∨
        start < stop ∧ ∃ p ∈ regionPages start stop, p ∉ a.freePages) ∧
      ∃ f, takeRegion start stop a = .error f a) ∨
    (start.IsAligned ∧ stop.IsAligned ∧ regionPages start stop ⊆ a.freePages ∧
      ∃ b, FrameAllocator.takeRegion start stop a = .ok () b ∧
        Became a b (a.freePages \ regionPages start stop)) := by
  rcases ha.region_cases start stop with ⟨why, f, region⟩ | ⟨hstart, hstop, le, region⟩ |
    ⟨hstart, hstop, lt, managed, region⟩
  · have stopped : FrameAllocator.takeRegion start stop a = .error f a := by
      simp [FrameAllocator.takeRegion, region]
    refine Or.inl ⟨why.imp_right ?_, f, stopped⟩
    rintro ⟨lt, p, mem, missing⟩
    exact ⟨lt, p, mem, fun free => missing free.1⟩
  · have empty := regionPages_of_le le
    refine Or.inr ⟨hstart, hstop, by rw [empty]; exact Set.empty_subset _, a,
      takeRegion_of_empty region, ha, ?_, rfl, .refl a⟩
    rw [empty, Set.sdiff_empty]
  · obtain ⟨positive, inside⟩ := Stats.region_eq_some region
    have covers := (ha.addressable.inRegion_of_region region).2
    by_cases free : regionPages start stop ⊆ a.freePages
    · obtain ⟨b, e, marked⟩ := takeRegion_of_all_free ha.toConsistent region positive inside
        fun i lo hi => by
          obtain ⟨p, -, known, rfl⟩ := ha.addressable.frameAt_eq (Nat.lt_of_lt_of_le hi inside)
          exact (free ((covers p known).2 ⟨lo, hi⟩)).2
      exact Or.inr ⟨hstart, hstop, free, b, e, marked.became_used ha covers⟩
    · obtain ⟨p, mem, used⟩ := Set.not_subset.1 free
      have known := managed p mem
      obtain ⟨lo, hi⟩ := (covers p known).1 mem
      have bit : a.freeBit (a.stats.indexOf p) = false :=
        Bool.eq_false_iff.2 fun set => used ⟨known, set⟩
      exact Or.inl ⟨Or.inr ⟨lt, p, mem, used⟩, _,
        takeRegion_of_used ha.toConsistent region inside lo hi bit⟩

theorem Managing.releaseRegion (ha : a.Managing) (start stop : PhysicalAddress) :
    ((¬(start.IsAligned ∧ stop.IsAligned) ∨ start < stop ∧
        ∃ p ∈ regionPages start stop, ¬a.stats.Manages p ∨ p ∈ a.freePages) ∧
      ∃ f, releaseRegion start stop a = .error f a) ∨
    (start.IsAligned ∧ stop.IsAligned ∧
      (∀ p ∈ regionPages start stop, a.stats.Manages p ∧ p ∉ a.freePages) ∧
      ∃ b, FrameAllocator.releaseRegion start stop a = .ok () b ∧
        Became a b (a.freePages ∪ regionPages start stop)) := by
  rcases ha.region_cases start stop with ⟨why, f, region⟩ | ⟨hstart, hstop, le, region⟩ |
    ⟨hstart, hstop, lt, managed, region⟩
  · have stopped : FrameAllocator.releaseRegion start stop a = .error f a := by
      simp [FrameAllocator.releaseRegion, region]
    refine Or.inl ⟨why.imp_right ?_, f, stopped⟩
    rintro ⟨lt, p, mem, missing⟩
    exact ⟨lt, p, mem, Or.inl missing⟩
  · have empty := regionPages_of_le le
    refine Or.inr ⟨hstart, hstop, by rw [empty]; exact fun p no => no.elim, a,
      releaseRegion_of_empty region, ha, ?_, rfl, .refl a⟩
    rw [empty, Set.union_empty]
  · obtain ⟨positive, inside⟩ := Stats.region_eq_some region
    have covers := (ha.addressable.inRegion_of_region region).2
    by_cases free : ∃ p ∈ regionPages start stop, p ∈ a.freePages
    · obtain ⟨p, mem, free⟩ := free
      obtain ⟨lo, hi⟩ := (covers p free.1).1 mem
      exact Or.inl ⟨Or.inr ⟨lt, p, mem, Or.inr free⟩, _,
        releaseRegion_of_free ha.toConsistent region inside lo hi free.2⟩
    · have used : ∀ p ∈ regionPages start stop, p ∉ a.freePages :=
        fun p mem isFree => free ⟨p, mem, isFree⟩
      obtain ⟨b, e, marked⟩ := releaseRegion_of_all_used ha.toConsistent region positive inside
        fun i lo hi => by
          obtain ⟨p, -, known, rfl⟩ := ha.addressable.frameAt_eq (Nat.lt_of_lt_of_le hi inside)
          exact Bool.eq_false_iff.2 fun set => used p ((covers p known).2 ⟨lo, hi⟩) ⟨known, set⟩
      exact Or.inr ⟨hstart, hstop, fun p mem => ⟨managed p mem, used p mem⟩, b, e,
        marked.became_free ha managed covers⟩

theorem Managing.isFree (ha : a.Managing) (p : PhysicalPage) :
    (¬a.stats.Manages p ∧ ∃ f, isFree p a = .error f a) ∨
    (a.stats.Manages p ∧
      ∃ free, FrameAllocator.isFree p a = .ok free a ∧ (free = true ↔ p ∈ a.freePages)) := by
  rcases ha.frameIndex_cases p with ⟨managed, index⟩ | ⟨missing, f, index⟩
  · have inside : a.stats.indexOf p < a.frames.capacity := by
      rw [ha.frameBits]
      exact ha.addressable.indexOf_lt managed
    refine Or.inr ⟨managed, a.freeBit (a.stats.indexOf p), ?_, (mem_freePages managed).symm⟩
    simp [FrameAllocator.isFree, index, Bitmap.get, Bitmap.requireBit_of_lt inside, freeBit]
  · exact Or.inl ⟨missing, f, by simp [FrameAllocator.isFree, index]⟩

structure Counted (a b : FrameAllocator) (p : PhysicalPage) (n : Nat) : Prop where
  managing : b.Managing
  free : b.freePages = a.freePages
  sameMemory : SameMemory a b
  users : ∀ q, a.stats.Manages q → b.users q = if q = p then n else a.users q

theorem Managing.counted (ha : a.Managing) (managed : a.stats.Manages p)
    (small : n ≤ Counters.max) :
    Counted a { a with usage := a.usage.put (a.stats.indexOf p) n } p n := by
  refine ⟨{ ha.with_usage (Counters.size_put ..) with addressable := ha.addressable }, rfl, rfl,
    fun q known => ?_⟩
  have inside : a.stats.indexOf p / 2 < a.usage.size := by
    have := ha.addressable.indexOf_lt managed
    rw [ha.counters]
    omega
  refine (Counters.count_put inside small _).trans ?_
  simp only [ha.addressable.indexOf_inj managed known, eq_comm]
  rfl

theorem Managing.addUser (ha : a.Managing) (managed : a.stats.Manages p) :
    (a.users p = Counters.max ∧ ∃ f, addUser p a = .error f a) ∨
    (a.users p ≠ Counters.max ∧ ∃ b, FrameAllocator.addUser p a = .ok (a.users p + 1) b ∧
      Counted a b p (a.users p + 1)) := by
  rcases addUser_cases ha.toShaped p with ⟨f, index, -⟩ | ⟨i, index, ⟨full, e⟩ | ⟨room, e⟩⟩
  · rw [ha.addressable.frameIndex_of_manages managed] at index
    exact nomatch index
  · obtain ⟨-, rfl⟩ := ha.addressable.frameIndex_eq_ok.1 index
    exact Or.inl ⟨full, _, e⟩
  · obtain ⟨-, rfl⟩ := ha.addressable.frameIndex_eq_ok.1 index
    have small : a.users p + 1 ≤ Counters.max := Nat.lt_of_le_of_ne (users_le a p) room
    exact Or.inr ⟨room, _, e, ha.counted managed small⟩

theorem Managing.removeUser (ha : a.Managing) (managed : a.stats.Manages p) :
    (a.users p = 0 ∧ ∃ f, removeUser p a = .error f a) ∨
    (a.users p ≠ 0 ∧ ∃ b, FrameAllocator.removeUser p a = .ok (a.users p - 1) b ∧
      Counted a b p (a.users p - 1)) := by
  rcases removeUser_cases ha.toShaped p with ⟨f, index, -⟩ | ⟨i, index, ⟨none, e⟩ | ⟨some, e⟩⟩
  · rw [ha.addressable.frameIndex_of_manages managed] at index
    exact nomatch index
  · obtain ⟨-, rfl⟩ := ha.addressable.frameIndex_eq_ok.1 index
    exact Or.inl ⟨none, _, e⟩
  · obtain ⟨-, rfl⟩ := ha.addressable.frameIndex_eq_ok.1 index
    exact Or.inr ⟨some, _, e, ha.counted managed (Nat.le_trans (Nat.sub_le ..) (users_le ..))⟩

theorem Managing.counted_of_addUser (ha : a.Managing) (e : FrameAllocator.addUser p a = .ok n b) :
    a.stats.Manages p ∧ n = a.users p + 1 ∧ Counted a b p n := by
  have managed : a.stats.Manages p := by
    rcases addUser_cases ha.toShaped p with ⟨f, -, e'⟩ | ⟨i, index, -⟩
    · exact nomatch e'.symm.trans e
    · exact ha.addressable.manages_of_frameIndex index
  rcases ha.addUser managed with ⟨-, f, e'⟩ | ⟨-, c, e', counted⟩
  · exact nomatch e'.symm.trans e
  · cases e'.symm.trans e
    exact ⟨managed, rfl, counted⟩

theorem Managing.counted_of_removeUser (ha : a.Managing)
    (e : FrameAllocator.removeUser p a = .ok n b) :
    a.stats.Manages p ∧ a.users p = n + 1 ∧ Counted a b p n := by
  have managed : a.stats.Manages p := by
    rcases removeUser_cases ha.toShaped p with ⟨f, -, e'⟩ | ⟨i, index, -⟩
    · exact nomatch e'.symm.trans e
    · exact ha.addressable.manages_of_frameIndex index
  rcases ha.removeUser managed with ⟨-, f, e'⟩ | ⟨some, c, e', counted⟩
  · exact nomatch e'.symm.trans e
  · cases e'.symm.trans e
    exact ⟨managed, (Nat.succ_pred_eq_of_ne_zero some).symm, counted⟩

end Ia32Memory.FrameAllocator
