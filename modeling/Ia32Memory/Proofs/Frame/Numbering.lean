import Ia32Memory.Frame.Numbering
import Ia32Memory.Proofs.Step

/-! Frames and their indices, regions and stretches of indices.
An index that is given lies below the total, and the only faults are those that blame the frame or
the region that was asked for.  On a machine whose lower memory ends at or below 1 MiB and whose
upper memory ends at or below 4 GiB the numbering is one to one and keeps the order of addresses,
and a region has a stretch of indices exactly when all of its pages are managed. -/

namespace Ia32Memory

/-- The faults that tell a caller what is wrong with its request. -/
def Fault.BlamesCaller : Fault → Prop
  | .unalignedRegion | .regionNotFree .. | .regionNotAllocated .. | .regionSpansHole ..
  | .frameInHole _ | .frameBeyondEnd _ | .alreadyFree _ | .usageOverflow _
  | .usageUnderflow _ => True
  | _ => False

namespace Stats
variable {s : Stats} {i j first count : Nat} {p q : PhysicalPage} {f : Fault}
  {start stop : PhysicalAddress}

theorem requireIndex_eq_ok : s.requireIndex j f = .ok i ↔ i < s.total ∧ j = i := by
  unfold requireIndex
  split <;> simp <;> omega

theorem frameAt_of_lt (h : i < s.total) :
    s.frameAt i =
      .ok (Page.truncate (if i < s.lower then i else i - s.lower + firstUpperFrame)) := by
  simp [frameAt, requireIndex, h, pure, Except.pure]

theorem lt_total_of_frameIndex (h : s.frameIndex p = .ok i) : i < s.total := by
  unfold frameIndex at h
  split at h
  · split at h
    · exact (requireIndex_eq_ok.1 h).1
    · simp at h
  · exact (requireIndex_eq_ok.1 h).1

theorem blames_of_frameIndex (h : s.frameIndex p = .error f) : f.BlamesCaller := by
  unfold frameIndex requireIndex at h
  split at h <;> split at h <;> try split at h
  all_goals cases h <;> trivial

theorem frameIndex_le_of_le (hp : s.frameIndex p = .ok i) (hq : s.frameIndex q = .ok j)
    (le : p.number ≤ q.number) : i ≤ j := by
  unfold frameIndex firstUpperFrame at hp hq
  split at hp
  · split at hp
    · obtain ⟨-, rfl⟩ := requireIndex_eq_ok.1 hp
      split at hq
      · split at hq
        · exact (requireIndex_eq_ok.1 hq).2 ▸ le
        · simp at hq
      · obtain ⟨-, rfl⟩ := requireIndex_eq_ok.1 hq
        omega
    · simp at hp
  · obtain ⟨-, rfl⟩ := requireIndex_eq_ok.1 hp
    rw [if_neg (by omega)] at hq
    obtain ⟨-, rfl⟩ := requireIndex_eq_ok.1 hq
    omega

theorem region_of_unaligned (h : ¬(start.IsAligned ∧ stop.IsAligned)) :
    s.region start stop = .error .unalignedRegion := if_pos h

theorem region_of_empty (aligned : start.IsAligned ∧ stop.IsAligned) (h : stop ≤ start) :
    s.region start stop = .ok none := by
  rw [region, if_neg (not_not_intro aligned), if_pos h]

def pagesBetween (start stop : PhysicalAddress) : Nat := stop.page.number - start.page.number

def lastPage (stop : PhysicalAddress) : PhysicalPage := Page.truncate (stop.page.number - 1)

theorem number_lastPage (stop : PhysicalAddress) :
    (lastPage stop).number = stop.page.number - 1 := by
  have := stop.page.isLt
  exact Nat.mod_eq_of_lt (by omega)

theorem region_eq (aligned : start.IsAligned ∧ stop.IsAligned) (lt : start.toNat < stop.toNat)
    (hfirst : s.frameIndex start.page = .ok i) (hlast : s.frameIndex (lastPage stop) = .ok j) :
    s.region start stop =
      if j - i + 1 = pagesBetween start stop then .ok (some (i, j - i + 1))
      else .error (.regionSpansHole start stop ((j - i + 1) * 4096)
        (stop.toNat - start.toNat)) := by
  have order : i ≤ j := by
    refine frameIndex_le_of_le hfirst hlast ?_
    rw [number_lastPage]
    simp only [Address.number_page]
    obtain ⟨startAligned, stopAligned⟩ := aligned
    unfold Address.IsAligned at startAligned stopAligned
    omega
  have same : (j - i + 1) * 4096 = stop.toNat - start.toNat ↔
      j - i + 1 = pagesBetween start stop := by
    obtain ⟨startAligned, stopAligned⟩ := aligned
    unfold Address.IsAligned at startAligned stopAligned
    simp only [pagesBetween, Address.number_page]
    omega
  have notEmpty : ¬stop ≤ start := Nat.not_le.2 lt
  unfold lastPage at hlast
  simp only [region, not_not_intro aligned, if_false, notEmpty, hfirst, hlast, except_ok_bind,
    minus_of_le order, same]
  split <;> rfl

/-- All that can come of asking for the indices of a region. -/
theorem region_cases (s : Stats) (start stop : PhysicalAddress) :
    (¬(start.IsAligned ∧ stop.IsAligned) ∧ s.region start stop = .error .unalignedRegion) ∨
    ((start.IsAligned ∧ stop.IsAligned) ∧ stop ≤ start ∧ s.region start stop = .ok none) ∨
    ((start.IsAligned ∧ stop.IsAligned) ∧ start.toNat < stop.toNat ∧
      (∀ i j, s.frameIndex start.page = .ok i → s.frameIndex (lastPage stop) = .ok j →
        j - i + 1 ≠ pagesBetween start stop) ∧
      ∃ f, s.region start stop = .error f ∧ f.BlamesCaller) ∨
    ((start.IsAligned ∧ stop.IsAligned) ∧ start.toNat < stop.toNat ∧
      ∃ i, s.frameIndex start.page = .ok i ∧
        s.frameIndex (lastPage stop) = .ok (i + pagesBetween start stop - 1) ∧
        0 < pagesBetween start stop ∧
        s.region start stop = .ok (some (i, pagesBetween start stop))) := by
  by_cases aligned : start.IsAligned ∧ stop.IsAligned
  · refine Or.inr ?_
    by_cases lt : start.toNat < stop.toNat
    · refine Or.inr ?_
      have notEmpty : ¬stop ≤ start := Nat.not_le.2 lt
      cases hfirst : s.frameIndex start.page with
      | error f =>
        refine Or.inl ⟨aligned, lt, by simp, f, ?_, blames_of_frameIndex hfirst⟩
        simp [region, aligned, notEmpty, hfirst]
      | ok i =>
        cases hlast : s.frameIndex (lastPage stop) with
        | error f =>
          have blames := blames_of_frameIndex hlast
          refine Or.inl ⟨aligned, lt, by simp, f, ?_, blames⟩
          unfold lastPage at hlast
          simp only [region, not_not_intro aligned, if_false, notEmpty, hfirst, hlast,
            except_ok_bind, except_error_bind]
        | ok j =>
          rw [region_eq aligned lt hfirst hlast]
          by_cases length : j - i + 1 = pagesBetween start stop
          · refine Or.inr ⟨aligned, lt, i, rfl, ?_, by omega, ?_⟩
            · have order := frameIndex_le_of_le hfirst hlast (by
                rw [number_lastPage]
                unfold pagesBetween at length
                omega)
              rw [Except.ok.injEq]
              omega
            · rw [if_pos length, length]
          · refine Or.inl ⟨aligned, lt, ?_, _, if_neg length, trivial⟩
            simpa using length
    · exact Or.inl ⟨aligned, Nat.not_lt.1 lt, region_of_empty aligned (Nat.not_lt.1 lt)⟩
  · exact Or.inl ⟨aligned, region_of_unaligned aligned⟩

theorem region_eq_none (h : s.region start stop = .ok none) :
    (start.IsAligned ∧ stop.IsAligned) ∧ stop.toNat ≤ start.toNat := by
  rcases region_cases s start stop with ⟨-, e⟩ | ⟨aligned, le, -⟩ | ⟨-, -, -, f, e, -⟩ |
    ⟨-, -, i, -, -, -, e⟩
  · simp [e] at h
  · exact ⟨aligned, le⟩
  · simp [e] at h
  · simp [e] at h

theorem ends_of_region (h : s.region start stop = .ok (some (first, count))) :
    (start.IsAligned ∧ stop.IsAligned) ∧ start.toNat < stop.toNat ∧
      count = pagesBetween start stop ∧ 0 < count ∧ s.frameIndex start.page = .ok first ∧
      s.frameIndex (lastPage stop) = .ok (first + count - 1) := by
  rcases region_cases s start stop with ⟨-, e⟩ | ⟨-, -, e⟩ | ⟨-, -, -, f, e, -⟩ |
    ⟨aligned, lt, i, hfirst, hlast, positive, e⟩
  · simp [e] at h
  · simp [e] at h
  · simp [e] at h
  · rw [e, Except.ok.injEq, Option.some.injEq, Prod.mk.injEq] at h
    obtain ⟨rfl, rfl⟩ := h
    exact ⟨aligned, lt, rfl, positive, hfirst, hlast⟩

theorem region_eq_some (h : s.region start stop = .ok (some (first, count))) :
    0 < count ∧ first + count ≤ s.total := by
  obtain ⟨-, -, -, positive, -, hlast⟩ := ends_of_region h
  have := lt_total_of_frameIndex hlast
  exact ⟨positive, by omega⟩

theorem frameIndex_of_region (h : s.region start stop = .ok (some (first, count)))
    (lo : start.page.number ≤ p.number) (hi : p.number < stop.page.number) :
    s.frameIndex p = .ok (first + (p.number - start.page.number)) := by
  obtain ⟨-, -, length, positive, hfirst, hlast⟩ := ends_of_region h
  have last := number_lastPage stop
  unfold pagesBetween at length
  unfold frameIndex firstUpperFrame at *
  by_cases low : start.page.number < 256
  · rw [if_pos low] at hfirst
    split at hfirst
    · obtain ⟨-, same⟩ := requireIndex_eq_ok.1 hfirst
      by_cases lastLow : (lastPage stop).number < 256
      · rw [if_pos lastLow] at hlast
        split at hlast
        · have := requireIndex_eq_ok.1 hlast
          rw [if_pos (by omega), if_pos (by omega), requireIndex_eq_ok]
          omega
        · exact nomatch hlast
      · -- On both sides of 1 MiB the indices fit only if lower memory reaches up to it.
        rw [if_neg lastLow] at hlast
        have := requireIndex_eq_ok.1 hlast
        split
        · rw [if_pos (by omega), requireIndex_eq_ok]
          omega
        · rw [requireIndex_eq_ok]
          omega
    · exact nomatch hfirst
  · rw [if_neg low] at hfirst
    rw [if_neg (by omega)] at hlast
    have := requireIndex_eq_ok.1 hfirst
    have := requireIndex_eq_ok.1 hlast
    rw [if_neg (by omega), requireIndex_eq_ok]
    omega

variable {lo hi : PhysicalAddress}

theorem region_of_part (h : s.region start stop = .ok (some (first, count)))
    (aligned : lo.IsAligned ∧ hi.IsAligned) (above : start.toNat ≤ lo.toNat)
    (below : hi.toNat ≤ stop.toNat) (lt : lo.toNat < hi.toNat) :
    s.region lo hi =
      .ok (some (first + (lo.page.number - start.page.number), pagesBetween lo hi)) := by
  obtain ⟨⟨startAligned, stopAligned⟩, -⟩ := ends_of_region h
  have last := number_lastPage hi
  obtain ⟨loAligned, hiAligned⟩ := aligned
  unfold Address.IsAligned at startAligned stopAligned loAligned hiAligned
  have order : lo.page.number < hi.page.number := by
    simp only [Address.number_page]
    omega
  have fromStart : start.page.number ≤ lo.page.number := by
    simp only [Address.number_page]
    omega
  have toStop : hi.page.number ≤ stop.page.number := by
    simp only [Address.number_page]
    omega
  have length : first + ((lastPage hi).number - start.page.number) -
      (first + (lo.page.number - start.page.number)) + 1 = pagesBetween lo hi := by
    unfold pagesBetween
    omega
  rw [region_eq ⟨loAligned, hiAligned⟩ lt (frameIndex_of_region h fromStart (by omega))
    (frameIndex_of_region h (by omega) (by omega)), if_pos length, length]

theorem blames_of_region (h : s.region start stop = .error f) : f.BlamesCaller := by
  rcases region_cases s start stop with ⟨-, e⟩ | ⟨-, -, e⟩ | ⟨-, -, -, g, e, blames⟩ |
    ⟨-, -, i, -, -, -, e⟩
  · cases e.symm.trans h
    trivial
  · simp [e] at h
  · cases e.symm.trans h
    exact blames
  · simp [e] at h

/-- Lower memory ends at or below 1 MiB, and upper memory at or below 4 GiB. -/
structure Addressable (s : Stats) : Prop where
  total : s.total = s.lower + s.upper
  lower : s.lower ≤ firstUpperFrame
  upper : firstUpperFrame + s.upper ≤ pageCount

def Manages (s : Stats) (p : PhysicalPage) : Prop :=
  p.number < s.lower ∨ (firstUpperFrame ≤ p.number ∧ p.number < firstUpperFrame + s.upper)

def indexOf (s : Stats) (p : PhysicalPage) : Nat :=
  if p.number < firstUpperFrame then p.number else p.number - firstUpperFrame + s.lower

theorem Addressable.indexOf_lt (h : s.Addressable) (hp : s.Manages p) :
    s.indexOf p < s.total := by
  have total := h.total
  have lower := h.lower
  unfold firstUpperFrame at lower
  unfold Manages firstUpperFrame at hp
  unfold indexOf firstUpperFrame
  split <;> omega

theorem Addressable.frameIndex_eq_ok (h : s.Addressable) :
    s.frameIndex p = .ok i ↔ s.Manages p ∧ s.indexOf p = i := by
  have := h.total
  have := h.lower
  unfold frameIndex indexOf Manages firstUpperFrame
  unfold firstUpperFrame at *
  by_cases low : p.number < 256
  · simp only [if_pos low]
    by_cases inside : p.number < s.lower
    · simp only [if_pos inside, requireIndex_eq_ok]
      omega
    · simp only [if_neg inside]
      refine iff_of_false (fun e => nomatch e) ?_
      omega
  · simp only [if_neg low, requireIndex_eq_ok]
    omega

theorem Addressable.frameIndex_of_manages (h : s.Addressable) (hp : s.Manages p) :
    s.frameIndex p = .ok (s.indexOf p) :=
  h.frameIndex_eq_ok.2 ⟨hp, rfl⟩

theorem Addressable.manages_of_frameIndex (h : s.Addressable) (hp : s.frameIndex p = .ok i) :
    s.Manages p :=
  (h.frameIndex_eq_ok.1 hp).1

theorem Addressable.indexOf_lt_iff (h : s.Addressable) (hp : s.Manages p) (hq : s.Manages q) :
    s.indexOf p < s.indexOf q ↔ p.number < q.number := by
  have := h.lower
  unfold Manages firstUpperFrame at hp hq
  unfold indexOf firstUpperFrame
  unfold firstUpperFrame at this
  split <;> split <;> omega

theorem Addressable.indexOf_inj (h : s.Addressable) (hp : s.Manages p) (hq : s.Manages q) :
    s.indexOf p = s.indexOf q ↔ p = q := by
  refine ⟨fun same => Page.ext ?_, fun same => same ▸ rfl⟩
  have notLess := h.indexOf_lt_iff hp hq
  have notMore := h.indexOf_lt_iff hq hp
  omega

theorem Addressable.frameAt_eq (h : s.Addressable) (hi : i < s.total) :
    ∃ p, s.frameAt i = .ok p ∧ s.Manages p ∧ s.indexOf p = i := by
  have := h.total
  have := h.lower
  have := h.upper
  unfold firstUpperFrame pageCount at *
  refine ⟨_, frameAt_of_lt hi, ?_⟩
  unfold Manages indexOf firstUpperFrame
  by_cases low : i < s.lower
  · have number : (Page.truncate i : PhysicalPage).number = i := Nat.mod_eq_of_lt (by omega)
    rw [if_pos low, number, if_pos (by omega)]
    omega
  · have number : (Page.truncate (i - s.lower + 256) : PhysicalPage).number =
        i - s.lower + 256 := Nat.mod_eq_of_lt (by omega)
    rw [if_neg low, number, if_neg (by omega)]
    omega

def InRegion (start stop : PhysicalAddress) (p : PhysicalPage) : Prop :=
  start.toNat ≤ p.base.toNat ∧ p.base.toNat < stop.toNat

theorem inRegion_iff (aligned : start.IsAligned ∧ stop.IsAligned) :
    InRegion start stop p ↔ start.page.number ≤ p.number ∧ p.number < stop.page.number := by
  obtain ⟨startAligned, stopAligned⟩ := aligned
  unfold Address.IsAligned at startAligned stopAligned
  simp only [InRegion, Address.number_page, Page.toNat_base]
  omega

theorem Addressable.region_of_managed (h : s.Addressable)
    (aligned : start.IsAligned ∧ stop.IsAligned) (lt : start.toNat < stop.toNat)
    (managed : ∀ p, InRegion start stop p → s.Manages p) :
    s.region start stop = .ok (some (s.indexOf start.page, pagesBetween start stop)) := by
  have positive : start.page.number < stop.page.number := by
    obtain ⟨startAligned, stopAligned⟩ := aligned
    unfold Address.IsAligned at startAligned stopAligned
    simp only [Address.number_page]
    omega
  have last := number_lastPage stop
  have hfirst : s.Manages start.page := managed _ ((inRegion_iff aligned).2 ⟨by omega, by omega⟩)
  have hlast : s.Manages (lastPage stop) :=
    managed _ ((inRegion_iff aligned).2 ⟨by omega, by omega⟩)
  have length : s.indexOf (lastPage stop) - s.indexOf start.page + 1 =
      pagesBetween start stop := by
    have := h.lower
    -- A region on both sides of 1 MiB holds the last page below it, so there is no hole.
    have below : start.page.number < 256 → 256 ≤ (lastPage stop).number →
        s.Manages ⟨255, by decide⟩ := by
      intro low high
      refine managed _ ((inRegion_iff aligned).2 ?_)
      dsimp only
      omega
    unfold Manages firstUpperFrame at hfirst hlast below
    unfold firstUpperFrame at this
    dsimp only at below
    unfold indexOf pagesBetween firstUpperFrame
    split <;> split <;> omega
  rw [region_eq aligned lt (h.frameIndex_of_manages hfirst) (h.frameIndex_of_manages hlast),
    if_pos length, length]

theorem Addressable.inRegion_of_region (h : s.Addressable)
    (region : s.region start stop = .ok (some (first, count))) :
    (∀ p, InRegion start stop p → s.Manages p) ∧
      ∀ p, s.Manages p →
        (InRegion start stop p ↔ first ≤ s.indexOf p ∧ s.indexOf p < first + count) := by
  obtain ⟨aligned, -, rfl, positive, hfirst, hlast⟩ := ends_of_region region
  obtain ⟨startManaged, startIndex⟩ := h.frameIndex_eq_ok.1 hfirst
  obtain ⟨lastManaged, lastIndex⟩ := h.frameIndex_eq_ok.1 hlast
  have last := number_lastPage stop
  have := h.lower
  unfold Manages firstUpperFrame at startManaged lastManaged
  unfold indexOf firstUpperFrame at startIndex lastIndex
  unfold pagesBetween at positive lastIndex ⊢
  unfold firstUpperFrame at this
  simp only [inRegion_iff aligned]
  unfold Manages indexOf firstUpperFrame
  constructor
  · intro p inside
    split at startIndex <;> split at lastIndex <;> omega
  · intro p managed
    split at startIndex <;> split at lastIndex <;> split <;> omega

end Stats
end Ia32Memory
