import Ia32Memory.Proofs.Frame.Census
import Ia32Memory.Proofs.Machine.Anonymous

/-! What mappings cost.
Frames are taken one at a time, each while one is free and the quota allows it.  So what an
operation needs can be said beforehand as a number: if it can be afforded the operation succeeds and
takes just that many frames, and if not it is refused. -/

namespace Ia32Memory

namespace Machine
variable {m m' m'' : Machine} {n k : Nat} {f : PhysicalPage}

/-- So many frames can be taken: they are free, and the quota, if there is one, is not less. -/
def Affords (m : Machine) (n : Nat) : Prop :=
  n ≤ m.frames.stats.free ∧ ∀ q, m.quota = some q → n ≤ q

theorem Affords.mono (h : m.Affords n) (le : k ≤ n) : m.Affords k :=
  ⟨le.trans h.1, fun q left => le.trans (h.2 q left)⟩

theorem affords_of_unmetered (unmetered : m.quota = none) :
    m.Affords n ↔ n ≤ m.frames.stats.free := by
  simp [Affords, unmetered]

structure Pays (m : Machine) (n : Nat) (m' : Machine) : Prop where
  affords : m.Affords n
  free : m'.frames.stats.free + n = m.frames.stats.free
  quota : m'.quota = m.quota.map (· - n)

theorem pays_nothing (free : m'.frames.stats.free = m.frames.stats.free)
    (quota : m'.quota = m.quota) : m.Pays 0 m' := by
  refine ⟨⟨Nat.zero_le _, fun _ _ => Nat.zero_le _⟩, free, ?_⟩
  rw [quota]
  cases m.quota <;> rfl

theorem Pays.affords_iff (h : m.Pays n m') : m.Affords (n + k) ↔ m'.Affords k := by
  obtain ⟨⟨-, within⟩, free, quota⟩ := h
  unfold Affords
  rw [quota]
  cases left : m.quota with
  | none =>
    simp only [Option.map_none, reduceCtorEq, false_imp_iff, implies_true, and_true]
    omega
  | some q =>
    have enough := within q left
    simp only [Option.map_some, Option.some.injEq, forall_eq']
    omega

theorem Pays.trans (h : m.Pays n m') (h' : m'.Pays k m'') : m.Pays (n + k) m'' := by
  refine ⟨h.affords_iff.2 h'.affords, ?_, ?_⟩
  · have := h.free
    have := h'.free
    omega
  · rw [h'.quota, h.quota, Option.map_map]
    congr 1
    funext q
    exact Nat.sub_sub q n k

theorem not_affords (h : m.frames.Managing) (why : m.quota = some 0 ∨ m.frames.freePages = ∅)
    (positive : 0 < n) : ¬m.Affords n := by
  rintro ⟨enough, within⟩
  rcases why with spent | none
  · exact absurd (within 0 spent) (Nat.not_le.2 positive)
  · rw [h.free_eq_ncard, none, Set.ncard_empty] at enough
    omega

theorem pays_of_taken (h : m.frames.Managing)
    (granted : m.quota ≠ some 0 ∧ m'.quota = m.quota.map (· - 1))
    (free : f ∈ m.frames.freePages)
    (became : FrameAllocator.Became m.frames m'.frames (m.frames.freePages \ {f})) :
    m.Pays 1 m' := by
  have taken := became.free_taken h free
  refine ⟨⟨by omega, fun q left => ?_⟩, taken, granted.2⟩
  refine Nat.pos_of_ne_zero ?_
  rintro rfl
  exact granted.1 left

end Machine

namespace AddressSpace
variable {s : AddressSpace} {m m' m₁ m₂ m₃ : Machine} {own : Set VirtualPage}
  {f g frame : PhysicalPage} {flags : Entry} {page : VirtualPage}

/-- The frames that a mapping of the page takes for a table. -/
def toll (s : AddressSpace) (mem : PhysicalMemory) (page : VirtualPage) : Nat :=
  if (s.link mem page.directorySlot).present then 0 else 1

theorem toll_le_one (s : AddressSpace) (mem : PhysicalMemory) (page : VirtualPage) :
    s.toll mem page ≤ 1 := by
  unfold toll
  split <;> decide

theorem Intact.mapPage_pays (h : s.Intact m none) (ordinary : page.directorySlot ≠ .recursive)
    (unmapped : s.mapping m.memory page = none) (frame : PhysicalPage) (flags : Entry) :
    (¬m.Affords (s.toll m.memory page) ∧
      ∃ m', s.mapPage page frame flags m = .ok (.error .outOfMemory) m') ∨
    ∃ m', s.mapPage page frame flags m = .ok (.ok ()) m' ∧ m.Pays (s.toll m.memory page) m' := by
  unfold toll
  rcases h.mapPage_steps ordinary unmapped frame flags with ⟨⟨absent, why⟩, m', e, -⟩ |
    ⟨m₁, f, frames, tabled, -, counted, e⟩
  · refine Or.inl ⟨?_, m', e⟩
    rw [absent]
    exact Machine.not_affords h.frames why Nat.one_pos
  · refine Or.inr ⟨_, e, ?_⟩
    have managing := (h.of_tabled tabled).2.intact.frames
    have entered : m₁.Pays 0 (m₁.entered f page (Entry.aimedAt frame flags) frames) :=
      Machine.pays_nothing (counted.free_eq managing) rfl
    cases tabled with
    | linked linked =>
      rw [linked.present]
      exact entered
    | installed _ absent left free became =>
      rw [absent]
      exact (Machine.pays_of_taken h.frames ⟨left, rfl⟩ free became).trans entered

theorem prepare_answers {e : MapError} (s : AddressSpace) (page : VirtualPage)
    (f : PhysicalPage) (flags : Entry) : s.prepare page f flags m ≠ .ok (.error e) m' := by
  intro ran
  obtain ⟨n, m₁, -, ran⟩ := step_bind_eq_ok.1 ran
  obtain ⟨u, m₂, -, ran⟩ := step_bind_eq_ok.1 ran
  cases writable : flags.writable with
  | true =>
    simp only [writable, if_true] at ran
    exact nomatch ran
  | false =>
    simp only [writable, Bool.false_eq_true, if_false] at ran
    obtain ⟨u, m₃, -, ran⟩ := step_bind_eq_ok.1 ran
    exact nomatch ran

theorem Stages.pays (stages : s.Stages m page flags f m₁ m₂ m₃ m') (h : s.Intact m none) :
    m.Pays (1 + s.toll m.memory page) m' := by
  have taken := Machine.pays_of_taken h.frames stages.granted stages.free stages.became
  obtain ⟨memory, -, intact⟩ := stages.taken
  obtain ⟨unmapped, yields⟩ := intact.sound.of_mapPage stages.mapped
  have mapped : m₁.Pays (s.toll m.memory page) m₂ := by
    rw [← memory]
    rcases intact.mapPage_pays stages.ordinary unmapped f (flags.withWritable true) with
      ⟨-, m₄, e⟩ | ⟨m₄, e, pays⟩
    · exact nomatch e.symm.trans stages.mapped
    · cases e.symm.trans stages.mapped
      exact pays
  obtain ⟨quota, counted⟩ := stages.users
  have used : m₂.Pays 0 m₃ :=
    Machine.pays_nothing (counted.free_eq yields.sound.intact.frames) quota
  have finished : m₃.Pays 0 m' := by
    rcases stages.finished with ⟨-, rfl⟩ | ⟨-, protects⟩
    · exact Machine.pays_nothing rfl rfl
    · obtain ⟨t, -, -, rfl⟩ := stages.emptied.shielded_of_setWritable protects
      exact Machine.pays_nothing rfl rfl
  exact taken.trans (mapped.trans (used.trans finished))

theorem Sound.not_affords_of_refused {e : MapError} (h : s.Sound m own)
    (ordinary : page.directorySlot ≠ .recursive) (unmapped : s.mapping m.memory page = none)
    (ran : s.allocPage page flags m = .ok (.error e) m') :
    ¬m.Affords (1 + s.toll m.memory page) := by
  obtain ⟨taken, m₁, took, rest⟩ := step_bind_eq_ok.1 ran
  rcases Paging.takeFrame_cases h.intact.frames with ⟨why, m₂, missed, -⟩ |
    ⟨left, f, frames, free, -, took', became⟩
  · exact Machine.not_affords h.intact.frames why (Nat.add_pos_left Nat.one_pos _)
  · cases took'.symm.trans took
    let m₁ := (Paging.metered m).withFrames frames
    have pays : m.Pays 1 m₁ := Machine.pays_of_taken h.intact.frames ⟨left, rfl⟩ free became
    obtain ⟨fresh, -, -⟩ := h.taken m₁ free became rfl
    rcases fresh.sound.intact.mapPage_pays ordinary unmapped f (flags.withWritable true) with
      ⟨poor, -⟩ | ⟨m₂, mapped, -⟩
    · exact fun rich => poor (pays.affords_iff.1 rich)
    · have ended := (step_bind_ok mapped _).symm.trans rest
      exact absurd ended (s.prepare_answers page f flags)

/-- A page that is not mapped gets a frame of its own exactly if that can be afforded. -/
theorem Sound.allocPage_pays (h : s.Sound m own) (ordinary : page.directorySlot ≠ .recursive)
    (unmapped : s.mapping m.memory page = none) (flags : Entry) :
    (¬m.Affords (1 + s.toll m.memory page) ∧
      ∃ e m', s.allocPage page flags m = .ok (.error e) m') ∨
    ∃ f m', s.allocPage page flags m = .ok (.ok f) m' ∧ m.Pays (1 + s.toll m.memory page) m' := by
  rcases h.allocPage_cases page flags with ⟨e, m', refused, -⟩ | ⟨mapped, -⟩ |
    ⟨-, -, f, m', ran, -⟩
  · exact Or.inl ⟨h.not_affords_of_refused ordinary unmapped refused, e, m', refused⟩
  · exact absurd unmapped mapped
  · rcases h.allocPage_stages ran with ⟨e, no, -⟩ | ⟨g, m₁, m₂, m₃, -, stages⟩
    · exact nomatch no
    · exact Or.inr ⟨f, m', ran, stages.pays h.intact⟩

end AddressSpace
end Ia32Memory
