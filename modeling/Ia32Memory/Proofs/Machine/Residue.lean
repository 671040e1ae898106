import Ia32Memory.Proofs.Machine.Anonymous

/-! What a space has not taken from the allocator.
With the frames that pages own crossed out of the ledger there is left what was in use without the
space, and its users.  None of the operations on a page changes that, as long as pages that own
their frames are unmapped together with them.  Mapping goes forwards from one state to the next, in
which the links of the one are found again, and unmapping goes backwards. -/

namespace Ia32Memory.AddressSpace

def Owned (s : AddressSpace) (mem : PhysicalMemory) (own : Set VirtualPage) (f : PhysicalPage) :
    Prop :=
  ∃ p ∈ own, frameOf (s.mapping mem) p = some f

open Classical in
/-- The ledger without the frames that pages own. -/
noncomputable def residue (s : AddressSpace) (m : Machine) (own : Set VirtualPage)
    (f : PhysicalPage) : Option Nat :=
  if s.Owned m.memory own f then none else s.ledger m f

/-- Pages and tables may have come, each with a frame that was free. -/
structure Advances (s : AddressSpace) (m : Machine) (own : Set VirtualPage) (m' : Machine)
    (own' : Set VirtualPage) : Prop where
  residue : s.residue m' own' = s.residue m own
  links : s.Extends m.memory m'.memory

variable {s : AddressSpace} {m m' m'' : Machine} {own own' own'' : Set VirtualPage}
  {f frame : PhysicalPage} {flags : Entry} {page : VirtualPage}

theorem Advances.refl (s : AddressSpace) (m : Machine) (own : Set VirtualPage) :
    s.Advances m own m own := ⟨rfl, fun _ _ => rfl⟩

theorem Advances.trans (h : s.Advances m own m' own') (h' : s.Advances m' own' m'' own'') :
    s.Advances m own m'' own'' :=
  ⟨h'.residue.trans h.residue, h.links.trans h'.links⟩

theorem residue_nobody (s : AddressSpace) (m : Machine) : s.residue m ∅ = s.ledger m :=
  funext fun _ => if_neg fun ⟨_, mem, _⟩ => mem

theorem residue_of_ledger (ledger : s.ledger m' f = s.ledger m f)
    (owned : s.Owned m'.memory own' f ↔ s.Owned m.memory own f) :
    s.residue m' own' f = s.residue m own f := by
  unfold residue
  by_cases taken : s.Owned m.memory own f
  · rw [if_pos taken, if_pos (owned.2 taken)]
  · rw [if_neg taken, if_neg fun now => taken (owned.1 now), ledger]

theorem owned_congr (kept : ∀ p ∈ own,
      frameOf (s.mapping m'.memory) p = frameOf (s.mapping m.memory) p) :
    s.Owned m'.memory own f ↔ s.Owned m.memory own f :=
  exists_congr fun p => and_congr_right fun mem => by rw [kept p mem]

theorem Grows.advances (h : s.Grows ∅ m m')
    (kept : ∀ p ∈ own, frameOf (s.mapping m'.memory) p = frameOf (s.mapping m.memory) p) :
    s.Advances m own m' own :=
  ⟨funext fun g => residue_of_ledger (h.ledger g (Set.notMem_empty g)) (owned_congr kept), h.links⟩

theorem Grows.joined (h : s.Grows {f} m m') (unused : s.ledger m f = none)
    (leads : frameOf (s.mapping m'.memory) page = some f)
    (kept : ∀ p ∈ own, frameOf (s.mapping m'.memory) p = frameOf (s.mapping m.memory) p) :
    s.Advances m own m' (insert page own) := by
  refine ⟨funext fun g => ?_, h.links⟩
  by_cases same : g = f
  · subst same
    have owned : s.Owned m'.memory (insert page own) g := ⟨page, Set.mem_insert _ _, leads⟩
    unfold residue
    rw [if_pos owned, unused, ite_self]
  · refine residue_of_ledger (h.ledger g same) ?_
    rw [← owned_congr kept]
    constructor
    · rintro ⟨p, rfl | mem, leads'⟩
      · exact absurd (Option.some.inj (leads'.symm.trans leads)) same
      · exact ⟨p, mem, leads'⟩
    · rintro ⟨p, mem, leads'⟩
      exact ⟨p, Set.mem_insert_of_mem _ mem, leads'⟩

theorem Sound.advances_of_mapPage {result : Except MapError Unit} (h : s.Sound m own)
    (ran : s.mapPage page frame flags m = .ok result m') : s.Advances m own m' own := by
  refine (h.intact.grows_of_mapPage ran).advances fun p mem => ?_
  cases result with
  | error e => rw [(h.intact.quiet_of_refused ran).memory]
  | ok _ =>
    obtain ⟨unmapped, more⟩ := h.of_mapPage ran
    rw [more.mapping]
    exact frameOf_update_of_ne (h.ne_of_mem unmapped mem) _

theorem Sound.advances_of_unmapPage (h : s.Sound m own) (foreign : page ∉ own)
    (ran : s.unmapPage page m = .ok frame m') : s.Advances m' own m own := by
  refine (h.intact.grows_of_unmapPage ran).advances fun p mem => ?_
  have other : p ≠ page := fun same => foreign (same ▸ mem)
  rw [(h.of_unmapPage ran).mapping, frameOf_update_of_ne other]

theorem Sound.advances_of_allocPage (h : s.Sound m own)
    (ran : s.allocPage page flags m = .ok (.ok frame) m') :
    s.Advances m own m' (insert page own) := by
  obtain ⟨-, unmapped, more, unused, grows⟩ := h.of_allocPage ran
  refine grows.joined unused ?_ fun p mem => ?_
  · rw [more.mapping, frameOf_update_self]
    rfl
  · rw [more.mapping]
    exact frameOf_update_of_ne (h.ne_of_mem unmapped mem) _

theorem Sound.advances_of_refused {e : MapError} (h : s.Sound m own)
    (ran : s.allocPage page flags m = .ok (.error e) m') : s.Advances m own m' own := by
  rcases h.allocPage_cases page flags with ⟨e, m₁, e', -, ledger, memory⟩ | ⟨-, fault, m₁, e'⟩ |
    ⟨-, -, f, m₁, e', -⟩
  · cases e'.symm.trans ran
    refine ⟨funext fun g => ?_, fun d _ => by rw [memory]⟩
    exact residue_of_ledger (by rw [ledger]) (by rw [memory])
  · exact nomatch e'.symm.trans ran
  · exact nomatch e'.symm.trans ran

theorem Sound.advances_of_freePage (h : s.Sound m own) (mem : page ∈ own)
    (ran : s.freePage page m = .ok () m') : s.Advances m' (own \ {page}) m own := by
  obtain ⟨m₁, e, gone, f, leads, unused, grows⟩ := h.freePage mem
  cases e.symm.trans ran
  have back : insert page (own \ {page}) = own := by
    rw [Set.insert_sdiff_singleton, Set.insert_eq_of_mem mem]
  have joined : s.Advances m' (own \ {page}) m (insert page (own \ {page})) := by
    refine grows.joined unused leads fun p other => ?_
    rw [gone.mapping, frameOf_update_of_ne other.2]
  rwa [back] at joined

theorem Sound.residue_of_setWritable {writable : Bool} (h : s.Sound m own)
    (ran : s.setWritable page writable m = .ok () m') : s.residue m' own = s.residue m own := by
  have ledger := h.intact.ledger_of_setWritable ran
  refine funext fun f => residue_of_ledger (by rw [ledger]) (owned_congr fun p _ => ?_)
  rw [(h.of_setWritable ran).mapping]
  exact frameOf_update_flags _ page p fun e => e.withWritable writable

end Ia32Memory.AddressSpace
