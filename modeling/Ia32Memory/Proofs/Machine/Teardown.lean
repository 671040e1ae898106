import Ia32Memory.Proofs.Machine.Demand

/-! Pages given back in any order.
Pages that got frames of their own may share tables, and which of them takes a table with it when it
goes depends on the order in which they go.  What is left when all of them have gone does not: no
page of theirs is mapped, no frame of theirs is in use, and each word is what it was before the
first of them came. -/

namespace Ia32Memory.AddressSpace
open FrameAllocator (Confined)

variable {s : AddressSpace} {m m' m'' m₁ : Machine} {own : Set VirtualPage} {page : VirtualPage}
  {f : PhysicalPage} {flags : Entry} {start stop : VirtualAddress}
  {requests : List (VirtualPage × Entry)} {order done : List VirtualPage}
  {wanted : VirtualPage → PhysicalPage × Entry → Prop}

theorem Placed.allocated (h : s.Placed m own True wanted done m₁)
    (ran : s.allocPage page flags m₁ = .ok (.ok f) m') (right : wanted page (f, flags.leafFlags)) :
    page ∉ done ∧ s.Placed m own True wanted (done ++ [page]) m' := by
  obtain ⟨-, unmapped, more, -⟩ := h.sound.of_allocPage ran
  exact ⟨h.notMem unmapped, h.snoc unmapped more (h.sound.advances_of_allocPage ran)
    (gained_snoc own done page) right⟩

theorem Placed.allocates (h : s.Placed m own True (fun _ _ => True) done m₁) (distinct : done.Nodup)
    (allocates : s.Allocates requests m₁ m') :
    (done ++ requests.map Prod.fst).Nodup ∧
      s.Placed m own True (fun _ _ => True) (done ++ requests.map Prod.fst) m' := by
  induction requests generalizing done m₁ with
  | nil =>
    cases allocates
    rw [List.map_nil, List.append_nil]
    exact ⟨distinct, h⟩
  | cons request rest ih =>
    obtain ⟨f, m₂, ran, onward⟩ := allocates
    obtain ⟨new, more⟩ := h.allocated ran trivial
    have longer : (done ++ [request.1]).Nodup := by
      rw [List.nodup_append_comm]
      exact List.nodup_cons.2 ⟨new, distinct⟩
    have whole := ih more longer onward
    rwa [List.append_assoc, List.singleton_append] at whole

theorem Allocates.confined (allocates : s.Allocates requests m m')
    (managing : m.frames.Managing) : Confined m.frames m'.frames := by
  induction requests generalizing m with
  | nil =>
    cases allocates
    exact managing.confined_refl
  | cons request rest ih =>
    obtain ⟨f, m₁, ran, onward⟩ := allocates
    have first := kept_confined.allocPage s request.1 request.2 m _ m₁ ran managing
    exact first.trans (ih onward first.managing)

theorem Intact.freed (h : s.Intact m none) (allocates : s.Allocates requests m m')
    (perm : order.Perm (requests.map Prod.fst)) :
    ∃ m'', order.forM s.freePage m' = .ok () m'' ∧ s.Unchanged m m'' := by
  obtain ⟨distinct, placed⟩ := (Placed.nothing h.sound).allocates List.nodup_nil allocates
  rw [List.nil_append] at distinct placed
  obtain ⟨m'', freed, restored⟩ :=
    (placed.reordered fun p => perm.mem_iff).freed h.sound (perm.nodup_iff.2 distinct)
  have onward := allocates.confined h.frames
  have back := kept_confined.forM (kept_confined.freePage s) order m' _ m'' freed onward.managing
  exact ⟨m'', freed, restored.unchanged h (onward.trans back)⟩

/-- Pages that got frames of their own can be given back in any order, and so can a range that was
mapped; then the directory, the tables and the allocator are word for word what they were. -/
theorem teardown_restores (h : s.Intact m none) :
    (∀ requests m' (order : List VirtualPage), s.Allocates requests m m' →
      order.Perm (requests.map Prod.fst) →
      ∃ m'', order.forM s.freePage m' = .ok () m'' ∧ s.Unchanged m m'') ∧
    ∀ start stop flags m', s.mapRange start stop flags m = .ok (.ok ()) m' →
      ∃ m'', s.unmapRange start stop m' = .ok (.ok ()) m'' ∧ s.Unchanged m m'' := by
  refine ⟨fun requests m' order => h.freed, fun start stop flags m' ran => ?_⟩
  rcases rangePages_ran ran with ⟨⟨e, no⟩, -⟩ | ⟨aligned, order, -⟩
  · exact nomatch no
  · have row := (pages_of_row (Page.between start.page stop.page) flags).symm
    obtain ⟨m'', freed, unchanged⟩ :=
      h.freed ((mapRange_eq_ok aligned.1 aligned.2 order).1 ran) (.of_eq row)
    exact ⟨m'', unmapRange_of_pages (rangePages_of_le aligned order) freed, unchanged⟩

theorem teardown_restores_small :
    ∃ m m' m'' : Machine, (ofRoot .first).Intact m none ∧
      (ofRoot .first).Allocates [(⟨0xE0000, by decide⟩, Entry.kernelReadOnly),
        (⟨0xE0001, by decide⟩, Entry.kernelReadWrite)] m m' ∧
      [⟨0xE0001, by decide⟩, ⟨0xE0000, by decide⟩].forM (ofRoot .first).freePage m' =
        .ok () m'' ∧
      (ofRoot .first).Unchanged m m'' := by
  obtain ⟨m, intact, blank, room⟩ := exists_roomy
  let first : VirtualPage := ⟨0xE0000, by decide⟩
  let second : VirtualPage := ⟨0xE0001, by decide⟩
  have few := price_le (ofRoot .first) m.memory [first, second]
  rcases intact.sound.allocates_or [(first, Entry.kernelReadOnly), (second, Entry.kernelReadWrite)]
    (by decide) (by decide) (fun p _ => blank p) with ⟨poor, -⟩ | ⟨m', made, -⟩
  · exact absurd (room.mono (few.trans (by decide))) poor
  · obtain ⟨m'', freed, unchanged⟩ :=
      (teardown_restores intact).1 _ m' [second, first] made (.swap first second [])
    exact ⟨m, m', m'', intact, made, freed, unchanged⟩

end Ia32Memory.AddressSpace
