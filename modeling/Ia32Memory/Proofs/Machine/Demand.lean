import Ia32Memory.Proofs.Machine.Budget
import Ia32Memory.Proofs.Machine.Direct

/-! Ranges that can be mapped.
The pages of a range get their frames one after the other, and before the first page of a slot comes
a frame for its table.  So the range needs a frame for each page and one for each table that is
missing, in whatever order they are taken; it is mapped as soon as so many can be had, and then each
page has a frame of its own that was free, filled with zeros. -/

namespace Ia32Memory.AddressSpace

variable {s : AddressSpace} {m m' m₁ m₂ : Machine} {mem : PhysicalMemory}
  {own : Set VirtualPage} {d : Slot} {f : PhysicalPage} {flags : Entry} {page p : VirtualPage}
  {pages rest done : List VirtualPage} {requests : List (VirtualPage × Entry)}
  {start stop : VirtualAddress} {wanted : VirtualPage → PhysicalPage × Entry → Prop}

def missingTables (s : AddressSpace) (mem : PhysicalMemory) (pages : List VirtualPage) :
    Finset Slot :=
  (pages.map Page.directorySlot).toFinset.filter fun d => (s.link mem d).present = false

/-- A frame for each page, and one for each table that is missing. -/
def price (s : AddressSpace) (mem : PhysicalMemory) (pages : List VirtualPage) : Nat :=
  pages.length + (s.missingTables mem pages).card

theorem mem_missingTables : d ∈ s.missingTables mem pages ↔
    (∃ p ∈ pages, p.directorySlot = d) ∧ (s.link mem d).present = false := by
  rw [missingTables, Finset.mem_filter, List.mem_toFinset, List.mem_map]

theorem price_le (s : AddressSpace) (mem : PhysicalMemory) (pages : List VirtualPage) :
    s.price mem pages ≤ 2 * pages.length := by
  have slots : (s.missingTables mem pages).card ≤ (pages.map Page.directorySlot).length :=
    (Finset.card_filter_le ..).trans (List.toFinset_card_le _)
  rw [List.length_map] at slots
  unfold price
  omega

theorem toll_le (s : AddressSpace) (mem : PhysicalMemory) (page : VirtualPage)
    (rest : List VirtualPage) : 1 + s.toll mem page ≤ s.price mem (page :: rest) := by
  unfold price toll
  rw [List.length_cons]
  cases present : (s.link mem page.directorySlot).present with
  | true =>
    rw [if_pos rfl]
    omega
  | false =>
    have missing : page.directorySlot ∈ s.missingTables mem (page :: rest) :=
      mem_missingTables.2 ⟨⟨page, List.mem_cons_self, rfl⟩, present⟩
    have some := Finset.card_pos.2 ⟨_, missing⟩
    rw [if_neg Bool.false_ne_true]
    omega

theorem Intact.present_iff (h : s.Intact m none) (ordinary : d ≠ .recursive) :
    (s.link m.memory d).present = true ↔
      ∃ p, p.directorySlot = d ∧ s.mapping m.memory p ≠ none := by
  constructor
  · intro present
    obtain ⟨t, mapped⟩ := h.exists_mapped (links_of_present ordinary present)
    exact ⟨_, Page.directorySlot_ofSlots d t, mapped⟩
  · rintro ⟨p, rfl, mapped⟩
    obtain ⟨v, maps⟩ := Option.ne_none_iff_exists'.1 mapped
    obtain ⟨f, linked, -⟩ := links_of_mapping maps
    exact linked.present

theorem Intact.present_of_update {v : PhysicalPage × Entry} (h : s.Intact m none)
    (h' : s.Intact m' none)
    (mapping : s.mapping m'.memory = Function.update (s.mapping m.memory) page (some v))
    (ordinary : d ≠ .recursive) : (s.link m'.memory d).present = true ↔
      page.directorySlot = d ∨ (s.link m.memory d).present = true := by
  rw [h'.present_iff ordinary, h.present_iff ordinary, mapping]
  constructor
  · rintro ⟨p, slot, mapped⟩
    by_cases here : p = page
    · exact Or.inl (here ▸ slot)
    · rw [Function.update_of_ne here] at mapped
      exact Or.inr ⟨p, slot, mapped⟩
  · rintro (slot | ⟨p, slot, mapped⟩)
    · refine ⟨page, slot, ?_⟩
      rw [Function.update_self]
      exact nofun
    · refine ⟨p, slot, ?_⟩
      by_cases here : p = page
      · rw [here, Function.update_self]
        exact nofun
      · rwa [Function.update_of_ne here]

theorem price_cons (ordinary : ∀ p ∈ page :: rest, p.directorySlot ≠ .recursive)
    (onward : ∀ d : Slot, d ≠ .recursive → ((s.link m'.memory d).present = true ↔
      page.directorySlot = d ∨ (s.link m.memory d).present = true)) :
    s.price m.memory (page :: rest) = 1 + s.toll m.memory page + s.price m'.memory rest := by
  have later : ∀ d, d ∈ s.missingTables m'.memory rest ↔
      d ≠ page.directorySlot ∧ d ∈ s.missingTables m.memory (page :: rest) := by
    intro d
    rw [mem_missingTables, mem_missingTables]
    constructor
    · rintro ⟨⟨p, mem, rfl⟩, absent⟩
      have none := mt (onward _ (ordinary p (List.mem_cons_of_mem _ mem))).2
        (Bool.eq_false_iff.1 absent)
      rw [not_or] at none
      exact ⟨Ne.symm none.1, ⟨p, List.mem_cons_of_mem _ mem, rfl⟩, Bool.eq_false_iff.2 none.2⟩
    · rintro ⟨other, ⟨p, mem, rfl⟩, absent⟩
      have mem : p ∈ rest :=
        (List.mem_cons.1 mem).resolve_left fun same => other (congrArg Page.directorySlot same)
      refine ⟨⟨p, mem, rfl⟩, Bool.eq_false_iff.2 fun present => ?_⟩
      rcases (onward _ (ordinary p (List.mem_cons_of_mem _ mem))).1 present with same | present
      · exact other same.symm
      · exact Bool.eq_false_iff.1 absent present
  have erased : s.missingTables m'.memory rest =
      (s.missingTables m.memory (page :: rest)).erase page.directorySlot := by
    ext d
    rw [Finset.mem_erase, later]
  unfold price toll
  rw [erased, List.length_cons]
  cases present : (s.link m.memory page.directorySlot).present with
  | true =>
    have old : page.directorySlot ∉ s.missingTables m.memory (page :: rest) := fun mem =>
      Bool.eq_false_iff.1 (mem_missingTables.1 mem).2 present
    rw [Finset.erase_eq_of_notMem old, if_pos rfl]
    omega
  | false =>
    have new : page.directorySlot ∈ s.missingTables m.memory (page :: rest) :=
      mem_missingTables.2 ⟨⟨page, List.mem_cons_self, rfl⟩, present⟩
    have card := Finset.card_erase_add_one new
    rw [if_neg Bool.false_ne_true]
    omega

def Allocates (s : AddressSpace) : List (VirtualPage × Entry) → Machine → Machine → Prop
  | [], m, m' => m' = m
  | (page, flags) :: rest, m, m' =>
    ∃ f m₁, s.allocPage page flags m = .ok (.ok f) m₁ ∧ s.Allocates rest m₁ m'

theorem pages_of_row (pages : List VirtualPage) (flags : Entry) :
    (pages.map fun p => (p, flags)).map Prod.fst = pages := by
  rw [List.map_map]
  exact List.map_id pages

/-- Pages that are not mapped can all get frames of their own exactly if these can be afforded. -/
theorem Sound.allocates_or (h : s.Sound m own) (requests : List (VirtualPage × Entry))
    (distinct : (requests.map Prod.fst).Nodup)
    (ordinary : ∀ p ∈ requests.map Prod.fst, p.directorySlot ≠ .recursive)
    (unmapped : ∀ p ∈ requests.map Prod.fst, s.mapping m.memory p = none) :
    (¬m.Affords (s.price m.memory (requests.map Prod.fst)) ∧
      ∀ m', ¬s.Allocates requests m m') ∨
    ∃ m', s.Allocates requests m m' ∧ m.Pays (s.price m.memory (requests.map Prod.fst)) m' := by
  induction requests generalizing m own with
  | nil => exact Or.inr ⟨m, rfl, Machine.pays_nothing rfl rfl⟩
  | cons request rest ih =>
    obtain ⟨page, flags⟩ := request
    rw [List.map_cons] at distinct ordinary unmapped ⊢
    obtain ⟨notAgain, distinct⟩ := List.nodup_cons.1 distinct
    rcases h.allocPage_pays (ordinary page List.mem_cons_self) (unmapped page List.mem_cons_self)
      flags with ⟨poor, e, m₁, refused⟩ | ⟨f, m₁, ran, first⟩
    · refine Or.inl ⟨fun rich => poor (rich.mono (toll_le s m.memory page _)), ?_⟩
      rintro m' ⟨f, m₂, ran, -⟩
      exact nomatch refused.symm.trans ran
    · obtain ⟨-, -, yields, -⟩ := h.of_allocPage ran
      have still : ∀ p ∈ rest.map Prod.fst, s.mapping m₁.memory p = none := by
        intro p mem
        have other : p ≠ page := fun same => notAgain (same ▸ mem)
        rw [yields.mapping, Function.update_of_ne other]
        exact unmapped p (List.mem_cons_of_mem _ mem)
      -- What the others cost is told of the machine that the first page has left.
      have cost := price_cons ordinary fun d => h.intact.present_of_update yields.sound.intact
        yields.mapping (d := d)
      rw [cost]
      rcases ih yields.sound distinct (fun p mem => ordinary p (List.mem_cons_of_mem _ mem)) still
        with ⟨poor, stops⟩ | ⟨m', onward, others⟩
      · refine Or.inl ⟨fun rich => poor (first.affords_iff.1 rich), ?_⟩
        rintro m' ⟨g, m₂, ran', onward⟩
        cases ran.symm.trans ran'
        exact stops m' onward
      · exact Or.inr ⟨m', ⟨f, m₁, ran, onward⟩, first.trans others⟩

theorem placeAnonymous_eq_ok : s.placeAnonymous flags page m = .ok (.ok ()) m' ↔
    ∃ f, s.allocPage page flags m = .ok (.ok f) m' := by
  constructor
  · intro placed
    obtain ⟨got, m₁, ran, rest⟩ := step_bind_eq_ok.1 placed
    cases got <;> cases rest
    exact ⟨_, ran⟩
  · rintro ⟨f, ran⟩
    exact (step_bind_ok ran _).trans rfl

theorem places_iff_allocates : Places (s.placeAnonymous flags) pages m m' ↔
    s.Allocates (pages.map fun p => (p, flags)) m m' := by
  induction pages generalizing m with
  | nil => exact Iff.rfl
  | cons page rest ih =>
    constructor
    · rintro ⟨m₁, placed, onward⟩
      obtain ⟨f, ran⟩ := placeAnonymous_eq_ok.1 placed
      exact ⟨f, m₁, ran, ih.1 onward⟩
    · rintro ⟨f, m₁, ran, onward⟩
      exact ⟨m₁, placeAnonymous_eq_ok.2 ⟨f, ran⟩, ih.2 onward⟩

theorem mapRange_eq_ok (hstart : start.IsAligned) (hstop : stop.IsAligned) (order : start ≤ stop) :
    s.mapRange start stop flags m = .ok (.ok ()) m' ↔
      s.Allocates ((Page.between start.page stop.page).map fun p => (p, flags)) m m' := by
  have loop : s.mapRange start stop flags m = mapEach "map_range" start stop
      (s.placeAnonymous flags) s.unmapRange (Page.between start.page stop.page) m := by
    rw [mapRange, step_lift_bind_of_ok (rangePages_of_le ⟨hstart, hstop⟩ order)]
    rfl
  rw [loop, ← places_iff_allocates]
  exact ⟨places_of_mapEach, mapEach_of_places⟩

/-- Each page has a frame of its own that was free and holds zeros, and so many frames as the range
costs are free no more. -/
structure Supplied (s : AddressSpace) (m : Machine) (pages : List VirtualPage) (flags : Entry)
    (frame : VirtualPage → PhysicalPage) (m' : Machine) : Prop where
  entry : ∀ p ∈ pages, s.entry? p m' = .ok (some (Entry.aimedAt (frame p) flags)) m'
  wasFree : ∀ p ∈ pages, frame p ∈ m.frames.freePages
  distinct : ∀ p ∈ pages, ∀ q ∈ pages, frame p = frame q → p = q
  zeros : ∀ p ∈ pages, m'.memory.frame (frame p) = EntryTable.zero
  users : ∀ p ∈ pages, m'.frames.users (frame p) = 1
  free : m'.frames.stats.free + s.price m.memory pages = m.frames.stats.free
  others : ∀ p ∉ pages, s.mapping m'.memory p = s.mapping m.memory p

def Zeroed (s : AddressSpace) (pages : List VirtualPage) (m : Machine) : Prop :=
  ∀ p ∈ pages, ∀ f, frameOf (s.mapping m.memory) p = some f → m.memory.frame f = EntryTable.zero

theorem Placed.zeroed (h : s.Placed m own True wanted done m₁) (zeroed : s.Zeroed done m₁)
    (ran : s.allocPage page flags m₁ = .ok (.ok f) m₂) : s.Zeroed (done ++ [page]) m₂ := by
  obtain ⟨-, unmapped, more, -⟩ := h.sound.of_allocPage ran
  rcases h.sound.allocPage_stages ran with ⟨e, no, -⟩ | ⟨g, k₁, k₂, k₃, same, stages⟩
  · exact nomatch no
  · cases same
    have here : frameOf (s.mapping m₂.memory) page = some f := by
      rw [more.mapping, frameOf_update_self]
      rfl
    intro p mem g leads
    rcases List.mem_append.1 mem with old | new
    · have other : p ≠ page := fun same => h.notMem unmapped (same ▸ old)
      have joined : p ∈ insert page (gained own True done) := Or.inr (Or.inr ⟨trivial, old⟩)
      obtain ⟨g', leads', apart⟩ := more.sound.owned p joined
      cases leads.symm.trans leads'
      have ne : f ≠ g := by
        rintro rfl
        exact other (more.sound.distinct p joined page (Set.mem_insert ..) (leads.trans here.symm))
      rw [stages.frame_of_ne ne apart.notRoot apart.notTable]
      rw [more.mapping, frameOf_update_of_ne other] at leads
      exact zeroed p old g leads
    · rw [List.mem_singleton.1 new] at leads
      cases leads.symm.trans here
      exact stages.filled

theorem Sound.zeroed_of_mapRange (h : s.Sound m own)
    (ran : s.mapRange start stop flags m = .ok (.ok ()) m') :
    s.Zeroed (Page.between start.page stop.page) m' := by
  refine (h.mapRange_carries s.Zeroed (fun _ => True) ran (List.forall_mem_nil _) trivial ?_
    (fun done page m₁ m₂ f placed zeroed ran => placed.zeroed zeroed ran)
    (fun _ _ _ _ _ _ _ _ _ _ _ => trivial)).1 rfl
  intro done page m₁ m₂ e placed zeroed ran
  rcases placed.sound.allocPage_stages ran with ⟨-, -, memory, -⟩ | ⟨f, k₁, k₂, k₃, no, -⟩
  · unfold Zeroed
    rw [memory]
    exact zeroed
  · exact nomatch no

theorem Placed.wasFree (h : s.Placed m ∅ True wanted done m') (mem : p ∈ done)
    (leads : frameOf (s.mapping m'.memory) p = some f) : f ∈ m.frames.freePages := by
  have joined : p ∈ gained ∅ True done := Or.inr ⟨trivial, mem⟩
  obtain ⟨g, leads', apart⟩ := h.sound.owned p joined
  cases leads.symm.trans leads'
  have unused : s.ledger m f = none := by
    have residue := congrFun h.advances.residue f
    rw [residue_nobody] at residue
    rw [← residue]
    exact if_pos ⟨p, joined, leads⟩
  -- A table that was there before still is one, and the frame is none.
  refine not_not.1 fun used => ledger_eq_none.1 unused ⟨⟨?_, used⟩, fun d linked => ?_⟩
  · exact h.sameMemory.manages.1 apart.held.1
  · exact apart.notTable d (linked.of_same (h.advances.links d linked.present))

theorem Placed.supplied (placed : s.Placed m ∅ True (anonymous flags) pages m')
    (zeroed : s.Zeroed pages m') (pays : m.Pays (s.price m.memory pages) m') :
    ∃ frame, s.Supplied m pages flags frame m' := by
  let frame (p : VirtualPage) : PhysicalPage := (frameOf (s.mapping m'.memory) p).getD .first
  have leads : ∀ p ∈ pages, frameOf (s.mapping m'.memory) p = some (frame p) ∧
      s.Apart m' (frame p) 1 := by
    intro p mem
    obtain ⟨f, leads, apart⟩ := placed.sound.owned p (Or.inr ⟨trivial, mem⟩)
    have same : frame p = f := congrArg (Option.getD · Page.first) leads
    rw [same]
    exact ⟨leads, apart⟩
  refine ⟨frame, fun p mem => ?_, fun p mem => placed.wasFree mem (leads p mem).1,
    fun p hp q hq same => ?_, fun p mem => zeroed p mem _ (leads p mem).1,
    fun p mem => (leads p mem).2.users, pays.free, placed.others⟩
  · obtain ⟨v, maps, kept⟩ := placed.placed p mem
    have aim : v.1 = frame p := by
      have found := (leads p mem).1
      rw [frameOf, maps] at found
      exact Option.some.inj found
    refine placed.sound.entry?_of_mapping (maps.trans ?_)
    rw [← aim, ← kept]
  · refine placed.sound.distinct p (Or.inr ⟨trivial, hp⟩) q (Or.inr ⟨trivial, hq⟩) ?_
    rw [(leads p hp).1, (leads q hq).1, same]

theorem ordinary_row_iff (hstart : start.IsAligned) (hstop : stop.IsAligned)
    (order : start ≤ stop) :
    (∀ p ∈ Page.between start.page stop.page, p.directorySlot ≠ .recursive) ↔
      start = stop ∨ stop.toNat ≤ 0xFFC00000 := by
  have order : start.toNat ≤ stop.toNat := order
  have bound := stop.isLt
  unfold Address.IsAligned at hstart hstop
  constructor
  · intro ordinary
    by_contra beyond
    rw [not_or] at beyond
    have less : start.toNat < stop.toNat :=
      Nat.lt_of_le_of_ne order fun same => beyond.1 (Address.ext same)
    -- The last page of the range.
    obtain ⟨p, number⟩ : ∃ p : VirtualPage, p.number + 1 = stop.toNat / 4096 :=
      ⟨⟨stop.toNat / 4096 - 1, by omega⟩, by simp only; omega⟩
    refine ordinary p (Page.mem_between.2 ?_) (Fin.ext ?_)
    · simp only [Address.number_page]
      omega
    · show p.number / 1024 = 1023
      omega
  · rintro (rfl | below) p mem last
    · have inside := Page.mem_between.1 mem
      omega
    · have inside := (Page.mem_between.1 mem).2
      have slot : p.number / 1024 = 1023 := congrArg Fin.val last
      rw [Address.number_page] at inside
      omega

theorem Sound.mapRange_or (h : s.Sound m own) (hstart : start.IsAligned) (hstop : stop.IsAligned)
    (order : start ≤ stop) (flags : Entry)
    (unmapped : ∀ p ∈ Page.between start.page stop.page, s.mapping m.memory p = none) :
    (¬((∀ p ∈ Page.between start.page stop.page, p.directorySlot ≠ .recursive) ∧
        m.Affords (s.price m.memory (Page.between start.page stop.page))) ∧
      ∃ e m', s.mapRange start stop flags m = .ok (.error e) m') ∨
    ((∀ p ∈ Page.between start.page stop.page, p.directorySlot ≠ .recursive) ∧
      ∃ m', s.mapRange start stop flags m = .ok (.ok ()) m' ∧
        s.Placed m own True (anonymous flags) (Page.between start.page stop.page) m' ∧
        m.Pays (s.price m.memory (Page.between start.page stop.page)) m') := by
  let row := Page.between start.page stop.page
  have either : (∀ p ∈ row, p.directorySlot ≠ .recursive) →
      (¬m.Affords (s.price m.memory row) ∧
        ∀ m', s.mapRange start stop flags m ≠ .ok (.ok ()) m') ∨
      ∃ m', s.mapRange start stop flags m = .ok (.ok ()) m' ∧
        m.Pays (s.price m.memory row) m' := by
    intro ordinary
    have made := h.allocates_or (row.map fun p => (p, flags))
    rw [pages_of_row] at made
    rcases made (Page.nodup_between _ _) ordinary unmapped with ⟨poor, stops⟩ | ⟨m', made, pays⟩
    · exact Or.inl ⟨poor, fun m' ran => stops m' ((mapRange_eq_ok hstart hstop order).1 ran)⟩
    · exact Or.inr ⟨m', (mapRange_eq_ok hstart hstop order).2 made, pays⟩
  rcases h.mapRange_cases start stop flags with ⟨crooked | ⟨p, mem, mapped⟩, -⟩ |
    ⟨e, m', refused, -⟩ | ⟨m', ran, placed⟩
  · exact absurd ⟨hstart, hstop⟩ crooked
  · exact absurd (unmapped p mem) mapped
  · refine Or.inl ⟨fun ⟨ordinary, rich⟩ => ?_, e, m', refused⟩
    rcases either ordinary with ⟨poor, -⟩ | ⟨m₁, ran, -⟩
    · exact poor rich
    · exact nomatch refused.symm.trans ran
  · have ordinary : ∀ p ∈ row, p.directorySlot ≠ .recursive := by
      intro p mem
      obtain ⟨v, maps, -⟩ := placed.placed p mem
      exact ordinary_of_mapping maps
    refine Or.inr ⟨ordinary, m', ran, placed, ?_⟩
    rcases either ordinary with ⟨-, stops⟩ | ⟨m₁, ran', pays⟩
    · exact absurd ran (stops m')
    · cases ran.symm.trans ran'
      exact pays

/-- A range whose pages are not mapped is mapped exactly if it is empty, or ends where the last slot
starts or before and the frames can be had: one for each page and one for each table that is
missing.  Then it takes these frames and no more. -/
theorem mapRange_succeeds_iff (h : s.Intact m none) (start stop : VirtualAddress) (flags : Entry)
    (hstart : start.IsAligned) (hstop : stop.IsAligned) (order : start ≤ stop)
    (unmapped : ∀ p ∈ Page.between start.page stop.page,
      p.directorySlot ≠ .recursive → s.mapping m.memory p = none) :
    ∃ result m', s.mapRange start stop flags m = .ok result m' ∧
      (result = .ok () ↔ start = stop ∨ stop.toNat ≤ 0xFFC00000 ∧
        m.Affords (s.price m.memory (Page.between start.page stop.page))) ∧
      (result = .ok () →
        ∃ frame, s.Supplied m (Page.between start.page stop.page) flags frame m') := by
  have nothing : start = stop →
      m.Affords (s.price m.memory (Page.between start.page stop.page)) := by
    rintro rfl
    have empty : Page.between start.page start.page = [] := by
      rw [Page.between, Nat.sub_self]
      rfl
    rw [empty]
    exact ⟨Nat.zero_le _, fun _ _ => Nat.zero_le _⟩
  have exactly : (start = stop ∨ stop.toNat ≤ 0xFFC00000 ∧
      m.Affords (s.price m.memory (Page.between start.page stop.page))) ↔
      (∀ p ∈ Page.between start.page stop.page, p.directorySlot ≠ .recursive) ∧
        m.Affords (s.price m.memory (Page.between start.page stop.page)) := by
    rw [ordinary_row_iff hstart hstop order, or_and_right, and_iff_left_of_imp nothing]
  rw [exactly]
  rcases h.sound.mapRange_or hstart hstop order flags (unmapped_row unmapped) with
    ⟨poor, e, m', refused⟩ | ⟨ordinary, m', ran, placed, pays⟩
  · have failed : (Except.error e : Except MapError Unit) ≠ .ok () := by simp
    exact ⟨_, m', refused, iff_of_false failed poor, fun ok => absurd ok failed⟩
  · refine ⟨_, m', ran, iff_of_true rfl ⟨ordinary, pays.affords⟩, fun _ => ?_⟩
    exact placed.supplied (h.sound.zeroed_of_mapRange ran) pays

theorem exists_roomy :
    ∃ m : Machine, (ofRoot .first).Intact m none ∧
      (∀ p, (ofRoot .first).mapping m.memory p = none) ∧ m.Affords 7 := by
  obtain ⟨a, m, ready, used, fresh, unmetered, -, -, free⟩ := exists_fresh
  obtain ⟨ha, -⟩ := FrameAllocator.managing_of_setup ⟨by decide, by decide⟩ ready
  obtain ⟨frames, -, -⟩ := used.follows ha
  exact ⟨m, (fresh.sound frames).intact, fresh.mapping,
    (Machine.affords_of_unmetered unmetered).2 (Nat.le_of_eq free.symm)⟩

theorem mapRange_succeeds_iff_small :
    ∃ (m m' : Machine) (frame : VirtualPage → PhysicalPage), (ofRoot .first).Intact m none ∧
      (ofRoot .first).mapRange ⟨0xE03FF000, by decide⟩ ⟨0xE0401000, by decide⟩
        Entry.kernelReadWrite m = .ok (.ok ()) m' ∧
      (ofRoot .first).Supplied m [⟨0xE03FF, by decide⟩, ⟨0xE0400, by decide⟩]
        Entry.kernelReadWrite frame m' := by
  obtain ⟨m, intact, blank, room⟩ := exists_roomy
  obtain ⟨result, m', ran, exactly, supplied⟩ := mapRange_succeeds_iff intact
    ⟨0xE03FF000, by decide⟩ ⟨0xE0401000, by decide⟩ Entry.kernelReadWrite (by decide) (by decide)
    (by decide) fun p _ _ => blank p
  have row : Page.between (⟨0xE03FF000, by decide⟩ : VirtualAddress).page
      (⟨0xE0401000, by decide⟩ : VirtualAddress).page =
      [⟨0xE03FF, by decide⟩, ⟨0xE0400, by decide⟩] := by decide
  rw [row] at exactly supplied
  have few := price_le (ofRoot .first) m.memory [⟨0xE03FF, by decide⟩, ⟨0xE0400, by decide⟩]
  have succeeds := exactly.2 (Or.inr ⟨by decide, room.mono (few.trans (by decide))⟩)
  obtain ⟨frame, supplied⟩ := supplied succeeds
  exact ⟨m, m', frame, intact, succeeds ▸ ran, supplied⟩

end Ia32Memory.AddressSpace
