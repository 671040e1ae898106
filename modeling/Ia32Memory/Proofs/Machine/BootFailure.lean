import Ia32Memory.Proofs.Machine.Bootstrap

/-! Bootstraps that fail.
There are five ways out: the image is too large for a table, there is no frame for the directory,
the first page is refused for its slot or for want of a table, and the loop over the image comes to
the end of physical memory.  The switch is not made on any of them, and on the first two the
allocator is what it was.  The other ones leave behind what the loop had got to: the frame of the directory,
and on the last one that of a table, too.  Nobody holds these frames any longer, but they are not
free; all others are as before. -/

namespace Ia32Memory.AddressSpace
open FrameAllocator (Became SameMemory)

variable {s : AddressSpace} {m m' m'' m₀ : Machine} {image : Image} {frames count : Nat}
  {e : BootstrapError} {own : Set VirtualPage} {page : VirtualPage} {frame : PhysicalPage}
  {done : List VirtualPage} {ns : List Nat}

theorem bootstrap_eq_error (ran : bootstrap image frames m = .ok (.error e) m') :
    (AddressMap.entries < image.virtual.page.tableSlot.val + frames ∧
      e = .kernelTooLarge frames ∧ m' = m) ∨
    (image.virtual.page.tableSlot.val + frames ≤ AddressMap.entries ∧
      create m = .ok none m' ∧ e = .outOfMemory) ∨
    image.virtual.page.tableSlot.val + frames ≤ AddressMap.entries ∧
    ∃ s m₁, create m = .ok (some s) m₁ ∧
      s.mapImage image.virtual.page image.physical.page frames (List.range frames) m₁ =
        .ok (.error e) m' := by
  obtain ⟨slots, m₀, lifted, ran⟩ := step_bind_eq_ok.1 ran
  obtain ⟨fits, rfl⟩ := step_lift_eq_ok.1 lifted
  obtain ⟨-, rfl⟩ := fit_eq_ok.1 fits
  split at ran
  · rename_i many
    cases ran
    exact Or.inl ⟨many, rfl, rfl⟩
  · rename_i few
    obtain ⟨found, m₁, begun, ran⟩ := step_bind_eq_ok.1 ran
    cases found with
    | none =>
      cases ran
      exact Or.inr (Or.inl ⟨Nat.le_of_not_lt few, begun, rfl⟩)
    | some s =>
      obtain ⟨mapped, m₂, imaged, ran⟩ := step_bind_eq_ok.1 ran
      cases mapped with
      | error e =>
        cases ran
        exact Or.inr (Or.inr ⟨Nat.le_of_not_lt few, s, m₁, begun, imaged⟩)
      | ok _ =>
        obtain ⟨_, m₃, -, ran⟩ := step_bind_eq_ok.1 ran
        obtain ⟨_, m₄, -, ran⟩ := step_bind_eq_ok.1 ran
        cases ran

theorem appends_of_failure (ran : bootstrap image frames m = .ok (.error e) m') :
    Appends m m' := by
  rcases bootstrap_eq_error ran with ⟨-, -, rfl⟩ | ⟨-, refused, -⟩ | ⟨-, s, m₁, begun, stopped⟩
  · exact kept_appends.refl m'
  · exact kept_appends.create m none m' refused
  · exact kept_appends.trans (kept_appends.create m _ m₁ begun)
      (kept_appends.mapImage s _ _ _ _ m₁ _ m' stopped)

inductive StopsAt (s : AddressSpace) (page : VirtualPage) (frame : PhysicalPage) (count : Nat)
    (m : Machine) (n : Nat) : BootstrapError → Machine → Prop
  | beyond : page.add? n = none ∨ frame.add? n = none →
      StopsAt s page frame count m n (.kernelTooLarge count) m
  | refused {p : VirtualPage} {target : PhysicalPage} {why : MapError} {m' : Machine} :
      page.add? n = some p → frame.add? n = some target →
      s.mapPage p target Entry.kernelReadWrite m = .ok (.error why) m' →
      StopsAt s page frame count m n (.map why) m'

theorem mapImage_eq_error (ran : s.mapImage page frame count ns m = .ok (.error e) m') :
    ∃ before n rest m₁, ns = before ++ n :: rest ∧
      s.mapImage page frame count before m = .ok (.ok ()) m₁ ∧
      s.StopsAt page frame count m₁ n e m' := by
  induction ns generalizing m with
  | nil => cases ran
  | cons n rest ih =>
    rw [AddressSpace.mapImage] at ran
    cases here : page.add? n with
    | none =>
      simp only [here] at ran
      cases ran
      exact ⟨[], n, rest, _, rfl, rfl, .beyond (Or.inl here)⟩
    | some p =>
      cases there : frame.add? n with
      | none =>
        simp only [here, there] at ran
        cases ran
        exact ⟨[], n, rest, _, rfl, rfl, .beyond (Or.inr there)⟩
      | some target =>
        simp only [here, there] at ran
        obtain ⟨result, m₁, mapped, onward⟩ := step_bind_eq_ok.1 ran
        cases result with
        | error why =>
          cases onward
          exact ⟨[], n, rest, _, rfl, rfl, .refused here there mapped⟩
        | ok _ =>
          obtain ⟨before, i, later, m₂, split, sofar, stops⟩ := ih onward
          refine ⟨n :: before, i, later, m₂, congrArg _ split, ?_, stops⟩
          exact mapImage_cons_eq_ok.2 ⟨p, target, m₁, here, there, mapped, sofar⟩

theorem range_eq_append_cons {before rest : List Nat} {n : Nat}
    (split : List.range count = before ++ n :: rest) : before = List.range n ∧ n < count := by
  rw [List.range_eq_range', List.range'_eq_append_iff] at split
  obtain ⟨k, le, rfl, tail⟩ := split
  obtain ⟨rfl, positive, -⟩ := List.range'_eq_cons_iff.1 tail.symm
  rw [List.range_eq_range']
  grind

/-- How a loop over an image that fits one slot has failed on a fresh space: it was refused the
first page, or has mapped the pages that there are frames for. -/
inductive Stopped (s : AddressSpace) (image : Image) (frames : Nat) (m : Machine) :
    BootstrapError → Machine → Prop
  | reserved : image.virtual.page.directorySlot = .recursive →
      Stopped s image frames m (.map (.reservedWindow image.virtual.page.base)) m
  | starved {m' : Machine} : m.quota = some 0 ∨ m.frames.freePages = ∅ → Paging.Quiet m m' →
      Stopped s image frames m (.map .outOfMemory) m'
  | unbacked {n : Nat} {m' : Machine} : 0 < n → n < frames →
      image.physical.page.number + n = pageCount →
      s.Placed m ∅ False (imaged image.virtual.page image.physical.page)
        (behind image.virtual.page (List.range n)) m' →
      Stopped s image frames m (.kernelTooLarge frames) m'

theorem Fresh.stopped (fresh : s.Fresh m) (managing : m.frames.Managing)
    (few : image.virtual.page.tableSlot.val + frames ≤ AddressMap.entries)
    (ran : s.mapImage image.virtual.page image.physical.page frames (List.range frames) m =
      .ok (.error e) m') : s.Stopped image frames m e m' := by
  obtain ⟨before, n, rest, m₁, split, sofar, stops⟩ := mapImage_eq_error ran
  obtain ⟨rfl, inside⟩ := range_eq_append_cons split
  obtain ⟨placed, -⟩ := (Placed.nothing (fresh.sound managing)).mapImage sofar
  rw [List.nil_append] at placed
  -- Each page before the last one attempted leads to its frame.
  have mapped : ∀ i < n, ∃ p target, image.physical.page.add? i = some target ∧
      p.directorySlot = image.virtual.page.directorySlot ∧
      s.mapping m₁.memory p = some (target, Entry.kernelReadWrite.leafFlags) := by
    intro i earlier
    obtain ⟨p, here, slot⟩ := exists_image_page few (earlier.trans inside)
    obtain ⟨v, maps, k, target, here', there, rfl⟩ :=
      placed.placed p (mem_behind.2 ⟨i, List.mem_range.2 earlier, here⟩)
    have same : k = i := by
      have := Page.add?_eq_some.1 here
      have := Page.add?_eq_some.1 here'
      omega
    exact ⟨p, target, same ▸ there, slot, maps⟩
  obtain ⟨p, here, slot⟩ := exists_image_page few inside
  cases stops with
  | beyond off =>
    have off : image.physical.page.add? n = none := off.resolve_left (by simp [here])
    have last : pageCount ≤ image.physical.page.number + n := by
      refine Nat.le_of_not_lt fun room => ?_
      have there : image.physical.page.add? n = some ⟨_, room⟩ := Page.add?_eq_some.2 rfl
      rw [off] at there
      exact nomatch there
    have start : image.physical.page.number < pageCount := image.physical.page.isLt
    have positive : 0 < n := by omega
    obtain ⟨-, target, there, -⟩ := mapped (n - 1) (by omega)
    have number := Page.add?_eq_some.1 there
    have below : target.number < pageCount := target.isLt
    exact .unbacked positive inside (by omega) placed
  | @refused p' target why m' here' there refusal =>
    cases here.symm.trans here'
    have first : (∀ f, ¬s.Links m₁.memory p.directorySlot f) → n = 0 := by
      refine fun none => Nat.eq_zero_of_not_pos fun later => ?_
      obtain ⟨q, target', -, slot', maps⟩ := mapped 0 later
      obtain ⟨f, linked, -⟩ := links_of_mapping maps
      exact none f (by rwa [slot', ← slot] at linked)
    by_cases last : p.directorySlot = .recursive
    · obtain rfl := first fun f linked => linked.ordinary last
      cases sofar
      cases (mapPage_of_recursive last).symm.trans refusal
      have same : p = image.virtual.page := Page.ext (Page.add?_eq_some.1 here).symm
      rw [same] at last ⊢
      exact .reserved last
    · have unmapped : s.mapping m₁.memory p = none := by
        rw [placed.others p, fresh.mapping]
        intro mem
        obtain ⟨i, earlier, here'⟩ := mem_behind.1 mem
        have := List.mem_range.1 earlier
        have := Page.add?_eq_some.1 here
        have := Page.add?_eq_some.1 here'
        omega
      rcases placed.sound.intact.mapPage_of_unmapped last unmapped target
        Entry.kernelReadWrite with ⟨⟨absent, why⟩, m₂, ran', quiet⟩ | ⟨m₂, ran', -⟩
      · obtain rfl := first fun f linked => absurd linked.present (Bool.eq_false_iff.1 absent)
        cases sofar
        cases ran'.symm.trans refusal
        exact .starved why quiet
      · exact nomatch ran'.symm.trans refusal

def leftBehind (root : PhysicalPage) (mem : PhysicalMemory) : Set PhysicalPage :=
  {root} ∪ (ofRoot root).tables mem

structure LeavesBehind (m : Machine) (root : PhysicalPage) (m' : Machine) : Prop where
  taken : leftBehind root m'.memory ⊆ m.frames.freePages
  free : m'.frames.freePages = m.frames.freePages \ leftBehind root m'.memory
  used : m'.frames.stats.used = m.frames.stats.used + (leftBehind root m'.memory).ncard
  users : ∀ p, m.frames.stats.Manages p → p ∉ (ofRoot root).tables m'.memory →
    m'.frames.users p = m.frames.users p

/-- What a bootstrap leaves when it fails, with the error that tells where.  It is `unbacked` when
page `n` of the image would lie behind the end of physical memory; those before are mapped. -/
inductive Fails (image : Image) (frames : Nat) (m : Machine) : BootstrapError → Machine → Prop
  | tooLarge {m' : Machine} : AddressMap.entries < image.virtual.page.tableSlot.val + frames →
      m'.frames = m.frames → Fails image frames m (.kernelTooLarge frames) m'
  | outOfMemory {m' : Machine} : image.virtual.page.tableSlot.val + frames ≤ AddressMap.entries →
      m.quota = some 0 ∨ m.frames.freePages = ∅ → m'.frames = m.frames →
      Fails image frames m .outOfMemory m'
  | reserved {root : PhysicalPage} {m' : Machine} :
      image.virtual.page.tableSlot.val + frames ≤ AddressMap.entries →
      image.virtual.page.directorySlot = .recursive →
      LeavesBehind m root m' → leftBehind root m'.memory = {root} →
      Fails image frames m (.map (.reservedWindow image.virtual.page.base)) m'
  | starved {root : PhysicalPage} {m' : Machine} :
      image.virtual.page.tableSlot.val + frames ≤ AddressMap.entries →
      m.quota = some 1 ∨ m.frames.freePages = {root} →
      LeavesBehind m root m' → leftBehind root m'.memory = {root} →
      Fails image frames m (.map .outOfMemory) m'
  | unbacked {root table : PhysicalPage} {n : Nat} {m' : Machine} :
      image.virtual.page.tableSlot.val + frames ≤ AddressMap.entries →
      0 < n → n < frames → image.physical.page.number + n = pageCount →
      LeavesBehind m root m' → leftBehind root m'.memory = {root, table} → root ≠ table →
      m'.frames.users table = n → Fails image frames m (.kernelTooLarge frames) m'

theorem leavesBehind {root : PhysicalPage} {m₁ : Machine} (managing : m.frames.Managing)
    (free : root ∈ m.frames.freePages)
    (became : Became m.frames m₁.frames (m.frames.freePages \ {root}))
    (fresh : (ofRoot root).Fresh m₁) (intact : (ofRoot root).Intact m' none)
    (same : SameMemory m₁.frames m'.frames)
    (ledger : (ofRoot root).ledger m' = (ofRoot root).ledger m₁) : LeavesBehind m root m' := by
  obtain ⟨tables, left, users⟩ := fresh.taken_of_ledger intact same ledger
  rw [became.free] at tables left
  have taken : leftBehind root m'.memory ⊆ m.frames.freePages :=
    Set.union_subset (Set.singleton_subset_iff.2 free) fun f mem => (tables mem).1
  have free' : m'.frames.freePages = m.frames.freePages \ leftBehind root m'.memory := by
    rw [left, Set.sdiff_sdiff, leftBehind]
  refine ⟨taken, free', ?_, fun p known notTable => ?_⟩
  · exact managing.used_of_taken intact.frames (became.sameMemory.trans same) taken free'
  · rw [users p (became.sameMemory.manages.2 known) notTable]
    exact became.users

theorem last_of_starved {root : PhysicalPage} {frames : FrameAllocator} (left : m.quota ≠ some 0)
    (free : root ∈ m.frames.freePages)
    (became : Became m.frames frames (m.frames.freePages \ {root}))
    (why : (created m root frames).quota = some 0 ∨ (created m root frames).frames.freePages = ∅) :
    m.quota = some 1 ∨ m.frames.freePages = {root} := by
  refine why.imp (fun spent => ?_) fun none => ?_
  · have spent : m.quota.map (· - 1) = some 0 := spent
    obtain ⟨q, quota, one⟩ := Option.map_eq_some_iff.1 spent
    have positive : q ≠ 0 := fun zero => left (zero ▸ quota)
    rw [quota, show q = 1 by omega]
  · have none : m.frames.freePages \ {root} = ∅ := became.free.symm.trans none
    exact Set.Subset.antisymm (Set.sdiff_eq_empty.1 none) (Set.singleton_subset_iff.2 free)

theorem Fresh.leftBehind_eq (fresh : (ofRoot frame).Fresh m) (same : m'.memory = m.memory) :
    leftBehind frame m'.memory = {frame} := by
  have none : (ofRoot frame).tables m'.memory = ∅ := by
    rw [same]
    exact Set.eq_empty_of_forall_notMem fun g ⟨d, linked⟩ => fresh.not_links d g linked
  rw [leftBehind, none, Set.union_empty]

theorem Fresh.table_of_placed (fresh : s.Fresh m)
    (few : image.virtual.page.tableSlot.val + frames ≤ AddressMap.entries) (positive : 0 < frames)
    (placed : s.Placed m ∅ False (imaged image.virtual.page image.physical.page)
      (behind image.virtual.page (List.range frames)) m') :
    ∃ table, s.tables m'.memory = {table} ∧ s.root ≠ table ∧ m'.frames.users table = frames := by
  have intact := placed.sound.intact
  have mapped : ∀ p, s.mapping m'.memory p ≠ none ↔
      p ∈ behind image.virtual.page (List.range frames) := by
    intro p
    constructor
    · refine fun mapped => not_not.1 fun outside => mapped ?_
      rw [placed.others p outside, fresh.mapping]
    · intro mem
      obtain ⟨v, maps, -⟩ := placed.placed p mem
      rw [maps]
      exact nofun
  obtain ⟨p, here, slot⟩ := exists_image_page few positive
  obtain ⟨v, maps⟩ := Option.ne_none_iff_exists'.1 <|
    (mapped p).2 (mem_behind.2 ⟨0, List.mem_range.2 positive, here⟩)
  obtain ⟨table, linked, -⟩ := links_of_mapping maps
  rw [slot] at linked
  refine ⟨table, ?_, (intact.notRoot _ _ linked).symm,
    intact.users_of_image few rfl linked fun t => mapped _⟩
  ext g
  refine ⟨?_, fun same => ⟨_, (same : g = table) ▸ linked⟩⟩
  rintro ⟨d, there⟩
  obtain ⟨t, entry⟩ := intact.exists_mapped there
  obtain ⟨rfl, -⟩ := (mem_image_iff few rfl).1 ((mapped _).1 entry)
  exact there.eq_frame linked

/-- A bootstrap that fails never switches paging on.  Its error tells what it has left: if the image
is too large for a table, or no frame is to be had, the allocator is what it was; otherwise the
frame of the directory, and that of the table if pages were mapped, are neither free any longer nor
given back, and only that table has got users. -/
theorem failure_leaves_directory (managing : m.frames.Managing)
    (unused : ∀ p ∈ m.frames.freePages, m.frames.users p = 0)
    (ran : bootstrap image frames m = .ok (.error e) m') :
    Appends m m' ∧ Fails image frames m e m' := by
  refine ⟨appends_of_failure ran, ?_⟩
  rcases bootstrap_eq_error ran with ⟨many, rfl, rfl⟩ | ⟨few, refused, rfl⟩ |
    ⟨few, s, m₁, begun, stopped⟩
  · exact .tooLarge many rfl
  · rcases create_cases managing with ⟨why, m₂, refused', quiet⟩ | ⟨-, root, frames₁, -, -, begun⟩
    · cases refused'.symm.trans refused
      exact .outOfMemory few why quiet.frames
    · exact nomatch begun.symm.trans refused
  · rcases create_cases managing with ⟨-, m₂, refused, -⟩ |
      ⟨left, root, frames₁, free, became, begun'⟩
    · exact nomatch refused.symm.trans begun
    cases begun'.symm.trans begun
    have fresh : (ofRoot root).Fresh (created m root frames₁) := fresh_created unused free became
    have intact := (fresh.sound became.managing).intact
    cases fresh.stopped became.managing few stopped with
    | reserved last =>
      exact .reserved few last
        (leavesBehind managing free became fresh intact (.refl _) rfl) (fresh.leftBehind_eq rfl)
    | starved why quiet =>
      have still := intact.quiet quiet
      have ledger : (ofRoot root).ledger m' = (ofRoot root).ledger (created m root frames₁) :=
        funext fun f => (Grows.of_quiet quiet).ledger f (Set.notMem_empty f)
      exact .starved few (last_of_starved left free became why)
        (leavesBehind managing free became fresh still.intact still.sameMemory ledger)
        (fresh.leftBehind_eq quiet.memory)
    | unbacked positive inside last placed =>
      obtain ⟨table, tables, apart, users⟩ :=
        fresh.table_of_placed (Nat.le_trans (Nat.add_le_add_left inside.le _) few) positive placed
      refine .unbacked few positive inside last
        (leavesBehind managing free became fresh placed.sound.intact placed.sameMemory ?_) ?_ apart
        users
      · have advances := placed.advances
        rw [gained_of_not] at advances
        rw [← residue_nobody, advances.residue, residue_nobody]
      · rw [leftBehind, tables]
        rfl

theorem exists_last_free :
    ∃ a, FrameAllocator.setup ⟨4, 8⟩ FrameAllocator.smallImage (Array.replicate 7 0) =
        .ok (.ok a) ∧ a.Managing ∧ a.freePages = {.first} ∧ ∀ p, a.users p = 0 := by
  have counted : ∃ a, FrameAllocator.setup ⟨4, 8⟩ FrameAllocator.smallImage
      (Array.replicate 7 0) = .ok (.ok a) ∧ a.stats.kernel = 2 := by
    have kernel : ((FrameAllocator.setup ⟨4, 8⟩ FrameAllocator.smallImage
        (Array.replicate 7 0)).toOption.bind Except.toOption).map (·.stats.kernel) = some 2 := by
      decide +kernel
    cases outcome : FrameAllocator.setup ⟨4, 8⟩ FrameAllocator.smallImage
        (Array.replicate 7 0) with
    | error fault =>
      rw [outcome] at kernel
      exact nomatch kernel
    | ok result =>
      rw [outcome] at kernel
      cases result with
      | error why => exact nomatch kernel
      | ok a => exact ⟨a, rfl, Option.some.inj kernel⟩
  obtain ⟨a, ready, kernel⟩ := counted
  obtain ⟨managing, -, free, users⟩ :=
    FrameAllocator.managing_of_setup ⟨by decide, by decide⟩ ready
  refine ⟨a, ready, managing, ?_, users⟩
  have reserved : (FrameAllocator.endOfFrames FrameAllocator.smallImage.physical 2).toNat =
      0x102000 := by decide
  have start : FrameAllocator.smallImage.physical.toNat = 0x100000 := rfl
  rw [free, kernel]
  ext p
  have lower : BootMemory.lowerFrames ⟨4, 8⟩ = 1 := by decide
  have upper : BootMemory.upperFrames ⟨4, 8⟩ = 2 := by decide
  have first : (Page.first : PhysicalPage).number = 0 := rfl
  simp only [FrameAllocator.freeAtStart, BootMemory.pages, FrameAllocator.regionPages,
    Stats.InRegion, Set.mem_sdiff, Set.mem_ofPred_eq, Set.mem_singleton_iff,
    Page.toNat_base, AddressMap.upperMemoryStart, lower, upper, reserved, start, Page.ext_iff,
    first]
  omega

theorem exists_starved :
    ∃ m m' : Machine, m.frames.Managing ∧ (∀ p ∈ m.frames.freePages, m.frames.users p = 0) ∧
      m.frames.freePages = {.first} ∧
      bootstrap FrameAllocator.smallImage 1 m = .ok (.error (.map .outOfMemory)) m' ∧
      m'.frames.freePages = ∅ := by
  obtain ⟨a, -, managing, free, users⟩ := exists_last_free
  let m : Machine := ⟨a, none, .fresh 0, .empty⟩
  have unused : ∀ p ∈ m.frames.freePages, m.frames.users p = 0 := fun p _ => users p
  rcases create_cases (m := m) managing with ⟨spent | none, -⟩ |
    ⟨-, root, frames, last, became, begun⟩
  · exact nomatch spent
  · exact absurd (free.symm.trans none) (Set.singleton_ne_empty _)
  · let m₁ := created m root frames
    have fresh : (ofRoot root).Fresh m₁ := fresh_created unused last became
    have nothing : m₁.frames.freePages = ∅ := by
      have here : m.frames.freePages = {root} := by
        have last : root ∈ a.freePages := last
        rw [free, Set.mem_singleton_iff] at last
        rw [last]
        exact free
      exact became.free.trans (by rw [here, Set.sdiff_self])
    have ordinary : FrameAllocator.smallImage.virtual.page.directorySlot ≠ .recursive := by decide
    have intact := (fresh.sound became.managing).intact
    rcases intact.mapPage_of_unmapped ordinary (fresh.mapping _)
      FrameAllocator.smallImage.physical.page Entry.kernelReadWrite with
      ⟨-, m', refused, quiet⟩ | ⟨m₂, mapped, leaves⟩
    · have ran : bootstrap FrameAllocator.smallImage 1 m =
          .ok (.error (.map .outOfMemory)) m' := by
        have fits : fit 64 (FrameAllocator.smallImage.virtual.page.tableSlot.val + 1) =
            .ok (FrameAllocator.smallImage.virtual.page.tableSlot.val + 1) :=
          fit_of_lt (by decide)
        unfold bootstrap
        rw [step_lift_bind_of_ok fits, if_neg (by decide)]
        refine (step_bind_ok begun _).trans ?_
        have stopped : (ofRoot root).mapImage FrameAllocator.smallImage.virtual.page
            FrameAllocator.smallImage.physical.page 1 (List.range 1) m₁ =
              .ok (.error (.map .outOfMemory)) m' := (step_bind_ok refused _).trans rfl
        exact (step_bind_ok stopped _).trans rfl
      exact ⟨m, m', managing, unused, free, ran, by rw [quiet.frames]; exact nothing⟩
    · -- A page that was mapped would have its table in a frame that was free.
      have maps : (ofRoot root).mapping m₂.memory
          FrameAllocator.smallImage.virtual.page ≠ none := by
        rw [leaves.mapping, Function.update_self]
        exact nofun
      obtain ⟨v, maps⟩ := Option.ne_none_iff_exists'.1 maps
      obtain ⟨table, linked, -⟩ := links_of_mapping maps
      have ledger : (ofRoot root).ledger m₂ = (ofRoot root).ledger m₁ :=
        funext fun f => (intact.grows_of_mapPage mapped).ledger f (Set.notMem_empty f)
      obtain ⟨tables, -, -⟩ := fresh.taken_of_ledger leaves.intact leaves.sameMemory ledger
      exact absurd (nothing ▸ tables ⟨_, linked⟩) (Set.notMem_empty table)

theorem failure_leaves_directory_small :
    ∃ (m m' : Machine) (root : PhysicalPage), m.frames.Managing ∧
      (∀ p ∈ m.frames.freePages, m.frames.users p = 0) ∧
      bootstrap FrameAllocator.smallImage 1 m = .ok (.error (.map .outOfMemory)) m' ∧
      Appends m m' ∧ LeavesBehind m root m' ∧ leftBehind root m'.memory = {root} := by
  obtain ⟨m, m', managing, unused, free, ran, left⟩ := exists_starved
  obtain ⟨appends, fails⟩ := failure_leaves_directory managing unused ran
  cases fails with
  | starved few why leaves only =>
    exact ⟨m, m', _, managing, unused, ran, appends, leaves, only⟩

/-- A bootstrap that failed has changed which frames are free. -/
theorem last_frame_lost :
    ∃ m m' : Machine, m.frames.Managing ∧ (∀ p ∈ m.frames.freePages, m.frames.users p = 0) ∧
      bootstrap FrameAllocator.smallImage 1 m = .ok (.error (.map .outOfMemory)) m' ∧
      m'.frames.freePages ≠ m.frames.freePages := by
  obtain ⟨m, m', managing, unused, free, ran, left⟩ := exists_starved
  refine ⟨m, m', managing, unused, ran, ?_⟩
  rw [left, free]
  exact (Set.singleton_ne_empty _).symm

end Ia32Memory.AddressSpace
