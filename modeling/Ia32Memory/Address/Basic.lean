import Ia32Memory.Hexadecimal

/-! Addresses of 32 bits and the 4 KiB pages that hold them.
Physical and virtual memory have types of their own; a plain address is one that has not been
assigned to either.  The kinds differ in their texts only.  A page is its number, so a page
address that is not a multiple of the page size does not exist. -/

namespace Ia32Memory

inductive AddressKind
  | plain
  | physical
  | virtual
  deriving DecidableEq

def pageSize : Nat := 4096

def pageShift : Nat := 12

def pageCount : Nat := 0x100000

@[ext] structure Address (k : AddressKind) where
  toNat : Nat
  isLt : toNat < 0x100000000
  deriving DecidableEq

@[ext] structure Page (k : AddressKind) where
  number : Nat
  isLt : number < 0x100000
  deriving DecidableEq

@[ext] structure PageOffset where
  toNat : Nat
  isLt : toNat < 4096
  deriving DecidableEq

abbrev PhysicalAddress := Address .physical
abbrev VirtualAddress := Address .virtual
abbrev PhysicalPage := Page .physical
abbrev VirtualPage := Page .virtual

variable {k : AddressKind}

namespace Address

def truncate (n : Nat) : Address k :=
  ⟨n % 0x100000000, Nat.mod_lt _ (by decide)⟩

def ofNat? (n : Nat) : Option (Address k) :=
  if h : n < 0x100000000 then some ⟨n, h⟩ else none

instance : Inhabited (Address k) := ⟨⟨0, by decide⟩⟩

instance : Ord (Address k) := ⟨fun a b => compare a.toNat b.toNat⟩

instance : LE (Address k) := ⟨fun a b => a.toNat ≤ b.toNat⟩

instance : LT (Address k) := ⟨fun a b => a.toNat < b.toNat⟩

instance (a b : Address k) : Decidable (a ≤ b) :=
  inferInstanceAs (Decidable (a.toNat ≤ b.toNat))

instance (a b : Address k) : Decidable (a < b) :=
  inferInstanceAs (Decidable (a.toNat < b.toNat))

def page (a : Address k) : Page k :=
  ⟨a.toNat / 4096, by have := a.isLt; omega⟩

def offset (a : Address k) : PageOffset :=
  ⟨a.toNat % 4096, Nat.mod_lt _ (by decide)⟩

def split (a : Address k) : Page k × PageOffset :=
  (a.page, a.offset)

def IsAligned (a : Address k) : Prop :=
  a.toNat % 4096 = 0

instance (a : Address k) : Decidable a.IsAligned :=
  inferInstanceAs (Decidable (a.toNat % 4096 = 0))

def add? (a : Address k) (n : Nat) : Option (Address k) :=
  ofNat? (a.toNat + n)

def alignDown (a : Address k) : Address k :=
  ⟨a.toNat / 4096 * 4096, by have := a.isLt; omega⟩

/-- The least aligned address that is not below `a`.  None is given when `a` lies so high that
rounding up by a page less one byte leaves the address range. -/
def alignUp? (a : Address k) : Option (Address k) :=
  (a.add? 4095).map alignDown

def text (a : Address k) : String :=
  "0x" ++ Hexadecimal.upper 8 a.toNat

def debugText (a : Address k) : String :=
  match k with
  | .plain => "MemoryAddress(" ++ a.text ++ ")"
  | .physical => "PA(" ++ a.text ++ ")"
  | .virtual => "VA(" ++ a.text ++ ")"

end Address

namespace PageOffset

def text (o : PageOffset) : String :=
  "MemoryAddressOffset(0x" ++ Hexadecimal.upper 3 o.toNat ++ ")"

end PageOffset

namespace Page

def first : Page k := ⟨0, by decide⟩

instance : Inhabited (Page k) := ⟨first⟩

/-- The page at a number, counted round after the last page. -/
def truncate (n : Nat) : Page k :=
  ⟨n % 0x100000, Nat.mod_lt _ (by decide)⟩

def ofNat? (n : Nat) : Option (Page k) :=
  if h : n < 0x100000 then some ⟨n, h⟩ else none

def base (p : Page k) : Address k :=
  ⟨p.number * 4096, by have := p.isLt; omega⟩

def join (p : Page k) (o : PageOffset) : Address k :=
  ⟨p.number * 4096 + o.toNat, by have := p.isLt; have := o.isLt; omega⟩

def add? (p : Page k) (n : Nat) : Option (Page k) :=
  ofNat? (p.number + n)

def ofAligned? (a : Address k) : Option (Page k) :=
  if a.IsAligned then some a.page else none

def retype {j : AddressKind} (p : Page k) : Page j :=
  ⟨p.number, p.isLt⟩

def text (p : Page k) : String :=
  p.base.text ++ "/4K"

def debugText (p : Page k) : String :=
  match k with
  | .plain => "MemoryPage(" ++ p.base.text ++ ")"
  | .physical => "PhysicalPage(" ++ p.base.text ++ ")"
  | .virtual => "VirtualPage(" ++ p.base.text ++ ")"

/-- The pages from `start` up to and without `stop`. -/
def between (start stop : Page k) : List (Page k) :=
  (List.range' start.number (stop.number - start.number)).map truncate

end Page

@[simp] theorem Address.toNat_truncate (n : Nat) :
    (Address.truncate n : Address k).toNat = n % 0x100000000 := rfl

@[simp] theorem Address.number_page (a : Address k) : a.page.number = a.toNat / 4096 := rfl

@[simp] theorem Address.toNat_offset (a : Address k) : a.offset.toNat = a.toNat % 4096 := rfl

@[simp] theorem Page.toNat_base (p : Page k) : p.base.toNat = p.number * 4096 := rfl

@[simp] theorem Page.toNat_join (p : Page k) (o : PageOffset) :
    (p.join o).toNat = p.number * 4096 + o.toNat := rfl

theorem Page.isAligned_base (p : Page k) : p.base.IsAligned := by
  simp [Address.IsAligned]

@[simp] theorem Page.page_join (p : Page k) (o : PageOffset) : (p.join o).page = p := by
  have := o.isLt
  ext
  simp only [Address.number_page, Page.toNat_join]
  omega

@[simp] theorem Page.offset_join (p : Page k) (o : PageOffset) : (p.join o).offset = o := by
  have := o.isLt
  ext
  simp only [Address.toNat_offset, Page.toNat_join]
  omega

@[simp] theorem Page.page_base (p : Page k) : p.base.page = p := by
  ext
  simp

theorem Address.base_page {a : Address k} (h : a.IsAligned) : a.page.base = a := by
  ext
  simp only [Page.toNat_base, Address.number_page]
  unfold Address.IsAligned at h
  omega

end Ia32Memory
