import Ia32Memory.Address.Checked
import Ia32Memory.Bits.Field
import Ia32Memory.Bits.Word

/-! The control registers and the flags register. -/

namespace Ia32Memory

namespace ControlRegister0

def layout : Layout 32 where
  fields := [.flag "pe_protection_enable" 0, .flag "mp_monitor_coprocessor" 1,
    .flag "em_emulation" 2, .flag "ts_task_switched" 3, .flag "et_extension_type" 4,
    .flag "ne_numeric_error" 5, .flag "wp_write_protect" 16, .flag "am_alignment_mask" 18,
    .flag "nw_not_write_through" 29, .flag "cd_cache_disable" 30, .flag "pg_paging" 31]
  fresh := 0

end ControlRegister0

namespace ControlRegister2

def faultAddress (w : Word) : VirtualAddress := ⟨w.toNat, w.isLt⟩

end ControlRegister2

namespace ControlRegister3

def directoryField : Field := ⟨"directory", 12, 20⟩

def layout : Layout 32 where
  fields := [⟨"reserved0", 0, 3⟩, .flag "pwt" 3, .flag "pcd" 4, ⟨"reserved1", 5, 7⟩]
  fresh := 0

def directory (w : Word) : PhysicalPage :=
  ⟨directoryField.get w, Nat.mod_lt _ (by decide)⟩

def ofDirectory (a : PhysicalAddress) : Except Fault Word :=
  if a.IsAligned then .ok (directoryField.put layout.fresh a.page.number)
  else .error .unalignedDirectory

end ControlRegister3

namespace Flags

/-- Bit 1 is always set. -/
def layout : Layout 32 where
  fields := [.flag "cf_carry" 0, .flag "pf_parity" 2, .flag "af_adjust" 4, .flag "zf_zero" 6,
    .flag "sf_sign" 7, .flag "tf_trap" 8, .flag "if_interrupt_enable" 9, .flag "df_direction" 10,
    .flag "of_overflow" 11, ⟨"iopl", 12, 2⟩, .flag "nt_nested" 14, .flag "rf_resume" 16,
    .flag "vm_virtual_8086" 17, .flag "ac_alignment_check" 18, .flag "vif_virtual_interrupt" 19,
    .flag "vip_virtual_interrupt_pending" 20, .flag "id_cpuid" 21]
  fresh := 2

end Flags
end Ia32Memory
