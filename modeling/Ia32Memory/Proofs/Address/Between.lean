import Ia32Memory.Address.Basic

/-! Rows of pages.
The pages between two others come once each and in order, so what stands before one of them is the
row that ends there. -/

namespace Ia32Memory.Page
variable {k : AddressKind} {start stop page : Page k} {before after : List (Page k)}

theorem number_truncate {n : Nat} (h : n < 0x100000) : (truncate n : Page k).number = n :=
  Nat.mod_eq_of_lt h

theorem mem_between :
    page ∈ between start stop ↔ start.number ≤ page.number ∧ page.number < stop.number := by
  have bound := stop.isLt
  rw [between, List.mem_map]
  constructor
  · rintro ⟨n, mem, rfl⟩
    rw [List.mem_range'_1] at mem
    rw [number_truncate (by omega)]
    omega
  · intro inside
    refine ⟨page.number, List.mem_range'_1.2 (by omega), ?_⟩
    ext
    exact number_truncate page.isLt

theorem nodup_between (start stop : Page k) : (between start stop).Nodup := by
  have bound := stop.isLt
  unfold between
  refine List.pairwise_map.2 (List.Pairwise.imp_of_mem ?_ List.nodup_range')
  intro i j hi hj differ same
  rw [List.mem_range'_1] at hi hj
  have numbers := congrArg Page.number same
  rw [number_truncate (by omega), number_truncate (by omega)] at numbers
  exact differ numbers

theorem between_before (split : between start stop = before ++ page :: after) :
    between start page = before := by
  have bound := stop.isLt
  unfold between at split
  obtain ⟨ns, rest, whole, rfl, tail⟩ := List.map_eq_append_iff.1 split
  obtain ⟨n, more, rfl, here, -⟩ := List.map_eq_cons_iff.1 tail
  obtain ⟨count, few, rfl, next⟩ := List.range'_eq_append_iff.1 whole
  have length := congrArg List.length next
  rw [List.length_cons, List.length_range'] at length
  rw [show stop.number - start.number - count = more.length + 1 by omega, List.range'_succ,
    List.cons.injEq] at next
  obtain ⟨first, -⟩ := next
  have number : page.number = start.number + count := by
    rw [← here, first, number_truncate (by omega)]
    omega
  rw [between, number, Nat.add_sub_cancel_left]

end Ia32Memory.Page
