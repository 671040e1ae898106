import Ia32Memory.Proofs.Frame.Operations

/-! Setting up an allocator.
The maps of an allocator whose frames are all free are consistent, and a set-up that succeeds takes
the region of the kernel from such an allocator. -/

namespace Ia32Memory

/-- Sizes that a boot record can hold: each of them fits 32 bits. -/
structure BootMemory.Reported (m : BootMemory) : Prop where
  lower : m.lowerKib < 0x100000000
  upper : m.upperKib < 0x100000000

theorem BootMemory.Reported.total_lt {m : BootMemory} (h : m.Reported) :
    m.totalFrames < 1 <<< 64 := by
  have := h.lower
  have := h.upper
  refine Nat.lt_of_lt_of_le (m := 0x80000000) ?_ (by decide)
  simp only [BootMemory.totalFrames, BootMemory.lowerFrames, BootMemory.upperFrames,
    BootMemory.kibFrames]
  omega

theorem Words.bit_replicate_zero (n b : Nat) : Words.bit (Array.replicate n 0) b = false := by
  by_cases h : b / 32 < n <;> simp [Words.bit, h]

theorem Bitmap.full_bit (n b : Nat) :
    ((Bitmap.empty n).setRange 0 n).words.bit b = decide (b < n) := by
  have inside : 0 + n ≤ 32 * (Bitmap.empty n).words.size := by
    simp only [Bitmap.empty, Array.size_replicate, wordsFor]
    omega
  rw [Bitmap.setRange, Words.bit_setRange_eq inside]
  by_cases h : b < n
  · simp [h]
  · rw [if_neg (by omega), Bitmap.empty, Words.bit_replicate_zero]
    simp [h]

theorem Words.getElem?_fill (ws : Words) (value : Word) (start n i : Nat) :
    (ws.fill value start n)[i]? =
      if start ≤ i ∧ i < start + n ∧ i < ws.size then some value else ws[i]? := by
  induction n generalizing ws start with
  | zero => rw [Words.fill, if_neg (by omega)]
  | succ n ih =>
    rw [Words.fill, ih, Array.size_setIfInBounds, Array.getElem?_setIfInBounds]
    by_cases later : start + 1 ≤ i ∧ i < start + 1 + n ∧ i < ws.size
    · rw [if_pos later, if_pos (by omega)]
    · rw [if_neg later]
      by_cases here : start = i
      · subst here
        by_cases inside : start < ws.size
        · simp [inside]
        · simp [inside]
      · rw [if_neg here, if_neg (by omega)]

theorem Words.extract_fill_zero {ws : Words} {n i j : Nat} (fits : n ≤ ws.size) (inside : j ≤ n) :
    (ws.fill 0 0 n).extract i j = Array.replicate (j - i) 0 := by
  refine Array.ext (by simp; omega) fun k hk hk' => ?_
  have within : i + k < j := by
    simp only [Array.size_replicate] at hk'
    omega
  have zero := Words.getElem?_fill ws 0 0 n (i + k)
  rw [if_pos ⟨Nat.zero_le _, by omega, by omega⟩] at zero
  rw [Array.getElem_extract, Array.getElem_replicate]
  exact (Array.getElem?_eq_some_iff.1 zero).2

theorem Words.extract_fill_behind (ws : Words) (value : Word) (n j : Nat) :
    (ws.fill value 0 n).extract n j = ws.extract n j := by
  refine Array.ext (by simp) fun k hk hk' => ?_
  have kept := Words.getElem?_fill ws value 0 n (n + k)
  rw [if_neg (by omega)] at kept
  rw [Array.getElem_extract, Array.getElem_extract]
  rw [Array.size_extract] at hk'
  rw [Array.getElem?_eq_getElem (by rw [Words.size_fill]; omega)] at kept
  exact (Array.getElem?_eq_some_iff.1 kept.symm).2.symm

theorem Bitmap.ofWords_zero (n : Nat) :
    Bitmap.ofWords (Array.replicate (wordsFor n) 0) n = .ok (Bitmap.empty n) :=
  dif_pos (by simp)

theorem Bitmap.setRangeChecked_whole (n : Nat) :
    (Bitmap.empty n).setRangeChecked 0 n =
      fit 64 n >>= fun _ => .ok ((Bitmap.empty n).setRange 0 n) := by
  unfold Bitmap.setRangeChecked Bitmap.requireRange
  rw [Nat.zero_add, fit]
  split
  · simp [Bitmap.empty, except_pure]
  · rfl

namespace FrameAllocator
def allFree (memory : BootMemory) (kernel : Nat) (spare : Words) : FrameAllocator :=
  let total := memory.totalFrames
  let superframes := MapLayout.superframesFor total
  { frames := (Bitmap.empty total).setRange 0 total
    superframes := (Bitmap.empty superframes).setRange 0 superframes
    usage := Array.replicate (MapLayout.forFrames total).usageWords 0
    spare
    stats :=
      { total, free := total, used := 0, kernel
        lower := memory.lowerFrames, upper := memory.upperFrames } }

variable {memory : BootMemory} {image : Image} {storage spare : Words} {kernel : Nat}
  {a : FrameAllocator}

theorem freeBit_allFree (i : Nat) :
    (allFree memory kernel spare).freeBit i = decide (i < memory.totalFrames) :=
  Bitmap.full_bit _ i

theorem shaped_allFree (small : memory.totalFrames < 1 <<< 64) :
    Shaped (allFree memory kernel spare) where
  total := rfl
  small := small
  frameBits := rfl
  superframeBits := rfl
  frameWords := by simp [allFree, Bitmap.setRange, Bitmap.empty]
  superframeWords := by simp [allFree, Bitmap.setRange, Bitmap.empty]
  counters := by simp [allFree, MapLayout.forFrames]

theorem consistent_allFree (small : memory.totalFrames < 1 <<< 64) :
    Consistent (allFree memory kernel spare) := by
  have marks : ∀ k, (allFree memory kernel spare).superframes.words.bit k =
      decide (k < MapLayout.superframesFor memory.totalFrames) := Bitmap.full_bit _
  have total : (allFree memory kernel spare).stats.total = memory.totalFrames := rfl
  refine { shaped_allFree small with
    summary := fun k hk => ?_
    free := ?_
    used := rfl
    framePadding := fun i out => ?_
    superframePadding := fun k out => ?_ }
  · rw [total] at hk
    rw [marks k, decide_eq_true hk]
    refine iff_of_true rfl ⟨1024 * k, Nat.le_refl _, ?_, ?_⟩
    · rw [total]
      unfold MapLayout.superframesFor at hk
      omega
    · rw [freeBit_allFree, decide_eq_true_eq]
      unfold MapLayout.superframesFor at hk
      omega
  · rw [countSet_of_shaped (shaped_allFree small), List.countP_eq_length.2]
    · simp [allFree]
    · intro i hi
      rw [freeBit_allFree, decide_eq_true_eq]
      exact List.mem_range.1 hi
  · rw [freeBit_allFree, decide_eq_false_iff_not]
    exact Nat.not_lt.2 out
  · rw [marks k, decide_eq_false_iff_not]
    exact Nat.not_lt.2 out

/-- Carved out of storage that is long enough, an allocator has all its frames free, and of what the
storage held only the words behind the maps are left. -/
theorem carve_eq {required : Nat}
    (words : (MapLayout.forFrames memory.totalFrames).words = .ok required)
    (enough : required ≤ storage.size) (kernel : Nat) :
    carve memory kernel storage = fit 64 memory.totalFrames >>= fun _ =>
      .ok (allFree memory kernel (storage.extract required storage.size)) := by
  obtain ⟨n, bits, all⟩ := except_bind_eq_ok.1 words
  obtain ⟨-, rfl⟩ := fit_eq_ok.1 bits
  obtain ⟨-, total⟩ := fit_eq_ok.1 all
  have few : MapLayout.superframesFor memory.totalFrames ≤ memory.totalFrames := by
    unfold MapLayout.superframesFor
    omega
  unfold carve
  simp only [words, except_ok_bind, Words.fillChecked, Nat.zero_add, if_pos enough,
    Words.size_fill, Words.extract_fill_behind, Nat.sub_zero,
    Words.extract_fill_zero enough (Nat.le_refl required),
    Words.extract_fill_zero enough (show (MapLayout.forFrames memory.totalFrames).frameWords ≤
      required by omega),
    Words.extract_fill_zero enough (show (MapLayout.forFrames memory.totalFrames).frameWords +
      (MapLayout.forFrames memory.totalFrames).superframeWords ≤ required by omega)]
  rw [← total]
  simp only [Nat.add_sub_cancel_left, MapLayout.forFrames, Bitmap.ofWords_zero, except_ok_bind,
    Bitmap.setRangeChecked_whole]
  by_cases small : memory.totalFrames < 1 <<< 64
  · rw [fit_of_lt small, fit_of_lt (Nat.lt_of_le_of_lt few small)]
    rfl
  · rw [fit, if_neg small]
    rfl

theorem setup_eq_ok (h : setup memory image storage = .ok (.ok a)) :
    ∃ required own kernel,
      (MapLayout.forFrames memory.totalFrames).words = .ok required ∧
      (MapLayout.forFrames memory.totalFrames).frames = .ok own ∧
      kernel = image.frames + own ∧ 0 < memory.totalFrames ∧ memory.totalFrames < 1 <<< 64 ∧
      required ≤ storage.size ∧
      AddressMap.upperMemoryStart ≤ image.physical.toNat ∧
      image.physical.toNat ≤ (endOfFrames image.physical kernel).toNat ∧
      (endOfFrames image.physical kernel).toNat ≤
        AddressMap.upperMemoryStart + memory.upperFrames * 4096 ∧
      takeRegion image.physical (endOfFrames image.physical kernel)
        (allFree memory kernel (storage.extract required storage.size)) = .ok () a := by
  simp only [setup] at h
  split at h
  · simp [pure, Except.pure] at h
  · rename_i some
    obtain ⟨required, hwords, h⟩ := except_bind_eq_ok.1 h
    split at h
    · simp [pure, Except.pure] at h
    · rename_i enough
      obtain ⟨own, hown, h⟩ := except_bind_eq_ok.1 h
      obtain ⟨kernel, hkernel, h⟩ := except_bind_eq_ok.1 h
      obtain ⟨-, rfl⟩ := fit_eq_ok.1 hkernel
      split at h
      · simp [pure, Except.pure] at h
      · rename_i inside
        obtain ⟨blank, carved, h⟩ := except_bind_eq_ok.1 h
        rw [carve_eq hwords (Nat.le_of_not_lt enough)] at carved
        obtain ⟨_, small, same⟩ := except_bind_eq_ok.1 carved
        cases same
        split at h
        · rename_i taken
          simp only [pure, Except.pure, Except.ok.injEq] at h
          subst h
          refine ⟨required, own, _, hwords, hown, rfl, Nat.pos_of_ne_zero some,
            (fit_eq_ok.1 small).1, Nat.le_of_not_lt enough, ?_, ?_, ?_, taken⟩
          · exact Nat.le_of_not_lt fun lt => inside (Or.inl lt)
          · exact Nat.le_of_not_lt fun lt => inside (Or.inr (Or.inr lt))
          · exact Nat.le_of_not_lt fun lt => inside (Or.inr (Or.inl lt))
        · simp [throw, throwThe, MonadExceptOf.throw] at h

end FrameAllocator
end Ia32Memory
