import Ia32Memory.Paging.Entry

/-! What making and editing an entry leaves in its parts.
A write to a field is seen in that field alone, so the frame, the flags and the marks that tell
entries of tables from others are each given by the last write to them. -/

namespace Ia32Memory

namespace Field
variable {n : Nat} {w : BitVec n}

theorem put_put (f : Field) (a b : Nat) : f.put (f.put w a) b = f.put w b := by
  apply BitVec.eq_of_getLsbD_eq
  intro i hi
  simp only [getLsbD_put _ _ _ _ hi]
  split <;> rfl

theorem put_comm {f g : Field} (a b : Nat)
    (apart : f.offset + f.width ≤ g.offset ∨ g.offset + g.width ≤ f.offset) :
    f.put (g.put w a) b = g.put (f.put w b) a := by
  apply BitVec.eq_of_getLsbD_eq
  intro i hi
  simp only [getLsbD_put _ _ _ _ hi]
  by_cases inF : f.offset ≤ i ∧ i < f.offset + f.width
  · rw [if_pos inF, if_neg (by omega), if_pos inF]
  · simp only [if_neg inF]

theorem put_get (f : Field) : f.put w (f.get w) = w := by
  apply BitVec.eq_of_getLsbD_eq
  intro i hi
  rw [getLsbD_put _ _ _ _ hi]
  split
  · rename_i inside
    have low : i - f.offset < f.width := by omega
    rw [get, BitVec.testBit_toNat, BitVec.getLsbD_extractLsb', decide_eq_true low, Bool.true_and,
      Nat.add_sub_cancel' inside.1]
  · rfl

theorem isSet_put_of_outside {f g : Field} (value : Nat) (inside : f.offset < n)
    (outside : ¬(g.offset ≤ f.offset ∧ f.offset < g.offset + g.width)) :
    f.isSet (g.put w value) = f.isSet w := by
  simp only [isSet, getLsbD_put _ _ _ _ inside, if_neg outside]

end Field

namespace Entry
variable {e : Entry} {frame : PhysicalPage} {flags : Entry}

def leafFlags (flags : Entry) : Entry :=
  flagsOnly (presentField.assign (largeField.assign flags false) true)

theorem present_zero : present 0 = false := rfl

@[simp] theorem present_aimedAt : (aimedAt frame flags).present = true := by
  have kept := Field.isSet_put_of_outside (w := presentField.assign (largeField.assign flags false)
    true) (f := presentField) (g := frameField) frame.number (by decide) (by decide)
  refine Eq.trans kept ?_
  rw [Field.isSet_assign _ _ rfl _ _ (by decide), if_pos rfl]

@[simp] theorem large_aimedAt : (aimedAt frame flags).large = false := by
  have kept := Field.isSet_put_of_outside (w := presentField.assign (largeField.assign flags false)
    true) (f := largeField) (g := frameField) frame.number (by decide) (by decide)
  refine Eq.trans kept ?_
  rw [Field.isSet_assign _ _ rfl _ _ (by decide), if_neg (by decide),
    Field.isSet_assign _ _ rfl _ _ (by decide), if_pos rfl]

@[simp] theorem frame_aimedAt : (aimedAt frame flags).frame = frame := by
  apply Page.ext
  refine Field.get_put_self frameField _ (by decide) ?_
  exact Nat.le_of_lt_succ frame.isLt

theorem isSet_aimedAt {field : Field} (inside : field.offset < 32)
    (notFrame : ¬(frameField.offset ≤ field.offset ∧
      field.offset < frameField.offset + frameField.width))
    (notPresent : ¬(presentField.offset ≤ field.offset ∧
      field.offset < presentField.offset + presentField.width))
    (notLarge : ¬(largeField.offset ≤ field.offset ∧
      field.offset < largeField.offset + largeField.width)) :
    field.isSet (aimedAt frame flags) = field.isSet flags :=
  (Field.isSet_put_of_outside frame.number inside notFrame).trans
    ((Field.isSet_put_of_outside true.toNat inside notPresent).trans
      (Field.isSet_put_of_outside false.toNat inside notLarge))

@[simp] theorem writable_aimedAt : (aimedAt frame flags).writable = flags.writable :=
  isSet_aimedAt (by decide) (by decide) (by decide) (by decide)

@[simp] theorem userAccess_aimedAt : (aimedAt frame flags).userAccess = flags.userAccess :=
  isSet_aimedAt (by decide) (by decide) (by decide) (by decide)

theorem flagsOnly_aimedAt : (aimedAt frame flags).flagsOnly = leafFlags flags :=
  Field.put_put frameField frame.number 0

@[simp] theorem mapped?_aimedAt :
    (aimedAt frame flags).mapped? = some (frame, leafFlags flags) := by
  rw [mapped?, if_pos present_aimedAt, frame_aimedAt, flagsOnly_aimedAt]

@[simp] theorem present_withWritable (b : Bool) : (e.withWritable b).present = e.present :=
  Field.isSet_put_of_outside b.toNat (by decide) (by decide)

@[simp] theorem large_withWritable (b : Bool) : (e.withWritable b).large = e.large :=
  Field.isSet_put_of_outside b.toNat (by decide) (by decide)

@[simp] theorem frame_withWritable (b : Bool) : (e.withWritable b).frame = e.frame := by
  apply Page.ext
  exact Field.get_put_other frameField writableField e b.toNat (by decide) (by decide)

@[simp] theorem writable_withWritable (b : Bool) : (e.withWritable b).writable = b :=
  (Field.isSet_assign writableField writableField rfl e b (by decide)).trans (if_pos rfl)

@[simp] theorem writable_flagsOnly : e.flagsOnly.writable = e.writable :=
  Field.isSet_put_of_outside 0 (by decide) (by decide)

@[simp] theorem userAccess_flagsOnly : e.flagsOnly.userAccess = e.userAccess :=
  Field.isSet_put_of_outside 0 (by decide) (by decide)

@[simp] theorem userAccess_withWritable (b : Bool) :
    (e.withWritable b).userAccess = e.userAccess :=
  Field.isSet_put_of_outside b.toNat (by decide) (by decide)

theorem writable_leafFlags : (leafFlags flags).writable = flags.writable := by
  have whole : (aimedAt .first flags).flagsOnly = leafFlags flags := flagsOnly_aimedAt
  rw [← whole, writable_flagsOnly, writable_aimedAt]

theorem userAccess_leafFlags : (leafFlags flags).userAccess = flags.userAccess := by
  have whole : (aimedAt .first flags).flagsOnly = leafFlags flags := flagsOnly_aimedAt
  rw [← whole, userAccess_flagsOnly, userAccess_aimedAt]

theorem flagsOnly_withWritable (b : Bool) :
    (e.withWritable b).flagsOnly = e.flagsOnly.withWritable b :=
  Field.put_comm b.toNat 0 (by decide)

theorem mapped?_withWritable (b : Bool) :
    (e.withWritable b).mapped? = e.mapped?.map fun (frame, flags) =>
      (frame, flags.withWritable b) := by
  unfold mapped?
  rw [present_withWritable, frame_withWritable, flagsOnly_withWritable]
  split <;> rfl

theorem withWritable_withWritable (a b : Bool) :
    (e.withWritable a).withWritable b = e.withWritable b :=
  Field.put_put writableField a.toNat b.toNat

theorem withWritable_self (e : Entry) : e.withWritable e.writable = e := by
  apply BitVec.eq_of_getLsbD_eq
  intro i hi
  rw [withWritable, Field.getLsbD_assign rfl _ _ hi]
  split
  · rename_i here
    rw [here]
    rfl
  · rfl

theorem leafFlags_withWritable (b : Bool) :
    leafFlags (flags.withWritable b) = (leafFlags flags).withWritable b := by
  unfold leafFlags withWritable flagsOnly Field.assign
  rw [Field.put_comm (f := largeField) (g := writableField) _ _ (by decide),
    Field.put_comm (f := presentField) (g := writableField) _ _ (by decide),
    Field.put_comm (f := frameField) (g := writableField) _ _ (by decide)]

theorem mapped?_eq_none : e.mapped? = none ↔ e.present = false := by
  unfold mapped?
  cases e.present <;> simp

theorem mapped?_of_present (h : e.present = true) : e.mapped? = some (e.frame, e.flagsOnly) :=
  if_pos h

theorem present_of_mapped? {v : PhysicalPage × Entry} (h : e.mapped? = some v) :
    e.present = true := by
  cases absent : e.present with
  | true => rfl
  | false =>
    rw [mapped?_eq_none.2 absent] at h
    exact nomatch h

theorem eq_of_mapped? {e' : Entry} (present : e.present = true) (same : e'.mapped? = e.mapped?) :
    e' = e := by
  rw [mapped?_of_present present] at same
  rw [mapped?_of_present (present_of_mapped? same), Option.some.injEq, Prod.mk.injEq] at same
  have whole : ∀ x : Entry, frameField.put x.flagsOnly x.frame.number = x := by
    intro x
    rw [flagsOnly, Field.put_put]
    exact Field.put_get frameField
  rw [← whole e', same.1, same.2, whole e]

theorem withWritable_aimedAt (b : Bool) :
    (aimedAt frame flags).withWritable b = aimedAt frame (flags.withWritable b) := by
  refine eq_of_mapped? present_aimedAt ?_
  rw [mapped?_withWritable, mapped?_aimedAt, mapped?_aimedAt, leafFlags_withWritable]
  rfl

end Entry
end Ia32Memory
