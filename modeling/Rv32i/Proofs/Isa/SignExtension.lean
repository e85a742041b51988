import Rv32i.Proofs.Assembly.DecodeRules
import Rv32i.Proofs.Checked.Decode
import Rv32i.Proofs.Checked.Operand

/-!
# Sign extension of every width

A signed field admits exactly one value of each residue modulo the power of two that belongs to its
width. Sign extension picks that value (`Word.folds_signField`), and its laws follow from there
being no other.

* `Word.signField_eq_self_iff`: it changes a word exactly if the field does not admit the word;
* `Word.Folds.of_wider`: what a field keeps of a word is kept by every wider field on the way;
* `Word.signField_signField`: of two extensions, one after the other, the narrower decides.

The main statement is `Word.sign_extension_canonical`.
-/

namespace Rv32i

/-- A wider field admits what a narrower one does. -/
theorem Field.admits_of_le {narrow wide : Nat} {z : Int} (le : narrow ≤ wide)
    (h : (Field.signed narrow).admits z = true) : (Field.signed wide).admits z = true := by
  obtain ⟨lower, higher⟩ := Field.bounds_of_le le
  obtain ⟨low, high⟩ := Field.admits_iff.mp h
  exact Field.admits_iff.mpr ⟨Int.le_trans lower low, Int.le_trans high higher⟩

namespace Word

section

variable {bits narrow wide : Nat} {w : Word}

/-- **A word is left alone exactly if the field admits it.** -/
theorem signField_eq_self_iff (positive : 0 < bits) (le : bits ≤ 32) :
    signField bits w = w ↔ (Field.signed bits).admits w.toInt = true := by
  constructor
  · intro same
    have admits : (Field.signed bits).admits (signField bits w).toInt = true :=
      admits_signField le
    rwa [same] at admits
  · exact signField_eq_self positive le

/-- A value that stands for a word in a wide field stands for it in every narrower one: the two
    agree modulo the larger power of two, hence modulo the smaller. -/
theorem Folds.of_wider {raw middle value : Word} (le : narrow ≤ wide)
    (outer : Folds wide raw middle) (inner : Folds narrow middle value) :
    Folds narrow raw value := by
  obtain ⟨-, congruent⟩ := (outer middle.toInt).mpr rfl
  have divides : (2 : Int) ^ narrow ∣ 2 ^ wide := by exact_mod_cast Nat.pow_dvd_pow 2 le
  have same : middle.toInt % 2 ^ narrow = raw.toInt % 2 ^ narrow := by
    rw [← Int.emod_emod_of_dvd _ divides, congruent, Int.emod_emod_of_dvd _ divides]
  intro z
  rw [← inner z, same]

/-- **Of two extensions, one after the other, the narrower decides.** -/
theorem signField_signField (narrowPositive : 0 < narrow) (widePositive : 0 < wide)
    (narrowLe : narrow ≤ 32) (wideLe : wide ≤ 32) :
    signField narrow (signField wide w) = signField (min narrow wide) w := by
  rcases Nat.le_total narrow wide with le | le
  · -- both sides stand for `w` in the narrow field
    have outer : Folds wide w (signField wide w) := folds_signField widePositive wideLe
    have inner : Folds narrow (signField wide w) (signField narrow (signField wide w)) :=
      folds_signField narrowPositive narrowLe
    have direct : Folds narrow w (signField narrow w) := folds_signField narrowPositive narrowLe
    rw [Nat.min_eq_left le]
    exact direct.unique (outer.of_wider le inner)
  · have admits : (Field.signed wide).admits (signField wide w).toInt = true :=
      admits_signField wideLe
    rw [Nat.min_eq_right le]
    exact signField_eq_self narrowPositive narrowLe (Field.admits_of_le le admits)

end

/-- **Sign extension gives the canonical representative.** At every width from 1 to 32, masks and
    shifts come to the one integer in the range of the field that agrees with the word modulo the
    power of two of the width. So the words in the range are those that are left alone, extending
    again changes nothing, and a narrower extension makes a wider one before it superfluous. -/
theorem sign_extension_canonical {bits : Nat} (positive : 1 ≤ bits) (le : bits ≤ 32) (w : Word) :
    Checked.signExtend bits w = .ok (signField bits w) ∧
    Checked.signedField bits = .ok (.signed bits) ∧
    (∀ z : Int, (Field.signed bits).admits z = true ∧ z % 2 ^ bits = w.toInt % 2 ^ bits ↔
      z = (signField bits w).toInt) ∧
    (signField bits w = w ↔ (Field.signed bits).admits w.toInt = true) ∧
    signField bits (signField bits w) = signField bits w ∧
    ∀ narrow, 1 ≤ narrow → narrow ≤ bits →
      signField narrow (signField bits w) = signField narrow w := by
  refine ⟨Checked.signExtend_eq positive le w, Checked.signedField_eq positive le,
    folds_signField positive le, signField_eq_self_iff positive le, ?_, fun narrow least less => ?_⟩
  · rw [signField_signField positive positive le le, Nat.min_self]
  · rw [signField_signField least positive (Nat.le_trans less le) le, Nat.min_eq_left less]

/-- The lowest value of 13 bits, behind bits that are not part of the field. Its own 12 low bits are
    zero. -/
theorem sign_extension_canonical_lowest :
    Checked.signExtend 13 0x7FFF3000 = .ok (-4096) ∧
      signField 13 (-4096) = -4096 ∧ signField 12 (-4096) = 0 := by
  obtain ⟨shifted, -, only, -, again, narrower⟩ :=
    @sign_extension_canonical 13 (by decide) (by decide) 0x7FFF3000
  have value : signField 13 0x7FFF3000 = -4096 := by
    have least : -4096 = (signField 13 0x7FFF3000).toInt :=
      (only (-4096)).mp ⟨by decide, by decide⟩
    exact BitVec.eq_of_toInt_eq least.symm
  rw [value] at shifted again
  refine ⟨shifted, again, ?_⟩
  rw [← value, narrower 12 (by decide) (by decide)]
  rfl

end Word

end Rv32i
