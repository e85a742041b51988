import Mathlib.Data.List.Forall2
import Rv32i.Proofs.Text.Cutting
import Rv32i.Proofs.Text.Numerals

/-!
# Texts that tell what they show

A printed text can be followed by anything, and still there may be only one thing that it shows.
`Tells` says so of a way of printing, for values that are alike in what is known of them anyway.

* `tells_of_width`: texts of one width tell values that they are different for;
* `Tells.between`, `Tells.join`, `Tells.intercalate`: texts put together from such texts;
* `padLeft_inj`, `natOfDigits?_padLeft`: what stands in a column is found again;
* `decimal_space_inj`: a decimal numeral ends where a space stands.
-/

namespace Rv32i.Text

variable {α β : Type} {alike : α → α → Prop}

/-- **Texts tell values apart** that are alike: of two texts with anything behind them that are the
    same, the values are the same, and so is what stands behind. -/
def Tells (alike : α → α → Prop) (text : α → String) : Prop :=
  ∀ ⦃a b : α⦄, alike a b → ∀ ⦃r r' : List Char⦄,
    (text a).toList ++ r = (text b).toList ++ r' → a = b ∧ r = r'

/-! ## 1. Texts put together -/

/-- Texts of one width tell values apart if they are different. -/
theorem tells_of_width {text : α → String}
    (width : ∀ a b, alike a b → (text a).length = (text b).length)
    (differ : ∀ a b, alike a b → text a = text b → a = b) : Tells alike text := by
  intro a b same r r' h
  obtain ⟨here, behind⟩ := List.append_inj h (by
    rw [String.length_toList, String.length_toList]
    exact width a b same)
  exact ⟨differ a b same (String.toList_inj.mp here), behind⟩

/-- What is put around the texts may depend on what alike values have in common. -/
theorem Tells.between {text : α → String} (tells : Tells alike text) {before after : α → String}
    (same : ∀ a b, alike a b → before a = before b ∧ after a = after b) :
    Tells alike fun a => before a ++ text a ++ after a := by
  intro a b ab r r' h
  obtain ⟨front, back⟩ := same a b ab
  simp only [String.toList_append, List.append_assoc, front, back] at h
  obtain ⟨value, behind⟩ := tells ab (List.append_cancel_left h)
  exact ⟨value, List.append_cancel_left behind⟩

/-- Texts one behind the other tell lists of values apart. -/
theorem Tells.join {text : α → String} (tells : Tells alike text) :
    Tells (List.Forall₂ alike) fun items => String.join (items.map text) := by
  intro xs ys same
  induction same with
  | nil => exact fun r r' h => ⟨rfl, by simpa using h⟩
  | cons ab _ ih =>
    intro r r' h
    simp only [List.map_cons, String.join_cons, String.toList_append, List.append_assoc] at h
    obtain ⟨rfl, behind⟩ := tells ab h
    obtain ⟨rfl, rest⟩ := ih behind
    exact ⟨rfl, rest⟩

/-- Texts with a separator between them tell lists of values apart. -/
theorem Tells.intercalate {text : α → String} (tells : Tells alike text) (separator : String) :
    Tells (List.Forall₂ alike) fun items => separator.intercalate (items.map text) := by
  intro xs ys same
  induction same with
  | nil => exact fun r r' h => ⟨rfl, by simpa using h⟩
  | cons ab rest ih =>
    intro r r' h
    cases rest with
    | nil =>
      obtain ⟨rfl, behind⟩ := tells ab h
      exact ⟨rfl, behind⟩
    | cons =>
      simp only [List.map_cons, String.intercalate_cons_cons, String.toList_append,
        List.append_assoc] at h
      obtain ⟨rfl, behind⟩ := tells ab h
      obtain ⟨others, rest⟩ := ih (List.append_cancel_left behind)
      exact ⟨congrArg _ others, rest⟩

/-! ## 2. Columns -/

theorem length_padLeft {width : Nat} {s : String} (fits : s.length ≤ width) (fill : Char) :
    (padLeft width fill s).length = width := by
  rw [padLeft, String.length_append, String.length_ofList, List.length_replicate]
  omega

/-- A text without the padding character is found again behind the padding. -/
theorem padLeft_inj {width : Nat} {fill : Char} {s t : String} (hs : fill ∉ s.toList)
    (ht : fill ∉ t.toList) (h : padLeft width fill s = padLeft width fill t) : s = t := by
  have strip {u : String} (hu : fill ∉ u.toList) :
      (padLeft width fill u).toList.dropWhile (· = fill) = u.toList := by
    have padding : ∀ c ∈ List.replicate (width - u.length) fill, decide (c = fill) = true :=
      fun c mem => decide_eq_true (List.eq_of_mem_replicate mem)
    rw [padLeft, String.toList_append, String.toList_ofList, List.dropWhile_append_of_pos padding]
    exact dropWhile_eq_self fun c first =>
      decide_eq_false fun e => hu (e ▸ List.mem_of_head? first)
  exact String.toList_inj.mp ((strip hs).symm.trans ((congrArg _ (congrArg _ h)).trans (strip ht)))

/-- Zeros in front change no number. -/
theorem natOfDigits?_padLeft {base : Nat} (two : 1 < base) (le : base ≤ 16) (width n : Nat) :
    natOfDigits? base (padLeft width '0' (String.ofList (Nat.toDigits base n))).toList =
      some n := by
  have zero : digit? base '0' = some 0 := @digit?_digitChar base 0 (by omega) le
  have zeros (k : Nat) : (List.replicate k '0').foldlM
      (fun n c => (digit? base c).map (n * base + ·)) 0 = some 0 := by
    induction k with
    | zero => rfl
    | succ k ih =>
      rw [List.replicate_succ, List.foldlM_cons, zero]
      simpa using ih
  have digits := natOfDigits?_toDigits two le n
  have nonempty := (token_toDigits two le n).nonempty
  rw [natOfDigits?, List.isEmpty_eq_false_iff.mpr nonempty] at digits
  rw [padLeft, String.toList_append, String.toList_ofList, String.toList_ofList, natOfDigits?,
    List.isEmpty_eq_false_iff.mpr (List.append_ne_nil_of_right_ne_nil _ nonempty),
    List.foldlM_append, zeros]
  exact digits

/-! ## 3. Numerals -/

theorem decimal_inj {m n : Nat} (h : decimal m = decimal n) : m = n := by
  have digits := String.ofList_injective h
  have read := natOfDigits?_toDigits (by decide : 1 < 10) (by decide) m
  rw [digits, natOfDigits?_toDigits (by decide) (by decide)] at read
  exact (Option.some.inj read).symm

/-- **A decimal numeral ends where a space stands.** -/
theorem decimal_space_inj {m n : Nat} {r r' : List Char}
    (h : (decimal m).toList ++ ' ' :: r = (decimal n).toList ++ ' ' :: r') : m = n ∧ r = r' := by
  have ends (k : Nat) (rest : List Char) :
      cut (· = ' ') ((decimal k).toList ++ ' ' :: rest) = some ((decimal k).toList, rest) := by
    refine cut_append (fun c mem => decide_eq_false ?_) (by decide) rest
    rw [decimal, String.toList_ofList] at mem
    exact (token_toDigits (by decide) (by decide) k).ne mem (by decide)
  have cuts := (ends m r).symm.trans ((congrArg _ h).trans (ends n r'))
  simp only [Option.some.injEq, Prod.mk.injEq] at cuts
  exact ⟨decimal_inj (String.toList_inj.mp cuts.1), cuts.2⟩

end Rv32i.Text
