/-
How much longer a text may become when its case changes.

A case mapping gives some characters two or three characters, which may be
mapped again. The weight of a character is the length of what can become of it
at most. By the tables no mapping makes a character heavier: the images of a
longer image are single characters, and where a run leads to a character with a
longer image, it starts from one. So the weight of a whole text never grows
(`weight_upper`, `weight_lower`), and as no weight is above three, a text is
never more than three times as long as it was at first.
-/
import Mathlib
import Guion.Text.Blank
import Guion.Text.Case

namespace Guion.Text

open CaseTable

/-- The characters that a character may become at most. `İ` and `ẞ` have longer
forms in lower case, or in the upper case of that. -/
def weightOf (code : Nat) : Nat :=
  match upperLong.lookup code with
  | some image => image.length
  | none => if code = 0x130 ∨ code = 0x1e9e then 2 else 1

/-- The characters that a text may become at most. -/
def weight (text : List Char) : Nat := (text.map fun c => weightOf c.toNat).sum

/-- The characters with a weight above one. -/
def heavy : List Nat := 0x130 :: 0x1e9e :: upperLong.map (·.1)

/-- Ranges that hold them. -/
def heavyRanges : List (Nat × Nat) :=
  [(0xdf, 0xdf), (0x130, 0x149), (0x1f0, 0x1f0), (0x390, 0x3b0), (0x587, 0x587), (0x1e96, 0x1e9e),
    (0x1f50, 0x1ffc), (0xfb00, 0xfb17)]

/-! ## Single characters -/

theorem mem_of_lookup {key : Nat} {value : β} {pairs : List (Nat × β)} (h : pairs.lookup key = some value) :
    (key, value) ∈ pairs := by
  obtain ⟨before, after, rfl, -⟩ := List.lookup_eq_some_iff.mp h
  exact List.mem_append_right before List.mem_cons_self

theorem weightOf_eq_one {code : Nat} (h : code ∉ heavy) : weightOf code = 1 := by
  simp only [heavy, List.mem_cons, not_or] at h
  unfold weightOf
  split
  · next image found => exact absurd (List.mem_map_of_mem (f := (·.1)) (mem_of_lookup found)) h.2.2
  · exact if_neg (not_or.mpr ⟨h.1, h.2.1⟩)

theorem heavy_bounds : ∀ code ∈ heavy, 128 ≤ code ∧ 1 ≤ weightOf code ∧ weightOf code ≤ 3 := by
  decide +kernel

theorem weightOf_bounds (code : Nat) : 1 ≤ weightOf code ∧ weightOf code ≤ 3 := by
  by_cases h : code ∈ heavy
  · exact (heavy_bounds code h).2
  · rw [weightOf_eq_one h]; decide

theorem weightOf_ascii {code : Nat} (h : code < 128) : weightOf code = 1 :=
  weightOf_eq_one fun hm => Nat.not_le_of_lt h (heavy_bounds code hm).1

/-- A code that is no character stands for the first one. -/
theorem weightOf_ofNat (code : Nat) : weightOf (Char.ofNat code).toNat ≤ weightOf code := by
  unfold Char.ofNat
  split
  · exact Nat.le_refl _
  · exact (weightOf_bounds code).1

/-! ## Images -/

/-- The images of a run stand outside of the ranges. -/
def apart (r : Run) : Bool :=
  heavyRanges.all fun (first, last) => last < r.first + r.offset || r.last + r.offset < first

/-- Where a run leads to a heavy character, it starts from one as heavy. -/
def runsKeepWeight (runs : List Run) : Bool :=
  runs.all fun r => apart r || heavy.all fun image =>
    let code := ((image : Int) - r.offset).toNat
    !(r.first ≤ code && code ≤ r.last && (code - r.first) % r.step == 0) || weightOf image ≤ weightOf code

/-- A longer image weighs no more than the character. -/
def longKeepWeight (long : List (Nat × List Nat)) : Bool :=
  long.all fun (code, image) => (image.map weightOf).sum ≤ weightOf code

theorem not_apart {r : Run} {image : Nat} (hm : image ∈ heavy) (above : r.first + r.offset ≤ image)
    (below : image ≤ r.last + r.offset) : apart r = false := by
  have within : heavy.all (inRanges heavyRanges) = true := by decide +kernel
  refine Bool.eq_false_iff.mpr fun outside => ?_
  obtain ⟨⟨first, last⟩, range, inside⟩ := List.any_eq_true.mp (List.all_eq_true.mp within image hm)
  have := List.all_eq_true.mp outside _ range
  simp only [Bool.and_eq_true, Bool.or_eq_true, decide_eq_true_eq] at inside this
  omega

theorem weightOf_imageIn {runs : List Run} (hr : runsKeepWeight runs = true) {code image : Nat}
    (h : imageIn runs code = some image) : weightOf image ≤ weightOf code := by
  obtain ⟨r, found, rfl⟩ := Option.map_eq_some_iff.mp h
  by_cases hm : ((code : Int) + r.offset).toNat ∈ heavy
  · have inside := List.find?_some found
    have positive := (heavy_bounds _ hm).1
    have bounds : r.first ≤ code ∧ code ≤ r.last := by
      simp only [Bool.and_eq_true, decide_eq_true_eq] at inside
      exact inside.1
    have near : apart r = false := not_apart hm (by omega) (by omega)
    have checked := List.all_eq_true.mp hr r (List.mem_of_find?_eq_some found)
    rw [near, Bool.false_or] at checked
    have checked := List.all_eq_true.mp checked _ hm
    have back : (((((code : Int) + r.offset).toNat : Nat) : Int) - r.offset).toNat = code := by omega
    dsimp only at checked
    rw [back, inside] at checked
    simpa using checked
  · rw [weightOf_eq_one hm]
    exact (weightOf_bounds code).1

theorem weight_ofNat (codes : List Nat) : weight (codes.map Char.ofNat) ≤ (codes.map weightOf).sum := by
  induction codes with
  | nil => exact Nat.le_refl _
  | cons code rest ih => exact Nat.add_le_add (weightOf_ofNat code) ih

theorem weight_caseImage {runs : List Run} {long : List (Nat × List Nat)} (hr : runsKeepWeight runs = true)
    (hl : longKeepWeight long = true) (c : Char) : weight (caseImage runs long c) ≤ weightOf c.toNat := by
  unfold caseImage
  split
  · next code found =>
    exact Nat.le_trans (weight_ofNat [code]) (weightOf_imageIn hr found)
  · split
    · next codes found =>
      refine Nat.le_trans (weight_ofNat codes) ?_
      simpa using List.all_eq_true.mp hl _ (mem_of_lookup found)
    · exact Nat.le_refl _

theorem ascii_keeps : ∀ code < 128, (Char.ofNat code).toUpper.toNat < 128 ∧ (Char.ofNat code).toLower.toNat < 128 := by
  decide +kernel

theorem weight_upperChar (c : Char) : weight (upperChar c) ≤ weightOf c.toNat := by
  unfold upperChar
  split
  · next h =>
    have := (ascii_keeps c.toNat h).1
    rw [Char.ofNat_toNat] at this
    simp [weight, weightOf_ascii h, weightOf_ascii this]
  · exact weight_caseImage (by decide +kernel) (by decide +kernel) c

theorem weight_lowerChar (c : Char) : weight (lowerChar c) ≤ weightOf c.toNat := by
  unfold lowerChar
  split
  · next h =>
    have := (ascii_keeps c.toNat h).2
    rw [Char.ofNat_toNat] at this
    simp [weight, weightOf_ascii h, weightOf_ascii this]
  · exact weight_caseImage (by decide +kernel) (by decide +kernel) c

/-! ## Texts -/

@[simp] theorem weight_nil : weight [] = 0 := rfl

@[simp] theorem weight_cons (c : Char) (text : List Char) : weight (c :: text) = weightOf c.toNat + weight text := rfl

@[simp] theorem weight_append (a b : List Char) : weight (a ++ b) = weight a + weight b := by
  simp [weight]

/-- **Upper case makes no text heavier.** -/
theorem weight_upper (text : List Char) : weight (upper text) ≤ weight text := by
  induction text with
  | nil => exact Nat.le_refl _
  | cons c rest ih =>
    rw [upper, List.flatMap_cons, weight_append, weight_cons]
    exact Nat.add_le_add (weight_upperChar c) ih

theorem weight_lowerFrom (before text : List Char) : weight (lowerFrom before text) ≤ weight text := by
  induction text generalizing before with
  | nil => exact Nat.le_refl _
  | cons c rest ih =>
    simp only [lowerFrom, weight_append, weight_cons]
    refine Nat.add_le_add ?_ (ih _)
    split
    · next sigma => subst sigma; split <;> decide
    · exact weight_lowerChar c

/-- **Lower case makes no text heavier.** -/
theorem weight_lower (text : List Char) : weight (lower text) ≤ weight text := weight_lowerFrom [] text

theorem weight_sublist {a b : List Char} (h : a.Sublist b) : weight a ≤ weight b := by
  induction h with
  | slnil => exact Nat.le_refl _
  | cons c _ ih => exact Nat.le_trans ih (Nat.le_add_left _ _)
  | cons_cons c _ ih => exact Nat.add_le_add_left ih _

theorem trim_sublist (text : List Char) : (trim text).Sublist text := by
  refine .trans ?_ (List.dropWhile_sublist isBlank)
  rw [trim, trimRight, ← List.reverse_sublist, List.reverse_reverse]
  exact List.dropWhile_sublist isBlank

theorem length_le_weight (text : List Char) : text.length ≤ weight text := by
  induction text with
  | nil => exact Nat.le_refl _
  | cons c rest ih => have := (weightOf_bounds c.toNat).1; simp only [List.length_cons, weight_cons]; omega

theorem weight_le (text : List Char) : weight text ≤ 3 * text.length := by
  induction text with
  | nil => exact Nat.le_refl _
  | cons c rest ih => have := (weightOf_bounds c.toNat).2; simp only [List.length_cons, weight_cons]; omega

end Guion.Text
