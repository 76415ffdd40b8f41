import LatticeGreen.Proofs.Broadcasting
import LatticeGreen.Proofs.ComplementaryError
import LatticeGreen.ScaledErfc.Arrays
import Mathlib

/-!
# The overflow-safe product on the whole plane

The product of an exponential and a complementary error function is what it reads as, on both half
planes and entry by entry of arrays whose entries lie in different ones. For this the scaled
function need only be right on the right half plane: numbers that remember where it was asked for
show that it is asked for there and nowhere else.
-/
namespace LatticeGreen
open RealArray Extents

/-! ## Entry by entry -/

/-- What is selected, if the arrays to select from have the extents of the whole. -/
theorem RealArray.Combines.select? {R S T : Type} {shape : List Nat} {a : RealArray R}
    {b : RealArray S} {m : R → S → Bool} {f g : R → S → T} {mask : RealArray Bool}
    {yes no : RealArray T} (marks : Combines shape m a b mask) (first : Combines shape f a b yes)
    (second : Combines shape g a b no) (joined : join? yes.shape no.shape = some shape)
    (fits : join? mask.shape shape = some shape) :
    ∃ c, mask.select? yes no = some c ∧ c.shape = shape ∧
      Combines shape (fun x y => if m x y then f x y else g x y) a b c := by
  obtain ⟨pairs, paired, rfl, both⟩ := first.zipWith? second joined Prod.mk
  obtain ⟨c, selected, extents, entries⟩ :=
    marks.zipWith? both fits fun chosen pair => if chosen then pair.1 else pair.2
  refine ⟨c, ?_, extents, entries⟩
  rw [RealArray.select?, paired]
  exact selected

section
variable {R C : Type} [OfScientific R] [LE R] [DecidableLE R] [Neg C] [ComplexFunctions R C]

/-- The number or its opposite, whichever lies in the right half plane. -/
def reflected (w : C) : C := if (0.0 : R) ≤ re w then w else -w

/-- Each entry is asked for where it stands, or reflected. -/
theorem scaledArguments?_eq (b : RealArray C) : scaledArguments? b = some (b.map reflected) := by
  have fits : join? b.shape b.shape = some b.shape := join?_self b.shape
  have entries := combines_left fits
  obtain ⟨c, selected, extents, chosen⟩ := (entries.map fun w => decide ((0.0 : R) ≤ re w)).select?
    entries (entries.map (- ·)) fits fits
  simp only [decide_eq_true_eq] at chosen
  unfold scaledArguments? rightward
  rw [selected, chosen.unique (entries.map reflected) extents rfl]

variable [Add R] [Sub R] [Mul R] [Sub C] [Add C] [Mul C] [SpecialFunctions C]

theorem scaledErfc_eq_ite (a b : C) :
    scaledErfc a b = if (0.0 : R) ≤ re b then cexp (a + negatedSquare b) * erfcx (reflected b)
      else ofReal 2.0 * cexp a - cexp (a + negatedSquare b) * erfcx (reflected b) := by
  unfold scaledErfc reflected
  split
  · rfl
  · rfl

/-- The steps over whole arrays are one step over their entries. -/
theorem scaledErfcs?_eq_zipWith? (a b : RealArray C) :
    scaledErfcs? a b = a.zipWith? scaledErfc b := by
  cases joined : join? a.shape b.shape with
  | none =>
    rw [scaledErfcs?, zipWith?_of_misfit (b := b.map negatedSquare) joined,
      zipWith?_of_misfit joined]
    rfl
  | some shape =>
    obtain ⟨fits, fitted, swapped⟩ := join?_absorb joined
    have atA := combines_left joined
    have atB := combines_right joined
    -- Each stage has the common extents and holds one function of the entries of `a` and `b`; only
    -- the arguments of the scaled function keep the extents of `b`.
    obtain ⟨exponents, added, extents, sums⟩ :=
      atA.zipWith? (atB.map negatedSquare) joined (· + ·)
    have fitted' : join? exponents.shape b.shape = some shape := by rwa [extents]
    obtain ⟨right, scaled, extents', products⟩ :=
      (sums.map cexp).zipWith? ((atB.map reflected).map erfcx) fitted' (· * ·)
    have fits' : join? a.shape right.shape = some shape := by rwa [extents']
    obtain ⟨left, subtracted, extents'', differences⟩ :=
      (atA.map fun u => ofReal (2.0 : R) * cexp u).zipWith? products fits' (· - ·)
    have both : join? right.shape left.shape = some shape := by
      rw [extents', extents'']
      exact join?_self shape
    obtain ⟨c, selected, whole, entries⟩ :=
      (atB.map fun w => decide ((0.0 : R) ≤ re w)).select? products differences both swapped
    obtain ⟨d, combined, whole', direct⟩ := exists_zipWith? joined (scaledErfc : C → C → C)
    have steps : scaledErfcs? a b = some c := by
      simp only [scaledErfcs?, added, scaledArguments?_eq, rightward, Option.bind_eq_bind,
        Option.bind_some, scaled, subtracted, selected]
    have entry : (scaledErfc : C → C → C) = fun x y =>
        if decide ((0.0 : R) ≤ re y) then cexp (x + negatedSquare y) * erfcx (reflected y)
        else ofReal 2.0 * cexp x - cexp (x + negatedSquare y) * erfcx (reflected y) := by
      funext x y
      simp only [scaledErfc_eq_ite, decide_eq_true_eq]
    rw [entry] at direct
    rw [steps, combined, entries.unique direct whole whole']

end

/-! ## Where the scaled function is asked for -/

/-- A scalar that remembers at which points the scaled function was asked for on the way to it. -/
structure Asking (α : Type) where
  value : α
  asked : List ℂ

namespace Asking
variable {α β γ : Type}

/-- A scalar that nothing was asked for. -/
def plain (value : α) : Asking α := ⟨value, []⟩

def lift (f : α → β) (x : Asking α) : Asking β := ⟨f x.value, x.asked⟩

def lift₂ (f : α → β → γ) (x : Asking α) (y : Asking β) : Asking γ :=
  ⟨f x.value y.value, x.asked ++ y.asked⟩

instance [Add α] : Add (Asking α) := ⟨lift₂ (· + ·)⟩
instance [Sub α] : Sub (Asking α) := ⟨lift₂ (· - ·)⟩
instance [Mul α] : Mul (Asking α) := ⟨lift₂ (· * ·)⟩
instance [Neg α] : Neg (Asking α) := ⟨lift (- ·)⟩

instance [OfScientific α] : OfScientific (Asking α) :=
  ⟨fun mantissa negative exponent => plain (OfScientific.ofScientific mantissa negative exponent)⟩

instance [LE α] : LE (Asking α) := ⟨fun x y => x.value ≤ y.value⟩

instance [LE α] [DecidableLE α] : DecidableLE (Asking α) :=
  fun x y => inferInstanceAs (Decidable (x.value ≤ y.value))

noncomputable instance : ComplexFunctions (Asking ℝ) (Asking ℂ) where
  ofParts := lift₂ ofParts
  ofReal := lift ofReal
  re := lift re
  im := lift im
  modulus := lift modulus
  argument := lift argument
  cexp := lift cexp
  clog := lift clog
  csqrt := lift csqrt

/-- Whoever asks for the scaled function leaves the point behind. -/
instance [SpecialFunctions ℂ] : SpecialFunctions (Asking ℂ) where
  erfcx w := ⟨erfcx w.value, w.asked ++ [w.value]⟩
  erf := lift erf
  besselK w := (lift (fun z => (besselK z).1) w, lift (fun z => (besselK z).2.1) w,
    lift (fun z => (besselK z).2.2) w)

theorem reflected_plain (w : ℂ) : reflected (plain w) = plain (reflected w) := by
  by_cases right : (0.0 : ℝ) ≤ re w
  · exact (if_pos right).trans (congrArg plain (if_pos right).symm)
  · exact (if_neg right).trans (congrArg plain (if_neg right).symm)

/-- The scaled function is asked for once, at the point itself or at its reflection. -/
theorem scaledErfc_plain [SpecialFunctions ℂ] (a b : ℂ) :
    scaledErfc (plain a) (plain b) = ⟨scaledErfc a b, [reflected b]⟩ := by
  rw [scaledErfc_eq_ite, scaledErfc_eq_ite, reflected_plain]
  by_cases right : (0.0 : ℝ) ≤ re b
  · rw [if_pos right]
    exact if_pos right
  · rw [if_neg right]
    exact if_neg right

end Asking

theorem re_reflected_nonneg (w : ℂ) : 0 ≤ (reflected w).re := by
  have zero : (0.0 : ℝ) = 0 := by norm_num
  simp only [reflected, re_exact, zero]
  split
  · assumption
  · rw [Complex.neg_re]
    linarith

/-! ## The product -/

open Asking

/-- The product is `exp a * erfc b` on both half planes, for numbers and entry by entry for arrays
that fit together. The scaled function is asked for once for each of them, in the right half plane.
Over arrays it is asked for at the reflected entries of `b`, whether or not an entry comes of it. -/
theorem scaledErfc_eq_product [SpecialFunctions ℂ] {erfc : ℂ → ℂ}
    (scaled : ∀ w : ℂ, 0 ≤ w.re → erfcx w = Complex.exp (w ^ 2) * erfc w)
    (reflection : ∀ w, erfc (-w) = 2 - erfc w) :
    (∀ a b : ℂ, scaledErfc a b = Complex.exp a * erfc b ∧
      scaledErfc (plain a) (plain b) = ⟨Complex.exp a * erfc b, [reflected b]⟩) ∧
    (∀ (a b : RealArray ℂ) (shape : List ℕ), join? a.shape b.shape = some shape →
      (∃ c, scaledErfcs? a b = some c ∧ c.shape = shape ∧
        Combines shape (fun x y => Complex.exp x * erfc y) a b c) ∧
      ∃ c, scaledErfcs? (a.map plain) (b.map plain) = some c ∧ c.shape = shape ∧
        Combines shape (fun x y => ⟨Complex.exp x * erfc y, [reflected y]⟩) a b c) ∧
    (∀ b : RealArray ℂ, scaledArguments? b = some (b.map reflected)) ∧
    ∀ w : ℂ, 0 ≤ (reflected w).re := by
  have product : (scaledErfc : ℂ → ℂ → ℂ) = fun x y => Complex.exp x * erfc y := by
    funext x y
    exact scaledErfc_of_reflection scaled reflection x y
  have traced (a b : ℂ) :
      scaledErfc (plain a) (plain b) = ⟨Complex.exp a * erfc b, [reflected b]⟩ := by
    rw [scaledErfc_plain, product]
  refine ⟨fun a b => ⟨congrFun₂ product a b, traced a b⟩, fun a b shape joined => ⟨?_, ?_⟩,
    scaledArguments?_eq, re_reflected_nonneg⟩
  · rw [scaledErfcs?_eq_zipWith?, product]
    exact exists_zipWith? joined _
  · rw [scaledErfcs?_eq_zipWith?]
    obtain ⟨c, combined, extents, entries⟩ :=
      ((combines_left joined).map plain).zipWith? ((combines_right joined).map plain) joined
        scaledErfc
    simp only [traced] at entries
    exact ⟨c, combined, extents, entries⟩

/-- Two entries in different half planes. -/
theorem scaledErfc_eq_product_both_sides :
    (∀ w : ℂ, 0 ≤ w.re → erfcx w = Complex.exp (w ^ 2) * exactErfc w) ∧
    (∀ w, exactErfc (-w) = 2 - exactErfc w) ∧
    ∃ c,
      scaledErfcs? (ofList [1, 2 * Complex.I]) (ofList [1 + Complex.I, -1 + Complex.I]) = some c ∧
      c.entry? [0] = some (Complex.exp 1 * exactErfc (1 + Complex.I)) ∧
      c.entry? [1] = some (Complex.exp (2 * Complex.I) * exactErfc (-1 + Complex.I)) := by
  have scaled : ∀ w : ℂ, 0 ≤ w.re → erfcx w = Complex.exp (w ^ 2) * exactErfc w := fun w _ =>
    scales_exactErfc w
  have reflection : ∀ w, exactErfc (-w) = 2 - exactErfc w := isErfc_exactErfc.neg
  refine ⟨scaled, reflection, ?_⟩
  obtain ⟨-, arrays, -⟩ := scaledErfc_eq_product scaled reflection
  obtain ⟨⟨c, formed, -, entries⟩, -⟩ :=
    arrays (ofList [1, 2 * Complex.I]) (ofList [1 + Complex.I, -1 + Complex.I]) [2] rfl
  refine ⟨c, formed, ?_, ?_⟩
  · obtain ⟨x, y, own, other, entry⟩ := entries [0] (by decide)
    obtain rfl : 1 = x := Option.some.inj own
    obtain rfl : 1 + Complex.I = y := Option.some.inj other
    exact entry
  · obtain ⟨x, y, own, other, entry⟩ := entries [1] (by decide)
    obtain rfl : 2 * Complex.I = x := Option.some.inj own
    obtain rfl : -1 + Complex.I = y := Option.some.inj other
    exact entry

end LatticeGreen
