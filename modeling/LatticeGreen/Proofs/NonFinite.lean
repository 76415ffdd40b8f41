import LatticeGreen.Convergence
import LatticeGreen.Double.Elementary
import Mathlib

/-!
# Machine numbers that are not finite

What arithmetic and comparison make of infinite and undefined numbers. An undefined number passes
through every operation and is neither smaller nor larger than any other; an infinite one stays
infinite or becomes undefined, and nothing exceeds it.
-/
namespace LatticeGreen.Double
open Float.Model (Format UnpackedFloat)

/-- The number a machine number stands for. -/
def unpacked (x : Float) : UnpackedFloat := x.toModel.unpack

/-- What remains of a number once it is stored. -/
def stored (u : UnpackedFloat) : UnpackedFloat := (Float.Model.pack u).unpack

/-- Positive infinity. -/
def Unbounded (x : Float) : Prop := unpacked x = .infinity .positive

/-- Undefined or positive infinity, as the magnitude of what is not finite. -/
def BlownUp (x : Float) : Prop := x.isNaN = true ∨ Unbounded x

@[simp] theorem stored_notANumber : stored .notANumber = .notANumber := rfl

@[simp] theorem stored_infinity (sign : UnpackedFloat.Sign) :
    stored (.infinity sign) = .infinity sign := by
  cases sign <;> rfl

theorem unpacked_zero : unpacked 0.0 = .zero .positive := rfl

theorem isNaN_iff (x : Float) : x.isNaN = true ↔ unpacked x = .notANumber :=
  UnpackedFloat.isNaN_iff

theorem isFinite_eq_false_iff (x : Float) :
    x.isFinite = false ↔ unpacked x = .notANumber ∨ ∃ sign, unpacked x = .infinity sign := by
  change (unpacked x).isFinite = false ↔ _
  cases unpacked x <;> simp [UnpackedFloat.isFinite]

theorem isFinite_of_isNaN {x : Float} (undefined : x.isNaN = true) : x.isFinite = false :=
  (isFinite_eq_false_iff x).mpr (.inl ((isNaN_iff x).mp undefined))

theorem not_isNaN_of_unbounded {x : Float} (unbounded : Unbounded x) : ¬ x.isNaN = true := by
  rw [isNaN_iff, unbounded]
  simp

theorem isNaN_nan : nan.isNaN = true := rfl

theorem unbounded_infinity : Unbounded infinity := rfl

/-! ## Comparison -/

theorem lt_iff (x y : Float) : x < y ↔ (unpacked x).compare (unpacked y) = some .lt := by
  change decide (((unpacked x).compare (unpacked y) == some .lt) = true) = true ↔ _
  rw [decide_eq_true_iff, beq_iff_eq]

/-- An undefined or infinite magnitude is less than no number. -/
theorem not_lt_of_blownUp {x : Float} (blown : BlownUp x) (y : Float) : ¬ x < y := by
  rw [lt_iff]
  rcases blown with undefined | unbounded
  · rw [(isNaN_iff x).mp undefined]
    simp [UnpackedFloat.compare]
  · rw [show unpacked x = .infinity .positive from unbounded]
    cases unpacked y with
    | infinity sign => cases sign <;> simp [UnpackedFloat.compare, compare]
    | _ => simp [UnpackedFloat.compare]

theorem lt_of_unbounded {x y : Float} (lowest : unpacked x = .infinity .negative)
    (unbounded : Unbounded y) : x < y := by
  rw [lt_iff, lowest, unbounded]
  rfl

theorem unbounded_of_not_lt {x y : Float} (unbounded : Unbounded y) (defined : ¬ x.isNaN = true)
    (reached : ¬ x < y) : Unbounded x := by
  rw [lt_iff, unbounded] at reached
  rw [isNaN_iff] at defined
  unfold Unbounded
  cases kind : unpacked x with
  | notANumber => exact absurd kind defined
  | infinity sign =>
    cases sign with
    | negative => simp [kind, UnpackedFloat.compare, compare] at reached
    | positive => rfl
  | _ => simp [kind, UnpackedFloat.compare] at reached

/-! ## Arithmetic -/

theorem unpacked_add (x y : Float) :
    unpacked (x + y) = stored (.add Format.binary64 (unpacked x) (unpacked y)) := rfl

theorem unpacked_sub (x y : Float) :
    unpacked (x - y) = stored (.sub Format.binary64 (unpacked x) (unpacked y)) := rfl

theorem unpacked_mul (x y : Float) :
    unpacked (x * y) = stored (.mul Format.binary64 (unpacked x) (unpacked y)) := rfl

theorem unpacked_div (x y : Float) :
    unpacked (x / y) = stored (.div Format.binary64 (unpacked x) (unpacked y)) := rfl

/-- Taking away zero changes nothing, not even the sign of a zero. -/
theorem sub_zero (x : Float) : x - 0.0 = x := by
  have difference : UnpackedFloat.sub Format.binary64 (unpacked x) (unpacked 0.0) = unpacked x := by
    rw [unpacked_zero]
    cases unpacked x with
    | zero sign => cases sign <;> rfl
    | _ => rfl
  have repacked : Float.Model.pack (unpacked x) = x.toModel := by
    obtain ⟨⟨bits, valid⟩⟩ := x
    simp only [Float.Model.pack, unpacked, Float.Model.unpack,
      UnpackedFloat.pack_unpack_of_valid valid]
  calc x - 0.0
      = .ofModel (Float.Model.pack
          (UnpackedFloat.sub Format.binary64 (unpacked x) (unpacked 0.0))) := rfl
    _ = x := by rw [difference, repacked]

theorem isNaN_add_right (x : Float) {y : Float} (undefined : y.isNaN = true) :
    (x + y).isNaN = true := by
  rw [isNaN_iff] at undefined ⊢
  rw [unpacked_add, undefined]
  cases unpacked x <;> simp [UnpackedFloat.add]

/-- Nothing taken from a number that is not finite makes it finite. -/
theorem isFinite_sub_left {x : Float} (infinite : x.isFinite = false) (y : Float) :
    (x - y).isFinite = false := by
  rw [isFinite_eq_false_iff] at infinite ⊢
  rw [unpacked_sub]
  rcases infinite with undefined | ⟨sign, unbounded⟩
  · rw [undefined]
    simp [UnpackedFloat.sub]
  · rw [unbounded]
    cases unpacked y with
    | infinity sign' =>
      simp only [UnpackedFloat.sub]
      split <;> simp
    | _ => simp [UnpackedFloat.sub]

theorem isNaN_mul_right (x : Float) {y : Float} (undefined : y.isNaN = true) :
    (x * y).isNaN = true := by
  rw [isNaN_iff] at undefined ⊢
  rw [unpacked_mul, undefined]
  cases unpacked x <;> simp [UnpackedFloat.mul]

/-- A fraction of an infinite magnitude is infinite or undefined, unless it is negative. -/
theorem blownUp_mul_unbounded {x y : Float} (unbounded : Unbounded y) (fraction : ¬ x < 0.0) :
    BlownUp (x * y) := by
  rw [lt_iff, unpacked_zero] at fraction
  rw [BlownUp, Unbounded, isNaN_iff, unpacked_mul, unbounded]
  cases kind : unpacked x with
  | notANumber => simp [UnpackedFloat.mul]
  | zero sign => simp [UnpackedFloat.mul]
  | infinity sign =>
    cases sign with
    | negative => simp [kind, UnpackedFloat.compare] at fraction
    | positive => exact .inr rfl
  | finite sign mantissa exponent positive =>
    cases sign with
    | negative => simp [kind, UnpackedFloat.compare] at fraction
    | positive =>
      refine .inr ?_
      rw [UnpackedFloat.mul, stored_infinity]
      rfl

theorem mul_unbounded_of_neg {x y : Float} (unbounded : Unbounded y) (negative : x < 0.0) :
    unpacked (x * y) = .infinity .negative := by
  rw [lt_iff, unpacked_zero] at negative
  rw [unpacked_mul, unbounded]
  cases kind : unpacked x with
  | notANumber => simp [kind, UnpackedFloat.compare] at negative
  | zero sign => simp [kind, UnpackedFloat.compare] at negative
  | infinity sign =>
    cases sign with
    | negative => rfl
    | positive => simp [kind, UnpackedFloat.compare] at negative
  | finite sign mantissa exponent positive =>
    cases sign with
    | negative =>
      rw [UnpackedFloat.mul, stored_infinity]
      rfl
    | positive => simp [kind, UnpackedFloat.compare] at negative

/-- The relative change of an infinite sum is undefined. -/
theorem isNaN_div_unbounded {x y : Float} (blown : BlownUp x) (unbounded : Unbounded y) :
    (x / y).isNaN = true := by
  rw [isNaN_iff, unpacked_div, unbounded]
  rcases blown with undefined | infinite
  · rw [(isNaN_iff x).mp undefined]
    rfl
  · rw [infinite]
    rfl

/-! ## Magnitudes -/

theorem unpacked_abs (x : Float) : unpacked x.abs = stored (unpacked x).abs := rfl

theorem isNaN_abs {x : Float} (undefined : x.isNaN = true) : x.abs.isNaN = true := by
  rw [isNaN_iff] at undefined ⊢
  rw [unpacked_abs, undefined]
  rfl

theorem blownUp_abs {x : Float} (infinite : x.isFinite = false) : BlownUp x.abs := by
  rw [isFinite_eq_false_iff] at infinite
  rcases infinite with undefined | ⟨sign, unbounded⟩
  · exact .inl (isNaN_abs ((isNaN_iff x).mpr undefined))
  · refine .inr ?_
    rw [Unbounded, unpacked_abs, unbounded]
    simp [UnpackedFloat.abs]

theorem unbounded_iff (x : Float) : Unbounded x ↔ (x == infinity) = true := by
  change _ ↔ ((unpacked x).compare (.infinity .positive) == some .eq) = true
  unfold Unbounded
  cases unpacked x with
  | infinity sign => cases sign <;> simp [UnpackedFloat.compare, compare]
  | _ => simp [UnpackedFloat.compare]

theorem hypot_of_unbounded {a b : Float} (whole : Unbounded a.abs ∨ Unbounded b.abs) :
    hypot a b = infinity := by
  unfold hypot
  rw [if_pos]
  simpa only [Bool.or_eq_true, ← unbounded_iff] using whole

theorem hypot_of_isNaN {a b : Float} (bounded : ¬ (Unbounded a.abs ∨ Unbounded b.abs))
    (undefined : a.abs.isNaN = true ∨ b.abs.isNaN = true) : hypot a b = nan := by
  unfold hypot
  rw [if_neg, if_pos]
  · rwa [Bool.or_eq_true]
  · simpa only [Bool.or_eq_true, ← unbounded_iff] using bounded

/-- The length of a pair is infinite or undefined as soon as one part is not finite. -/
theorem blownUp_hypot {a b : Float} (either : a.isFinite = false ∨ b.isFinite = false) :
    BlownUp (hypot a b) := by
  by_cases whole : Unbounded a.abs ∨ Unbounded b.abs
  · rw [hypot_of_unbounded whole]
    exact .inr unbounded_infinity
  · have undefined : a.abs.isNaN = true ∨ b.abs.isNaN = true := by
      rcases either with infinite | infinite
      · exact .inl ((blownUp_abs infinite).resolve_right fun unbounded => whole (.inl unbounded))
      · exact .inr ((blownUp_abs infinite).resolve_right fun unbounded => whole (.inr unbounded))
    rw [hypot_of_isNaN whole undefined]
    exact .inl isNaN_nan

theorem isNaN_hypot {a b : Float} (left : a.isNaN = true) (right : b.isNaN = true) :
    (hypot a b).isNaN = true := by
  have bounded : ¬ (Unbounded a.abs ∨ Unbounded b.abs) := by
    rintro (unbounded | unbounded)
    · exact not_isNaN_of_unbounded unbounded (isNaN_abs left)
    · exact not_isNaN_of_unbounded unbounded (isNaN_abs right)
  rw [hypot_of_isNaN bounded (.inl (isNaN_abs left))]
  exact isNaN_nan

/-! ## The largest magnitude -/

theorem isNaN_maximum (x y : Float) :
    (maximum x y).isNaN = true ↔ x.isNaN = true ∨ y.isNaN = true := by
  change (if x.isNaN then x else if y.isNaN then y else if x < y then y else x).isNaN = true ↔ _
  by_cases left : x.isNaN = true
  · rw [if_pos left]
    exact iff_of_true left (.inl left)
  · rw [if_neg left]
    by_cases right : y.isNaN = true
    · rw [if_pos right]
      exact iff_of_true right (.inr right)
    · rw [if_neg right]
      have defined : ¬ (if x < y then y else x).isNaN = true := by
        split
        · exact right
        · exact left
      exact iff_of_false defined (not_or.mpr ⟨left, right⟩)

theorem isNaN_largest (x : Float) (xs : List Float) :
    (largest x xs).isNaN = true ↔ ∃ y ∈ x :: xs, y.isNaN = true := by
  induction xs generalizing x with
  | nil => simp [largest]
  | cons y ys ih =>
    have step : largest x (y :: ys) = largest (maximum x y) ys := rfl
    rw [step, ih]
    simp only [List.mem_cons, exists_eq_or_imp, isNaN_maximum, or_assoc]

/-- An infinite magnitude is the largest among defined ones. -/
theorem unbounded_maximum {x y : Float} (defined : (maximum x y).isNaN = false)
    (either : Unbounded x ∨ Unbounded y) : Unbounded (maximum x y) := by
  rw [Bool.eq_false_iff, Ne, isNaN_maximum, not_or] at defined
  have larger : maximum x y = if x < y then y else x := by
    change (if x.isNaN then x else if y.isNaN then y else if x < y then y else x) = _
    rw [if_neg defined.1, if_neg defined.2]
  rw [larger]
  split
  · rename_i less
    exact either.resolve_left fun unbounded => not_lt_of_blownUp (.inr unbounded) y less
  · rename_i reached
    rcases either with unbounded | unbounded
    · exact unbounded
    · exact unbounded_of_not_lt unbounded defined.1 reached

theorem unbounded_largest {x : Float} {xs : List Float} (defined : (largest x xs).isNaN = false)
    (some_unbounded : ∃ y ∈ x :: xs, Unbounded y) : Unbounded (largest x xs) := by
  induction xs generalizing x with
  | nil => simpa [largest] using some_unbounded
  | cons y ys ih =>
    have step : largest x (y :: ys) = largest (maximum x y) ys := rfl
    rw [step] at defined ⊢
    have defined_pair : (maximum x y).isNaN = false := by
      rw [Bool.eq_false_iff, Ne] at defined ⊢
      exact fun undefined => defined ((isNaN_largest _ _).mpr ⟨_, List.mem_cons_self, undefined⟩)
    refine ih defined ?_
    obtain ⟨z, member, unbounded⟩ := some_unbounded
    rw [List.mem_cons, List.mem_cons] at member
    rcases member with rfl | rfl | later
    · exact ⟨_, List.mem_cons_self, unbounded_maximum defined_pair (.inl unbounded)⟩
    · exact ⟨_, List.mem_cons_self, unbounded_maximum defined_pair (.inr unbounded)⟩
    · exact ⟨z, List.mem_cons_of_mem _ later, unbounded⟩

theorem blownUp_largest {x : Float} {xs : List Float} (some_blown : ∃ y ∈ x :: xs, BlownUp y) :
    BlownUp (largest x xs) := by
  obtain ⟨y, member, blown⟩ := some_blown
  cases undefined : (largest x xs).isNaN with
  | true => exact .inl undefined
  | false =>
    refine .inr (unbounded_largest undefined ⟨y, member, blown.resolve_left fun isNaN => ?_⟩)
    rw [(isNaN_largest x xs).mpr ⟨y, member, isNaN⟩] at undefined
    cases undefined

end LatticeGreen.Double
