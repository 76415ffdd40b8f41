import LatticeGreen.Broadcast
import Mathlib

/-!
# Entries of arrays that fit together

Two arrays that fit together are combined at every position of their common extents, with the
entries that each of them repeats there. So an array is told by its extents and its entries at all
positions, and several steps over arrays that fit are one step over their entries.
-/
namespace LatticeGreen

/-! ## Common extents -/

namespace Extents

theorem common?_absorb {n m k : Nat} (common : common? n m = some k) :
    common? n k = some k ∧ common? k m = some k ∧ common? m k = some k := by
  simp only [common?, Bool.or_eq_true, decide_eq_true_eq] at common ⊢
  grind

theorem commonReversed?_cons_eq_some {n m : Nat} {ns ms ks : List Nat} :
    commonReversed? (n :: ns) (m :: ms) = some ks ↔
      ∃ k rest, common? n m = some k ∧ commonReversed? ns ms = some rest ∧ ks = k :: rest := by
  simp only [commonReversed?, Option.bind_eq_bind, Option.bind_eq_some_iff, Option.pure_def,
    Option.some.injEq]
  grind

theorem commonReversed?_nil (ns : List Nat) : commonReversed? ns [] = some ns := by
  cases ns with
  | nil => rfl
  | cons n ns => rfl

theorem commonReversed?_self (ns : List Nat) : commonReversed? ns ns = some ns := by
  induction ns with
  | nil => rfl
  | cons n ns ih =>
    exact commonReversed?_cons_eq_some.mpr ⟨n, ns, common?_self n, ih, rfl⟩

/-- The common extents fit together with those of each part. -/
theorem commonReversed?_absorb {ns ms ks : List Nat} (common : commonReversed? ns ms = some ks) :
    commonReversed? ns ks = some ks ∧ commonReversed? ks ms = some ks ∧
      commonReversed? ms ks = some ks := by
  induction ns generalizing ms ks with
  | nil =>
    obtain rfl : ms = ks := Option.some.inj common
    exact ⟨rfl, commonReversed?_self ms, commonReversed?_self ms⟩
  | cons n ns ih =>
    cases ms with
    | nil =>
      obtain rfl : n :: ns = ks := Option.some.inj common
      exact ⟨commonReversed?_self _, rfl, rfl⟩
    | cons m ms =>
      obtain ⟨k, rest, first, others, rfl⟩ := commonReversed?_cons_eq_some.mp common
      obtain ⟨left, right, swapped⟩ := common?_absorb first
      obtain ⟨lefts, rights, swaps⟩ := ih others
      exact ⟨commonReversed?_cons_eq_some.mpr ⟨k, rest, left, lefts, rfl⟩,
        commonReversed?_cons_eq_some.mpr ⟨k, rest, right, rights, rfl⟩,
        commonReversed?_cons_eq_some.mpr ⟨k, rest, swapped, swaps, rfl⟩⟩

theorem join?_absorb {ns ms ks : List Nat} (joined : join? ns ms = some ks) :
    join? ns ks = some ks ∧ join? ks ms = some ks ∧ join? ms ks = some ks := by
  obtain ⟨reversed, common, rfl⟩ := Option.map_eq_some_iff.mp joined
  obtain ⟨left, right, swapped⟩ := commonReversed?_absorb common
  simp [join?, left, right, swapped]

end Extents

namespace RealArray
open Extents

/-! ## Positions -/

theorem flatMap_range_add (size n : Nat) :
    ((List.range n).flatMap fun i => (List.range size).map (· + size * i)) =
      List.range (size * n) := by
  induction n with
  | zero => rfl
  | succ n ih =>
    rw [List.range_succ, List.flatMap_append, ih, List.flatMap_singleton, Nat.mul_succ,
      List.range_add]
    congr 1
    exact List.map_congr_left fun i _ => Nat.add_comm i _

theorem forall₂_of_mem_positions {shape position : List Nat} (inside : position ∈ positions shape) :
    List.Forall₂ (· < ·) position shape := by
  induction shape generalizing position with
  | nil =>
    obtain rfl : position = [] := List.mem_singleton.mp inside
    exact List.Forall₂.nil
  | cons n shape ih =>
    obtain ⟨i, early, member⟩ := List.mem_flatMap.mp inside
    obtain ⟨rest, within, rfl⟩ := List.mem_map.mp member
    exact List.Forall₂.cons (List.mem_range.mp early) (ih within)

/-- The first axis runs slowest. -/
theorem offset_append {extents position : List Nat} (fits : extents.length = position.length)
    (n i : Nat) : offset (extents ++ [n]) (position ++ [i]) =
      offset extents position + extents.foldr (· * ·) 1 * if n = 1 then 0 else i := by
  induction extents generalizing position with
  | nil =>
    obtain rfl : position = [] := List.eq_nil_of_length_eq_zero fits.symm
    simp [offset]
  | cons m extents ih =>
    obtain ⟨j, position, rfl⟩ := List.exists_cons_of_length_eq_add_one fits.symm
    simp only [List.cons_append, offset, ih (Nat.succ.inj fits), List.foldr_cons]
    ring

theorem foldr_mul_reverse (shape : List Nat) :
    shape.reverse.foldr (· * ·) 1 = shape.foldr (· * ·) 1 :=
  (List.reverse_perm shape).prod_eq

/-- The positions are listed in the order of the entries. -/
theorem map_offset_positions (shape : List Nat) :
    (positions shape).map (fun position => offset shape.reverse position.reverse) =
      List.range (shape.foldr (· * ·) 1) := by
  induction shape with
  | nil => rfl
  | cons n shape ih =>
    have place : ∀ i < n, ∀ position ∈ positions shape,
        offset (n :: shape).reverse (i :: position).reverse =
          offset shape.reverse position.reverse + shape.foldr (· * ·) 1 * i := by
      intro i early position inside
      have length := (forall₂_of_mem_positions inside).length_eq
      rw [List.reverse_cons, List.reverse_cons, offset_append (by simp [length]),
        foldr_mul_reverse]
      split
      · have first : i = 0 := by omega
        rw [first]
      · rfl
    have blocks : ∀ i ∈ List.range n,
        ((positions shape).map (i :: ·)).map
            (fun position => offset (n :: shape).reverse position.reverse) =
          (List.range (shape.foldr (· * ·) 1)).map (· + shape.foldr (· * ·) 1 * i) := by
      intro i early
      rw [← ih, List.map_map, List.map_map]
      exact List.map_congr_left fun position inside =>
        place i (List.mem_range.mp early) position inside
    rw [positions, List.map_flatMap, List.flatMap_congr blocks, flatMap_range_add, List.foldr_cons,
      Nat.mul_comm]

theorem length_positions (shape : List Nat) :
    (positions shape).length = shape.foldr (· * ·) 1 := by
  have lengths := congrArg List.length (map_offset_positions shape)
  rwa [List.length_map, List.length_range] at lengths

/-- The place of an entry is the place of its position. -/
theorem offset_of_getElem? {shape position : List Nat} {place : Nat}
    (listed : (positions shape)[place]? = some position) :
    offset shape.reverse position.reverse = place := by
  have places := congrArg (·[place]?) (map_offset_positions shape)
  have early : place < shape.foldr (· * ·) 1 := by
    rw [← length_positions]
    exact (List.getElem?_eq_some_iff.mp listed).1
  simp only [List.getElem?_map, listed, Option.map_some, List.getElem?_range early,
    Option.some.injEq] at places
  exact places

theorem getElem?_positions {shape position : List Nat} (inside : position ∈ positions shape) :
    (positions shape)[offset shape.reverse position.reverse]? = some position := by
  obtain ⟨place, listed⟩ := List.mem_iff_getElem?.mp inside
  rw [offset_of_getElem? listed, listed]

/-! ## Entries -/

variable {R S T : Type}

/-- An array that fits larger extents has an entry at each of their positions. -/
theorem offset_lt {extents target position : List Nat}
    (fits : commonReversed? extents target = some target)
    (inside : List.Forall₂ (· < ·) position target) :
    offset extents position < extents.foldr (· * ·) 1 := by
  induction extents generalizing target position with
  | nil => simp [offset]
  | cons n extents ih =>
    cases inside with
    | nil =>
      rw [commonReversed?_nil] at fits
      cases fits
    | @cons i k position target early inside =>
      obtain ⟨k', rest, common, others, equal⟩ := commonReversed?_cons_eq_some.mp fits
      obtain ⟨rfl, rfl⟩ := List.cons.inj equal
      have later := ih others inside
      have first : (if n = 1 then 0 else i) < n := by
        simp only [common?, Bool.or_eq_true, decide_eq_true_eq] at common
        grind
      simp only [offset, List.foldr_cons]
      nlinarith

theorem exists_entry {a : RealArray R} {shape position : List Nat}
    (fits : join? a.shape shape = some shape) (inside : position ∈ positions shape) :
    ∃ x, a.entry? position = some x := by
  obtain ⟨reversed, common, equal⟩ := Option.map_eq_some_iff.mp fits
  rw [List.reverse_eq_iff] at equal
  rw [equal] at common
  have within := List.rel_reverse (forall₂_of_mem_positions inside)
  have bound := offset_lt common within
  rw [foldr_mul_reverse, ← a.size_eq] at bound
  exact ⟨_, List.getElem?_eq_getElem bound⟩

/-- Arrays of the same extents with the same entries at all positions are the same. -/
theorem ext_entries {a b : RealArray R} (extents : a.shape = b.shape)
    (same : ∀ position ∈ positions a.shape, a.entry? position = b.entry? position) : a = b := by
  have entries : a.entries = b.entries := by
    refine List.ext_getElem? fun place => ?_
    cases listed : (positions a.shape)[place]? with
    | none =>
      have beyond : a.shape.foldr (· * ·) 1 ≤ place := by
        rw [← length_positions]
        exact List.getElem?_eq_none_iff.mp listed
      rw [List.getElem?_eq_none, List.getElem?_eq_none]
      · rw [b.size_eq, ← extents]
        exact beyond
      · rw [a.size_eq]
        exact beyond
    | some position =>
      have here := same position (List.mem_of_getElem? listed)
      unfold entry? at here
      rwa [← extents, offset_of_getElem? listed] at here
  cases a
  cases b
  cases extents
  cases entries
  rfl

theorem entry?_map (f : R → S) (a : RealArray R) (position : List Nat) :
    entry? (a.map f) position = f <$> entry? a position := List.getElem?_map

/-- A list of computations that all succeed gives a list of their results. -/
theorem exists_mapM {f : R → Option S} {xs : List R} (succeed : ∀ x ∈ xs, ∃ y, f x = some y) :
    ∃ ys, xs.mapM f = some ys ∧ ys.length = xs.length ∧
      ∀ (place : Nat) (x : R), xs[place]? = some x → ys[place]? = f x := by
  induction xs with
  | nil => exact ⟨[], rfl, rfl, fun place x listed => by simp at listed⟩
  | cons x xs ih =>
    obtain ⟨y, first⟩ := succeed x List.mem_cons_self
    obtain ⟨ys, others, length, each⟩ :=
      ih fun x' later => succeed x' (List.mem_cons_of_mem x later)
    refine ⟨y :: ys, ?_, congrArg (· + 1) length, ?_⟩
    · rw [List.mapM_cons, first, others]
      rfl
    · intro place x' listed
      cases place with
      | zero =>
        obtain rfl : x = x' := Option.some.inj listed
        exact first.symm
      | succ place => exact each place x' listed

/-! ## Combined arrays -/

/-- At the positions of some extents an array has what a function makes of the entries there of two
others. -/
def Combines (shape : List Nat) (f : R → S → T) (a : RealArray R) (b : RealArray S)
    (c : RealArray T) : Prop :=
  ∀ position ∈ positions shape, ∃ x y, a.entry? position = some x ∧ b.entry? position = some y ∧
    c.entry? position = some (f x y)

variable {a : RealArray R} {b : RealArray S} {shape : List Nat}

/-- Arrays that fit together are combined at the positions of their common extents. -/
theorem exists_zipWith? (joined : join? a.shape b.shape = some shape) (f : R → S → T) :
    ∃ c, a.zipWith? f b = some c ∧ c.shape = shape ∧ Combines shape f a b c := by
  obtain ⟨left, -, right⟩ := join?_absorb joined
  have succeed : ∀ position ∈ positions shape, ∃ z,
      (do return f (← a.entry? position) (← b.entry? position) : Option T) = some z := by
    intro position inside
    obtain ⟨x, own⟩ := exists_entry left inside
    obtain ⟨y, other⟩ := exists_entry right inside
    exact ⟨f x y, by rw [own, other]; rfl⟩
  obtain ⟨zs, combined, length, each⟩ := exists_mapM succeed
  have size : zs.length = shape.foldr (· * ·) 1 := length.trans (length_positions shape)
  refine ⟨⟨shape, zs, size⟩, ?_, rfl, fun position inside => ?_⟩
  · rw [zipWith?, joined]
    change (positions shape).mapM _ >>= ofEntries? shape = _
    rw [combined]
    exact dif_pos size
  · obtain ⟨x, own⟩ := exists_entry left inside
    obtain ⟨y, other⟩ := exists_entry right inside
    refine ⟨x, y, own, other, ?_⟩
    have there := each _ position (getElem?_positions inside)
    rw [own, other] at there
    exact there

theorem zipWith?_of_misfit (misfit : join? a.shape b.shape = none) (f : R → S → T) :
    a.zipWith? f b = none := by
  rw [zipWith?, misfit]
  rfl

theorem combines_left (joined : join? a.shape b.shape = some shape) :
    Combines shape (fun x _ => x) a b a := by
  intro position inside
  obtain ⟨left, -, right⟩ := join?_absorb joined
  obtain ⟨x, own⟩ := exists_entry left inside
  obtain ⟨y, other⟩ := exists_entry right inside
  exact ⟨x, y, own, other, own⟩

theorem combines_right (joined : join? a.shape b.shape = some shape) :
    Combines shape (fun _ y => y) a b b := by
  intro position inside
  obtain ⟨left, -, right⟩ := join?_absorb joined
  obtain ⟨x, own⟩ := exists_entry left inside
  obtain ⟨y, other⟩ := exists_entry right inside
  exact ⟨x, y, own, other, other⟩

namespace Combines
variable {U V : Type} {f : R → S → T} {g : R → S → U} {c : RealArray T} {d : RealArray U}

theorem map (combined : Combines shape f a b c) (h : T → U) :
    Combines shape (fun x y => h (f x y)) a b (c.map h) := by
  intro position inside
  obtain ⟨x, y, own, other, entry⟩ := combined position inside
  exact ⟨x, y, own, other, by rw [entry?_map, entry]; rfl⟩

/-- Combining what was combined before is one combination. -/
theorem zipWith? (first : Combines shape f a b c) (second : Combines shape g a b d)
    (joined : join? c.shape d.shape = some shape) (h : T → U → V) :
    ∃ e, c.zipWith? h d = some e ∧ e.shape = shape ∧
      Combines shape (fun x y => h (f x y) (g x y)) a b e := by
  obtain ⟨e, zipped, extents, entries⟩ := exists_zipWith? joined h
  refine ⟨e, zipped, extents, fun position inside => ?_⟩
  obtain ⟨x, y, own, other, left⟩ := first position inside
  obtain ⟨x', y', own', other', right⟩ := second position inside
  obtain ⟨u, v, left', right', entry⟩ := entries position inside
  obtain rfl : x = x' := Option.some.inj (own.symm.trans own')
  obtain rfl : y = y' := Option.some.inj (other.symm.trans other')
  obtain rfl : f x y = u := Option.some.inj (left.symm.trans left')
  obtain rfl : g x y = v := Option.some.inj (right.symm.trans right')
  exact ⟨x, y, own, other, entry⟩

/-- What two arrays are combined to is told by the function. -/
theorem unique {c' : RealArray T} (first : Combines shape f a b c)
    (second : Combines shape f a b c') (extents : c.shape = shape) (extents' : c'.shape = shape) :
    c = c' := by
  refine ext_entries (extents.trans extents'.symm) fun position inside => ?_
  rw [extents] at inside
  obtain ⟨x, y, own, other, entry⟩ := first position inside
  obtain ⟨x', y', own', other', entry'⟩ := second position inside
  obtain rfl : x = x' := Option.some.inj (own.symm.trans own')
  obtain rfl : y = y' := Option.some.inj (other.symm.trans other')
  rw [entry, entry']

end Combines

end RealArray

end LatticeGreen
