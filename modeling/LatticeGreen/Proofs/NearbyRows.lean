import LatticeGreen.Nearby

/-!
# Rows of a list of cells

A nearby sum works on all cells of a list at once: distances, masks, kernels and warnings are lists,
and one source that is near makes the series be formed for all of them. Row by row this is what each
cell gives on its own, so that the cells of a list do not know of each other.
-/
namespace LatticeGreen

/-! ## Masks -/

theorem zipWith_map_map_self {α β γ δ : Type} (h : β → γ → δ) (f : α → β) (g : α → γ)
    (xs : List α) : List.zipWith h (xs.map f) (xs.map g) = xs.map fun x => h (f x) (g x) := by
  rw [List.zipWith_map, List.zipWith_self]

theorem zip_map_map_self {α β γ : Type} (f : α → β) (g : α → γ) (xs : List α) :
    (xs.map f).zip (xs.map g) = xs.map fun x => (f x, g x) := zipWith_map_map_self Prod.mk f g xs

theorem zipWith_map_self {α γ δ : Type} (h : α → γ → δ) (g : α → γ) (xs : List α) :
    List.zipWith h xs (xs.map g) = xs.map fun x => h x (g x) := by
  rw [List.zipWith_map_right, List.zipWith_self]

/-- A mask that holds nowhere leaves the second list. -/
theorem map_ite_of_any_eq_false {α β : Type} {mask : α → Bool} (yes no : α → β) {xs : List α}
    (nowhere : xs.any mask = false) :
    (xs.map fun x => if mask x then yes x else no x) = xs.map no := by
  rw [List.any_eq_false] at nowhere
  exact List.map_congr_left fun x member => if_neg (nowhere x member)

/-! ## Notes in a row -/

namespace Logged
variable {R α β : Type}

theorem value_mapM (f : α → Logged R β) (xs : List α) :
    (xs.mapM f).value = xs.map fun x => (f x).value := by
  induction xs with
  | nil => rfl
  | cons x xs ih =>
    rw [List.mapM_cons, List.map_cons, ← ih]
    rfl

/-- What the members of a list note stands in their order. -/
theorem events_mapM (f : α → Logged R β) (xs : List α) :
    (xs.mapM f).events = xs.flatMap fun x => (f x).events := by
  induction xs with
  | nil => rfl
  | cons x xs ih =>
    have later : (xs.mapM f >>= fun rest => pure ((f x).value :: rest)).events =
        (xs.mapM f).events := List.append_nil _
    rw [List.mapM_cons, events_bind, later, ih, List.flatMap_cons]

theorem events_forM_note (f : α → Event R) (xs : List α) :
    (xs.forM fun x => note (f x)).events = xs.map f := by
  induction xs with
  | nil => rfl
  | cons x xs ih =>
    change [f x] ++ (xs.forM fun x => note (f x)).events = _
    rw [ih]
    rfl

end Logged

theorem map_filter_eq_flatMap {α β : Type} (p : α → Bool) (f : α → β) (xs : List α) :
    (xs.filter p).map f = xs.flatMap fun x => if p x then [f x] else [] := by
  induction xs with
  | nil => rfl
  | cons x xs ih =>
    rw [List.filter_cons, List.flatMap_cons, ← ih]
    cases p x with
    | true => rfl
    | false => rfl

theorem LongRange.merge_map {C α : Type} (mask : α → Bool) (yes no : α → Slots C) (xs : List α) :
    merge (xs.map mask) (xs.map yes) (xs.map no) =
      xs.map fun x => if mask x then yes x else no x := by
  unfold merge
  rw [zip_map_map_self, zipWith_map_map_self]

/-! ## Kernels -/

section
variable {R C : Type}
variable [Add R] [Mul R] [OfScientific R] [LT R] [DecidableLT R] [RealFunctions R]
variable [Add C] [Sub C] [Mul C] [Div C] [ComplexFunctions R C]

theorem FreeSpace.sourceTerms_eq (k : C) (sources : List (Source R C)) :
    sourceTerms k sources = sources.map fun source => term k source.displacement source.phase := by
  have loop := terms_map (R := R) k (·.displacement) (·.phase) sources
  unfold sourceTerms
  split
  · rename_i rows answered
    exact Except.ok.inj (answered.symm.trans loop)
  · rename_i cause answered
    cases loop.symm.trans answered

variable [Sub R] [Div R] [Neg R] [LE R] [DecidableLE R] [Pow R Nat] [Neg C] [SpecialFunctions C]

omit [LT R] [DecidableLT R] in
/-- The rows that are masked have been formed at another distance, but count as zero. -/
theorem ShortRange.terms_eq (k : C) (eta : R) (sources : List (Source R C)) :
    terms k eta sources = sources.map (term k eta) := by
  unfold terms
  simp only [List.map_map, Function.comp_def, zipWith_map_map_self, zipWith_map_self]
  refine List.map_congr_left fun source _ => ?_
  unfold term
  by_cases apart : (1.0e-6 : R) ≤ sqrt (FreeSpace.lengthSquare source.displacement)
  · simp only [apart, decide_true, if_true]
  · simp only [apart, decide_false, if_false, Bool.false_eq_true]

namespace LongRange

theorem value_term (k : C) (eta : R) (source : Source R C) : (term k eta source).value =
    if isSmall k eta source then smallTerm k eta source else difference k eta source := by
  unfold term
  split
  · rfl
  · rfl

theorem events_term (k : C) (eta : R) (source : Source R C) : (term k eta source).events =
    if !isSmall k eta source && (cancellation k eta source).losesPrecision then
      [(cancellation k eta source).event] else [] := by
  unfold term Logged.noteIf
  cases small : isSmall k eta source with
  | true => rfl
  | false =>
    cases loses : (cancellation k eta source).losesPrecision with
    | true =>
      simp only [loses]
      rfl
    | false =>
      simp only [loses]
      rfl

/-- Whether the series is formed is decided for all sources at once, but a row is replaced only if
its own source is near. -/
theorem value_terms (k : C) (eta : R) (sources : List (Source R C)) :
    (terms k eta sources).value = sources.map fun source => (term k eta source).value := by
  have long : List.zipWith (· - ·) (FreeSpace.sourceTerms k sources)
      (ShortRange.terms k eta sources) = sources.map (difference k eta) := by
    rw [FreeSpace.sourceTerms_eq, ShortRange.terms_eq, zipWith_map_map_self]
    rfl
  simp only [value_term]
  change (if (sources.map (isSmall k eta)).any id then
      merge (sources.map (isSmall k eta)) (sources.map (smallTerm k eta)) (List.zipWith _ _ _)
    else List.zipWith _ _ _) = _
  rw [long, merge_map, List.any_map, Function.id_comp]
  cases near : sources.any (isSmall k eta) with
  | true => rfl
  | false => exact (map_ite_of_any_eq_false _ _ near).symm

/-- The rows that lose precision are found by a mask and noted one after the other. -/
theorem events_terms (k : C) (eta : R) (sources : List (Source R C)) :
    (terms k eta sources).events = sources.flatMap fun source => (term k eta source).events := by
  have sizes : List.zipWith (fun source rows => Cancellation.ofRows source rows.1 rows.2) sources
      ((FreeSpace.sourceTerms k sources).zip (ShortRange.terms k eta sources)) =
        sources.map (cancellation k eta) := by
    rw [FreeSpace.sourceTerms_eq, ShortRange.terms_eq, zip_map_map_self, zipWith_map_self]
    rfl
  unfold terms
  simp only [Logged.events_bind, Logged.events_pure, List.append_nil, sizes, zip_map_map_self,
    Logged.events_forM_note, map_filter_eq_flatMap, List.flatMap_map, events_term]

/-- Over a list of sources each gives its row and its note as it does alone. -/
theorem terms_eq_mapM (k : C) (eta : R) (sources : List (Source R C)) :
    terms k eta sources = sources.mapM (term k eta) := by
  apply Logged.ext
  · rw [value_terms, Logged.value_mapM]
  · rw [events_terms, Logged.events_mapM]

end LongRange

/-! ## Cells -/

namespace Nearby
variable [IntCast R] [BEq R]

theorem shell_eq_sum (near : Nearby R C) (cells : List Cell) :
    near.shell cells = Slots.sum (cells.map near.term) := by
  unfold shell term
  simp only [FreeSpace.sourceTerms_eq, ShortRange.terms_eq, List.map_map]
  split
  · rfl
  · rfl

theorem longRange_eq_mapM (near : Nearby R C) (cells : List Cell) :
    near.longRange cells = if near.splitting == 0.0 then pure Slots.zero else do
      let rows ← cells.mapM fun cell =>
        LongRange.term near.wavenumber near.splitting (near.source cell)
      return Slots.sum rows := by
  unfold longRange
  rw [LongRange.terms_eq_mapM, List.mapM_map]
  rfl

end Nearby

end

end LatticeGreen
