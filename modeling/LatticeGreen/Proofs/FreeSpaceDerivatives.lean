import LatticeGreen.Proofs.Answers
import LatticeGreen.Proofs.ShortRangeDerivatives

/-!
# The derivatives of the kernel of free space

A displacement that leaves the source has a row of slots: the kernel at it, times its phase, and the
partial derivatives. The kernel solves the Helmholtz equation there. The rows of a list are those of
its displacements, each with the phase at the same place; the source itself has a row of zeros.
-/
namespace LatticeGreen.FreeSpace
open Complex (I exp)
open Topology

/-- The kernel times a phase, by its closed form. -/
noncomputable def kernel (k phase : ℂ) (d : Vec3 ℝ) : ℂ :=
  let r := √(lengthSquare d)
  phase * (exp (I * k * r) / (4 * Real.pi * r))

theorem hasDerivAt_outgoing (k : ℂ) (r : ℝ) :
    HasDerivAt (fun r : ℝ => exp (I * k * r)) (I * k * exp (I * k * r)) r := by
  have identity : HasDerivAt (fun r : ℝ => (r : ℂ)) 1 r := Complex.ofRealCLM.hasDerivAt
  apply (identity.const_mul (I * k)).cexp.congr_deriv
  ring

theorem hasDerivAt_outgoing_slope (k : ℂ) (r : ℝ) :
    HasDerivAt (fun r : ℝ => I * k * exp (I * k * r))
      (-k ^ 2 * exp (I * k * r) - 2 * (0 : ℝ) ^ 2 * r * 0) r := by
  apply ((hasDerivAt_outgoing k r).const_mul (I * k)).congr_deriv
  linear_combination k ^ 2 * exp (I * k * r) * Complex.I_sq

theorem hasDerivAt_undriven (r : ℝ) :
    HasDerivAt (fun _ : ℝ => (0 : ℂ)) (-2 * (0 : ℝ) ^ 2 * r * 0) r := by
  apply (hasDerivAt_const r (0 : ℂ)).congr_deriv
  ring

/-- The wave whose share per distance the kernel is. Nothing drives it. -/
noncomputable def outgoing (k : ℂ) : ShortRange.DrivenWave k 0 where
  value r := exp (I * k * r)
  slope r := I * k * exp (I * k * r)
  drive _ := 0
  hasDerivAt_value := hasDerivAt_outgoing k
  hasDerivAt_slope := hasDerivAt_outgoing_slope k
  hasDerivAt_drive := hasDerivAt_undriven

section
variable (k phase : ℂ) {d : Vec3 ℝ}

theorem isSource_iff (d : Vec3 ℝ) : isSource d = true ↔ √(lengthSquare d) < 1e-8 := by
  unfold isSource
  rw [decide_eq_true_iff, sqrt_exact]

theorem term_of_source (source : √(lengthSquare d) < 1e-8) : term k d phase = Slots.zero := by
  have short := (isSource_iff d).mpr source
  simp only [term, short, if_true]

/-- The program's coefficients are those of the derivatives. -/
theorem term_eq_radial (apart : 1e-8 < √(lengthSquare d)) :
    term k d phase = (Slots.radial (outgoing k).rungs d).map (phase / (4 * Real.pi) * ·) := by
  have leaves : isSource d = false := by
    rw [Bool.eq_false_iff, Ne, isSource_iff]
    exact not_lt.mpr apart.le
  have positive : 0 < √(lengthSquare d) := lt_trans (by norm_num) apart
  have square : √(lengthSquare d) ^ 2 = lengthSquare d :=
    Real.sq_sqrt (Real.sqrt_pos.mp positive).le
  have one : (1.0 : ℝ) = 1 := by norm_num
  have three : (3.0 : ℝ) = 3 := by norm_num
  have four : (4.0 : ℝ) = 4 := by norm_num
  have six : (6.0 : ℝ) = 6 := by norm_num
  have fifteen : (15.0 : ℝ) = 15 := by norm_num
  unfold term Slots.radial
  simp only [leaves, Bool.false_eq_true, if_false, sqrt_exact, ShortRange.DrivenWave.rungs,
    outgoing, Slots.map, imaginaryUnit_exact, ofReal_exact, cexp_exact, pi_exact, one, three, four,
    six, fifteen]
  -- All is written in the distance, whose square stands in the denominators.
  generalize √(lengthSquare d) = r at positive square
  have nonzero : (r : ℂ) ≠ 0 := by exact_mod_cast positive.ne'
  have pi_nonzero : (Real.pi : ℂ) ≠ 0 := by exact_mod_cast Real.pi_pos.ne'
  have bend : k ^ 2 = -(I * k) ^ 2 := by linear_combination k ^ 2 * Complex.I_sq
  rw [← square, bend]
  generalize I * k = q
  push_cast
  congr 1 <;> field_simp <;> ring

theorem kernel_eq_value (apart : 1e-8 < √(lengthSquare d)) :
    kernel k phase d = (term k d phase).value := by
  rw [term_eq_radial k phase apart]
  change phase * _ = phase / (4 * Real.pi) * (exp (I * k * √(lengthSquare d)) / _)
  ring

/-- The slots of the kernel are its partial derivatives in the displacement from the source. -/
theorem partials_kernel (apart : 1e-8 < √(lengthSquare d)) :
    term k d phase = Slots.partials (kernel k phase) d ∧
      Slots.DeriveAt (fun d => term k d phase) d := by
  have isRegion := Slots.isRegion_beyond 1e-8
  have derive : ∀ d : Vec3 ℝ, 1e-8 < √(lengthSquare d) →
      Slots.DeriveAt (fun d => term k d phase) d := by
    intro d apart
    have positive : 0 < lengthSquare d := Real.sqrt_pos.mp (lt_trans (by norm_num) apart)
    apply Slots.DeriveAt.congr isRegion apart fun _ => term_eq_radial k phase
    exact ((outgoing k).deriveAt_radial positive).map _
  exact ⟨Slots.eq_partials isRegion derive (fun _ => kernel_eq_value k phase) d apart,
    derive d apart⟩

/-- Away from the source nothing drives the kernel. -/
theorem solves_term {x : EuclideanSpace ℝ (Fin 3)} (apart : 1e-8 < ‖x‖) :
    SolvesHelmholtz k (fun y => (term k (entries y) phase).value) x 0 := by
  have away : x ≠ 0 := by
    rintro rfl
    norm_num at apart
  let c : ℂ := phase / (4 * Real.pi)
  let wave (y : EuclideanSpace ℝ (Fin 3)) : ℂ := c * (outgoing k).value ‖y‖ / ‖y‖
  let u (y : EuclideanSpace ℝ (Fin 3)) : ℂ := (term k (entries y) phase).value
  change SolvesHelmholtz k u x 0
  have radial : u =ᶠ[𝓝 x] wave := by
    filter_upwards [(isOpen_lt continuous_const continuous_norm).mem_nhds apart] with y beyond
    have far : 1e-8 < √(lengthSquare (entries y)) := by
      rw [sqrt_lengthSquare]
      exact beyond
    simp only [u]
    rw [term_eq_radial k phase far]
    change c * ((outgoing k).value √(lengthSquare (entries y)) / √(lengthSquare (entries y))) = _
    rw [sqrt_lengthSquare]
    exact (mul_div_assoc _ _ _).symm
  have smooth : ContDiff ℝ 2 fun r => c * (outgoing k).value r := by
    have cast : ContDiff ℝ 2 fun r : ℝ => (r : ℂ) := Complex.ofRealCLM.contDiff
    exact contDiff_const.mul (contDiff_const.mul cast).cexp
  have slope : ∀ r, HasDerivAt (fun r => c * (outgoing k).value r) (c * (outgoing k).slope r) r :=
    fun r => ((outgoing k).hasDerivAt_value r).const_mul c
  have curvature := ((outgoing k).hasDerivAt_slope ‖x‖).const_mul c
  obtain ⟨smooth_wave, laplacian⟩ := laplacian_spherical away smooth slope curvature
  constructor
  · exact smooth_wave.congr_of_eventuallyEq radial
  · rw [(InnerProductSpace.laplacian_congr_nhds radial).eq_of_nhds, radial.eq_of_nhds, laplacian]
    simp only [wave, outgoing]
    ring

end

/-! ## Rows -/

section
variable {k : ℂ}

theorem terms_cons_cons (d : Vec3 ℝ) (ds : List (Vec3 ℝ)) (phase : ℂ) (phases : List ℂ) :
    terms k (d :: ds) (phase :: phases) =
      terms k ds phases >>= fun rest => .ok (term k d phase :: rest) := rfl

theorem terms_cons_nil (d : Vec3 ℝ) (ds : List (Vec3 ℝ)) :
    terms k (d :: ds) [] = if isSource d then terms k ds [] >>= fun rest => .ok (Slots.zero :: rest)
      else .error .missingComponent := rfl

/-- Each row is the term of the displacement and the phase at its place. A source that no phase is
left for needs none. -/
theorem getElem?_terms {ds : List (Vec3 ℝ)} {phases : List ℂ} {rows : List (Slots ℂ)}
    (answered : terms k ds phases = .ok rows) (i : ℕ) :
    rows[i]? = ds[i]?.map fun d => term k d (phases[i]?.getD 0) := by
  induction ds generalizing phases rows i with
  | nil =>
    cases answered
    rfl
  | cons d ds ih =>
    cases phases with
    | nil =>
      rw [terms_cons_nil] at answered
      split at answered
      · rename_i source
        obtain ⟨rest, later, whole⟩ := Attempt.exists_of_bind_eq_ok answered
        obtain rfl := Except.ok.inj whole
        cases i with
        | zero => simp only [List.getElem?_cons_zero, Option.map_some, term, source, if_true]
        | succ i => exact ih later i
      · cases answered
    | cons phase phases =>
      obtain ⟨rest, later, whole⟩ := Attempt.exists_of_bind_eq_ok answered
      obtain rfl := Except.ok.inj whole
      cases i with
      | zero => rfl
      | succ i => exact ih later i

theorem exists_terms_cons_iff (d : Vec3 ℝ) (ds : List (Vec3 ℝ)) (phases : List ℂ) :
    (∃ rows, terms k (d :: ds) phases = .ok rows) ↔
      (isSource d = false → 0 < phases.length) ∧ ∃ rows, terms k ds phases.tail = .ok rows := by
  cases phases with
  | nil =>
    rw [terms_cons_nil]
    cases isSource d with
    | true =>
      rw [if_pos rfl, List.tail_nil]
      constructor
      · rintro ⟨rows, answered⟩
        obtain ⟨rest, later, -⟩ := Attempt.exists_of_bind_eq_ok answered
        exact ⟨nofun, rest, later⟩
      · rintro ⟨-, rest, later⟩
        rw [later]
        exact ⟨Slots.zero :: rest, rfl⟩
    | false => simp
  | cons phase phases =>
    rw [terms_cons_cons, List.tail_cons]
    constructor
    · rintro ⟨rows, answered⟩
      obtain ⟨rest, later, -⟩ := Attempt.exists_of_bind_eq_ok answered
      exact ⟨fun _ => Nat.succ_pos _, rest, later⟩
    · rintro ⟨-, rest, later⟩
      rw [later]
      exact ⟨term k d phase :: rest, rfl⟩

theorem length_terms {ds : List (Vec3 ℝ)} {phases : List ℂ} {rows : List (Slots ℂ)}
    (answered : terms k ds phases = .ok rows) : rows.length = ds.length := by
  have indexed : rows = ds.mapIdx fun i d => term k d (phases[i]?.getD 0) := by
    apply List.ext_getElem?
    intro i
    rw [getElem?_terms answered, List.getElem?_mapIdx]
  rw [indexed, List.length_mapIdx]

/-- A list of displacements has rows if and only if none but sources lack a phase. -/
theorem exists_terms_iff (ds : List (Vec3 ℝ)) (phases : List ℂ) :
    (∃ rows, terms k ds phases = .ok rows) ↔
      ∀ i d, ds[i]? = some d → isSource d = false → i < phases.length := by
  induction ds generalizing phases with
  | nil =>
    constructor
    · intro _ i d place
      cases place
    · intro _
      exact ⟨[], rfl⟩
  | cons d ds ih =>
    rw [exists_terms_cons_iff, ih]
    constructor
    · rintro ⟨first, later⟩ i d' place leaves
      cases i with
      | zero =>
        obtain rfl := Option.some.inj place
        exact first leaves
      | succ i =>
        have held := later i d' place leaves
        rw [List.length_tail] at held
        omega
    · intro held
      constructor
      · exact held 0 d rfl
      · intro i d' place leaves
        have beyond := held (i + 1) d' place leaves
        rw [List.length_tail]
        omega

end

/-- The rows of a list of displacements and phases. There is one for each displacement, unless a
displacement that leaves the source has no phase. The row of a displacement that leaves the source
is the kernel with its partial derivatives, and its value, as a function of the displacement, solves
the Helmholtz equation; the row of a source is zero. A row depends on nothing else than the
displacement and the phase at its place. -/
theorem rows_eq_partials (k : ℂ) (ds : List (Vec3 ℝ)) (phases : List ℂ) :
    ((∃ rows, terms k ds phases = .ok rows) ↔
      ∀ (i : ℕ) (d : Vec3 ℝ), ds[i]? = some d → 1e-8 ≤ √(lengthSquare d) → i < phases.length) ∧
    ∀ rows, terms k ds phases = .ok rows →
      rows.length = ds.length ∧
      (∀ (i : ℕ) (d : Vec3 ℝ) (phase : ℂ), ds[i]? = some d → phases[i]? = some phase →
        1e-8 < √(lengthSquare d) →
          rows[i]? = some (term k d phase) ∧ term k d phase = Slots.partials (kernel k phase) d ∧
          Slots.DeriveAt (fun d => term k d phase) d ∧
          ∀ x, entries x = d → SolvesHelmholtz k (fun y => (term k (entries y) phase).value) x 0) ∧
      (∀ (i : ℕ) (d : Vec3 ℝ), ds[i]? = some d → √(lengthSquare d) < 1e-8 →
        rows[i]? = some Slots.zero) ∧
      ∀ (ds' : List (Vec3 ℝ)) (phases' : List ℂ) (rows' : List (Slots ℂ)) (i j : ℕ),
        terms k ds' phases' = .ok rows' → ds[i]? = ds'[j]? → phases[i]? = phases'[j]? →
          rows[i]? = rows'[j]? := by
  have leaves_iff : ∀ d, isSource d = false ↔ 1e-8 ≤ √(lengthSquare d) := by
    intro d
    rw [Bool.eq_false_iff, Ne, isSource_iff, not_lt]
  constructor
  · rw [exists_terms_iff]
    simp only [leaves_iff]
  intro rows answered
  have row := getElem?_terms answered
  constructor
  · exact length_terms answered
  constructor
  · intro i d phase place turn apart
    obtain ⟨partials, derive⟩ := partials_kernel k phase apart
    refine ⟨?_, partials, derive, ?_⟩
    · rw [row, place, turn]
      rfl
    · intro x placed
      apply solves_term
      rw [← sqrt_lengthSquare, placed]
      exact apart
  constructor
  · intro i d place source
    rw [row, place, Option.map_some, term_of_source k _ source]
  · intro ds' phases' rows' i j answered' same turned
    rw [row, getElem?_terms answered' j, same, turned]

/-- A displacement of length three with a quarter turn for its phase, and the source without one. -/
theorem rows_eq_partials_three :
    ∃ rows, terms (1 : ℂ) [(⟨1, 2, 2⟩ : Vec3 ℝ), ⟨0, 0, 0⟩] [I] = .ok rows ∧ rows.length = 2 ∧
      rows[0]? = some (Slots.partials (kernel 1 I) ⟨1, 2, 2⟩) ∧ rows[1]? = some (0 : Slots ℂ) ∧
      SolvesHelmholtz 1 (fun y => (term 1 (entries y) I).value) !₂[1, 2, 2] 0 := by
  have three : lengthSquare (⟨1, 2, 2⟩ : Vec3 ℝ) = 3 ^ 2 := by
    unfold lengthSquare
    norm_num
  have none : lengthSquare (⟨0, 0, 0⟩ : Vec3 ℝ) = 0 := by
    unfold lengthSquare
    norm_num
  have apart : 1e-8 < √(lengthSquare (⟨1, 2, 2⟩ : Vec3 ℝ)) := by
    rw [three, Real.sqrt_sq (by norm_num)]
    norm_num
  have source : √(lengthSquare (⟨0, 0, 0⟩ : Vec3 ℝ)) < 1e-8 := by
    rw [none, Real.sqrt_zero]
    norm_num
  obtain ⟨exists_rows, all⟩ := rows_eq_partials 1 [(⟨1, 2, 2⟩ : Vec3 ℝ), ⟨0, 0, 0⟩] [I]
  obtain ⟨rows, answered⟩ := exists_rows.mpr fun i d place leaves => by
    match i with
    | 0 => exact Nat.one_pos
    | 1 =>
      obtain rfl := Option.some.inj place
      exact absurd source (not_lt.mpr leaves)
    | i + 2 => cases place
  obtain ⟨length, away, at_source, -⟩ := all rows answered
  obtain ⟨row, partials, -, solves⟩ := away 0 _ I rfl rfl apart
  exact ⟨rows, answered, length, by rw [row, partials], at_source 1 _ rfl source, solves _ rfl⟩

end LatticeGreen.FreeSpace
