import RecedingHorizon.Proofs.Controller
import RecedingHorizon.Proofs.Krylov.Carried

/-!
# Solves in a larger space

An equation may be another one seen in a larger space: residual and images are those of the small
space, carried over by a map that keeps inner products.  Nothing of the rest of the large space ever
comes in, and so the two solves take the same steps.

What does differ is how many directions they may use, if this is bounded by the dimensions of the
two spaces.  But directions are orthonormal, and so there are never more of them than the small
space has dimensions.  A solve that may use as many has to find a reason to stop before it has used
them up, and it stops for the same reason whatever more it may use.

* `Solver.ending_ne_limit`, `Solver.iterate_add`: a growth that may use as many directions as there
  are dimensions ends before its limit, and does not change if the limit is raised.
* `Solver.KeepsUp`, `limit_ofExtents`, `keepsUp_ofExtents`: how the limits of two solvers have to
  be; `Solver.Beside`: two such solvers.
* `Solver.solve_embedded`: the two solves.
-/

namespace RecedingHorizon

namespace Krylov

open Stateful

open scoped Matrix

variable {d n n' : ℕ}

/-- Taken in, an image ends the growth as a singular one or as one that leaves nothing, or not at
all. -/
theorem Workspace.absorb_ending {α : Type} [Scalar α] (w : Workspace α) (image : Vec α) :
    (w.absorb image).2 = some .singular ∨ (w.absorb image).2 = some .breakdown ∨
      (w.absorb image).2 = none := by
  unfold absorb
  dsimp only
  split
  · exact .inl rfl
  · split
    · exact .inr (.inl rfl)
    · exact .inr (.inr rfl)

namespace Solver

variable {σ : Type} {solver : Solver ℝ} {equation : Equation (StateM σ) ℝ} {w w' : Workspace ℝ}
  {μ μ' : σ} {β τ : ℝ}

/-! ## Growth without a limit -/

/-- A step does not end the growth at its limit. -/
theorem ending_ne_limit_of_step {image : Tensor ℝ} {ending : Ending}
    (h : solver.step β image w = (.ok (some ending), w')) : ending ≠ .limit := by
  rw [step] at h
  rcases hvector : solver.imageVector image with fault | v
  · rw [hvector] at h
    cases h
  · rw [hvector] at h
    dsimp only at h
    have hending := w.absorb_ending v
    rcases habsorb : w.absorb v with ⟨w₁, _ | stop⟩
    · rw [habsorb] at h
      dsimp only at h
      rcases hwithin : solver.within β w₁ with fault | _ | _
      all_goals
        rw [hwithin] at h
        cases h
      exact Ending.noConfusion
    · rw [habsorb] at h hending
      cases h
      rcases hending with hending | hending | hending
      all_goals cases hending
      all_goals exact Ending.noConfusion

/-- A growth that may use as many directions as there are dimensions ends before it has used
them up. -/
theorem ending_ne_limit {g : (Fin d → ℝ) → Fin d → ℝ} {r₀ : Fin d → ℝ} {us ws : List (Fin d → ℝ)}
    {v z : Fin d → ℝ} (hdim : solver.dim = d) (hτ : solver.relativeTolerance.scalar = .ok τ)
    (himage : ∀ v : Fin d → ℝ,
      Stateful.runOn (equation.image (.ofFn v)) μ = (.ok (.ofFn (g v)), μ))
    (left : ℕ) (h : w.Spans g r₀ us v ws z)
    (hroom : w.columns.length + left ≤ w.rotations.length)
    (hmany : d ≤ w.columns.length + left) {ending : Ending}
    (hrun : (solver.iterate equation β left w).run μ = ((.ok ending, w'), μ')) :
    ending ≠ .limit := by
  have hends : ∃ stop u, (solver.iterate equation β left w).run μ = ((.ok stop, u), μ) ∧
      stop ≠ .limit := by
    refine iterate_ends (I := fun left u => (∃ us v ws z, u.Spans g r₀ us v ws z) ∧
        u.columns.length + left ≤ u.rotations.length ∧ d ≤ u.columns.length + left)
      (E := fun stop _ => stop ≠ .limit) ?_ ?_ left ⟨⟨us, v, ws, z, h⟩, hroom, hmany⟩
    · -- there are fewer columns than directions, and so than dimensions
      rintro u ⟨⟨_, _, _, _, hspans⟩, -, hmany⟩
      have hlt := hspans.length_lt
      omega
    · rintro left u ⟨⟨_, v, _, _, hspans⟩, hroom, hmany⟩
      refine ⟨.ofFn (g v), by rw [hspans.direction]; exact himage v, ?_⟩
      rcases step_spec (β := β) hdim hτ hspans (by omega) with
        ⟨u', stop, hstep, -, -⟩ | ⟨u', hstep, hspans', hgrown, hlength⟩
      · exact .inl ⟨stop, u', hstep, ending_ne_limit_of_step hstep⟩
      · exact .inr ⟨u', hstep, hspans', by omega, by omega⟩
  obtain ⟨stop, u, hstop, hne⟩ := hends
  cases hstop.symm.trans hrun
  exact hne

/-- A growth that ends before its limit does not notice a higher one. -/
theorem iterate_add {left : ℕ} (more : ℕ) {ending : Ending} (hending : ending ≠ .limit)
    (h : (solver.iterate equation β left w).run μ = ((.ok ending, w'), μ')) :
    (solver.iterate equation β (left + more) w).run μ = ((.ok ending, w'), μ') := by
  induction left generalizing w μ with
  | zero =>
      cases h
      exact absurd rfl hending
  | succ left ih =>
      rw [Nat.add_right_comm, iterate, run_bind]
      rw [iterate, run_bind] at h
      generalize ((equation.image (.ofVec w.direction)).run.run μ) = run at h ⊢
      obtain ⟨fault | image, μ₁⟩ := run
      · cases h
      · dsimp only at h ⊢
        rcases hstep : solver.step β image w with ⟨fault | _ | stop, w₁⟩
        · rw [hstep] at h
          cases h
        · rw [hstep] at h
          exact ih h
        · rw [hstep] at h
          exact h

/-! ## Limits -/

/-- Of two solvers the first may use as many directions as the second, or as many as it has
dimensions. -/
def KeepsUp (solver solver' : Solver ℝ) : Prop :=
  solver'.limit = solver.limit ∨ solver.dim ≤ solver.limit ∧ solver.limit ≤ solver'.limit

theorem KeepsUp.le {solver solver' : Solver ℝ} (h : solver.KeepsUp solver') :
    solver.limit ≤ solver'.limit := h.elim (fun h => h.ge) fun h => h.2

/-- A solver for `n` unknowns and one for `n'`, of which the first keeps up with the second, with
the same tolerance. -/
structure Beside (solver solver' : Solver ℝ) (n n' : ℕ) : Prop where
  dim : solver.dim = n
  dim' : solver'.dim = n'
  scalar : ∃ τ, solver.relativeTolerance.scalar = .ok τ
  relativeTolerance : solver'.relativeTolerance = solver.relativeTolerance
  keepsUp : solver.KeepsUp solver'

theorem eq_whole_of_extent {limit : Datum ℝ} {l : ℤ} (h : limit.extent = .ok l) :
    limit = .number (.whole l) := by
  cases limit with
  | number k =>
      cases k with
      | whole k => rw [Except.ok.inj h]
      | real x => cases h
  | flag b | nothing | text b | list b | record ns b => cases h

/-- The number of directions: the dimension, if more are asked for, or as many as are asked for. -/
theorem limit_ofExtents {dim : ℤ} {limit τ : Datum ℝ} {solver : Solver ℝ}
    (h : ofExtents (.number (.whole dim)) limit τ = .ok solver) :
    (Datum.number (.whole dim)).lt limit = .ok true ∧ solver.limit = dim.toNat ∨
      ∃ l, limit = .number (.whole l) ∧ l ≤ dim ∧ solver.limit = l.toNat := by
  obtain ⟨most, hmost, h⟩ := bind_eq_ok_iff.1 h
  obtain ⟨l, hl, h⟩ := bind_eq_ok_iff.1 h
  obtain ⟨_, -, h⟩ := bind_eq_ok_iff.1 h
  obtain ⟨_, -, h⟩ := bind_eq_ok_iff.1 h
  obtain ⟨_, -, h⟩ := bind_eq_ok_iff.1 h
  obtain ⟨smaller, hlt, hmost⟩ := bind_eq_ok_iff.1 hmost
  cases h
  cases smaller with
  | true =>
      obtain rfl : Datum.number (.whole dim) = most := Except.ok.inj hmost
      obtain rfl : dim = l := Except.ok.inj hl
      exact .inl ⟨hlt, rfl⟩
  | false =>
      obtain rfl : limit = most := Except.ok.inj hmost
      obtain rfl := eq_whole_of_extent hl
      exact .inr ⟨l, rfl, not_lt.1 (of_decide_eq_false (Except.ok.inj hlt)), rfl⟩

/-- Asked for the same number of directions, solvers keep up with those for larger systems. -/
theorem keepsUp_ofExtents {dim dim' : ℤ} (hdim : dim ≤ dim') {limit τ τ' : Datum ℝ}
    {solver solver' : Solver ℝ}
    (h : ofExtents (.number (.whole dim)) limit τ = .ok solver)
    (h' : ofExtents (.number (.whole dim')) limit τ' = .ok solver') : solver.KeepsUp solver' := by
  have hlt {k l : ℤ} (h : (Datum.number (.whole k) : Datum ℝ).lt (.number (.whole l)) = .ok true) :
      k < l := of_decide_eq_true (Except.ok.inj h)
  have hsize := (dim_ofExtents h).1
  rcases limit_ofExtents h with ⟨hover, hlimit⟩ | ⟨l, rfl, hle, hlimit⟩
  · refine .inr ⟨(hsize.trans hlimit.symm).le, ?_⟩
    rcases limit_ofExtents h' with ⟨-, hlimit'⟩ | ⟨l', rfl, -, hlimit'⟩
    · rw [hlimit, hlimit']
      exact Int.toNat_le_toNat hdim
    · rw [hlimit, hlimit']
      exact Int.toNat_le_toNat (hlt hover).le
  · rcases limit_ofExtents h' with ⟨hover', -⟩ | ⟨l', hl', -, hlimit'⟩
    · exact absurd (hlt hover') (not_lt.2 (hle.trans hdim))
    · cases hl'
      exact .inl (hlimit'.trans hlimit.symm)

/-- Asked for as many directions as there are dimensions, a solver keeps up with one for a larger
system that is asked so too. -/
theorem keepsUp_ofExtents_self {dim dim' : ℤ} (hdim : dim ≤ dim') {τ τ' : Datum ℝ}
    {solver solver' : Solver ℝ}
    (h : ofExtents (.number (.whole dim)) (.number (.whole dim)) τ = .ok solver)
    (h' : ofExtents (.number (.whole dim')) (.number (.whole dim')) τ' = .ok solver') :
    solver.KeepsUp solver' := by
  have hlimit {k : ℤ} {τ : Datum ℝ} {solver : Solver ℝ}
      (h : ofExtents (.number (.whole k)) (.number (.whole k)) τ = .ok solver) :
      solver.limit = k.toNat := by
    rcases limit_ofExtents h with ⟨-, hlimit⟩ | ⟨l, hl, -, hlimit⟩
    · exact hlimit
    · cases hl
      exact hlimit
  refine .inr ⟨((dim_ofExtents h).1.trans (hlimit h).symm).le, ?_⟩
  rw [hlimit h, hlimit h']
  exact Int.toNat_le_toNat hdim

/-! ## Two solves -/

/-- Without a guess a solve starts from zero. -/
theorem solve_none {m : Type → Type} [Monad m] (hdim : solver.dim = n) (equation : Equation m ℝ)
    (w : Workspace ℝ) :
    solver.solve equation none w = solver.solve equation (some (.ofFn (0 : Fin n → ℝ))) w := by
  subst hdim
  have hzeros : Tensor.zeros [solver.dim] = .ofFn (0 : Fin solver.dim → ℝ) := Tensor.zeros_eq_ofFn
  rw [← hzeros]
  rfl

section Embedded

variable {σ' : Type} {solver' : Solver ℝ} {equation' : Equation (StateM σ') ℝ} {ν ν₀ : σ'}
  {P : (Fin n → ℝ) →ₗ[ℝ] Fin n' → ℝ} {r₀ : Fin n → ℝ} {g : (Fin n → ℝ) → Fin n → ℝ}

/-- In the larger space a growth has as many directions as in the small one, and the same carried
over. -/
theorem iterate_embedded (hP : IsIsometric P) (hs : solver.Beside solver' n n')
    (himage : ∀ v : Fin n → ℝ, runOn (equation.image (.ofFn v)) μ = (.ok (.ofFn (g v)), μ))
    (himage' : ∀ v : Fin n → ℝ,
      runOn (equation'.image (.ofFn (P v))) ν = (.ok (.ofFn (P (g v))), ν))
    (hw : w.rotations.length = solver.limit) (hw' : w'.rotations.length = solver'.limit)
    (hβ : √(r₀ ⬝ᵥ r₀) = β) (h0 : β ≠ 0) :
    ∃ (ending : Ending) (u u' : Workspace ℝ),
      (solver.iterate equation β solver.limit
        (w.cleared.seeded (List.ofFn (β⁻¹ • r₀)) β)).run μ = ((.ok ending, u), μ) ∧
      (solver'.iterate equation' β solver'.limit
        (w'.cleared.seeded (List.ofFn (β⁻¹ • P r₀)) β)).run ν = ((.ok ending, u'), ν) ∧
      u.Explains g r₀ ∧ u.Carried P 1 1 u' := by
  obtain ⟨hdim, hdim', ⟨τ, hτ⟩, hτ', hkeeps⟩ := hs
  have hspans := spans_seeded (g := g) (w := w) hβ h0
  have hroom : 0 + solver.limit ≤ w.rotations.length := by rw [hw, Nat.zero_add]
  have hroom' : 0 + solver.limit ≤ w'.rotations.length := by
    rw [hw', Nat.zero_add]
    exact hkeeps.le
  obtain ⟨ending, u, hrun, hexplains, -⟩ := iterate_spec (β := β) hdim hτ himage solver.limit
    hspans hroom
  -- up to the limit of the small space both grow alike
  have himages (v : Fin n → ℝ) : Abreast (fun s s' => s = μ ∧ s' = ν) Eq (CarriedImage P 1)
      (equation.image (.ofFn v)) (equation'.image (.ofFn (P v))) := by
    rintro _ _ ⟨rfl, rfl⟩
    rw [himage, himage']
    exact ⟨.ok (.inl ⟨g v, rfl, by rw [one_smul]⟩), rfl, rfl⟩
  have hcarried := iterate_carried (fun _ => rfl) hP one_pos one_pos hdim hdim' hτ' himages β
    solver.limit (Workspace.Carried.seeded P 1 1 w w' (β⁻¹ • r₀) β) (List.cons_ne_nil _ _)
    hroom hroom' ⟨rfl, rfl⟩
  rw [one_mul, map_smul, hrun] at hcarried
  rcases hrun' : (solver'.iterate equation' β solver.limit
    (w'.cleared.seeded (List.ofFn (β⁻¹ • P r₀)) β)).run ν with ⟨⟨answer', u'⟩, ν'⟩
  rw [hrun'] at hcarried
  obtain ⟨hanswer, hworkspace, -, hmemory⟩ := hcarried
  dsimp only at hanswer hworkspace hmemory
  subst hmemory
  obtain ⟨_, rfl, rfl⟩ := hanswer.exists_ok rfl
  refine ⟨ending, u, u', hrun, ?_, hexplains, hworkspace⟩
  -- and if more directions may be used, then the growth is over by then
  rcases hkeeps with hsame | ⟨hmany, hle⟩
  · rw [hsame, hrun']
  · rw [hdim] at hmany
    have hending := ending_ne_limit hdim hτ himage solver.limit hspans hroom
      (hmany.trans (Nat.zero_add _).ge) hrun
    obtain ⟨more, hmore⟩ := Nat.exists_eq_add_of_le hle
    rw [hmore]
    exact iterate_add more hending hrun'

/-- **A solve in a larger space.**  It leads from its guess by what the solve in the small space
leads by, carried over; and everything else that is reported of the two is the same. -/
theorem solve_embedded (hP : IsIsometric P) (hs : solver.Beside solver' n n')
    {μ₀ : σ} {x₀ : Fin n → ℝ} {x₀' : Fin n' → ℝ}
    (hresidual : runOn (equation.residual (.ofFn x₀)) μ₀ = (.ok (.ofFn r₀), μ))
    (hresidual' : runOn (equation'.residual (.ofFn x₀')) ν₀ = (.ok (.ofFn (P r₀)), ν))
    (himage : ∀ v : Fin n → ℝ, runOn (equation.image (.ofFn v)) μ = (.ok (.ofFn (g v)), μ))
    (himage' : ∀ v : Fin n → ℝ,
      runOn (equation'.image (.ofFn (P v))) ν = (.ok (.ofFn (P (g v))), ν))
    (hw : w.rotations.length = solver.limit) (hw' : w'.rotations.length = solver'.limit) :
    ∃ (o : Outcome ℝ) (u u' : Workspace ℝ) (y : Fin n → ℝ),
      (solver.solve equation (some (.ofFn x₀)) w).run μ₀ = ((.ok o, u), μ) ∧
      (solver'.solve equation' (some (.ofFn x₀')) w').run ν₀ =
        ((.ok { o with solution := .ofFn (x₀' + P y) }, u'), ν) ∧
      o.solution = .ofFn (x₀ + y) ∧ u.rotations.length = solver.limit ∧
      u'.rotations.length = solver'.limit := by
  have hbeside := hs
  obtain ⟨hdim, hdim', ⟨τ, hτ⟩, hτ', -⟩ := hs
  obtain ⟨β, hβ⟩ : ∃ β, √(r₀ ⬝ᵥ r₀) = β := ⟨_, rfl⟩
  have hβ' : √(P r₀ ⬝ᵥ P r₀) = β := by rw [hP, hβ]
  by_cases htiny : β < Scalar.tiny
  · refine ⟨exact (.ofFn x₀) β, w.cleared, w'.cleared, 0, run_solve_of_lt hresidual hβ htiny, ?_,
      ?_, hw, hw'⟩
    · rw [run_solve_of_lt hresidual' hβ' htiny, map_zero, add_zero]
      rfl
    · rw [add_zero]
      rfl
  · have h0 : β ≠ 0 := (tiny_pos.trans_le (not_lt.1 htiny)).ne'
    obtain ⟨ending, u, u', hrun, hrun', hexplains, hcarried⟩ := iterate_embedded hP hbeside himage
      himage' hw hw' hβ h0
    obtain ⟨o, x, hconclude, -, -⟩ := conclude_spec hdim hτ hexplains x₀ β ending
    have hincrease (y : Fin n → ℝ) : Tally (Eq : Fault ℝ → Fault ℝ → Prop)
        (fun a a' => ∃ y, a = .ofFn (x₀ + y) ∧ a' = .ofFn (x₀' + P y))
        ((Tensor.ofFn x₀).increase (.ofFn y))
        ((Tensor.ofFn x₀').increase (.ofFn (((1 : ℝ) / 1) • P y))) := by
      rw [Tensor.increase_ofFn, Tensor.increase_ofFn, div_one, one_smul]
      exact .ok ⟨y, rfl, rfl⟩
    have houtcome := conclude_carried (fun _ => rfl) one_pos one_pos hdim hdim' hτ' hcarried
      ⟨0, by rw [add_zero], by rw [map_zero, add_zero]⟩ hincrease β ending
    rw [hconclude, one_mul] at houtcome
    obtain ⟨o', hconclude', ⟨y, hsolution, hsolution'⟩, hiterations, hinitial, hnorm, hconverged,
      hbreakdown⟩ := houtcome.exists_ok rfl
    rw [one_mul] at hinitial hnorm
    have hsame : o' = { o with solution := .ofFn (x₀' + P y) } := by
      rw [← hsolution', ← hiterations, ← hinitial, ← hnorm, ← hconverged, ← hbreakdown]
    have hsolve := run_solve hdim hresidual hβ htiny hrun
    have hsolve' := run_solve hdim' hresidual' hβ' htiny hrun'
    have hu : ((solver.solve equation (some (.ofFn x₀)) w).run μ₀).1.2.rotations.length =
        w.rotations.length := length_rotations_solve _ _
    have hu' : ((solver'.solve equation' (some (.ofFn x₀')) w').run ν₀).1.2.rotations.length =
        w'.rotations.length := length_rotations_solve _ _
    rw [hsolve, hw] at hu
    rw [hsolve', hw'] at hu'
    rw [hconclude] at hsolve
    rw [hconclude', hsame] at hsolve'
    exact ⟨o, u, u', y, hsolve, hsolve', hsolution, hu, hu'⟩

end Embedded

end Solver

end Krylov

end RecedingHorizon
