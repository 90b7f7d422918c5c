import RecedingHorizon.Krylov.Solver
import RecedingHorizon.Stateful

/-!
# Two runs side by side

What a computation does not depend on is seen by running it twice, on states that
differ there and are related otherwise.  The runs go in parallel if both answer or
both fail, with related answers or with the same fault, and leave related states
behind, whichever it is.  A computation that is put together from parallel parts is
parallel, with one rule for each way of putting it together; whatever reads the state
has to treat related states alike.

Where a computation writes before it reads, the states it starts from need not be
related as those it leaves behind are.  It then `Leads` from the one relation to the
other, provided that it answers; nothing is known of the states at a fault.  This is how
a solver is unaware of what an earlier solve has left in its workspace, and of what has
been remembered of the equation before the residual was asked for.

* `Agree`: two answers that are related, or two equal faults.
* `Stateful.Parallel`: the relation of two computations, with `Parallel.bind`,
  `Parallel.get_bind`, `Parallel.modify` and so on.
* `Stateful.Leads`: the same from one relation of states to another.
* `Krylov.Workspace.Even`: workspaces that a solve at hand does not tell apart.
* `Krylov.Solver.solve_match`: two solves of an equation whose answers do not tell
  related memories apart come to the same end.
-/

namespace RecedingHorizon

variable {ε β γ : Type}

/-- Two answers that are related, or the same fault twice. -/
inductive Agree (Q : β → β → Prop) : Except ε β → Except ε β → Prop
  | ok {b b' : β} : Q b b' → Agree Q (.ok b) (.ok b')
  | error (e : ε) : Agree Q (.error e) (.error e)

namespace Agree

variable {Q Q' : β → β → Prop} {P : γ → γ → Prop} {r r' : Except ε β}

theorem refl (r : Except ε β) : Agree Eq r r := by
  cases r with
  | ok b => exact .ok rfl
  | error e => exact .error e

theorem eq (h : Agree Eq r r') : r = r' := by
  cases h with
  | ok h => exact congrArg Except.ok h
  | error e => rfl

theorem imp (h : Agree Q r r') (hQ : ∀ b b', Q b b' → Q' b b') : Agree Q' r r' := by
  cases h with
  | ok h => exact .ok (hQ _ _ h)
  | error e => exact .error e

/-- What is related is what was answered. -/
theorem answered (h : Agree Q r r') : Agree (fun b b' => r = .ok b ∧ Q b b') r r' := by
  cases h with
  | ok h => exact .ok ⟨rfl, h⟩
  | error e => exact .error e

/-- Answers that agree go on to agree if what comes after them does. -/
theorem bind {f f' : β → Except ε γ} (h : Agree Q r r')
    (hnext : ∀ b b', Q b b' → Agree P (f b) (f' b')) : Agree P (r >>= f) (r' >>= f') := by
  cases h with
  | ok h => exact hnext _ _ h
  | error e => exact .error e

theorem map {f f' : β → γ} (h : Agree Q r r') (hf : ∀ b b', Q b b' → P (f b) (f' b')) :
    Agree P (r.map f) (r'.map f') := by
  cases h with
  | ok h => exact .ok (hf _ _ h)
  | error e => exact .error e

end Agree

namespace Stateful

variable {σ α : Type}

/-- Run on related states, the computations give answers that agree and leave related
states. -/
def Parallel (R : σ → σ → Prop) (Q : β → β → Prop) (action action' : Stateful σ α β) : Prop :=
  ∀ s s', R s s' →
    Agree Q (action.runOn s).1 (action'.runOn s').1 ∧ R (action.runOn s).2 (action'.runOn s').2

namespace Parallel

variable {R : σ → σ → Prop} {Q : β → β → Prop} {P : γ → γ → Prop}

theorem pure {b b' : β} (h : Q b b') :
    Parallel R Q (Pure.pure b : Stateful σ α β) (Pure.pure b') := fun _ _ hs => ⟨.ok h, hs⟩

theorem throw (fault : Fault α) :
    Parallel R Q (MonadExcept.throw fault : Stateful σ α β) (MonadExcept.throw fault) :=
  fun _ _ hs => ⟨.error fault, hs⟩

theorem throw_bind (fault : Fault α) (next next' : β → Stateful σ α γ) :
    Parallel R P ((MonadExcept.throw fault : Stateful σ α β) >>= next)
      ((MonadExcept.throw fault : Stateful σ α β) >>= next') := fun _ _ hs => ⟨.error fault, hs⟩

theorem liftM {r r' : Except (Fault α) β} (h : Agree Q r r') :
    Parallel R Q (MonadLiftT.monadLift r : Stateful σ α β) (MonadLiftT.monadLift r') :=
  fun _ _ hs => ⟨h, hs⟩

theorem modify {g g' : σ → σ} (h : ∀ s s', R s s' → R (g s) (g' s')) :
    Parallel R Eq (modify g : Stateful σ α PUnit) (modify g') :=
  fun s s' hs => ⟨.ok rfl, h s s' hs⟩

theorem bind {action action' : Stateful σ α β} {next next' : β → Stateful σ α γ}
    (h : Parallel R Q action action')
    (hnext : ∀ b b', Q b b' → Parallel R P (next b) (next' b')) :
    Parallel R P (action >>= next) (action' >>= next') := by
  intro s s' hs
  rw [runOn_bind, runOn_bind]
  have hrun := h s s' hs
  generalize action.runOn s = run at hrun ⊢
  generalize action'.runOn s' = run' at hrun ⊢
  obtain ⟨answer, t⟩ := run
  obtain ⟨answer', t'⟩ := run'
  obtain ⟨hanswer, hstate⟩ := hrun
  cases hanswer with
  | ok h => exact hnext _ _ h t t' hstate
  | error fault => exact ⟨.error fault, hstate⟩

/-- Two computations that begin with the same answer go in parallel if they do after it, where this
answer was had. -/
theorem liftM_bind {r : Except (Fault α) β} {next next' : β → Stateful σ α γ}
    (h : ∀ b, r = .ok b → Parallel R P (next b) (next' b)) :
    Parallel R P ((MonadLiftT.monadLift r : Stateful σ α β) >>= next)
      ((MonadLiftT.monadLift r : Stateful σ α β) >>= next') := by
  intro s s' hs
  cases r with
  | error fault => exact ⟨.error fault, hs⟩
  | ok b => exact h b rfl s s' hs

/-- States that are read are related. -/
theorem get_bind {next next' : σ → Stateful σ α γ}
    (h : ∀ s s', R s s' → Parallel R P (next s) (next' s')) :
    Parallel R P (get >>= next) (get >>= next') := fun s s' hs => h s s' hs s s' hs

theorem map {action action' : Stateful σ α β} {f f' : β → γ} (h : Parallel R Q action action')
    (hf : ∀ b b', Q b b' → P (f b) (f' b')) : Parallel R P (f <$> action) (f' <$> action') := by
  intro s s' hs
  rw [runOn_map, runOn_map]
  obtain ⟨hanswer, hstate⟩ := h s s' hs
  exact ⟨hanswer.map hf, hstate⟩

/-- What is needed is there in both runs, or in neither. -/
theorem needed {value value' : Option β} (h : Option.Rel Q value value') :
    Parallel R Q (needed value : Stateful σ α β) (Stateful.needed value') := by
  cases h with
  | none => exact throw _
  | some h => exact pure h

/-- A value that is needed is there in both runs, or in neither. -/
theorem needed_self (value : Option β) :
    Parallel R Eq (Stateful.needed value : Stateful σ α β) (Stateful.needed value) := by
  cases value with
  | none => exact throw _
  | some b => exact pure rfl

/-- Runs that go in parallel keep the invariants that the first of them preserves. -/
theorem and_preserves {I : σ → Prop} {action action' : Stateful σ α β}
    (h : Parallel R Q action action') (hI : Preserves I action) :
    Parallel (fun s s' => I s ∧ R s s') Q action action' := by
  intro s s' hs
  obtain ⟨hanswer, hstate⟩ := h s s' hs.2
  exact ⟨hanswer, hI s hs.1, hstate⟩

end Parallel

/-! ## From one relation to another -/

/-- Run on states related by `R`, the computations give answers that agree, and if they
answer they leave states related by `R'`. -/
def Leads (R R' : σ → σ → Prop) (Q : β → β → Prop) (action action' : Stateful σ α β) : Prop :=
  ∀ s s', R s s' → Agree Q (action.runOn s).1 (action'.runOn s').1 ∧
    ∀ b, (action.runOn s).1 = .ok b → R' (action.runOn s).2 (action'.runOn s').2

namespace Leads

variable {R R' R'' : σ → σ → Prop} {Q : β → β → Prop} {P : γ → γ → Prop}

theorem of_parallel {action action' : Stateful σ α β} (h : Parallel R Q action action') :
    Leads R R Q action action' := fun s s' hs => ⟨(h s s' hs).1, fun _ _ => (h s s' hs).2⟩

theorem bind {action action' : Stateful σ α β} {next next' : β → Stateful σ α γ}
    (h : Leads R R' Q action action')
    (hnext : ∀ b b', Q b b' → Leads R' R'' P (next b) (next' b')) :
    Leads R R'' P (action >>= next) (action' >>= next') := by
  intro s s' hs
  rw [runOn_bind, runOn_bind]
  have hrun := h s s' hs
  generalize action.runOn s = run at hrun ⊢
  generalize action'.runOn s' = run' at hrun ⊢
  obtain ⟨answer, t⟩ := run
  obtain ⟨answer', t'⟩ := run'
  obtain ⟨hanswer, hstate⟩ := hrun
  cases hanswer with
  | ok h => exact hnext _ _ h t t' (hstate _ rfl)
  | error fault => exact ⟨.error fault, fun _ h => nomatch h⟩

theorem liftM_bind {r : Except (Fault α) β} {next next' : β → Stateful σ α γ}
    (h : ∀ b, r = .ok b → Leads R R' P (next b) (next' b)) :
    Leads R R' P ((MonadLiftT.monadLift r : Stateful σ α β) >>= next)
      ((MonadLiftT.monadLift r : Stateful σ α β) >>= next') := by
  intro s s' hs
  cases r with
  | error fault => exact ⟨.error fault, fun _ h => nomatch h⟩
  | ok b => exact h b rfl s s' hs

/-- States that are changed are related as `R'` says from there on. -/
theorem modify_bind (R' : σ → σ → Prop) {g g' : σ → σ} {next next' : PUnit → Stateful σ α γ}
    (h : ∀ s s', R s s' → R' (g s) (g' s')) (hnext : Leads R' R'' P (next ⟨⟩) (next' ⟨⟩)) :
    Leads R R'' P ((modify g : Stateful σ α PUnit) >>= next)
      ((modify g' : Stateful σ α PUnit) >>= next') :=
  fun s s' hs => hnext (g s) (g' s') (h s s' hs)

theorem modify {g g' : σ → σ} (h : ∀ s s', R s s' → R' (g s) (g' s')) :
    Leads R R' Eq (modify g : Stateful σ α PUnit) (modify g') :=
  fun s s' hs => ⟨.ok rfl, fun _ _ => h s s' hs⟩

theorem get_bind {next next' : σ → Stateful σ α γ}
    (h : ∀ s s', R s s' → Leads R R' P (next s) (next' s')) :
    Leads R R' P (get >>= next) (get >>= next') := fun s s' hs => h s s' hs s s' hs

end Leads

end Stateful

namespace Krylov

open Stateful

variable {σ α : Type} [Scalar α]

/-! ## Workspaces -/

/-- The workspaces are the same, but for rotations past the columns found so far. -/
structure Workspace.Even (w w' : Workspace α) : Prop where
  basis : w.basis = w'.basis
  columns : w.columns = w'.columns
  settled : w.settled = w'.settled
  remainder : w.remainder = w'.remainder
  length : w.rotations.length = w'.rotations.length
  rotations : w.rotations.take w.columns.length = w'.rotations.take w.columns.length

namespace Workspace.Even

variable {w w' : Workspace α}

/-- A solve starts without a column, so that no rotation is left to be told apart. -/
theorem cleared (h : w.rotations.length = w'.rotations.length) : w.cleared.Even w'.cleared :=
  ⟨rfl, rfl, rfl, rfl, h, rfl⟩

omit [Scalar α] in
theorem seeded (h : w.Even w') (first : Vec α) (β : α) :
    (w.seeded first β).Even (w'.seeded first β) :=
  { h with basis := rfl, remainder := rfl }

omit [Scalar α] in
/-- The rotation found next is set in the same place. -/
theorem take_set {rs rs' : List (Rotation α)} {k : Nat} (hlength : rs.length = rs'.length)
    (h : rs.take k = rs'.take k) (r : Rotation α) :
    (rs.set k r).take (k + 1) = (rs'.set k r).take (k + 1) := by
  rw [List.take_set, List.take_set]
  apply List.ext_getElem
  · simp [hlength]
  · intro i h₁ h₂
    rw [List.length_set, List.length_take] at h₁ h₂
    rw [List.getElem_set, List.getElem_set]
    split
    · rfl
    · have hk : i < k := by omega
      have hi := congrArg (fun l => l[i]?) h
      simp only [List.getElem?_take, if_pos hk] at hi
      rw [List.getElem?_eq_getElem (by omega), List.getElem?_eq_getElem (by omega)] at hi
      simpa using hi

/-- One step is the same on workspaces that differ in unused rotations only. -/
theorem absorb (h : w.Even w') (image : Vec α) :
    (w.absorb image).2 = (w'.absorb image).2 ∧ (w.absorb image).1.Even (w'.absorb image).1 := by
  obtain ⟨basis, columns, rotations, settled, remainder⟩ := w
  obtain ⟨_, _, rotations', _, _⟩ := w'
  obtain ⟨rfl, rfl, rfl, rfl, hlength, hrotations⟩ := h
  dsimp only at hlength hrotations
  simp only [Workspace.absorb, hrotations]
  split
  · exact ⟨rfl, rfl, rfl, rfl, rfl, hlength, hrotations⟩
  · refine ⟨rfl, rfl, rfl, rfl, rfl, ?_, ?_⟩
    · simpa using hlength
    · rw [List.length_append, List.length_singleton]
      exact take_set hlength hrotations _

end Workspace.Even

namespace Solver

variable {w w' : Workspace α}

theorem step_even (solver : Solver α) (h : w.Even w') (β : α) (image : Tensor α) :
    (solver.step β image w).1 = (solver.step β image w').1 ∧
      (solver.step β image w).2.Even (solver.step β image w').2 := by
  rw [step, step]
  rcases solver.imageVector image with fault | v
  · exact ⟨rfl, h⟩
  · obtain ⟨hending, heven⟩ := h.absorb v
    dsimp only
    generalize w.absorb v = next at hending heven ⊢
    generalize w'.absorb v = next' at hending heven ⊢
    obtain ⟨w₁, ending⟩ := next
    obtain ⟨w₁', ending'⟩ := next'
    dsimp only at hending heven
    subst hending
    cases ending with
    | some ending => exact ⟨rfl, heven⟩
    | none =>
        refine ⟨?_, heven⟩
        simp only [within, heven.remainder]

theorem conclude_even (solver : Solver α) (h : w.Even w') (guess : Tensor α) (β : α)
    (ending : Ending) : solver.conclude guess β w ending = solver.conclude guess β w' ending := by
  obtain ⟨basis, columns, rotations, settled, remainder⟩ := w
  obtain ⟨_, _, rotations', _, _⟩ := w'
  obtain ⟨rfl, rfl, rfl, rfl, -, -⟩ := h
  rfl

/-! ## Two solves -/

/-- Two runs of the solver have come to the same end. -/
structure Match (R : σ → σ → Prop) (same : Prop) {γ : Type}
    (run run' : (Except (Fault α) γ × Workspace α) × σ) : Prop where
  answer : run.1.1 = run'.1.1
  even : run.1.2.Even run'.1.2
  /-- What has started in the same workspace ends in the same one. -/
  workspace : same → run.1.2 = run'.1.2
  /-- What is remembered is related if there is an answer. -/
  memory : ∀ b, run.1.1 = .ok b → R run.2 run'.2

variable {R R' : σ → σ → Prop} {equation : Equation (StateM σ) α}

/-- The space grows by the same directions. -/
theorem iterate_match (solver : Solver α)
    (himage : ∀ v, Leads R R Eq (equation.image v) (equation.image v)) (β : α) (left : Nat)
    (hw : w.Even w') {μ μ' : σ} (hμ : R μ μ') :
    Match R (w = w') ((solver.iterate equation β left w).run μ)
      ((solver.iterate equation β left w').run μ') := by
  induction left generalizing w w' μ μ' with
  | zero => exact ⟨rfl, hw, id, fun _ _ => hμ⟩
  | succ left ih =>
      have hdirection : w'.direction = w.direction := by
        rw [Workspace.direction, Workspace.direction, hw.basis]
      rw [iterate, iterate, run_bind, run_bind, hdirection]
      obtain ⟨hanswer, hstate⟩ := himage (.ofVec w.direction) μ μ' hμ
      have hanswer := hanswer.eq
      unfold runOn at hanswer hstate
      rw [← hanswer]
      generalize (equation.image (.ofVec w.direction)).run.run μ = run at hstate ⊢
      obtain ⟨fault | image, μ₁⟩ := run
      · exact ⟨rfl, hw, id, fun _ h => nomatch h⟩
      · obtain ⟨hstep, heven⟩ := solver.step_even hw β image
        have hsame : w = w' → solver.step β image w = solver.step β image w' :=
          fun h => by rw [h]
        dsimp only
        generalize solver.step β image w = next at hstep heven hsame ⊢
        generalize solver.step β image w' = next' at hstep heven hsame ⊢
        obtain ⟨answer, w₁⟩ := next
        obtain ⟨answer', w₁'⟩ := next'
        dsimp only at hstep heven
        subst hstep
        replace hsame : w = w' → w₁ = w₁' := fun h => congrArg Prod.snd (hsame h)
        rcases answer with fault | ending | ending
        · exact ⟨rfl, heven, hsame, fun _ h => nomatch h⟩
        · have hnext := ih heven (hstate image rfl)
          exact { hnext with workspace := fun h => hnext.workspace (hsame h) }
        · exact ⟨rfl, heven, hsame, fun _ _ => hstate image rfl⟩

/-- Two solves come to the same end, whatever has been left in their workspaces. -/
theorem solve_match (solver : Solver α)
    (hresidual : ∀ v, Leads R R' Eq (equation.residual v) (equation.residual v))
    (himage : ∀ v, Leads R' R' Eq (equation.image v) (equation.image v))
    (guess : Option (Tensor α)) (hw : w.rotations.length = w'.rotations.length) {μ μ' : σ}
    (hμ : R μ μ') :
    Match R' (w = w') ((solver.solve equation guess w).run μ)
      ((solver.solve equation guess w').run μ') := by
  have hcleared : w.cleared.Even w'.cleared := .cleared hw
  have hsame (h : w = w') : w.cleared = w'.cleared := congrArg Workspace.cleared h
  rw [solve, solve, run_bind, run_bind]
  obtain ⟨hanswer, hstate⟩ := hresidual (guess.getD (Tensor.zeros [solver.dim])) μ μ' hμ
  have hanswer := hanswer.eq
  unfold runOn at hanswer hstate
  rw [← hanswer]
  generalize (equation.residual (guess.getD (Tensor.zeros [solver.dim]))).run.run μ = run
    at hstate ⊢
  obtain ⟨fault | residual, μ₁⟩ := run
  · exact ⟨rfl, hcleared, hsame, fun _ h => nomatch h⟩
  · dsimp only
    split
    · exact ⟨rfl, hcleared, hsame, fun _ _ => hstate residual rfl⟩
    · rcases (residual.divide residual.norm).vector solver.dim with fault | first
      · exact ⟨rfl, hcleared, hsame, fun _ h => nomatch h⟩
      · dsimp only
        rw [run_bind, run_bind]
        have hrun := iterate_match solver himage residual.norm solver.limit
          (hcleared.seeded first residual.norm) (hstate residual rfl)
        generalize (solver.iterate equation residual.norm solver.limit
          (w.cleared.seeded first residual.norm)).run μ₁ = run at hrun ⊢
        generalize (solver.iterate equation residual.norm solver.limit
          (w'.cleared.seeded first residual.norm)).run
            ((equation.residual (guess.getD (Tensor.zeros [solver.dim]))).run.run μ').2 = run'
          at hrun ⊢
        obtain ⟨⟨answer, w₁⟩, μ₂⟩ := run
        obtain ⟨⟨answer', w₁'⟩, μ₂'⟩ := run'
        obtain ⟨rfl, heven, hworkspace, hmemory⟩ := hrun
        refine ⟨?_, heven, fun h => hworkspace (by rw [hsame h]), fun outcome houtcome => ?_⟩
        · cases answer with
          | error fault => rfl
          | ok ending => exact solver.conclude_even heven _ _ ending
        · obtain ⟨ending, hending, -⟩ := bind_eq_ok_iff.1 houtcome
          exact hmemory ending hending

end Solver

end Krylov

end RecedingHorizon
