import Mathlib.Data.List.Forall2
import RecedingHorizon.Proofs.TwoRuns
import RecedingHorizon.Recurrence

/-!
# Computations that tally

Two runs need not fail with the same fault to fail alike: a fault may quote what was given, and
what was given to the other run may be something else.  Two computations tally if both answer or
both fail, with answers that are related in one way and faults that are related in another.  The
rules are those of computations that agree, which is what tallying comes to if only equal faults
are related; and a relation of faults that relates each to itself lets the same computation stand
among parts that tally.

* `Tally`: related answers or related faults; `Tally.bind`, `Tally.map`, `Tally.same_bind`.
* `Recurrence.collect_tally`, `Recurrence.run_tally`: values found one after the other.
* `Stateful.Abreast`: the same for computations on states that are related throughout.
-/

namespace RecedingHorizon

variable {ε β β' γ γ' : Type}

/-- Two answers that are related by `Q`, or two faults that are related by `E`. -/
inductive Tally (E : ε → ε → Prop) (Q : β → β' → Prop) : Except ε β → Except ε β' → Prop
  | ok {b : β} {b' : β'} : Q b b' → Tally E Q (.ok b) (.ok b')
  | error {e e' : ε} : E e e' → Tally E Q (.error e) (.error e')

namespace Tally

variable {E : ε → ε → Prop} {Q Q' : β → β' → Prop} {P : γ → γ' → Prop} {r : Except ε β}
  {r' : Except ε β'}

theorem imp (h : Tally E Q r r') (hQ : ∀ b b', Q b b' → Q' b b') : Tally E Q' r r' := by
  cases h with
  | ok h => exact .ok (hQ _ _ h)
  | error h => exact .error h

/-- Where the first answers, so does the second. -/
theorem exists_ok (h : Tally E Q r r') {b : β} (hr : r = .ok b) :
    ∃ b', r' = .ok b' ∧ Q b b' := by
  subst hr
  cases h with
  | ok h => exact ⟨_, rfl, h⟩

/-- What comes after two computations that tally goes on to tally. -/
theorem bind {f : β → Except ε γ} {f' : β' → Except ε γ'} (h : Tally E Q r r')
    (hnext : ∀ b b', Q b b' → Tally E P (f b) (f' b')) : Tally E P (r >>= f) (r' >>= f') := by
  cases h with
  | ok h => exact hnext _ _ h
  | error h => exact .error h

theorem map {f : β → γ} {f' : β' → γ'} (h : Tally E Q r r')
    (hf : ∀ b b', Q b b' → P (f b) (f' b')) : Tally E P (r.map f) (r'.map f') := by
  cases h with
  | ok h => exact .ok (hf _ _ h)
  | error h => exact .error h

/-- A computation tallies with itself, where each fault is related to itself. -/
theorem refl (hE : ∀ e, E e e) (r : Except ε β) : Tally E Eq r r := by
  cases r with
  | ok b => exact .ok rfl
  | error e => exact .error (hE e)

/-- A computation and what a function makes of its answer. -/
theorem of_map (hE : ∀ e, E e e) {f : β → β'} (h : r' = r.map f) :
    Tally E (fun b b' => b' = f b) r r' := by
  subst h
  cases r with
  | ok b => exact .ok rfl
  | error e => exact .error (hE e)

/-- Two computations that begin with the same one tally if they do after every answer of it. -/
theorem same_bind (hE : ∀ e, E e e) {f : β → Except ε γ} {f' : β → Except ε γ'}
    (r : Except ε β) (hnext : ∀ b, r = .ok b → Tally E P (f b) (f' b)) :
    Tally E P (r >>= f) (r >>= f') := by
  cases r with
  | ok b => exact hnext b rfl
  | error e => exact .error (hE e)

end Tally

/-! ## Values found one from the other -/

namespace Recurrence

variable {E : ε → ε → Prop} {Q : β → β' → Prop}

theorem continued_tally {step : Nat → β → Except ε β} {step' : Nat → β' → Except ε β'}
    (hstep : ∀ i b b', Q b b' → Tally E Q (step i b) (step' i b')) (left i : Nat) {b : β} {b' : β'}
    (h : Q b b') {found : List β} {found' : List β'} (hfound : List.Forall₂ Q found found') :
    Tally E (List.Forall₂ Q) (continued step left i b found)
      (continued step' left i b' found') := by
  induction left generalizing i b b' found found' with
  | zero => exact .ok (List.rel_reverse hfound)
  | succ left ih =>
      rw [continued, continued]
      have hnext := hstep i b b' h
      generalize step i b = next at hnext ⊢
      generalize step' i b' = next' at hnext ⊢
      cases hnext with
      | ok hnext => exact ih (i + 1) hnext (.cons hnext hfound)
      | error h => exact .error h

/-- Runs tally whose steps lead from related values to values that tally. -/
theorem run_tally {step : Nat → β → Except ε β} {step' : Nat → β' → Except ε β'}
    (hstep : ∀ i b b', Q b b' → Tally E Q (step i b) (step' i b')) (n : Nat) {b : β} {b' : β'}
    (h : Q b b') : Tally E (List.Forall₂ Q) (run step n b) (run step' n b') :=
  continued_tally hstep n 0 h (.cons h .nil)

theorem collectFrom_tally {f : Nat → Except ε β} {f' : Nat → Except ε β'}
    (hf : ∀ i, Tally E Q (f i) (f' i)) (left i : Nat) {found : List β} {found' : List β'}
    (hfound : List.Forall₂ Q found found') :
    Tally E (List.Forall₂ Q) (collectFrom f left i found) (collectFrom f' left i found') := by
  induction left generalizing i found found' with
  | zero => exact .ok (List.rel_reverse hfound)
  | succ left ih =>
      rw [collectFrom, collectFrom]
      have hi := hf i
      generalize f i = next at hi ⊢
      generalize f' i = next' at hi ⊢
      cases hi with
      | ok h => exact ih (i + 1) (.cons h hfound)
      | error h => exact .error h

theorem collect_tally {f : Nat → Except ε β} {f' : Nat → Except ε β'}
    (hf : ∀ i, Tally E Q (f i) (f' i)) (n : Nat) :
    Tally E (List.Forall₂ Q) (collect f n) (collect f' n) := collectFrom_tally hf n 0 .nil

end Recurrence

/-! ## Computations on states -/

namespace Stateful

variable {σ σ' α : Type}

/-- Run on related states, the computations tally, and leave related states. -/
def Abreast (R : σ → σ' → Prop) (E : Fault α → Fault α → Prop) (Q : β → β' → Prop)
    (action : Stateful σ α β) (action' : Stateful σ' α β') : Prop :=
  ∀ s s', R s s' →
    Tally E Q (action.runOn s).1 (action'.runOn s').1 ∧ R (action.runOn s).2 (action'.runOn s').2

namespace Abreast

variable {R : σ → σ' → Prop} {E : Fault α → Fault α → Prop} {Q : β → β' → Prop}
  {P : γ → γ' → Prop}

theorem pure {b : β} {b' : β'} (h : Q b b') :
    Abreast R E Q (Pure.pure b : Stateful σ α β) (Pure.pure b') := fun _ _ hs => ⟨.ok h, hs⟩

theorem throw {fault fault' : Fault α} (h : E fault fault') :
    Abreast R E Q (MonadExcept.throw fault : Stateful σ α β) (MonadExcept.throw fault') :=
  fun _ _ hs => ⟨.error h, hs⟩

theorem liftM {r : Except (Fault α) β} {r' : Except (Fault α) β'} (h : Tally E Q r r') :
    Abreast R E Q (MonadLiftT.monadLift r : Stateful σ α β) (MonadLiftT.monadLift r') :=
  fun _ _ hs => ⟨h, hs⟩

theorem bind {action : Stateful σ α β} {action' : Stateful σ' α β'} {next : β → Stateful σ α γ}
    {next' : β' → Stateful σ' α γ'} (h : Abreast R E Q action action')
    (hnext : ∀ b b', Q b b' → Abreast R E P (next b) (next' b')) :
    Abreast R E P (action >>= next) (action' >>= next') := by
  intro s s' hs
  rw [runOn_bind, runOn_bind]
  have hrun := h s s' hs
  generalize action.runOn s = run at hrun ⊢
  generalize action'.runOn s' = run' at hrun ⊢
  obtain ⟨answer, t⟩ := run
  obtain ⟨answer', t'⟩ := run'
  obtain ⟨hanswer, hstate⟩ := hrun
  cases hanswer with
  | ok h => exact hnext _ _ h t t' hstate
  | error h => exact ⟨.error h, hstate⟩

/-- What is looked up without the state tallies, and so does what comes after it. -/
theorem liftM_bind {r : Except (Fault α) β} {r' : Except (Fault α) β'} {next : β → Stateful σ α γ}
    {next' : β' → Stateful σ' α γ'} (h : Tally E Q r r')
    (hnext : ∀ b b', Q b b' → Abreast R E P (next b) (next' b')) :
    Abreast R E P ((MonadLiftT.monadLift r : Stateful σ α β) >>= next)
      ((MonadLiftT.monadLift r' : Stateful σ' α β') >>= next') := (liftM h).bind hnext

/-- States that are changed may come to be related more closely, as long as what comes after
keeps them so. -/
theorem modify_bind_of (R' : σ → σ' → Prop) {g : σ → σ} {g' : σ' → σ'}
    {next : PUnit → Stateful σ α γ} {next' : PUnit → Stateful σ' α γ'}
    (h : ∀ s s', R s s' → R' (g s) (g' s')) (hR : ∀ s s', R' s s' → R s s')
    (hnext : Abreast R' E P (next ⟨⟩) (next' ⟨⟩)) :
    Abreast R E P ((modify g : Stateful σ α PUnit) >>= next)
      ((modify g' : Stateful σ' α PUnit) >>= next') := by
  intro s s' hs
  obtain ⟨hanswer, hleft⟩ := hnext (g s) (g' s') (h s s' hs)
  exact ⟨hanswer, hR _ _ hleft⟩

/-- States that are changed alike stay related. -/
theorem modify_bind {g : σ → σ} {g' : σ' → σ'} {next : PUnit → Stateful σ α γ}
    {next' : PUnit → Stateful σ' α γ'} (h : ∀ s s', R s s' → R (g s) (g' s'))
    (hnext : Abreast R E P (next ⟨⟩) (next' ⟨⟩)) :
    Abreast R E P ((modify g : Stateful σ α PUnit) >>= next)
      ((modify g' : Stateful σ' α PUnit) >>= next') := modify_bind_of R h (fun _ _ => id) hnext

theorem modify {g : σ → σ} {g' : σ' → σ'} (h : ∀ s s', R s s' → R (g s) (g' s')) :
    Abreast R E Eq (modify g : Stateful σ α PUnit) (modify g') :=
  fun s s' hs => ⟨.ok rfl, h s s' hs⟩

/-- States that are read are related. -/
theorem get_bind {next : σ → Stateful σ α γ} {next' : σ' → Stateful σ' α γ'}
    (h : ∀ s s', R s s' → Abreast R E P (next s) (next' s')) :
    Abreast R E P (get >>= next) (get >>= next') := fun s s' hs => h s s' hs s s' hs

theorem map {action : Stateful σ α β} {action' : Stateful σ' α β'} {f : β → γ} {f' : β' → γ'}
    (h : Abreast R E Q action action') (hf : ∀ b b', Q b b' → P (f b) (f' b')) :
    Abreast R E P (f <$> action) (f' <$> action') := by
  intro s s' hs
  rw [runOn_map, runOn_map]
  obtain ⟨hanswer, hstate⟩ := h s s' hs
  exact ⟨hanswer.map hf, hstate⟩

/-- What is needed is there in both runs, or in neither. -/
theorem needed (hE : ∀ e, E e e) (value : Option β) (f : β → β') :
    Abreast R E (fun b b' => b' = f b) (needed value : Stateful σ α β)
      (Stateful.needed (value.map f)) := by
  cases value with
  | none => exact throw (hE _)
  | some b => exact pure rfl

end Abreast

end Stateful

end RecedingHorizon
