import RecedingHorizon.Fault

/-!
# Computations on a state

Some parts of the solver remember what earlier calls have found.  Such a call is
a computation on a state that answers or fails; what it has changed before it
fails stays changed.

`Stateful.runOn` is the one view of such a computation, the answer beside the
state at the end, and the lemmas `runOn_pure`, `runOn_bind`, `runOn_get`,
`runOn_modify` and so on say what each way of forming one does to it.  A property of
states that a computation `Preserves` holds at the end if it holds at the start,
whether the computation answers or fails.
-/

namespace RecedingHorizon

/-- A computation on a state that answers or fails.  The state is that at the end
in either case. -/
abbrev Stateful (σ α β : Type) := ExceptT (Fault α) (StateM σ) β

namespace Stateful

variable {σ α β : Type}

/-- A value that an earlier call has to have left. -/
def needed (value : Option β) : Stateful σ α β :=
  match value with
  | some b => pure b
  | none => throw .unprepared

/-- Run on a state: the answer, and the state at the end. -/
def runOn (action : Stateful σ α β) (state : σ) : Except (Fault α) β × σ :=
  action.run.run state

@[simp] theorem runOn_pure (b : β) (s : σ) :
    (pure b : Stateful σ α β).runOn s = (.ok b, s) := rfl

@[simp] theorem runOn_throw (fault : Fault α) (s : σ) :
    (throw fault : Stateful σ α β).runOn s = (.error fault, s) := rfl

@[simp] theorem runOn_get (s : σ) : (get : Stateful σ α σ).runOn s = (.ok s, s) := rfl

@[simp] theorem runOn_modify (g : σ → σ) (s : σ) :
    (modify g : Stateful σ α PUnit).runOn s = (.ok ⟨⟩, g s) := rfl

@[simp] theorem runOn_liftM (r : Except (Fault α) β) (s : σ) :
    (liftM r : Stateful σ α β).runOn s = (r, s) := rfl

@[simp] theorem runOn_needed (value : Option β) (s : σ) :
    (needed value : Stateful σ α β).runOn s =
      (match value with
        | some b => .ok b
        | none => .error .unprepared, s) := by
  cases value <;> rfl

/-- A second computation runs on the state the first has left, unless the first
has failed. -/
theorem runOn_bind {γ : Type} (action : Stateful σ α β) (next : β → Stateful σ α γ) (s : σ) :
    (action >>= next).runOn s =
      match action.runOn s with
      | (.ok b, s) => (next b).runOn s
      | (.error fault, s) => (.error fault, s) := by
  show ExceptT.bindCont (m := StateM σ) next (action s).1 (action s).2 =
    match action s with
    | (.ok b, s) => (next b).runOn s
    | (.error fault, s) => (.error fault, s)
  rcases action s with ⟨_ | _, _⟩ <;> rfl

/-- Two computations answer one after the other if both do. -/
theorem runOn_bind_eq_ok_iff {γ : Type} {action : Stateful σ α β} {next : β → Stateful σ α γ}
    {s s'' : σ} {d : γ} :
    (action >>= next).runOn s = (.ok d, s'') ↔
      ∃ b s', action.runOn s = (.ok b, s') ∧ (next b).runOn s' = (.ok d, s'') := by
  rw [runOn_bind]
  rcases action.runOn s with ⟨fault | b, s'⟩
  · constructor
    · intro h
      cases h
    · rintro ⟨b, s', h, -⟩
      cases h
  · constructor
    · intro h
      exact ⟨b, s', rfl, h⟩
    · rintro ⟨b', s₁, h, hnext⟩
      cases h
      exact hnext

/-- Two computations one after the other fail if the first does, or the second on the state that the
first has left. -/
theorem runOn_bind_eq_error_iff {γ : Type} {action : Stateful σ α β} {next : β → Stateful σ α γ}
    {s s'' : σ} {fault : Fault α} :
    (action >>= next).runOn s = (.error fault, s'') ↔
      action.runOn s = (.error fault, s'') ∨
        ∃ b s', action.runOn s = (.ok b, s') ∧ (next b).runOn s' = (.error fault, s'') := by
  rw [runOn_bind]
  rcases action.runOn s with ⟨fault' | b, s'⟩
  · constructor
    · intro h
      cases h
      exact .inl rfl
    · rintro (h | ⟨b, s', h, -⟩)
      · cases h
        rfl
      · cases h
  · constructor
    · intro h
      exact .inr ⟨b, s', rfl, h⟩
    · rintro (h | ⟨b', s₁, h, hnext⟩)
      · cases h
      · cases h
        exact hnext

/-- What comes after an answer, or after the state has been read, goes on from there. -/
theorem runOn_ok_bind {γ : Type} (b : β) (next : β → Stateful σ α γ) (s : σ) :
    ((liftM (.ok b : Except (Fault α) β) : Stateful σ α β) >>= next).runOn s =
      (next b).runOn s := rfl

theorem runOn_get_bind {γ : Type} (next : σ → Stateful σ α γ) (s : σ) :
    (get >>= next).runOn s = (next s).runOn s := rfl

/-- What goes on without the state is a computation without it. -/
theorem runOn_liftM_bind {γ : Type} {r : Except (Fault α) β} {next : β → Stateful σ α γ}
    {f : β → Except (Fault α) γ} {s : σ} (h : ∀ b, (next b).runOn s = (f b, s)) :
    ((liftM r : Stateful σ α β) >>= next).runOn s = (r >>= f, s) := by
  cases r with
  | error fault => rfl
  | ok b => exact h b

theorem runOn_liftM_eq_ok_iff {r : Except (Fault α) β} {b : β} {s s' : σ} :
    (liftM r : Stateful σ α β).runOn s = (.ok b, s') ↔ r = .ok b ∧ s = s' := by
  rw [runOn_liftM, Prod.mk.injEq]

/-- Of two computations that do not fail the second runs on the state the first has left. -/
theorem run_bind {γ : Type} (action : StateM σ β) (next : β → StateM σ γ) (s : σ) :
    (action >>= next).run s = (next (action.run s).1).run (action.run s).2 := rfl

@[simp] theorem runOn_map {γ : Type} (action : Stateful σ α β) (g : β → γ) (s : σ) :
    (g <$> action).runOn s = ((action.runOn s).1.map g, (action.runOn s).2) := by
  rw [map_eq_pure_bind, runOn_bind]
  rcases action.runOn s with ⟨_ | _, _⟩ <;> rfl

/-! ## Invariants -/

/-- What holds of the state at the start holds of that at the end. -/
def Preserves (I : σ → Prop) (action : Stateful σ α β) : Prop :=
  ∀ s, I s → I (action.runOn s).2

namespace Preserves

variable {γ : Type} {I : σ → Prop}

theorem pure (b : β) : Preserves (α := α) I (Pure.pure b) := fun _ hs => hs

theorem throw (fault : Fault α) : Preserves I (MonadExcept.throw fault : Stateful σ α β) :=
  fun _ hs => hs

theorem liftM (r : Except (Fault α) β) : Preserves I (MonadLiftT.monadLift r : Stateful σ α β) :=
  fun _ hs => hs

theorem needed (value : Option β) : Preserves I (needed value : Stateful σ α β) := by
  cases value with
  | none => exact throw _
  | some b => exact pure b

theorem modify {g : σ → σ} (h : ∀ s, I s → I (g s)) :
    Preserves (α := α) I (modify g : Stateful σ α PUnit) := h

theorem bind {action : Stateful σ α β} {next : β → Stateful σ α γ} (h : Preserves I action)
    (hnext : ∀ b, Preserves I (next b)) : Preserves I (action >>= next) := by
  intro s hs
  rw [runOn_bind]
  have hmid := h s hs
  rcases hrun : action.runOn s with ⟨_ | b, s'⟩
  · rw [hrun] at hmid
    exact hmid
  · rw [hrun] at hmid
    exact hnext b s' hmid

/-- What comes after a given answer need only preserve what holds once there is one. -/
theorem liftM_bind {r : Except (Fault α) β} {next : β → Stateful σ α γ}
    (h : ∀ b, r = .ok b → Preserves I (next b)) :
    Preserves I ((MonadLiftT.monadLift r : Stateful σ α β) >>= next) := by
  intro s hs
  cases r with
  | error fault => exact hs
  | ok b => exact h b rfl s hs

/-- A state that is read has the property. -/
theorem get_bind {next : σ → Stateful σ α γ} (h : ∀ s, I s → Preserves I (next s)) :
    Preserves I (get >>= next) := fun s hs => h s hs s hs

theorem map {action : Stateful σ α β} (h : Preserves I action) (g : β → γ) :
    Preserves I (g <$> action) := by
  intro s hs
  rw [runOn_map]
  exact h s hs

end Preserves

end Stateful

end RecedingHorizon
