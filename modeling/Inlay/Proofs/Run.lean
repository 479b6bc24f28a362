import Mathlib

/-!
# Running steps

Every step of the library may fail and changes a state. These are the equations that open such a step, and
what a list of questions answers.

Main statements: `run_bind`, `run_tryCatch`, `run_mapM_cons`, `exists_of_run_mapM_append` for steps taken one after
the other, and `mapM_eq_ok_iff`, `filterM_eq_ok_iff` for questions.
-/

namespace Inlay

variable {ε σ α β : Type}

theorem run_bind (step : ExceptT ε (StateM σ) α) (next : α → ExceptT ε (StateM σ) β) (s : σ) :
    (step >>= next).run.run s =
      match step.run.run s with
      | (.ok a, s') => (next a).run.run s'
      | (.error e, s') => (.error e, s') := by
  simp only [ExceptT.run, StateT.run, Bind.bind, ExceptT.bind, ExceptT.mk, StateT.bind]
  cases step s with
  | mk result s' => cases result <;> rfl

/-- A sequence that ends well has gone well so far, and goes on from there. -/
theorem exists_of_run_bind {step : ExceptT ε (StateM σ) α} {next : α → ExceptT ε (StateM σ) β}
    {s s' : σ} {b : β} (h : (step >>= next).run.run s = (.ok b, s')) :
    ∃ a s₁, step.run.run s = (.ok a, s₁) ∧ (next a).run.run s₁ = (.ok b, s') := by
  rw [run_bind] at h
  split at h
  · rename_i a s₁ hstep
    exact ⟨a, s₁, hstep, h⟩
  · cases h

theorem run_get_bind (next : σ → ExceptT ε (StateM σ) β) (s : σ) :
    (get >>= next).run.run s = (next s).run.run s := rfl

theorem run_pure (a : α) (s : σ) :
    (pure a : ExceptT ε (StateM σ) α).run.run s = (.ok a, s) := rfl

theorem run_map (f : α → β) (step : ExceptT ε (StateM σ) α) (s : σ) :
    (f <$> step).run.run s = ((step.run.run s).1.map f, (step.run.run s).2) := by
  rw [← bind_pure_comp, run_bind]
  cases step.run.run s with
  | mk result s' => cases result <;> rfl

theorem run_tryCatch (step : ExceptT ε (StateM σ) α) (handle : ε → ExceptT ε (StateM σ) α) (s : σ) :
    (tryCatch step handle).run.run s =
      match step.run.run s with
      | (.ok a, s') => (.ok a, s')
      | (.error e, s') => (handle e).run.run s' := by
  show (ExceptT.tryCatch step handle).run.run s = _
  simp only [ExceptT.run, StateT.run, Bind.bind, ExceptT.tryCatch, ExceptT.mk, StateT.bind]
  cases step s with
  | mk result s' => cases result <;> rfl

theorem run_mapM_cons (step : α → ExceptT ε (StateM σ) β) (a : α) (as : List α) (s : σ) :
    ((a :: as).mapM step).run.run s =
      match (step a).run.run s with
      | (.ok b, s') =>
        match (as.mapM step).run.run s' with
        | (.ok bs, s'') => (.ok (b :: bs), s'')
        | (.error e, s'') => (.error e, s'')
      | (.error e, s') => (.error e, s') := by
  rw [List.mapM_cons, run_bind]
  cases (step a).run.run s with
  | mk result s' =>
    cases result with
    | error e => rfl
    | ok b =>
      dsimp only
      rw [run_bind]
      cases (as.mapM step).run.run s' with
      | mk result s'' => cases result <;> rfl

/-- A list that is run through to its end is run through up to any of its elements, with the element, and behind
it. -/
theorem exists_of_run_mapM_append {step : α → ExceptT ε (StateM σ) β} {before after : List α} {a : α}
    {bs : List β} {s s' : σ} (h : ((before ++ a :: after).mapM step).run.run s = (.ok bs, s')) :
    ∃ firsts b others s₁ s₂, bs = firsts ++ b :: others ∧ (before.mapM step).run.run s = (.ok firsts, s₁) ∧
      (step a).run.run s₁ = (.ok b, s₂) ∧ (after.mapM step).run.run s₂ = (.ok others, s') := by
  rw [List.mapM_append, List.mapM_cons] at h
  obtain ⟨firsts, s₁, hfirsts, h⟩ := exists_of_run_bind h
  obtain ⟨_, _, h, hpure⟩ := exists_of_run_bind h
  cases hpure
  obtain ⟨b, s₂, hb, h⟩ := exists_of_run_bind h
  obtain ⟨others, _, hothers, h⟩ := exists_of_run_bind h
  cases h
  exact ⟨firsts, b, others, s₁, s₂, rfl, hfirsts, hb, hothers⟩

/-! ## Lists of questions -/

theorem filterAuxM_eq {m : Type → Type} [Monad m] [LawfulMonad m] {α : Type} (p : α → m Bool)
    (as acc : List α) :
    List.filterAuxM p as acc = (fun kept => kept ++ acc) <$> List.filterAuxM p as [] := by
  induction as generalizing acc with
  | nil => simp [List.filterAuxM]
  | cons a as ih =>
    unfold List.filterAuxM
    rw [map_bind]
    refine bind_congr fun b => ?_
    rw [ih, ih (bif b then a :: [] else [])]
    cases b <;> simp

/-- Filtering takes the elements one after the other. -/
theorem filterM_cons {m : Type → Type} [Monad m] [LawfulMonad m] {α : Type} (p : α → m Bool) (a : α)
    (as : List α) :
    (a :: as).filterM p = (do
      let b ← p a
      let kept ← as.filterM p
      pure (if b then a :: kept else kept)) := by
  unfold List.filterM
  rw [List.filterAuxM, bind_assoc]
  refine bind_congr fun b => ?_
  rw [filterAuxM_eq]
  cases b <;> simp

/-- What a question answers; something when it fails. -/
def answerOf [Inhabited α] : Except ε α → α
  | .ok a => a
  | .error _ => default

@[simp] theorem answerOf_ok [Inhabited α] (a : α) : answerOf (.ok a : Except ε α) = a := rfl

theorem bind_eq_ok_iff {x : Except ε α} {f : α → Except ε β} {b : β} :
    (x >>= f) = .ok b ↔ ∃ a, x = .ok a ∧ f a = .ok b := by
  cases x <;> simp [bind, Except.bind]

theorem pure_eq_ok_iff {a b : α} : (pure a : Except ε α) = .ok b ↔ b = a := by
  simp [pure, Except.pure, eq_comm]

/-- Questions that are asked one after the other are all answered, or one of them fails. -/
theorem mapM_eq_ok_iff [Inhabited β] {f : α → Except ε β} {as : List α} {bs : List β} :
    as.mapM f = .ok bs ↔ (∀ a ∈ as, ∃ b, f a = .ok b) ∧ bs = as.map fun a => answerOf (f a) := by
  induction as generalizing bs with
  | nil =>
    show (pure [] : Except ε (List β)) = .ok bs ↔ _
    simp [pure_eq_ok_iff]
  | cons a as ih =>
    rw [List.mapM_cons]
    simp only [bind_eq_ok_iff, ih, pure_eq_ok_iff]
    constructor
    · rintro ⟨b, hb, _, ⟨hall, rfl⟩, rfl⟩
      exact ⟨List.forall_mem_cons.mpr ⟨⟨b, hb⟩, hall⟩, by rw [List.map_cons, hb, answerOf_ok]⟩
    · rintro ⟨hall, rfl⟩
      obtain ⟨⟨b, hb⟩, hrest⟩ := List.forall_mem_cons.mp hall
      exact ⟨b, hb, _, ⟨hrest, rfl⟩, by rw [List.map_cons, hb, answerOf_ok]⟩

theorem filterM_eq_ok_iff {p : α → Except ε Bool} {as kept : List α} :
    as.filterM p = .ok kept ↔
      (∀ a ∈ as, ∃ b, p a = .ok b) ∧ kept = as.filter fun a => answerOf (p a) := by
  induction as generalizing kept with
  | nil =>
    show (pure [] : Except ε (List α)) = .ok kept ↔ _
    simp [pure_eq_ok_iff]
  | cons a as ih =>
    rw [filterM_cons]
    simp only [bind_eq_ok_iff, ih, pure_eq_ok_iff]
    constructor
    · rintro ⟨b, hb, _, ⟨hall, rfl⟩, rfl⟩
      exact ⟨List.forall_mem_cons.mpr ⟨⟨b, hb⟩, hall⟩, by rw [List.filter_cons, hb, answerOf_ok]⟩
    · rintro ⟨hall, rfl⟩
      obtain ⟨⟨b, hb⟩, hrest⟩ := List.forall_mem_cons.mp hall
      exact ⟨b, hb, _, ⟨hrest, rfl⟩, by rw [List.filter_cons, hb, answerOf_ok]⟩

end Inlay
