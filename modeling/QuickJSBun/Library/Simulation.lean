import QuickJSBun.Library.Effect

/-! Two computations side by side. One simulates the other if both end alike from related
states and leave related states; one includes the other if it returns whatever that returns.
-/

set_option autoImplicit false

namespace QuickJSBun.Library.Effect

variable {σ τ ε α β : Type}

/-! ### Simulation -/

/-- From related states both end alike, and the states stay related. -/
def Simulates (R : σ → τ → Prop) (x : Effect σ ε α) (y : Effect τ ε α) : Prop :=
  ∀ s t, R s t → ∃ outcome s' t', x.run s = (outcome, s') ∧ y.run t = (outcome, t') ∧ R s' t'

section
variable {R : σ → τ → Prop} {x : Effect σ ε α} {y : Effect τ ε α}

theorem Simulates.pure (a : α) :
    Simulates R (Pure.pure a : Effect σ ε α) (Pure.pure a : Effect τ ε α) :=
  fun s t related => ⟨.ok a, s, t, rfl, rfl, related⟩

theorem Simulates.throw (e : ε) :
    Simulates R (Effect.throw e : Effect σ ε α) (Effect.throw e : Effect τ ε α) :=
  fun s t related => ⟨.error e, s, t, rfl, rfl, related⟩

theorem Simulates.modify {f : σ → σ} {g : τ → τ} (moves : ∀ s t, R s t → R (f s) (g t)) :
    Simulates R (Effect.modify f : Effect σ ε Unit) (Effect.modify g : Effect τ ε Unit) :=
  fun s t related => ⟨.ok (), f s, g t, rfl, rfl, moves s t related⟩

theorem Simulates.lift {f : σ → α × σ} {g : τ → α × τ}
    (moves : ∀ s t, R s t → (f s).1 = (g t).1 ∧ R (f s).2 (g t).2) :
    Simulates R (Effect.lift f : Effect σ ε α) (Effect.lift g : Effect τ ε α) := by
  intro s t related
  obtain ⟨same, moved⟩ := moves s t related
  exact ⟨.ok (g t).1, (f s).2, (g t).2, congrArg (fun a => (Except.ok a, (f s).2)) same, rfl, moved⟩

theorem Simulates.get_bind {f : σ → Effect σ ε β} {g : τ → Effect τ ε β}
    (next : ∀ s t, R s t → Simulates R (f s) (g t)) :
    Simulates R (Effect.get >>= f) (Effect.get >>= g) :=
  fun s t related => next s t related s t related

theorem Simulates.bind {f : α → Effect σ ε β} {g : α → Effect τ ε β} (first : Simulates R x y)
    (next : ∀ a, Simulates R (f a) (g a)) : Simulates R (x >>= f) (y >>= g) := by
  intro s t related
  obtain ⟨outcome, s', t', runs, mirrors, later⟩ := first s t related
  cases outcome with
  | ok a =>
    rw [bind_ok runs, bind_ok mirrors]
    exact next a s' t' later
  | error e => exact ⟨.error e, s', t', bind_error runs, bind_error mirrors, later⟩

theorem Simulates.tryCatch {handler : ε → Effect σ ε α} {other : ε → Effect τ ε α}
    (body : Simulates R x y) (handles : ∀ e, Simulates R (handler e) (other e)) :
    Simulates R (Effect.tryCatch x handler) (Effect.tryCatch y other) := by
  intro s t related
  obtain ⟨outcome, s', t', runs, mirrors, later⟩ := body s t related
  simp only [Effect.tryCatch, runs, mirrors]
  cases outcome with
  | ok a => exact ⟨.ok a, s', t', rfl, rfl, later⟩
  | error e => exact handles e s' t' later

theorem Simulates.tryFinally {cleanup : Effect σ ε Unit} {other : Effect τ ε Unit}
    (body : Simulates R x y) (cleans : Simulates R cleanup other) :
    Simulates R (Effect.tryFinally x cleanup) (Effect.tryFinally y other) := by
  intro s t related
  obtain ⟨outcome, s', t', runs, mirrors, later⟩ := body s t related
  obtain ⟨done, s'', t'', cleaned, cleaned', last⟩ := cleans s' t' later
  simp only [Effect.tryFinally, runs, mirrors]
  cases outcome with
  | ok a =>
    simp only [cleaned, cleaned']
    cases done with
    | ok _ => exact ⟨.ok a, s'', t'', rfl, rfl, last⟩
    | error e => exact ⟨.error e, s'', t'', rfl, rfl, last⟩
  | error e =>
    simp only [cleaned, cleaned']
    cases done with
    | ok _ => exact ⟨.error e, s'', t'', rfl, rfl, last⟩
    | error f => exact ⟨.error f, s'', t'', rfl, rfl, last⟩

theorem Simulates.ite {condition : Prop} [Decidable condition] {x' : Effect σ ε α}
    {y' : Effect τ ε α} (yes : Simulates R x y) (no : Simulates R x' y') :
    Simulates R (if condition then x else x') (if condition then y else y') := by
  split
  · exact yes
  · exact no

theorem Simulates.check (condition : Bool) (e : ε) :
    Simulates R (Effect.check condition e : Effect σ ε Unit) (Effect.check condition e) := by
  cases condition with
  | true => exact Simulates.pure ()
  | false => exact Simulates.throw e

theorem Simulates.forEach {body : β → Effect σ ε Unit} {other : β → Effect τ ε Unit}
    (round : ∀ item, Simulates R (body item) (other item)) (items : List β) :
    Simulates R (Effect.forEach body items) (Effect.forEach other items) := by
  induction items with
  | nil => exact Simulates.pure ()
  | cons item rest ih =>
    apply Simulates.bind (round item)
    intro _
    exact ih

end

/-! ### Simulation up to what is returned -/

/-- Both end alike but for what they return, which is seen through a function. -/
def SimulatesTo (f : α → β) (R : σ → τ → Prop) (x : Effect σ ε α) (y : Effect τ ε β) : Prop :=
  ∀ s t, R s t → ∃ outcome s' t', x.run s = (outcome, s') ∧ y.run t = (outcome.map f, t') ∧ R s' t'

section
variable {γ : Type} {f : α → β} {R : σ → τ → Prop} {x : Effect σ ε α} {y : Effect τ ε β}

theorem SimulatesTo.pure (a : α) :
    SimulatesTo f R (Pure.pure a : Effect σ ε α) (Pure.pure (f a) : Effect τ ε β) :=
  fun s t related => ⟨.ok a, s, t, rfl, rfl, related⟩

theorem SimulatesTo.throw (e : ε) :
    SimulatesTo f R (Effect.throw e : Effect σ ε α) (Effect.throw e : Effect τ ε β) :=
  fun s t related => ⟨.error e, s, t, rfl, rfl, related⟩

theorem SimulatesTo.bind {z : Effect σ ε γ} {u : Effect τ ε γ} {g : γ → Effect σ ε α}
    {h : γ → Effect τ ε β} (first : Simulates R z u) (next : ∀ c, SimulatesTo f R (g c) (h c)) :
    SimulatesTo f R (z >>= g) (u >>= h) := by
  intro s t related
  obtain ⟨outcome, s', t', runs, mirrors, later⟩ := first s t related
  cases outcome with
  | ok c =>
    rw [bind_ok runs, bind_ok mirrors]
    exact next c s' t' later
  | error e => exact ⟨.error e, s', t', bind_error runs, bind_error mirrors, later⟩

theorem SimulatesTo.bindTo {δ : Type} {k : γ → δ} {z : Effect σ ε γ} {u : Effect τ ε δ}
    {g : γ → Effect σ ε α} {h : δ → Effect τ ε β} (first : SimulatesTo k R z u)
    (next : ∀ c, SimulatesTo f R (g c) (h (k c))) : SimulatesTo f R (z >>= g) (u >>= h) := by
  intro s t related
  obtain ⟨outcome, s', t', runs, mirrors, later⟩ := first s t related
  cases outcome with
  | ok c =>
    rw [bind_ok runs, bind_ok mirrors]
    exact next c s' t' later
  | error e => exact ⟨.error e, s', t', bind_error runs, bind_error mirrors, later⟩

theorem SimulatesTo.tryFinally {cleanup : Effect σ ε Unit} {other : Effect τ ε Unit}
    (body : SimulatesTo f R x y) (cleans : Simulates R cleanup other) :
    SimulatesTo f R (Effect.tryFinally x cleanup) (Effect.tryFinally y other) := by
  intro s t related
  obtain ⟨outcome, s', t', runs, mirrors, later⟩ := body s t related
  obtain ⟨done, s'', t'', cleaned, cleaned', last⟩ := cleans s' t' later
  simp only [Effect.tryFinally, runs, mirrors]
  cases outcome with
  | ok a =>
    simp only [Except.map, cleaned, cleaned']
    cases done with
    | ok _ => exact ⟨.ok a, s'', t'', rfl, rfl, last⟩
    | error e => exact ⟨.error e, s'', t'', rfl, rfl, last⟩
  | error e =>
    simp only [Except.map, cleaned, cleaned']
    cases done with
    | ok _ => exact ⟨.error e, s'', t'', rfl, rfl, last⟩
    | error e' => exact ⟨.error e', s'', t'', rfl, rfl, last⟩

theorem SimulatesTo.ite {condition : Prop} [Decidable condition] {x' : Effect σ ε α}
    {y' : Effect τ ε β} (yes : SimulatesTo f R x y) (no : SimulatesTo f R x' y') :
    SimulatesTo f R (if condition then x else x') (if condition then y else y') := by
  split
  · exact yes
  · exact no

end

/-! ### Inclusion -/

-- What the first returns the second returns as well.
def Includes (x y : Effect σ ε α) : Prop := ∀ s a s', x.run s = (.ok a, s') → y.run s = (.ok a, s')

section
variable {x y : Effect σ ε α}

theorem Includes.refl (x : Effect σ ε α) : Includes x x := fun _ _ _ returns => returns

theorem Includes.throw_bind {f : β → ε} (x : Effect σ ε β) (y : Effect σ ε α) :
    Includes (x >>= fun b => Effect.throw (f b)) y := by
  intro s a s' returns
  obtain ⟨b, s'', -, never⟩ := bind_returned returns
  cases never

theorem Includes.bind {f g : α → Effect σ ε β} (first : Includes x y)
    (next : ∀ a, Includes (f a) (g a)) : Includes (x >>= f) (y >>= g) := by
  intro s b s' returns
  obtain ⟨a, s'', runs, rest⟩ := bind_returned returns
  rw [bind_ok (first s a s'' runs)]
  exact next a s'' b s' rest

theorem Includes.ite {condition : Prop} [Decidable condition] {x' y' : Effect σ ε α}
    (yes : Includes x y) (no : Includes x' y') :
    Includes (if condition then x else x') (if condition then y else y') := by
  split
  · exact yes
  · exact no

theorem Includes.tryFinally {cleanup : Effect σ ε Unit} (body : Includes x y) :
    Includes (Effect.tryFinally x cleanup) (Effect.tryFinally y cleanup) := by
  intro s a s' returns
  unfold Effect.tryFinally at returns ⊢
  cases runs : x.run s with
  | mk outcome s'' =>
    cases outcome with
    | ok b => simpa only [body s b s'' runs, runs] using returns
    | error e =>
      simp only [runs] at returns
      split at returns
      · cases returns
      · cases returns

end

end QuickJSBun.Library.Effect
