import Mathlib.Logic.Basic

/-! Computations over a state that may throw. A throw keeps the state it was thrown in,
so that handlers and cleanups see what was done before. Triples say what a computation
ensures when it returns and when it throws.
-/

set_option autoImplicit false

namespace QuickJSBun.Library

structure Effect (σ ε α : Type) where
  run : σ → Except ε α × σ

namespace Effect

variable {σ ε α β : Type}

protected def pure (a : α) : Effect σ ε α := ⟨fun s => (.ok a, s)⟩

protected def bind (x : Effect σ ε α) (f : α → Effect σ ε β) : Effect σ ε β := ⟨fun s =>
  match x.run s with
  | (.ok a, s) => (f a).run s
  | (.error e, s) => (.error e, s)⟩

instance : Monad (Effect σ ε) where
  pure := Effect.pure
  bind := Effect.bind

def throw (e : ε) : Effect σ ε α := ⟨fun s => (.error e, s)⟩

def get : Effect σ ε σ := ⟨fun s => (.ok s, s)⟩

def modify (f : σ → σ) : Effect σ ε Unit := ⟨fun s => (.ok (), f s)⟩

def lift (step : σ → α × σ) : Effect σ ε α := ⟨fun s => (.ok (step s).1, (step s).2)⟩

def tryCatch (x : Effect σ ε α) (handler : ε → Effect σ ε α) : Effect σ ε α := ⟨fun s =>
  match x.run s with
  | (.ok a, s) => (.ok a, s)
  | (.error e, s) => (handler e).run s⟩

/-- The cleanup runs on both ways out; what it throws replaces the outcome. -/
def tryFinally (x : Effect σ ε α) (cleanup : Effect σ ε Unit) : Effect σ ε α := ⟨fun s =>
  match x.run s with
  | (.ok a, s) =>
    match cleanup.run s with
    | (.ok _, s) => (.ok a, s)
    | (.error e, s) => (.error e, s)
  | (.error e, s) =>
    match cleanup.run s with
    | (.ok _, s) => (.error e, s)
    | (.error e, s) => (.error e, s)⟩

def check (condition : Bool) (e : ε) : Effect σ ε Unit :=
  if condition then Effect.pure () else throw e

protected theorem bind_assoc {γ : Type} (x : Effect σ ε α) (f : α → Effect σ ε β)
    (g : β → Effect σ ε γ) : x >>= f >>= g = x >>= fun a => f a >>= g := by
  show Effect.bind (Effect.bind x f) g = Effect.bind x fun a => Effect.bind (f a) g
  unfold Effect.bind
  congr 1
  funext s
  dsimp only
  split
  · next found => split at found <;> simp_all
  · next found => split at found <;> simp_all

instance : LawfulMonad (Effect σ ε) :=
  LawfulMonad.mk' _
    (fun x => by
      show Effect.bind x Effect.pure = x
      unfold Effect.bind
      congr 1
      funext s
      split
      · next found => exact found.symm
      · next found => exact found.symm)
    (fun _ _ => rfl) Effect.bind_assoc

/-- `for (const item of items) body(item)` -/
def forEach (body : β → Effect σ ε Unit) : List β → Effect σ ε Unit
  | [] => Effect.pure ()
  | item :: rest => do
    body item
    forEach body rest

theorem bind_ok {x : Effect σ ε α} {f : α → Effect σ ε β} {s s' : σ} {a : α}
    (runs : x.run s = (.ok a, s')) : (x >>= f).run s = (f a).run s' := by
  show (Effect.bind x f).run s = _
  simp only [Effect.bind, runs]

theorem bind_error {x : Effect σ ε α} {f : α → Effect σ ε β} {s s' : σ} {e : ε}
    (runs : x.run s = (.error e, s')) : (x >>= f).run s = (.error e, s') := by
  show (Effect.bind x f).run s = _
  simp only [Effect.bind, runs]

-- What a sequence returns its second part returns, after the first has.
theorem bind_returned {x : Effect σ ε α} {f : α → Effect σ ε β} {s s' : σ} {b : β}
    (runs : (x >>= f).run s = (.ok b, s')) :
    ∃ a s'', x.run s = (.ok a, s'') ∧ (f a).run s'' = (.ok b, s') := by
  cases first : x.run s with
  | mk outcome s'' =>
    cases outcome with
    | ok a =>
      rw [bind_ok first] at runs
      exact ⟨a, s'', rfl, runs⟩
    | error e =>
      rw [bind_error first] at runs
      cases runs

/-! ### Triples -/

def Triple (pre : σ → Prop) (x : Effect σ ε α) (post : α → σ → Prop) (fails : ε → σ → Prop) :
    Prop :=
  ∀ s, pre s →
    match x.run s with
    | (.ok a, s') => post a s'
    | (.error e, s') => fails e s'

variable {pre : σ → Prop} {post : α → σ → Prop} {fails : ε → σ → Prop}

theorem Triple.returned {x : Effect σ ε α} (triple : Triple pre x post fails) {s s' : σ} {a : α}
    (start : pre s) (runs : x.run s = (.ok a, s')) : post a s' := by
  have ends := triple s start
  rwa [runs] at ends

theorem Triple.thrown {x : Effect σ ε α} (triple : Triple pre x post fails) {s s' : σ} {e : ε}
    (start : pre s) (runs : x.run s = (.error e, s')) : fails e s' := by
  have ends := triple s start
  rwa [runs] at ends

theorem Triple.pure (a : α) (ends : ∀ s, pre s → post a s) :
    Triple pre (Pure.pure a : Effect σ ε α) post fails :=
  fun s start => ends s start

theorem Triple.throw (e : ε) (ends : ∀ s, pre s → fails e s) :
    Triple pre (Effect.throw e : Effect σ ε α) post fails :=
  fun s start => ends s start

theorem Triple.bind {x : Effect σ ε α} {f : α → Effect σ ε β} {Q : α → σ → Prop}
    {post : β → σ → Prop} (first : Triple pre x Q fails)
    (next : ∀ a, Triple (Q a) (f a) post fails) : Triple pre (x >>= f) post fails := by
  intro s start
  have ends := first s start
  show match (Effect.bind x f).run s with
    | (.ok b, s') => post b s'
    | (.error e, s') => fails e s'
  unfold Effect.bind
  split at ends
  · next a s' runs =>
      simp only [runs]
      exact next a s' ends
  · next e s' runs =>
      simp only [runs]
      exact ends

theorem Triple.get {post : σ → σ → Prop} (ends : ∀ s, pre s → post s s) :
    Triple pre (Effect.get : Effect σ ε σ) post fails :=
  fun s start => ends s start

theorem Triple.modify {f : σ → σ} {post : Unit → σ → Prop} (ends : ∀ s, pre s → post () (f s)) :
    Triple pre (Effect.modify f : Effect σ ε Unit) post fails :=
  fun s start => ends s start

theorem Triple.get_bind {s : σ} {f : σ → Effect σ ε α}
    (continues : Triple (· = s) (f s) post fails) :
    Triple (· = s) (Effect.get >>= f) post fails := by
  rintro s rfl
  exact continues s rfl

theorem Triple.modify_bind {s : σ} {f : σ → σ} {g : Unit → Effect σ ε α}
    (continues : Triple (· = f s) (g ()) post fails) :
    Triple (· = s) (Effect.modify f >>= g) post fails := by
  rintro s rfl
  exact continues (f s) rfl

theorem Triple.lift {step : σ → α × σ} (ends : ∀ s, pre s → post (step s).1 (step s).2) :
    Triple pre (Effect.lift step : Effect σ ε α) post fails :=
  fun s start => ends s start

theorem Triple.weaken {pre' : σ → Prop} {post' : α → σ → Prop} {fails' : ε → σ → Prop}
    {x : Effect σ ε α} (triple : Triple pre' x post' fails') (starts : ∀ s, pre s → pre' s)
    (returns : ∀ a s, post' a s → post a s) (throws : ∀ e s, fails' e s → fails e s) :
    Triple pre x post fails := by
  intro s start
  have ends := triple s (starts s start)
  split at ends
  · exact returns _ _ ends
  · exact throws _ _ ends

theorem Triple.throwless {x : Effect σ ε α} (triple : Triple pre x post fun _ _ => False) :
    Triple pre x post fails :=
  triple.weaken (fun _ start => start) (fun _ _ ends => ends) fun _ _ never => never.elim

theorem Triple.both {post' : α → σ → Prop} {fails' : ε → σ → Prop} {x : Effect σ ε α}
    (one : Triple pre x post fails) (other : Triple pre x post' fails') :
    Triple pre x (fun a s => post a s ∧ post' a s) fun e s => fails e s ∧ fails' e s := by
  intro s start
  have first := one s start
  have second := other s start
  split at first
  · next runs =>
      rw [runs] at second
      exact ⟨first, second⟩
  · next runs =>
      rw [runs] at second
      exact ⟨first, second⟩

theorem Triple.any (x : Effect σ ε α) : Triple pre x (fun _ _ => True) (fun _ _ => True) := by
  intro s _
  split
  · trivial
  · trivial

theorem Triple.each {x : Effect σ ε α} (triples : ∀ s, pre s → Triple (· = s) x post fails) :
    Triple pre x post fails :=
  fun s start => triples s start s rfl

theorem Triple.tryCatch {x : Effect σ ε α} {handler : ε → Effect σ ε α} {caught : ε → σ → Prop}
    (body : Triple pre x post caught) (handles : ∀ e, Triple (caught e) (handler e) post fails) :
    Triple pre (Effect.tryCatch x handler) post fails := by
  intro s start
  have ends := body s start
  unfold Effect.tryCatch
  split at ends
  · next runs =>
      simp only [runs]
      exact ends
  · next e s' runs =>
      simp only [runs]
      exact handles e s' ends

theorem Triple.tryFinally {x : Effect σ ε α} {cleanup : Effect σ ε Unit} {returned : α → σ → Prop}
    {thrown : ε → σ → Prop} (body : Triple pre x returned thrown)
    (afterReturn : ∀ a, Triple (returned a) cleanup (fun _ s => post a s) fails)
    (afterThrow : ∀ e, Triple (thrown e) cleanup (fun _ s => fails e s) fails) :
    Triple pre (Effect.tryFinally x cleanup) post fails := by
  intro s start
  have ends := body s start
  unfold Effect.tryFinally
  split at ends
  · next a s' runs =>
      have cleaned := afterReturn a s' ends
      simp only [runs]
      split at cleaned
      · next runs => simpa only [runs] using cleaned
      · next runs => simpa only [runs] using cleaned
  · next e s' runs =>
      have cleaned := afterThrow e s' ends
      simp only [runs]
      split at cleaned
      · next runs => simpa only [runs] using cleaned
      · next runs => simpa only [runs] using cleaned

-- What is thrown after a computation that may throw as well.
theorem Triple.thenThrow {x : Effect σ ε β} {raise : β → ε}
    (ends : ∀ s, pre s → ∀ e s', fails e s') :
    Triple pre (x >>= fun b => (Effect.throw (raise b) : Effect σ ε α)) post fails := by
  intro s start
  have all := ends s start
  cases runs : x.run s with
  | mk outcome s' =>
    cases outcome with
    | ok b =>
      rw [bind_ok runs]
      exact all _ _
    | error e =>
      rw [bind_error runs]
      exact all _ _

theorem Triple.check {condition : Bool} {e : ε} {post : Unit → σ → Prop}
    (ends : ∀ s, pre s → condition = true → post () s)
    (throws : ∀ s, pre s → condition = false → fails e s) :
    Triple pre (Effect.check condition e) post fails := by
  intro s start
  unfold Effect.check
  cases condition with
  | true => exact ends s start rfl
  | false => exact throws s start rfl

theorem Triple.ite {condition : Prop} [Decidable condition] {x y : Effect σ ε α}
    (yes : condition → Triple pre x post fails) (no : ¬condition → Triple pre y post fails) :
    Triple pre (if condition then x else y) post fails := by
  split
  · next holds => exact yes holds
  · next fails => exact no fails

theorem Triple.forEach {body : β → Effect σ ε Unit} {items : List β} {kept : σ → Prop}
    (round : ∀ item ∈ items, Triple kept (body item) (fun _ => kept) fails) :
    Triple kept (Effect.forEach body items) (fun _ => kept) fails := by
  induction items with
  | nil => exact fun s start => start
  | cons item rest ih =>
    refine Triple.bind (round item List.mem_cons_self) fun _ => ?_
    exact ih fun other member => round other (List.mem_cons_of_mem _ member)

/-! ### What stays -/

section
variable {τ : Type}

-- Whatever the outcome, what is observed of the state stays.
def Keeps (observe : σ → τ) (x : Effect σ ε α) : Prop := ∀ s, observe (x.run s).2 = observe s

variable {observe : σ → τ} {x : Effect σ ε α}

theorem Keeps.pure (a : α) : Keeps observe (Pure.pure a : Effect σ ε α) := fun _ => rfl

theorem Keeps.throw (e : ε) : Keeps observe (Effect.throw e : Effect σ ε α) := fun _ => rfl

theorem Keeps.get : Keeps observe (Effect.get : Effect σ ε σ) := fun _ => rfl

theorem Keeps.modify {f : σ → σ} (same : ∀ s, observe (f s) = observe s) :
    Keeps observe (Effect.modify f : Effect σ ε Unit) := same

theorem Keeps.lift {step : σ → α × σ} (same : ∀ s, observe (step s).2 = observe s) :
    Keeps observe (Effect.lift step : Effect σ ε α) := same

theorem Keeps.bind {f : α → Effect σ ε β} (first : Keeps observe x)
    (next : ∀ a, Keeps observe (f a)) : Keeps observe (x >>= f) := by
  intro s
  have same := first s
  cases runs : x.run s with
  | mk outcome s' =>
    rw [runs] at same
    cases outcome with
    | ok a =>
      rw [bind_ok runs]
      exact (next a s').trans same
    | error e =>
      rw [bind_error runs]
      exact same

theorem Keeps.tryCatch {handler : ε → Effect σ ε α} (body : Keeps observe x)
    (handles : ∀ e, Keeps observe (handler e)) : Keeps observe (Effect.tryCatch x handler) := by
  intro s
  have same := body s
  cases runs : x.run s with
  | mk outcome s' =>
    rw [runs] at same
    cases outcome with
    | ok a => simpa only [Effect.tryCatch, runs] using same
    | error e =>
      simp only [Effect.tryCatch, runs]
      exact (handles e s').trans same

theorem Keeps.tryFinally {cleanup : Effect σ ε Unit} (body : Keeps observe x)
    (cleans : Keeps observe cleanup) : Keeps observe (Effect.tryFinally x cleanup) := by
  intro s
  have same := body s
  cases runs : x.run s with
  | mk outcome s' =>
    rw [runs] at same
    have cleaned := cleans s'
    cases ends : cleanup.run s' with
    | mk done s'' =>
      rw [ends] at cleaned
      have both := cleaned.trans same
      cases outcome with
      | ok a => cases done <;> simpa only [Effect.tryFinally, runs, ends] using both
      | error e => cases done <;> simpa only [Effect.tryFinally, runs, ends] using both

theorem Keeps.triple (keeps : Keeps observe x) (holds : τ → Prop) :
    Triple (fun s => holds (observe s)) x (fun _ s => holds (observe s)) fun _ s =>
      holds (observe s) := by
  intro s start
  have same := keeps s
  cases runs : x.run s with
  | mk outcome s' =>
    rw [runs] at same
    cases outcome with
    | ok a =>
      show holds (observe s')
      rwa [same]
    | error e =>
      show holds (observe s')
      rwa [same]

theorem Keeps.of_triple
    (triples : ∀ t, Triple (fun s => observe s = t) x (fun _ s => observe s = t) fun _ s =>
      observe s = t) :
    Keeps observe x := by
  intro s
  cases runs : x.run s with
  | mk outcome s' =>
    cases outcome with
    | ok a => exact (triples _).returned rfl runs
    | error e => exact (triples _).thrown rfl runs

theorem Keeps.check (condition : Bool) (e : ε) :
    Keeps observe (Effect.check condition e : Effect σ ε Unit) := by
  unfold Effect.check
  split
  · exact Keeps.pure ()
  · exact Keeps.throw e

theorem Keeps.ite {condition : Prop} [Decidable condition] {y : Effect σ ε α}
    (yes : Keeps observe x) (no : Keeps observe y) :
    Keeps observe (if condition then x else y) := by
  split
  · exact yes
  · exact no

theorem Keeps.forEach {body : β → Effect σ ε Unit} (round : ∀ item, Keeps observe (body item))
    (items : List β) : Keeps observe (Effect.forEach body items) := by
  induction items with
  | nil => exact Keeps.pure ()
  | cons item rest ih => exact Keeps.bind (round item) fun _ => ih

end

/-! ### What never throws -/

section
variable {x : Effect σ ε α}

def Returns (x : Effect σ ε α) : Prop := ∀ s e s', x.run s ≠ (.error e, s')

theorem Triple.returning {fails' : ε → σ → Prop} (triple : Triple pre x post fails)
    (returns : Returns x) : Triple pre x post fails' := by
  intro s start
  cases runs : x.run s with
  | mk outcome s' =>
    cases outcome with
    | ok a => exact triple.returned start runs
    | error e => exact absurd runs (returns s e s')

theorem Returns.pure (a : α) : Returns (Pure.pure a : Effect σ ε α) := fun _ _ _ => nofun

theorem Returns.get : Returns (Effect.get : Effect σ ε σ) := fun _ _ _ => nofun

theorem Returns.modify (f : σ → σ) : Returns (Effect.modify f : Effect σ ε Unit) :=
  fun _ _ _ => nofun

theorem Returns.lift (step : σ → α × σ) : Returns (Effect.lift step : Effect σ ε α) :=
  fun _ _ _ => nofun

theorem Returns.bind {f : α → Effect σ ε β} (first : Returns x) (next : ∀ a, Returns (f a)) :
    Returns (x >>= f) := by
  intro s e s' throws
  cases runs : x.run s with
  | mk outcome s'' =>
    cases outcome with
    | ok a =>
      rw [bind_ok runs] at throws
      exact next a s'' e s' throws
    | error e' => exact first s e' s'' runs

theorem Returns.ite {condition : Prop} [Decidable condition] {y : Effect σ ε α} (yes : Returns x)
    (no : Returns y) : Returns (if condition then x else y) := by
  split
  · exact yes
  · exact no

theorem Returns.forEach {body : β → Effect σ ε Unit} (round : ∀ item, Returns (body item))
    (items : List β) : Returns (Effect.forEach body items) := by
  induction items with
  | nil => exact Returns.pure ()
  | cons item rest ih => exact Returns.bind (round item) fun _ => ih

end

/-! ### Two computations that do the same -/

-- From the states in question both run alike.
def Agree (pre : σ → Prop) (x y : Effect σ ε α) : Prop := ∀ s, pre s → x.run s = y.run s

theorem Agree.refl (x : Effect σ ε α) : Agree pre x x := fun _ _ => rfl

theorem Agree.bind {x y : Effect σ ε α} {f g : α → Effect σ ε β} {Q : α → σ → Prop}
    (first : Agree pre x y) (ends : Triple pre x Q fun _ _ => True)
    (next : ∀ a, Agree (Q a) (f a) (g a)) : Agree pre (x >>= f) (y >>= g) := by
  intro s start
  have same := first s start
  cases runs : x.run s with
  | mk outcome s' =>
    rw [runs] at same
    cases outcome with
    | ok a =>
      rw [bind_ok runs, bind_ok same.symm]
      exact next a s' (ends.returned start runs)
    | error e => rw [bind_error runs, bind_error same.symm]

-- Loops agree whose rounds agree and keep what the agreement rests on.
theorem Agree.forEach {body other : β → Effect σ ε Unit}
    (round : ∀ item, Agree pre (body item) (other item))
    (keeps : ∀ item, Triple pre (body item) (fun _ => pre) fun _ _ => True) (items : List β) :
    Agree pre (Effect.forEach body items) (Effect.forEach other items) := by
  induction items with
  | nil => exact Agree.refl _
  | cons item rest ih => exact Agree.bind (round item) (keeps item) fun _ => ih

end Effect

end QuickJSBun.Library
