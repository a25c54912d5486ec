import QuickJSBun.Context.Lawful
import QuickJSBun.Library.Simulation

/-! The exceptions that are taken from the engine in the course of a call. An engine is given a list
in which it notes each of them, with the world it was taken in. Its runs are those of the engine
itself, and the list says which exceptions could not be described.
-/

set_option autoImplicit false

namespace QuickJSBun.Context

open Library Effect

variable {σ V α β : Type}

/-- An exception as the engine gave it, and the world that was left. -/
structure Taking (σ : Type) where
  value : Value
  world : World σ

abbrev Noted (σ : Type) := σ × List (Taking σ)

def World.plain (w : World (Noted σ)) : World σ := w.withGuest w.guest.1

def World.noted (w : World σ) (takings : List (Taking σ)) : World (Noted σ) :=
  w.withGuest (w.guest, takings)

def Native.takings (native : Native) (reply : native.Reply) (w : World σ) : List (Taking σ) :=
  match native, reply with
  | .getException, value => [⟨value, w⟩]
  | .timeoutError, value => if value = .exception then [] else [⟨value, w⟩]
  | _, _ => []

def Engine.noting (engine : Engine σ) : Engine (Noted σ) where
  call native w :=
    let (reply, w') := engine.call native w.plain
    (reply, w'.noted (w.guest.2 ++ (native.takings reply w')))

-- Host code sees nothing of the notes.
def noting (x : Run σ V α) : Run (Noted σ) V α := ⟨fun w =>
  let (outcome, w') := x.run w.plain
  (outcome, w'.noted w.guest.2)⟩

def Host.noting (host : Host V σ) : Host V (Noted σ) where
  callable := host.callable
  numeral := host.numeral
  ask op := Context.noting (host.ask op)

/-- The exceptions that are taken in a run of the noting engine. -/
def takings (x : Run (Noted σ) V α) (w : World σ) : List (Taking σ) :=
  (x.run (w.noted [])).2.guest.2

section
variable (engine : Engine σ) (host : Host V σ)

/-- What the constructor of `JSException` makes of an exception. -/
def Taking.describe (taking : Taking σ) : Run σ V (HostValue V) := do
  let value ← newHandle taking.value true
  Context.describe engine host (.throw .undefined) value

def Taking.Describable (taking : Taking σ) : Prop :=
  ∃ exception s, (taking.describe engine host).run taking.world = (.ok exception, s)

/-- Every exception that is taken in the run can be described, if it holds a reference at all. -/
def Described (x : Run (Noted σ) V α) (w : World σ) : Prop :=
  ∀ taking ∈ takings x w, taking.value.tag < 0 → taking.Describable engine host

def Taking.described (taking : Taking σ) : Bool :=
  match ((taking.describe engine host).run taking.world).1 with
  | .ok _ => true
  | .error _ => false

theorem Taking.described_iff (taking : Taking σ) :
    taking.described engine host = true ↔ taking.Describable engine host := by
  unfold Taking.described Taking.Describable
  cases runs : (taking.describe engine host).run taking.world with
  | mk outcome s =>
    cases outcome with
    | ok exception => simp
    | error e => simp

instance (taking : Taking σ) : Decidable (taking.Describable engine host) :=
  decidable_of_iff _ (taking.described_iff engine host)

instance (x : Run (Noted σ) V α) (w : World σ) : Decidable (Described engine host x w) :=
  inferInstanceAs
    (Decidable (∀ taking ∈ takings x w, taking.value.tag < 0 → taking.Describable engine host))

end

def Taking.handle (taking : Taking σ) : JSValue := taking.world.handles.length

/-! ### Describing does not depend on how a failure is read -/

section
variable (engine : Engine σ) (host : Host V σ) (gE gE' : Run σ V (HostValue V))

theorem includes_throwException (y : Run σ V α) : Includes (throwException gE) y :=
  Includes.throw_bind _ _

theorem includes_resultValue (cell : Value) :
    Includes (resultValue gE cell) (resultValue gE' cell) := by
  apply Includes.bind (Includes.refl _)
  intro value
  exact Includes.ite (includes_throwException gE _) (Includes.refl _)

theorem includes_type (h : JSValue) : Includes (type engine gE h) (type engine gE' h) := by
  apply Includes.bind (Includes.refl _)
  intro value
  apply Includes.bind (Includes.refl _)
  intro code
  exact Includes.ite (includes_throwException gE _) (Includes.refl _)

theorem includes_readText (h : JSValue) :
    Includes (readText engine gE h) (readText engine gE' h) := by
  apply Includes.bind (Includes.refl _)
  intro w
  apply Includes.bind (Includes.refl _)
  intro value
  apply Includes.bind (Includes.refl _)
  intro bytes
  cases bytes with
  | none => exact includes_throwException gE _
  | some bytes =>
    apply Includes.ite (Includes.refl _)
    apply Includes.bind (Includes.refl _)
    intro _
    apply Includes.bind (Includes.refl _)
    intro again
    cases again with
    | none => exact includes_throwException gE _
    | some again => exact Includes.refl _

theorem includes_newString (value : Text) :
    Includes (newString engine gE value) (newString engine gE' value) := by
  apply Includes.ite
  · exact Includes.bind (Includes.refl _) fun out => includes_resultValue gE gE' out
  · exact Includes.bind (Includes.refl _) fun out => includes_resultValue gE gE' out

theorem includes_internAtom (key : Text) :
    Includes (internAtom engine gE key) (internAtom engine gE' key) := by
  apply Includes.ite (Includes.refl _)
  apply Includes.bind (includes_newString engine gE gE' key)
  intro text
  apply Includes.tryFinally
  apply Includes.bind (Includes.refl _)
  intro value
  apply Includes.bind (Includes.refl _)
  intro atom
  exact Includes.ite (includes_throwException gE _) (Includes.refl _)

theorem includes_atom (key : Text) : Includes (atom engine gE key) (atom engine gE' key) := by
  apply Includes.bind (Includes.refl _)
  intro w
  cases w.atoms.find? (·.1 == key) with
  | some entry => exact Includes.refl _
  | none =>
    apply Includes.bind (Includes.refl _)
    intro _
    apply Includes.bind (includes_internAtom engine gE gE' key)
    intro atom
    exact Includes.ite (includes_throwException gE _) (Includes.refl _)

theorem includes_getDataProp (object : JSValue) (key : Text) :
    Includes (getDataProp engine gE object key) (getDataProp engine gE' object key) := by
  apply Includes.bind (Includes.refl _)
  intro value
  apply Includes.bind (includes_atom engine gE gE' key)
  intro atom
  exact Includes.bind (Includes.refl _) fun out => includes_resultValue gE gE' out

theorem includes_toBigInt (h : JSValue) :
    Includes (toBigInt engine gE h) (toBigInt engine gE' h) := by
  apply Includes.bind (Includes.refl _)
  intro value
  apply Includes.ite
  · exact Includes.throw_bind _ _
  · apply Includes.bind (Includes.refl _)
    intro read
    apply Includes.ite (includes_throwException gE _)
    apply Includes.ite (Includes.refl _)
    exact Includes.bind (includes_readText engine gE gE' h) fun _ => Includes.refl _

theorem includes_primitive (h : JSValue) :
    Includes (primitive engine host gE h) (primitive engine host gE' h) := by
  apply Includes.bind (Includes.refl _)
  intro value
  have bigint : Includes
      (do let value ← toBigInt engine gE h; pure (some (decimal value)) : Run σ V (Option Text))
      (do let value ← toBigInt engine gE' h; pure (some (decimal value))) :=
    Includes.bind (includes_toBigInt engine gE gE' h) fun _ => Includes.refl _
  have string : Includes
      (do let value ← readText engine gE h; pure (some value) : Run σ V (Option Text))
      (do let value ← readText engine gE' h; pure (some value)) :=
    Includes.bind (includes_readText engine gE gE' h) fun _ => Includes.refl _
  cases value with
  | shortBigInt => exact bigint
  | heap tag =>
    cases tag with
    | bigInt => exact bigint
    | string => exact string
    | stringRope => exact string
    | _ => exact Includes.refl _
  | _ => exact Includes.refl _

theorem includes_errorProperty (h : JSValue) (name : String) :
    Includes (errorProperty engine host gE h name) (errorProperty engine host gE' h name) := by
  apply Includes.bind (includes_getDataProp engine gE gE' h (text name))
  intro value
  apply Includes.tryFinally
  apply Includes.bind (Includes.refl _)
  intro cell
  exact Includes.ite (Includes.refl _) (includes_primitive engine host gE gE' value)

theorem includes_thrownMessage (h : JSValue) :
    Includes (thrownMessage engine host gE h) (thrownMessage engine host gE' h) := by
  apply Includes.bind (includes_type engine gE gE' h)
  intro type
  cases type with
  | error => exact Includes.bind (includes_errorProperty engine host gE gE' h _) fun _ =>
    Includes.refl _
  | undefined | null | boolean | number | bigint | string =>
    exact Includes.bind (includes_primitive engine host gE gE' h) fun _ => Includes.refl _
  | _ => exact Includes.refl _

theorem includes_describe (h : JSValue) :
    Includes (describe engine host gE h) (describe engine host gE' h) := by
  apply Includes.bind (includes_type engine gE gE' h)
  intro type
  apply Includes.ite
  · apply Includes.bind (includes_errorProperty engine host gE gE' h _)
    intro name
    apply Includes.bind (includes_errorProperty engine host gE gE' h _)
    intro message
    exact Includes.bind (includes_errorProperty engine host gE gE' h _) fun _ => Includes.refl _
  · exact Includes.bind (includes_thrownMessage engine host gE gE' h) fun _ => Includes.refl _

end

/-! ### The noting engine runs as the engine does -/

/-- What leaves alone the handles' values and what is not in the source. -/
structure Untouched (w w' : World σ) : Prop where
  undescribed : w'.undescribed = w.undescribed
  valued : Valued w w'

/-- The engine and the host have no part in what is not in the source, and no handle is ever
forgotten. -/
structure Unaware (engine : Engine σ) (host : Host V σ) : Prop where
  native : ∀ native w, Untouched w (engine.call native w).2
  asked : ∀ op w, Untouched w ((host.ask op).run w).2

/-- The two runs from `w₀` side by side. What is lost is what was taken and could not be described;
`due` are the handles of exceptions that are being described. -/
structure Mirrors (engine : Engine σ) (host : Host V σ) (w₀ : World σ) (due : JSValue → Prop)
    (n : World (Noted σ)) (w : World σ) : Prop where
  plain : n.plain = w
  valued : Valued w₀ w
  values : ∀ taking ∈ n.guest.2, w₀.handles.length ≤ taking.handle ∧
    ∃ handle, w.handles[taking.handle]? = some handle ∧ handle.value = taking.value
  lost : ∀ h, h ∈ w.undescribed ∨ due h ↔
    h ∈ w₀.undescribed ∨ ∃ taking ∈ n.guest.2, taking.handle = h ∧ ¬taking.Describable engine host

def Notes (engine : Engine σ) (host : Host V σ) (y : Run (Noted σ) V α) (x : Run σ V α) : Prop :=
  ∀ w₀ due, Simulates (Mirrors engine host w₀ due) y x

theorem Valued.refl (w : World σ) : Valued w w := fun _ handle found => ⟨handle, found, rfl⟩

theorem Valued.length_le {w w' : World σ} (valued : Valued w w') :
    w.handles.length ≤ w'.handles.length := by
  by_contra shorter
  obtain ⟨later, found, -⟩ :=
    valued w'.handles.length _ (List.getElem?_eq_getElem (Nat.lt_of_not_le shorter))
  exact absurd (List.getElem?_eq_some_iff.mp found).1 (Nat.lt_irrefl _)

theorem valued_append (w : World σ) (handles : List Handle) :
    Valued w { w with handles := w.handles ++ handles } :=
  fun _ handle found =>
    ⟨handle, (List.getElem?_append_left (List.getElem?_eq_some_iff.mp found).1).trans found, rfl⟩

theorem valued_set {w : World σ} {h : JSValue} {handle : Handle}
    (same : handle.value = (w.handle h).value) :
    Valued w { w with handles := w.handles.set h handle } := by
  intro k other found
  by_cases isThis : h = k
  · subst isThis
    refine ⟨handle, List.getElem?_set_self (List.getElem?_eq_some_iff.mp found).1, ?_⟩
    rw [same, World.handle, found, Option.getD_some]
  · exact ⟨other, (List.getElem?_set_ne isThis).trans found, rfl⟩

-- What acts by moves has no part in what is not in the source.
theorem Move.untouched {flight flight' : List Nat} {w w' : World σ}
    (move : Move flight w flight' w') : Untouched w w' := by
  cases move with
  | expose foreign value => exact ⟨rfl, valued_append w _⟩
  | dispose h handle found =>
    refine ⟨rfl, valued_set ?_⟩
    rw [World.handle, found, Option.getD_some]
  | _ => exact ⟨rfl, Valued.refl w⟩

theorem Acts.untouched {flight flight' : List Nat} {w w' : World σ}
    (acts : Acts flight w flight' w') : Untouched w w' := by
  induction acts with
  | @nothing flight w => exact ⟨rfl, Valued.refl w⟩
  | move first _ ih =>
    exact ⟨ih.undescribed.trans first.untouched.undescribed, first.untouched.valued.trans ih.valued⟩

section
variable {engine : Engine σ} {host : Host V σ} {w₀ : World σ} {due : JSValue → Prop}

theorem Mirrors.step {n n' : World (Noted σ)} {w w' : World σ}
    (mirrors : Mirrors engine host w₀ due n w) (plain : n'.plain = w')
    (same : n'.guest.2 = n.guest.2) (untouched : Untouched w w') :
    Mirrors engine host w₀ due n' w' where
  plain := plain
  valued := mirrors.valued.trans untouched.valued
  values taking member := by
    obtain ⟨above, handle, found, value⟩ := mirrors.values taking (same ▸ member)
    obtain ⟨later, still, sameValue⟩ := untouched.valued _ handle found
    exact ⟨above, later, still, sameValue.trans value⟩
  lost h := by
    rw [untouched.undescribed, same]
    exact mirrors.lost h

theorem mirrors_start (w : World σ) : Mirrors engine host w nobody (w.noted []) w where
  plain := rfl
  valued := Valued.refl w
  values _ member := nomatch member
  lost h := by simp [World.noted, World.withGuest, nobody]

variable {y : Run (Noted σ) V α} {x : Run σ V α}

theorem Notes.pure (a : α) : Notes engine host (Pure.pure a) (Pure.pure a) :=
  fun _ _ => Simulates.pure a

theorem Notes.throw (e : HostValue V) :
    Notes engine host (Effect.throw e : Run (Noted σ) V α) (Effect.throw e) :=
  fun _ _ => Simulates.throw e

theorem Notes.check (condition : Bool) (e : HostValue V) :
    Notes engine host (Effect.check condition e) (Effect.check condition e) :=
  fun _ _ => Simulates.check condition e

theorem Notes.bind {g : α → Run (Noted σ) V β} {f : α → Run σ V β} (first : Notes engine host y x)
    (next : ∀ a, Notes engine host (g a) (f a)) : Notes engine host (y >>= g) (x >>= f) :=
  fun w₀ due => Simulates.bind (first w₀ due) fun a => next a w₀ due

theorem Notes.get_bind {g : World (Noted σ) → Run (Noted σ) V β} {f : World σ → Run σ V β}
    (next : ∀ n : World (Noted σ), Notes engine host (g n) (f n.plain)) :
    Notes engine host (Effect.get >>= g) (Effect.get >>= f) := by
  intro w₀ due
  apply Simulates.get_bind
  intro n w mirrors
  obtain rfl := mirrors.plain
  exact next n w₀ due

theorem Notes.ite {condition : Prop} [Decidable condition] {y' : Run (Noted σ) V α} {x' : Run σ V α}
    (yes : Notes engine host y x) (no : Notes engine host y' x') :
    Notes engine host (if condition then y else y') (if condition then x else x') :=
  fun w₀ due => Simulates.ite (yes w₀ due) (no w₀ due)

theorem Notes.tryCatch {handler : HostValue V → Run σ V α} {other : HostValue V → Run (Noted σ) V α}
    (body : Notes engine host y x) (handles : ∀ e, Notes engine host (other e) (handler e)) :
    Notes engine host (Effect.tryCatch y other) (Effect.tryCatch x handler) :=
  fun w₀ due => Simulates.tryCatch (body w₀ due) fun e => handles e w₀ due

theorem Notes.tryFinally {cleanup : Run σ V Unit} {other : Run (Noted σ) V Unit}
    (body : Notes engine host y x) (cleans : Notes engine host other cleanup) :
    Notes engine host (Effect.tryFinally y other) (Effect.tryFinally x cleanup) :=
  fun w₀ due => Simulates.tryFinally (body w₀ due) (cleans w₀ due)

theorem Notes.forEach {body : β → Run σ V Unit} {other : β → Run (Noted σ) V Unit}
    (round : ∀ item, Notes engine host (other item) (body item)) (items : List β) :
    Notes engine host (Effect.forEach other items) (Effect.forEach body items) :=
  fun w₀ due => Simulates.forEach (fun item => round item w₀ due) items

theorem Notes.modify {g : World (Noted σ) → World (Noted σ)} {f : World σ → World σ}
    (same : ∀ n : World (Noted σ), (g n).plain = f n.plain ∧ (g n).guest.2 = n.guest.2)
    (untouched : ∀ w, Untouched w (f w)) :
    Notes engine host (Effect.modify g) (Effect.modify f) := by
  intro w₀ due
  apply Simulates.modify
  intro n w mirrors
  obtain rfl := mirrors.plain
  exact mirrors.step (same n).1 (same n).2 (untouched _)

theorem Notes.lift {g : World (Noted σ) → α × World (Noted σ)} {f : World σ → α × World σ}
    (same : ∀ n : World (Noted σ), (g n).1 = (f n.plain).1 ∧ (g n).2.plain = (f n.plain).2 ∧
      (g n).2.guest.2 = n.guest.2)
    (untouched : ∀ w, Untouched w (f w).2) :
    Notes engine host (Effect.lift g) (Effect.lift f) := by
  intro w₀ due
  apply Simulates.lift
  intro n w mirrors
  obtain rfl := mirrors.plain
  exact ⟨(same n).1, mirrors.step (same n).2.1 (same n).2.2 (untouched _)⟩

-- Code of the host that has no part in what is not in the source.
theorem notes_noting (unaware : ∀ w, Untouched w (x.run w).2) :
    Notes engine host (Context.noting x) x := by
  intro w₀ due n w mirrors
  obtain rfl := mirrors.plain
  exact ⟨(x.run n.plain).1, (x.run n.plain).2.noted n.guest.2, (x.run n.plain).2, rfl, rfl,
    mirrors.step rfl rfl (unaware _)⟩

end

/-! ### Reading values -/

section
variable {engine : Engine σ} {host : Host V σ} (unaware : Unaware engine host)
include unaware

theorem notes_ask (op : HostOp V) : Notes engine host (host.noting.ask op) (host.ask op) :=
  notes_noting (unaware.asked op)

theorem notes_call {native : Native} (none : ∀ reply (w : World σ), native.takings reply w = []) :
    Notes engine host (call engine.noting native) (call engine native) := by
  apply Notes.lift
  · intro n
    refine ⟨rfl, rfl, ?_⟩
    show n.guest.2 ++ (native.takings _ _) = n.guest.2
    rw [none, List.append_nil]
  · exact unaware.native native

omit unaware in
theorem notes_newHandle (value : Value) (owned : Bool) :
    Notes engine host (newHandle value owned) (newHandle value owned) :=
  Notes.lift (fun _ => ⟨rfl, rfl, rfl⟩) fun w => ⟨rfl, valued_append w _⟩

omit unaware in
theorem notes_ptr (h : JSValue) : Notes engine host (ptr h) (ptr h) := by
  apply Notes.get_bind
  intro n
  exact Notes.bind (Notes.check _ _) fun _ => Notes.pure _

omit unaware in
theorem notes_assertSameVM (h : JSValue) : Notes engine host (assertSameVM h) (assertSameVM h) := by
  apply Notes.get_bind
  intro n
  apply Notes.bind (Notes.check _ _)
  intro _
  exact Notes.bind (notes_ptr h) fun _ => Notes.pure _

theorem notes_dispose (h : JSValue) :
    Notes engine host (dispose engine.noting h) (dispose engine h) := by
  intro w₀ due n w mirrors
  obtain rfl := mirrors.plain
  let handle := n.handle h
  have marked : Mirrors engine host w₀ due
      { n with handles := n.handles.set h { handle with disposed := true } }
      { n.plain with handles := n.handles.set h { handle with disposed := true } } :=
    mirrors.step rfl rfl ⟨rfl, valued_set (w := n.plain) rfl⟩
  have frees : Notes (V := V) engine host
      (if handle.value.tag < 0 then call engine.noting (.freeValue handle.value) else pure ())
      (if handle.value.tag < 0 then call engine (.freeValue handle.value) else pure ()) :=
    Notes.ite (notes_call unaware fun _ _ => rfl) (Notes.pure _)
  by_cases idle : !handle.owned || handle.disposed
  · have stays : (dispose (V := V) engine.noting h).run n = (.ok (), n) :=
      congrFun (congrArg run (if_pos idle)) n
    have staysPlain : (dispose (V := V) engine h).run n.plain = (.ok (), n.plain) :=
      congrFun (congrArg run (if_pos idle)) n.plain
    exact ⟨.ok (), n, n.plain, stays, staysPlain, mirrors⟩
  · obtain ⟨outcome, n', w', runs, runsPlain, later⟩ := frees w₀ due _ _ marked
    exact ⟨outcome, n', w', (congrFun (congrArg run (if_neg idle)) n).trans runs,
      (congrFun (congrArg run (if_neg idle)) n.plain).trans runsPlain, later⟩

/-! What throws what is pending. -/

section
variable {gE : Run σ V (HostValue V)} {gE' : Run (Noted σ) V (HostValue V)}
    (excepts : Notes engine host gE' gE)
include excepts

omit unaware in
theorem notes_throwException :
    Notes engine host (throwException (α := α) gE') (throwException gE) :=
  Notes.bind excepts fun e => Notes.throw e

omit unaware in
theorem notes_resultValue (cell : Value) :
    Notes engine host (resultValue gE' cell) (resultValue gE cell) := by
  apply Notes.bind (notes_newHandle cell true)
  intro value
  exact Notes.ite (notes_throwException excepts) (Notes.pure value)

theorem notes_type (h : JSValue) :
    Notes engine host (type engine.noting gE' h) (type engine gE h) := by
  apply Notes.bind (notes_ptr h)
  intro value
  apply Notes.bind (notes_call unaware fun _ _ => rfl)
  intro code
  apply Notes.ite (notes_throwException excepts)
  split
  · exact Notes.pure _
  · exact Notes.throw _

omit unaware excepts in
theorem notes_decode (buffer : Bytes) : Notes engine host (decode buffer) (decode buffer) := by
  unfold decode
  split
  · exact Notes.pure _
  · exact Notes.throw _

theorem notes_readText (h : JSValue) :
    Notes engine host (readText engine.noting gE' h) (readText engine gE h) := by
  apply Notes.get_bind
  intro n
  apply Notes.bind (notes_ptr h)
  intro value
  apply Notes.bind (notes_call unaware fun _ _ => rfl)
  intro bytes
  cases bytes with
  | none => exact notes_throwException excepts
  | some bytes =>
    apply Notes.ite (notes_decode bytes)
    refine Notes.bind (Notes.modify (fun _ => ⟨rfl, rfl⟩) fun w => ⟨rfl, Valued.refl w⟩) fun _ => ?_
    apply Notes.bind (notes_call unaware fun _ _ => rfl)
    intro again
    cases again with
    | none => exact notes_throwException excepts
    | some again => exact notes_decode again

omit excepts in
theorem notes_ownKeys (capacity : Nat) (object : Value) :
    Notes (V := V) engine host (ownKeys engine.noting capacity object)
      (ownKeys engine capacity object) := by
  apply Notes.bind (notes_call unaware fun _ _ => rfl)
  intro names
  cases names with
  | none => exact Notes.pure _
  | some names => exact Notes.ite (Notes.pure _) (Notes.pure _)

omit excepts in
theorem notes_growKeys (object : Value) (attempts : Nat) (found : Int × Bytes) :
    Notes (V := V) engine host (growKeys engine.noting object attempts found)
      (growKeys engine object attempts found) := by
  induction attempts generalizing found with
  | zero => exact Notes.pure _
  | succ attempts ih =>
    refine Notes.ite ?_ (Notes.pure _)
    refine Notes.bind (Notes.modify (fun _ => ⟨rfl, rfl⟩) fun w => ⟨rfl, Valued.refl w⟩) fun _ => ?_
    exact Notes.bind (notes_ownKeys unaware _ object) fun found => ih found

omit unaware excepts in
theorem notes_unpackKeys (count : Nat) (buffer : Bytes) :
    Notes engine host (unpackKeys count buffer) (unpackKeys count buffer) := by
  induction count generalizing buffer with
  | zero => exact Notes.pure _
  | succ count ih => exact Notes.bind (notes_decode _) fun _ => Notes.bind (ih _) fun _ => Notes.pure _

theorem notes_keys (h : JSValue) :
    Notes engine host (keys engine.noting gE' h) (keys engine gE h) := by
  apply Notes.get_bind
  intro n
  apply Notes.bind (notes_ptr h)
  intro object
  apply Notes.bind (notes_ownKeys unaware _ object)
  intro found
  apply Notes.bind (notes_growKeys unaware object 4 found)
  intro grown
  exact Notes.ite (notes_throwException excepts) (Notes.ite (Notes.throw _) (notes_unpackKeys _ _))

/-! ### Strings, atoms and properties -/

theorem notes_parseJson (source : Text) :
    Notes engine host (parseJson engine.noting gE' source) (parseJson engine gE source) :=
  Notes.bind (notes_call unaware fun _ _ => rfl) fun out => notes_resultValue excepts out

theorem notes_newString (value : Text) :
    Notes engine host (newString engine.noting gE' value) (newString engine gE value) := by
  apply Notes.ite (notes_parseJson unaware excepts _)
  exact Notes.bind (notes_call unaware fun _ _ => rfl) fun out => notes_resultValue excepts out

theorem notes_newAtom (value : Text) :
    Notes engine host (newAtom engine.noting gE' value) (newAtom engine gE value) := by
  apply Notes.bind (notes_newString unaware excepts value)
  intro text
  refine Notes.tryFinally ?_ (notes_dispose unaware text)
  apply Notes.bind (notes_ptr text)
  intro value
  apply Notes.bind (notes_call unaware fun _ _ => rfl)
  intro atom
  exact Notes.ite (notes_throwException excepts) (Notes.pure atom)

omit excepts in
theorem notes_evictAtoms :
    Notes (V := V) engine host (evictAtoms engine.noting) (evictAtoms engine) := by
  apply Notes.get_bind
  intro n
  refine Notes.ite ?_ (Notes.pure _)
  apply Notes.bind (Notes.forEach (fun entry => notes_call unaware fun _ _ => rfl) _)
  intro _
  exact Notes.modify (fun _ => ⟨rfl, rfl⟩) fun w => ⟨rfl, Valued.refl w⟩

theorem notes_atom (key : Text) :
    Notes engine host (atom engine.noting gE' key) (atom engine gE key) := by
  apply Notes.get_bind
  intro n
  have same : n.plain.atoms = n.atoms := rfl
  rw [same]
  cases n.atoms.find? (·.1 == key) with
  | some entry => exact Notes.pure _
  | none =>
    apply Notes.bind (notes_evictAtoms unaware)
    intro _
    apply Notes.bind
      (Notes.ite (notes_call unaware fun _ _ => rfl) (notes_newAtom unaware excepts key))
    intro atom
    apply Notes.ite (notes_throwException excepts)
    refine Notes.bind (Notes.modify (fun _ => ⟨rfl, rfl⟩) fun w => ⟨rfl, Valued.refl w⟩) fun _ => ?_
    exact Notes.pure atom

theorem notes_getProp (object : JSValue) (key : Text) :
    Notes engine host (getProp engine.noting gE' object key) (getProp engine gE object key) := by
  apply Notes.bind (notes_ptr object)
  intro value
  apply Notes.bind (notes_atom unaware excepts key)
  intro atom
  exact Notes.bind (notes_call unaware fun _ _ => rfl) fun out => notes_resultValue excepts out

theorem notes_getDataProp (object : JSValue) (key : Text) :
    Notes engine host (getDataProp engine.noting gE' object key)
      (getDataProp engine gE object key) := by
  apply Notes.bind (notes_ptr object)
  intro value
  apply Notes.bind (notes_atom unaware excepts key)
  intro atom
  exact Notes.bind (notes_call unaware fun _ _ => rfl) fun out => notes_resultValue excepts out

theorem notes_getIndex (object : JSValue) (index : Nat) :
    Notes engine host (getIndex engine.noting gE' object index)
      (getIndex engine gE object index) := by
  apply Notes.bind (notes_ptr object)
  intro value
  exact Notes.bind (notes_call unaware fun _ _ => rfl) fun out => notes_resultValue excepts out

theorem notes_defineProp (object : JSValue) (key : Text) (item : JSValue) :
    Notes engine host (defineProp engine.noting gE' object key item)
      (defineProp engine gE object key item) := by
  apply Notes.bind (notes_assertSameVM item)
  intro _
  apply Notes.bind (notes_ptr object)
  intro value
  apply Notes.bind (notes_atom unaware excepts key)
  intro atom
  apply Notes.bind (notes_ptr item)
  intro cell
  apply Notes.bind (notes_call unaware fun _ _ => rfl)
  intro ok
  exact Notes.ite (notes_throwException excepts) (Notes.pure ())

theorem notes_defineIndex (object : JSValue) (index : Nat) (item : JSValue) :
    Notes engine host (defineIndex engine.noting gE' object index item)
      (defineIndex engine gE object index item) := by
  apply Notes.bind (notes_assertSameVM item)
  intro _
  apply Notes.bind (notes_ptr object)
  intro value
  apply Notes.bind (notes_ptr item)
  intro cell
  apply Notes.bind (notes_call unaware fun _ _ => rfl)
  intro ok
  exact Notes.ite (notes_throwException excepts) (Notes.pure ())

/-! ### Exceptions -/

theorem notes_toBigInt (h : JSValue) :
    Notes engine host (toBigInt engine.noting gE' h) (toBigInt engine gE h) := by
  apply Notes.bind (notes_ptr h)
  intro value
  apply Notes.ite (Notes.bind (notes_type unaware excepts h) fun _ => Notes.throw _)
  apply Notes.bind (notes_call unaware fun _ _ => rfl)
  intro read
  apply Notes.ite (notes_throwException excepts)
  apply Notes.ite (Notes.pure _)
  apply Notes.bind (notes_readText unaware excepts h)
  intro digits
  cases readDecimal digits with
  | some value => exact Notes.pure _
  | none => exact Notes.throw _

theorem notes_valueToString (h : JSValue) :
    Notes engine host (valueToString engine.noting gE' h) (valueToString engine gE h) := by
  apply Notes.bind (notes_ptr h)
  intro value
  apply Notes.ite (notes_readText unaware excepts h)
  exact Notes.bind (notes_type unaware excepts h) fun _ => Notes.throw _

theorem notes_primitive (h : JSValue) :
    Notes engine host (primitive engine.noting host.noting gE' h) (primitive engine host gE h) := by
  apply Notes.bind (notes_ptr h)
  intro value
  cases value with
  | shortBigInt => exact Notes.bind (notes_toBigInt unaware excepts h) fun _ => Notes.pure _
  | heap tag =>
    cases tag with
    | bigInt => exact Notes.bind (notes_toBigInt unaware excepts h) fun _ => Notes.pure _
    | string => exact Notes.bind (notes_readText unaware excepts h) fun _ => Notes.pure _
    | stringRope => exact Notes.bind (notes_readText unaware excepts h) fun _ => Notes.pure _
    | _ => exact Notes.pure _
  | _ => exact Notes.pure _

theorem notes_errorProperty (h : JSValue) (name : String) :
    Notes engine host (errorProperty engine.noting host.noting gE' h name)
      (errorProperty engine host gE h name) := by
  apply Notes.bind (notes_getDataProp unaware excepts h (text name))
  intro value
  refine Notes.tryFinally ?_ (notes_dispose unaware value)
  apply Notes.bind (notes_ptr value)
  intro cell
  exact Notes.ite (Notes.pure _) (notes_primitive unaware excepts value)

theorem notes_thrownMessage (h : JSValue) :
    Notes engine host (thrownMessage engine.noting host.noting gE' h)
      (thrownMessage engine host gE h) := by
  apply Notes.bind (notes_type unaware excepts h)
  intro type
  cases type with
  | error => exact Notes.bind (notes_errorProperty unaware excepts h _) fun _ => Notes.pure _
  | undefined | null | boolean | number | bigint | string =>
    exact Notes.bind (notes_primitive unaware excepts h) fun _ => Notes.pure _
  | _ => exact Notes.pure _

theorem notes_describe (h : JSValue) :
    Notes engine host (describe engine.noting host.noting gE' h) (describe engine host gE h) := by
  apply Notes.bind (notes_type unaware excepts h)
  intro type
  apply Notes.ite
  · apply Notes.bind (notes_errorProperty unaware excepts h _)
    intro name
    apply Notes.bind (notes_errorProperty unaware excepts h _)
    intro message
    exact Notes.bind (notes_errorProperty unaware excepts h _) fun _ => Notes.pure _
  · exact Notes.bind (notes_thrownMessage unaware excepts h) fun _ => Notes.pure _

end

end

section
variable {engine : Engine σ} {host : Host V σ} {w₀ : World σ} {due : JSValue → Prop}
    {taking : Taking σ}

-- The world in which an exception has got its handle.
def Taking.held (taking : Taking σ) : World σ :=
  { taking.world with handles := taking.world.handles ++
    [⟨false, taking.value, true, false, false⟩] }

theorem Taking.describable_iff (gE : Run σ V (HostValue V)) :
    taking.Describable engine host ↔
      ∃ exception s, (Context.describe engine host gE taking.handle).run taking.held =
        (.ok exception, s) := by
  have reads : (taking.describe engine host).run taking.world =
      (Context.describe engine host (.throw .undefined) taking.handle).run taking.held := rfl
  unfold Taking.Describable
  rw [reads]
  constructor
  · rintro ⟨exception, s, returns⟩
    exact ⟨exception, s, includes_describe engine host _ gE _ _ _ _ returns⟩
  · rintro ⟨exception, s, returns⟩
    exact ⟨exception, s, includes_describe engine host gE _ _ _ _ _ returns⟩

/-- An exception that has been taken is due if it cannot be described. -/
abbrev Due (engine : Engine σ) (host : Host V σ) (due : JSValue → Prop) (taking : Taking σ) :
    JSValue → Prop :=
  fun h => due h ∨ taking.handle = h ∧ ¬taking.Describable engine host

theorem Mirrors.taken {n : World (Noted σ)} {w : World σ} (mirrors : Mirrors engine host w₀ due n w)
    (untouched : Untouched w taking.world) :
    Mirrors engine host w₀ (Due engine host due taking)
      (taking.held.noted (n.guest.2 ++ [taking])) taking.held where
  plain := rfl
  valued := (mirrors.valued.trans untouched.valued).trans (valued_append taking.world _)
  values other member := by
    rcases List.mem_append.mp member with earlier | new
    · obtain ⟨above, handle, found, value⟩ := mirrors.values other earlier
      obtain ⟨later, still, same⟩ := untouched.valued _ handle found
      obtain ⟨last, there, sameLast⟩ := valued_append taking.world _ _ later still
      exact ⟨above, last, there, sameLast.trans (same.trans value)⟩
    · obtain rfl := List.mem_singleton.mp new
      exact ⟨(mirrors.valued.trans untouched.valued).length_le, _, List.getElem?_concat_length, rfl⟩
  lost h := by
    have lost := mirrors.lost h
    have same : h ∈ taking.held.undescribed ↔ h ∈ w.undescribed := by
      show h ∈ taking.world.undescribed ↔ _
      rw [untouched.undescribed]
    rw [same]
    constructor
    · rintro (undescribed | isDue | mine)
      · rcases lost.mp (.inl undescribed) with before | ⟨other, member, its⟩
        · exact .inl before
        · exact .inr ⟨other, List.mem_append_left _ member, its⟩
      · rcases lost.mp (.inr isDue) with before | ⟨other, member, its⟩
        · exact .inl before
        · exact .inr ⟨other, List.mem_append_left _ member, its⟩
      · exact .inr ⟨taking, List.mem_append_right _ (List.mem_singleton.mpr rfl), mine⟩
    · rintro (before | ⟨other, member, its⟩)
      · exact (lost.mpr (.inl before)).imp id .inl
      · rcases List.mem_append.mp member with earlier | new
        · exact (lost.mpr (.inr ⟨other, earlier, its⟩)).imp id .inl
        · obtain rfl := List.mem_singleton.mp new
          exact .inr (.inr its)

variable {gE : Run σ V (HostValue V)} {gE' : Run (Noted σ) V (HostValue V)}

-- An exception is described, or its handle is lost.
theorem Mirrors.described (unaware : Unaware engine host) (excepts : Notes engine host gE' gE)
    {n : World (Noted σ)}
    (mirrors : Mirrors engine host w₀ (Due engine host due taking) n taking.held) :
    ∃ outcome n' w', (newJSException engine.noting host.noting gE' taking.handle).run n =
      (outcome, n') ∧
      (newJSException engine host gE taking.handle).run taking.held = (outcome, w') ∧
      Mirrors engine host w₀ due n' w' := by
  have describes : taking.Describable engine host ↔ _ := Taking.describable_iff gE
  obtain ⟨outcome, n', w', runs, runsPlain, later⟩ :=
    notes_describe unaware excepts taking.handle w₀
      (Due engine host due taking) n taking.held mirrors
  unfold newJSException Effect.tryCatch
  simp only [runs, runsPlain]
  cases outcome with
  | ok exception =>
    have can : taking.Describable engine host := describes.mpr ⟨exception, w', runsPlain⟩
    refine ⟨.ok exception, n', w', rfl, rfl, later.plain, later.valued, later.values, fun h => ?_⟩
    rw [← later.lost h]
    exact or_congr_right ⟨.inl, fun isDue => isDue.resolve_right fun cannot => cannot.2 can⟩
  | error e =>
    have cannot : ¬taking.Describable engine host := fun can => by
      obtain ⟨exception, s, returns⟩ := describes.mp can
      rw [runsPlain] at returns
      cases returns
    obtain rfl := later.plain
    refine ⟨.error e, { n' with undescribed := taking.handle :: n'.undescribed },
      { n'.plain with undescribed := taking.handle :: n'.undescribed }, rfl, rfl, rfl, later.valued,
      later.values, fun h => ?_⟩
    rw [← later.lost h]
    show h ∈ taking.handle :: n'.undescribed ∨ due h ↔ h ∈ n'.undescribed ∨
        Due engine host due taking h
    rw [List.mem_cons]
    constructor
    · rintro ((rfl | undescribed) | isDue)
      · exact .inr (.inr ⟨rfl, cannot⟩)
      · exact .inl undescribed
      · exact .inr (.inl isDue)
    · rintro (undescribed | isDue | ⟨rfl, -⟩)
      · exact .inl (.inr undescribed)
      · exact .inr isDue
      · exact .inl (.inl rfl)

-- What is taken gets a handle and is described.
theorem notes_getExceptionWithin (unaware : Unaware engine host) (stack : Nat) :
    Notes engine host (getExceptionWithin engine.noting host.noting stack)
      (getExceptionWithin engine host stack) := by
  induction stack with
  | zero => exact Notes.throw _
  | succ stack ih =>
    intro w₀ due n w mirrors
    obtain rfl := mirrors.plain
    let taking : Taking σ :=
      ⟨(engine.call .getException n.plain).1, (engine.call .getException n.plain).2⟩
    have untouched : Untouched n.plain taking.world := unaware.native .getException n.plain
    exact (mirrors.taken untouched).described unaware ih

theorem notes_getException (unaware : Unaware engine host) :
    Notes engine host (getException engine.noting host.noting) (getException engine host) :=
  notes_getExceptionWithin unaware unbounded

theorem Notes.mirrored {y : Run (Noted σ) V α} {x : Run σ V α} {w w' : World σ}
    {outcome : Except (HostValue V) α} (notes : Notes engine host y x)
    (runs : x.run w = (outcome, w')) :
    ∃ n, y.run (w.noted []) = (outcome, n) ∧ Mirrors engine host w nobody n w' := by
  obtain ⟨other, n, w'', noted, plain, mirrors⟩ := notes w nobody _ _ (mirrors_start w)
  obtain ⟨rfl, rfl⟩ := Prod.mk.inj (runs.symm.trans plain)
  exact ⟨n, noted, mirrors⟩

-- What has been lost since then holds no reference.
def Harmless (w w' : World σ) : Prop :=
  ∀ h ∈ w'.undescribed, h ∉ w.undescribed → ¬(w'.handle h).value.tag < 0

theorem Harmless.trans {flight : List Nat} {w w' w'' : World σ} (first : Harmless w w')
    (sound : Sound flight w') (valued : Valued w' w'') (second : Harmless w' w'') :
    Harmless w w'' := by
  intro h lost new
  by_cases earlier : h ∈ w'.undescribed
  · obtain ⟨value, found⟩ := sound.lost h earlier
    obtain ⟨later, still, same⟩ := valued h _ found
    have plain := first h earlier new
    rw [World.handle, found, Option.getD_some] at plain
    rw [World.handle, still, Option.getD_some, same]
    exact plain
  · exact second h lost earlier

theorem harmless_same {w w' : World σ} (same : w'.undescribed = w.undescribed) : Harmless w w' := by
  intro h lost new
  rw [same] at lost
  exact absurd lost new

-- What is lost is a handle that nobody else has, of what was taken.
theorem Mirrors.lost_value {n : World (Noted σ)} {w w' : World σ} {flight : List Nat}
    (mirrors : Mirrors engine host w nobody n w') (later : Sound flight w')
    (member : taking ∈ n.guest.2) (lost : taking.handle ∈ w'.undescribed) :
    w'.handles[taking.handle]? = some ⟨false, taking.value, true, false, false⟩ := by
  obtain ⟨-, handle, found, same⟩ := mirrors.values taking member
  obtain ⟨value, its⟩ := later.lost _ lost
  obtain rfl := Option.some.inj (its.symm.trans found)
  rw [its, ← same]

-- Nothing that holds a reference was lost exactly if every exception that was taken could be
-- described.
theorem Mirrors.harmless_iff {n : World (Noted σ)} {w w' : World σ} {flight flight' : List Nat}
    (mirrors : Mirrors engine host w nobody n w') (sound : Sound flight w)
    (later : Sound flight' w') :
    Harmless w w' ↔ ∀ taking ∈ n.guest.2, taking.value.tag < 0 →
    taking.Describable engine host := by
  constructor
  · intro harmless taking member heap
    by_contra cannot
    have lost : taking.handle ∈ w'.undescribed :=
      ((mirrors.lost _).mpr (.inr ⟨taking, member, rfl, cannot⟩)).resolve_right id
    have new : taking.handle ∉ w.undescribed := fun before => by
      obtain ⟨value, found⟩ := sound.lost _ before
      exact absurd (List.getElem?_eq_some_iff.mp found).1
        (Nat.not_lt.mpr (mirrors.values taking member).1)
    apply harmless _ lost new
    rw [World.handle, mirrors.lost_value later member lost, Option.getD_some]
    exact heap
  · intro describable h lost new heap
    obtain ⟨taking, member, rfl, cannot⟩ := ((mirrors.lost h).mp (.inl lost)).resolve_left new
    rw [World.handle, mirrors.lost_value later member lost, Option.getD_some] at heap
    exact cannot (describable taking member heap)

end

end QuickJSBun.Context
