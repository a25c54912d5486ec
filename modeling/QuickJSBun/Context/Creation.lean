import QuickJSBun.Context.World

/-! `createContext`: the context is registered before its intrinsics are added, and one that cannot be
added is answered by `dispose`, which refuses inside host calls.
-/

set_option autoImplicit false

namespace QuickJSBun.Context.Creation

open Library

abbrev Pointer := Nat

/-- What a runtime knows of its contexts: its map, in order, and the native contexts not freed. -/
structure JSRuntime where
  disposed : Bool
  hostDepth : Nat
  contexts : List Pointer
  natives : List Pointer
  deriving DecidableEq, Repr

inductive Error where
  | timeoutMs
  | runtimeDisposed
  | notInitialized
  | unknownIntrinsic (intrinsic : String)
  | intrinsicFailed (intrinsic : String)
  | insideHostCall
  deriving DecidableEq, Repr

-- All of them are assertions.
def Error.message : Error → String
  | .timeoutMs => "timeoutMs must be positive"
  | .runtimeDisposed => "QuickJS runtime is disposed"
  | .notInitialized => "QuickJS context did not initialize"
  | .unknownIntrinsic intrinsic => "Unknown QuickJS intrinsic: " ++ intrinsic
  | .intrinsicFailed intrinsic => "QuickJS could not add the " ++ intrinsic ++ " intrinsic"
  | .insideHostCall => "QuickJS context cannot be disposed inside a host call"

def intrinsics : List String :=
  ["base", "date", "eval", "stringNormalize", "regexp", "regexpCompiler", "json", "proxy", "mapSet",
    "typedArrays", "promise", "weakRef"]

inductive JSIntrinsics where
  | default
  | minimal
  | names (names : List String)
  deriving DecidableEq, Repr

structure JSContextOptions where
  timeoutMs : Option Number
  intrinsics : Option JSIntrinsics
  deriving DecidableEq, Repr

/-- What the natives answer: `qjs_bun_new_context`, NULL for none, and the calls of
`qjs_bun_add_intrinsic` one after the other. -/
structure Natives where
  newContext : Option Pointer
  addIntrinsic : Nat → Int

abbrev Run (α : Type) := Effect JSRuntime Error α

/-- `value > 0` -/
def isPositive : Number → Bool
  | .int value => decide (0 < value.toInt)
  | .double bits => decide (bits.toNat < 2 ^ 63) && decide (bits ≠ 0)

def addIntrinsic (natives : Natives) (call : Nat) (intrinsic : String) : Run Unit := do
  .check (intrinsics.contains intrinsic) (.unknownIntrinsic intrinsic)
  .check (decide (0 ≤ natives.addIntrinsic call)) (.intrinsicFailed intrinsic)

def addIntrinsicsFrom (natives : Natives) : Nat → List String → Run Unit
  | _, [] => pure ()
  | call, intrinsic :: rest => do
    addIntrinsic natives call intrinsic
    addIntrinsicsFrom natives (call + 1) rest

def JSIntrinsics.list : JSIntrinsics → List String
  | .default => intrinsics.filter (· != "regexpCompiler")
  | .minimal => []
  | .names given => given

def addIntrinsics (natives : Natives) (names : JSIntrinsics) : Run Unit :=
  addIntrinsicsFrom natives 0 names.list

/-- `dispose` of a context that has no handles and no atoms yet. -/
def dispose (context : Pointer) : Run Unit := do
  let runtime ← .get
  .check (runtime.hostDepth == 0) .insideHostCall
  .modify fun runtime =>
    { runtime with
      contexts := runtime.contexts.filter (· != context)
      natives := runtime.natives.filter (· != context) }

def JSContextOptions.raw (options : JSContextOptions) : Option JSIntrinsics :=
  options.intrinsics.filter (· != .default)

def newContext (natives : Natives) : Run Pointer := do
  let runtime ← .get
  .check (!runtime.disposed) .runtimeDisposed
  match natives.newContext with
  | none => .throw .notInitialized
  | some context => do
    .modify fun runtime => { runtime with natives := runtime.natives ++ [context] }
    pure context

def validTimeout (options : JSContextOptions) : Bool :=
  let timeoutMs := options.timeoutMs.getD (.int 1000)
  timeoutMs.isFinite && isPositive timeoutMs

/-- `new JSContext(runtime, options)` -/
def createContext (options : JSContextOptions) (natives : Natives) : Run Pointer := do
  .check (validTimeout options) .timeoutMs
  let context ← newContext natives
  .modify fun runtime => { runtime with contexts := runtime.contexts ++ [context] }
  match options.raw with
  | none => pure context
  | some names => do
    .tryCatch (addIntrinsics natives names) fun error => do
      dispose context
      .throw error
    pure context

/-! ### What makes it fail -/

def intrinsicFailure (natives : Natives) : Nat → List String → Option Error
  | _, [] => none
  | call, intrinsic :: rest =>
    if !intrinsics.contains intrinsic then some (.unknownIntrinsic intrinsic)
    else if natives.addIntrinsic call < 0 then some (.intrinsicFailed intrinsic)
    else intrinsicFailure natives (call + 1) rest

-- The first thing that goes wrong.
def cause (runtime : JSRuntime) (options : JSContextOptions) (natives : Natives) : Option Error :=
  if !validTimeout options then some .timeoutMs
  else if runtime.disposed then some .runtimeDisposed
  else if natives.newContext.isNone then some .notInitialized
  else options.raw.bind fun names => intrinsicFailure natives 0 names.list

def Error.ofIntrinsic : Error → Bool
  | .unknownIntrinsic _ | .intrinsicFailed _ => true
  | _ => false

/-- The native contexts have addresses of their own, and the map has no others. -/
structure Fresh (runtime : JSRuntime) (natives : Natives) : Prop where
  registered : ∀ context ∈ runtime.contexts, context ∈ runtime.natives
  fresh : ∀ context, natives.newContext = some context → context ∉ runtime.natives

/-- If `createContext` throws, it is as if it had not been called, and what it throws is what made
it fail. -/
def RollsBack (runtime : JSRuntime) (options : JSContextOptions) (natives : Natives) : Prop :=
  ∀ error after, (createContext options natives).run runtime = (.error error, after) →
    after = runtime ∧ cause runtime options natives = some error


/-! ### Runs -/

theorem addIntrinsic_run (natives : Natives) (call : Nat) (intrinsic : String)
    (runtime : JSRuntime) :
    (addIntrinsic natives call intrinsic).run runtime =
      (if !intrinsics.contains intrinsic then .error (.unknownIntrinsic intrinsic)
        else if natives.addIntrinsic call < 0 then .error (.intrinsicFailed intrinsic) else .ok
          (), runtime) := by
  show (Effect.bind (Effect.check _ _) _).run runtime = _
  cases known : intrinsics.contains intrinsic with
  | false => rfl
  | true =>
    by_cases fails : natives.addIntrinsic call < 0
    · simp [Effect.bind, Effect.check, Effect.pure, Effect.throw, fails, Int.not_le.mpr fails]
    · simp [Effect.bind, Effect.check, Effect.pure, fails, Int.not_lt.mp fails]

-- The intrinsics are added in order, up to the first that fails.
theorem addIntrinsicsFrom_run (natives : Natives) (call : Nat) (names : List String)
    (runtime : JSRuntime) :
    (addIntrinsicsFrom natives call names).run runtime =
      (match intrinsicFailure natives call names with
        | some error => .error error
        | none => .ok (), runtime) := by
  induction names generalizing call with
  | nil => rfl
  | cons intrinsic rest ih =>
    show (Effect.bind (addIntrinsic natives call intrinsic) _).run runtime = _
    simp only [Effect.bind, addIntrinsic_run, intrinsicFailure]
    by_cases unknown : (!intrinsics.contains intrinsic) = true
    · simp only [if_pos unknown]
    · by_cases fails : natives.addIntrinsic call < 0
      · simp only [if_neg unknown, if_pos fails]
      · simp only [if_neg unknown, if_neg fails]
        exact ih (call + 1)

theorem intrinsicFailure_ofIntrinsic {natives : Natives} {call : Nat} {names : List String}
    {error : Error} (fails : intrinsicFailure natives call names = some error) :
    error.ofIntrinsic = true := by
  induction names generalizing call with
  | nil => cases fails
  | cons intrinsic rest ih =>
    unfold intrinsicFailure at fails
    split at fails
    · obtain rfl := Option.some.inj fails
      rfl
    · split at fails
      · obtain rfl := Option.some.inj fails
        rfl
      · exact ih fails

def JSRuntime.with (runtime : JSRuntime) (context : Pointer) : JSRuntime :=
  { runtime with natives := runtime.natives ++ [context], contexts := runtime.contexts ++ [context] }

theorem filter_append_fresh {entries : List Pointer} {context : Pointer}
    (fresh : context ∉ entries) : (entries ++ [context]).filter (· != context) = entries := by
  have kept : entries.filter (· != context) = entries :=
    List.filter_eq_self.mpr fun other member => bne_iff_ne.mpr fun same => fresh (same ▸ member)
  rw [List.filter_append, kept]
  simp

-- `dispose` of a new context undoes its creation, outside host calls.
theorem dispose_run {runtime : JSRuntime} {context : Pointer} (unlisted : context ∉ runtime.contexts)
    (fresh : context ∉ runtime.natives) :
    (dispose context).run (runtime.with context) =
      if runtime.hostDepth = 0 then (.ok (), runtime) else (.error .insideHostCall, runtime.with context) := by
  show (Effect.bind Effect.get _).run (runtime.with context) = _
  by_cases outside : runtime.hostDepth = 0
  · rw [if_pos outside]
    have contexts := filter_append_fresh unlisted
    have natives := filter_append_fresh fresh
    simp only [Effect.bind, Effect.get, Effect.check, Effect.pure, Effect.modify, JSRuntime.with, outside,
      beq_self_eq_true, if_true, bind, contexts, natives]
    cases runtime
    simp_all
  · rw [if_neg outside]
    simp [Effect.bind, Effect.get, Effect.check, Effect.throw, JSRuntime.with, outside, bind]

theorem createContext_run (runtime : JSRuntime) (options : JSContextOptions) (natives : Natives) :
    (createContext options natives).run runtime =
      if !validTimeout options then (.error .timeoutMs, runtime)
      else if runtime.disposed then (.error .runtimeDisposed, runtime)
      else match natives.newContext with
        | none => (.error .notInitialized, runtime)
        | some context =>
          match options.raw.bind fun names => intrinsicFailure natives 0 names.list with
          | none => (.ok context, runtime.with context)
          | some error =>
            match (dispose context).run (runtime.with context) with
            | (.ok _, after) => (.error error, after)
            | (.error failure, after) => (.error failure, after) := by
  unfold createContext newContext
  cases valid : validTimeout options with
  | false => rfl
  | true =>
    cases gone : runtime.disposed with
    | true => simp [bind, Effect.bind, Effect.check, Effect.pure, Effect.get, Effect.throw, gone]
    | false =>
      cases made : natives.newContext with
      | none => simp [bind, Effect.bind, Effect.check, Effect.pure, Effect.get, Effect.throw, gone]
      | some context =>
        cases raw : options.raw with
        | none =>
          simp [bind, pure, Effect.bind, Effect.check, Effect.pure, Effect.get, Effect.modify, gone,
            JSRuntime.with]
        | some names =>
          have added := addIntrinsicsFrom_run natives 0 names.list (runtime.with context)
          simp only [bind, pure, Effect.bind, Effect.check, Effect.pure, Effect.get, Effect.modify,
            Effect.tryCatch, addIntrinsics, gone, Bool.not_true, Bool.not_false, if_true, if_false,
            Bool.false_eq_true, Option.bind_some]
          rw [JSRuntime.with, gone] at added ⊢
          simp only [added]
          cases failure : intrinsicFailure natives 0 names.list with
          | none => rfl
          | some error =>
            dsimp only
            generalize (dispose context).run _ = ended
            obtain ⟨outcome, after⟩ := ended
            cases outcome with
            | ok => rfl
            | error => rfl

/-! ### Failures -/

section
variable {runtime : JSRuntime} {options : JSContextOptions} {natives : Natives}
    (fresh : Fresh runtime natives)
include fresh

theorem dispose_made {context : Pointer} (made : natives.newContext = some context) :
    (dispose context).run (runtime.with context) =
      if runtime.hostDepth = 0 then (.ok (), runtime)
        else (.error .insideHostCall, runtime.with context) :=
  dispose_run (fun listed => fresh.fresh context made (fresh.registered context listed))
    (fresh.fresh context made)

omit fresh in
-- What fails before there is a context leaves nothing to roll back.
theorem early_failure {failure : Error} (early : failure.ofIntrinsic = false) :
    (∀ error after, ((.error failure, runtime) : Except Error Pointer × JSRuntime) =
      (.error error, after) →
        after = runtime ∧ some failure = some error) ↔
      (runtime.hostDepth = 0 ∨ ∀ error, some failure = some error → error.ofIntrinsic = false) := by
  refine ⟨fun _ => .inr fun error same => ?_, fun _ error after same => ?_⟩
  · exact Option.some.inj same ▸ early
  · obtain ⟨outcome, rfl⟩ := Prod.mk.inj same
    exact ⟨rfl, congrArg some (Except.error.inj outcome)⟩

/-- A failure is answered by a rollback, but the failure of an intrinsic inside a host call. -/
theorem rollsBack_iff :
    RollsBack runtime options natives ↔
      (runtime.hostDepth = 0 ∨ ∀ error, cause runtime options natives = some error →
        error.ofIntrinsic = false) := by
  unfold RollsBack cause
  rw [createContext_run]
  cases valid : validTimeout options with
  | false => exact early_failure rfl
  | true =>
    cases gone : runtime.disposed with
    | true => exact early_failure rfl
    | false =>
      cases made : natives.newContext with
      | none => exact early_failure rfl
      | some context =>
        simp only [Bool.not_true, Bool.false_eq_true, if_false, Option.isNone_some]
        cases failure : options.raw.bind fun names => intrinsicFailure natives 0 names.list with
        | none =>
          refine ⟨fun _ => .inr fun error same => (nomatch same), fun _ error after same => ?_⟩
          cases (Prod.mk.inj same).1
        | some error =>
          have blamed : error.ofIntrinsic = true := by
            obtain ⟨names, -, fails⟩ := Option.bind_eq_some_iff.mp failure
            exact intrinsicFailure_ofIntrinsic fails
          simp only [dispose_made fresh made]
          by_cases outside : runtime.hostDepth = 0
          · simp only [if_pos outside]
            refine ⟨fun _ => .inl outside, fun _ other after same => ?_⟩
            obtain ⟨outcome, rfl⟩ := Prod.mk.inj same
            exact ⟨rfl, congrArg some (Except.error.inj outcome)⟩
          · simp only [if_neg outside]
            constructor
            · intro rollsBack
              have kept := (rollsBack .insideHostCall _ rfl).2
              obtain rfl := Option.some.inj kept
              cases blamed
            · rintro (same | others)
              · exact absurd same outside
              · rw [others error rfl] at blamed
                cases blamed

end

/-- A runtime with one context, outside host calls: an unknown name is rolled back. -/
theorem rollsBack_iff_unknown :
    RollsBack ⟨false, 0, [1], [1]⟩ ⟨none, some (.names ["base", "intl"])⟩ ⟨some 2, fun _ => 0⟩ := by
  have fresh : Fresh ⟨false, 0, [1], [1]⟩ ⟨some 2, fun _ => 0⟩ :=
    ⟨fun _ listed => listed, fun context made => Option.some.inj made ▸ by decide⟩
  exact (rollsBack_iff fresh).mpr (.inl rfl)

/-- The same inside a host call: the context stays, and what is thrown is the refusal of
`dispose`. -/
theorem not_rollsBack_inside :
    (createContext ⟨none, some (.names ["base", "intl"])⟩ ⟨some 2, fun _ => 0⟩).run
      ⟨false, 1, [1], [1]⟩ =
        (.error .insideHostCall, ⟨false, 1, [1, 2], [1, 2]⟩) ∧
      cause ⟨false, 1, [1], [1]⟩ ⟨none, some (.names ["base", "intl"])⟩ ⟨some 2, fun _ => 0⟩ =
        some (.unknownIntrinsic "intl") ∧
      ¬RollsBack ⟨false, 1, [1], [1]⟩ ⟨none, some (.names ["base", "intl"])⟩
        ⟨some 2, fun _ => 0⟩ := by
  have runs : (createContext ⟨none, some (.names ["base", "intl"])⟩ ⟨some 2, fun _ => 0⟩).run
      ⟨false, 1, [1], [1]⟩ = (.error .insideHostCall, ⟨false, 1, [1, 2], [1, 2]⟩) := rfl
  refine ⟨runs, rfl, fun rollsBack => ?_⟩
  cases (rollsBack _ _ runs).1

end QuickJSBun.Context.Creation
