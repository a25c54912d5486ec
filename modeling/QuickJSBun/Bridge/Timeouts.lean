import QuickJSBun.Bridge.Calls

/-! Which error a call reports when time runs out. The runtime has one slot for a
pending exception; `qjs_bun_leave`, `qjs_bun_execute_pending_job` and `JSContext.dump`
each decide whether to replace what is there by a `TimeoutError`.

Errors are references that somebody owns: the slot, the host code a call handed it
to, the host for good, or nobody any more. The scopes and the clock are those of the deadline.
-/

set_option autoImplicit false

namespace QuickJSBun.Bridge.Timeouts

variable {T : Type} [LinearOrder T]

/-- A reading of the clock at which the own deadline of a scope had passed. -/
structure Late (T : Type) [LinearOrder T] where
  scope : Scope T
  now : T
  passed : scope.ownMs ≤ now

/-- An error by its number; a `TimeoutError` of the bridge carries why it was made. -/
structure Error (T : Type) [LinearOrder T] where
  number : Nat
  timeout : Option (Late T)

/-- What a call of the API throws: a `JSException` around an error, or an error of the host
itself. -/
inductive Thrown (T : Type) [LinearOrder T] where
  | guest (error : Error T)
  | host

/-- What a call that failed took for its exception, and what it threw, which is something else when
no `JSException` could be made of the value. -/
structure Outcome (T : Type) [LinearOrder T] where
  taken : Option (Thrown T)
  handed : Option (Thrown T)
  described : Bool

/-- What one scoped call did. `original` is what it failed with, `leftMs` the clock when it left;
`allocated` tells whether a `TimeoutError` could be made, `survived` whether the context of a job
was left. -/
structure Report (T : Type) [LinearOrder T] extends Outcome T where
  scope : Scope T
  original : Option (Thrown T)
  leftMs : T
  allocated : Bool
  survived : Bool

/-- `released` and `kept` list the errors nobody owns any more and those the host keeps. -/
structure State (T : Type) [LinearOrder T] where
  rt : Runtime T
  currentException : Option (Error T)
  errors : Nat
  released : List (Error T)
  kept : List (Error T)
  reports : List (Report T)

def State.init [OrderTop T] : State T := ⟨.init, none, 0, [], [], []⟩

/-! ### The engine -/

def newError (timeout : Option (Late T)) (st : State T) : Error T × State T :=
  (⟨st.errors, timeout⟩, { st with errors := st.errors + 1 })

/-- `JS_FreeValue` of an error that is owned. -/
def jsFreeError (error : Option (Error T)) (st : State T) : State T :=
  { st with released := error.toList ++ st.released }

/-- `JS_Throw` frees what was pending. -/
def jsThrow (error : Error T) (st : State T) : State T :=
  { jsFreeError st.currentException st with currentException := some error }

def jsGetException (st : State T) : Option (Error T) × State T :=
  (st.currentException, { st with currentException := none })

def throwNew (st : State T) : State T :=
  let (error, st) := newError none st
  jsThrow error st

-- Guest code catches what is pending and drops it.
def catchPending (st : State T) : State T :=
  let (error, st) := jsGetException st
  jsFreeError error st

-- Something else is pending than before.
def thrownSince (before now : Option (Error T)) : Bool :=
  match now with
  | none => false
  | some error => before.map Error.number != some error.number

/-- The engine fails with what was thrown since it was entered, and throws when nothing was. -/
def failPending (fails : Bool) (before : Option (Error T)) (st : State T) : State T :=
  if fails && !thrownSince before st.currentException then throwNew st else st

/-! ### The bridge -/

/-- What the code between does: finalizers run by a collection or by a release. -/
abbrev Acting (T : Type) [LinearOrder T] := State T → State T

/-- `qjs_bun_timeout_error`; without memory the engine throws another error instead. -/
def qjsBunTimeoutError (late : Late T) (allocated : Bool) (raising : Acting T) (st : State T) :
    Option (Error T) × State T :=
  let st := raising st
  if allocated then
    let (error, st) := newError (some late) st
    (some error, st)
  else (none, throwNew st)

def qjsBunThrowTimeout (late : Late T) (allocated : Bool) (raising freeing : Acting T)
    (st : State T) : State T :=
  match qjsBunTimeoutError late allocated raising st with
  | (none, st) => st
  | (some error, st) =>
    let (old, st) := jsGetException st
    jsThrow error (freeing (jsFreeError old st))

def State.enter (clock : Clock T) (timeoutMs : T) (st : State T) : Scope T × State T :=
  let (scope, rt) := qjsBunEnter clock timeoutMs st.rt
  (scope, { st with rt })

def State.leave (scope : Scope T) (st : State T) : State T := { st with rt := st.rt.leave scope }

def State.nowMs (clock : Clock T) (st : State T) : T × State T :=
  let (now, rt) := qjsBunNowMs clock st.rt
  (now, { st with rt })

/-- `qjs_bun_leave` -/
def leaveScope (clock : Clock T) (scope : Scope T) (failed allocated : Bool)
    (raising freeing : Acting T) (st : State T) : State T :=
  let st := st.leave scope
  if !failed then st
  else
    let read := st.nowMs clock
    if early : read.1 < scope.ownMs then read.2
    else qjsBunThrowTimeout ⟨scope, read.1, le_of_not_gt early⟩ allocated raising freeing read.2

/-- What follows `JS_ExecutePendingJob`; `hasContext` tells whether the job's context outlived
it. -/
def leavePendingJob (clock : Clock T) (scope : Scope T) (failed hasContext allocated : Bool)
    (raising freeing : Acting T) (st : State T) : State T :=
  let st := st.leave scope
  if failed && hasContext then
    let read := st.nowMs clock
    if late : scope.ownMs ≤ read.1 then
      qjsBunThrowTimeout ⟨scope, read.1, late⟩ allocated raising freeing read.2
    else read.2
  else st

/-! ### The host -/

/-- What reading the type, the name, the message and the stack of an exception does; a read may
throw. -/
abbrev Describing (T : Type) [LinearOrder T] := State T → Option (Thrown T) × State T

/-- `new JSException(value)`. When it throws, nobody disposes the value. -/
def newJSException (describing : Describing T) (error : Option (Error T)) (st : State T) :
    Outcome T × State T :=
  match describing st with
  | (none, st) => (⟨error.map .guest, error.map .guest, true⟩, st)
  | (some thrown, st) =>
    (⟨error.map .guest, some thrown, false⟩, { st with kept := error.toList ++ st.kept })

def Outcome.none : Outcome T := ⟨.none, .none, true⟩

-- What is thrown is no exception taken from the engine here.
def Outcome.plain (thrown : Thrown T) : Outcome T := ⟨some thrown, some thrown, true⟩

def getException (failed : Bool) (describing : Describing T) (st : State T) : Outcome T × State T :=
  if failed then
    let (error, st) := jsGetException st
    newJSException describing error st
  else (.none, st)

/-- What host code does with what a call threw. -/
inductive Reaction where
  | dispose
  | keep
  /-- It leaves the host function by it, which throws it into the guest. -/
  | rethrow
  deriving DecidableEq, Repr

def State.react (reaction : Reaction) (thrown : Option (Thrown T)) (st : State T) : State T :=
  match thrown, reaction with
  | none, _ => st
  | some .host, .rethrow => throwNew st
  | some .host, _ => st
  | some (.guest error), .dispose => jsFreeError (some error) st
  | some (.guest error), .keep => { st with kept := error :: st.kept }
  | some (.guest error), .rethrow => jsThrow error st

def State.report (report : Report T) (st : State T) : State T :=
  { st with reports := report :: st.reports }

/-- A call through `qjs_bun_enter` and `qjs_bun_leave`. -/
def scopedCall (clock : Clock T) (timeoutMs : T) (inside : Acting T) (fails allocated : Bool)
    (raising freeing : Acting T) (describing : Describing T) (st : State T) :
    Option (Thrown T) × State T :=
  let (scope, st) := st.enter clock timeoutMs
  let st := failPending fails st.currentException (inside st)
  let original := if fails then st.currentException.map .guest else none
  let leftMs := ((st.leave scope).nowMs clock).1
  let (outcome, st) :=
    getException fails describing (leaveScope clock scope fails allocated raising freeing st)
  (outcome.handed, st.report ⟨outcome, scope, original, leftMs, allocated, true⟩)

/-- `JSRuntime.executePendingJob`; `found` tells whether some context is left to take the
exception. -/
def executePendingJob (clock : Clock T) (timeoutMs : T) (inside : Acting T)
    (fails hasContext found allocated : Bool) (raising freeing : Acting T)
    (describing : Describing T) (st : State T) : Option (Thrown T) × State T :=
  let (scope, st) := st.enter clock timeoutMs
  let st := failPending fails st.currentException (inside st)
  let original := if fails then st.currentException.map .guest else none
  let leftMs := ((st.leave scope).nowMs clock).1
  let st := leavePendingJob clock scope fails hasContext allocated raising freeing st
  let (outcome, st) :=
    if fails && !found then (.plain .host, st) else getException fails describing st
  (outcome.handed, st.report ⟨outcome, scope, original, leftMs, allocated, hasContext && found⟩)

/-- `if (error instanceof JSException) error.dispose()` -/
def disposeThrown (disposing : Acting T) (error : Thrown T) (st : State T) : State T :=
  match error with
  | .guest error => disposing (jsFreeError (some error) st)
  | .host => st

/-- `resultValue` of what `qjs_bun_timeout_error` gave: without memory it takes what is pending
instead. -/
def timeoutValue (made : Option (Error T)) (st : State T) : Option (Error T) × State T :=
  match made with
  | some error => (some error, st)
  | none => jsGetException st

/-- The catch clause of `JSContext.dump`. -/
def dumpCatch (clock : Clock T) (scope : Scope T) (error : Thrown T) (allocated : Bool)
    (disposing raising : Acting T) (describing : Describing T) (st : State T) :
    Outcome T × State T :=
  let read := (st.leave scope).nowMs clock
  if late : scope.ownMs ≤ read.1 then
    let (made, st) :=
      qjsBunTimeoutError ⟨scope, read.1, late⟩ allocated raising
        (disposeThrown disposing error read.2)
    let (value, st) := timeoutValue made st
    newJSException describing value st
  else (.plain error, read.2)

/-- `JSContext.dump`; `visit` ends with what `visit` of the source throws. -/
def dump (clock : Clock T) (timeoutMs : T) (visit : Describing T) (allocated : Bool)
    (disposing raising cleaning : Acting T) (describing : Describing T) (st : State T) :
    Option (Thrown T) × State T :=
  let (scope, st) := st.enter clock timeoutMs
  match visit st with
  | (none, st) =>
    let st := cleaning st
    let read := (st.leave scope).nowMs clock
    (none, read.2.report ⟨.none, scope, none, read.1, allocated, true⟩)
  | (some error, st) =>
    let leftMs := ((st.leave scope).nowMs clock).1
    let (outcome, st) := dumpCatch clock scope error allocated disposing raising describing st
    (outcome.handed, (cleaning st).report ⟨outcome, scope, some error, leftMs, allocated, true⟩)

/-! ### Trees of calls -/

mutual
inductive Call (T : Type) where
  /-- `eval`, `call`, the guest property and coercion operations and all else that leaves by
  `qjs_bun_leave`. -/
  | scoped (timeoutMs : T) (inside : List (Act T)) (fails allocated : Bool)
      (raising freeing describing : List (Act T)) (described : Last T)
  | executePendingJob (timeoutMs : T) (inside : List (Act T))
      (fails hasContext found allocated : Bool) (raising freeing describing : List (Act T))
      (described : Last T)
  | dump (timeoutMs : T) (visiting : List (Act T)) (ends : Last T) (allocated : Bool)
      (disposing raising cleaning describing : List (Act T)) (described : Last T)
  /-- A call that opens no scope. -/
  | unscoped (inside : List (Act T)) (fails : Bool) (describing : List (Act T)) (described : Last T)

/-- What happens inside a call: host code calls the API, guest code throws or catches. -/
inductive Act (T : Type) where
  | host (call : Call T) (reaction : Reaction)
  | throws
  | catches

/-- How `visit` of `dump` or the constructor of `JSException` ends: with a value, with what a call
of the API threw, or with an error of its own. -/
inductive Last (T : Type) where
  | returns
  | fails (call : Call T)
  | throws
end

mutual
def Call.run (clock : Clock T) : Call T → Describing T
  | .scoped timeoutMs inside fails allocated raising freeing describing described =>
    scopedCall clock timeoutMs (runActs clock inside) fails allocated (runActs clock raising)
      (runActs clock freeing) fun st => Last.run clock described (runActs clock describing st)
  | .executePendingJob timeoutMs inside fails hasContext found allocated raising freeing describing
      described =>
    Timeouts.executePendingJob clock timeoutMs (runActs clock inside) fails hasContext found
      allocated (runActs clock raising) (runActs clock freeing)
      fun st => Last.run clock described (runActs clock describing st)
  | .dump timeoutMs visiting ends allocated disposing raising cleaning describing described =>
    Timeouts.dump clock timeoutMs
      (fun st => Last.run clock ends (runActs clock visiting st)) allocated
      (runActs clock disposing) (runActs clock raising) (runActs clock cleaning)
      fun st => Last.run clock described (runActs clock describing st)
  | .unscoped inside fails describing described => fun st =>
    let ended :=
      getException fails (fun st => Last.run clock described (runActs clock describing st))
        (failPending fails st.currentException (runActs clock inside st))
    (ended.1.handed, ended.2)

def Act.run (clock : Clock T) : Act T → State T → State T
  | .host call reaction => fun st =>
    let ended := Call.run clock call st
    ended.2.react reaction ended.1
  | .throws => throwNew
  | .catches => catchPending

def Last.run (clock : Clock T) : Last T → Describing T
  | .returns => fun st => (none, st)
  | .fails call => fun st =>
    let ended := Call.run clock call st
    (some (ended.1.getD .host), ended.2)
  | .throws => fun st => (some .host, st)

def runActs (clock : Clock T) : List (Act T) → State T → State T
  | [], st => st
  | act :: rest, st => runActs clock rest (Act.run clock act st)
end

/-! ### What is always true -/

/-- A report says what it should: what failed late is replaced by a `TimeoutError` of its own scope
and released, everything else is taken as it was, and what is taken is handed over. -/
structure Report.Right (report : Report T) (released : List (Error T)) : Prop where
  succeeded : report.original = none → report.taken = none
  early : ∀ thrown, report.original = some thrown → report.survived = true →
    report.leftMs < report.scope.ownMs → report.taken = some thrown
  late : ∀ thrown, report.original = some thrown → report.survived = true →
    report.scope.ownMs ≤ report.leftMs → report.allocated = true →
    ∃ error made, report.taken = some (.guest error) ∧ error.timeout = some made ∧
      made.scope = report.scope ∧ ∀ replaced, thrown = .guest replaced → replaced ∈ released
  own : ∀ error made, report.survived = true → report.taken = some (.guest error) →
    error.timeout = some made → made.scope = report.scope →
    report.original ≠ none ∧ report.scope.ownMs ≤ report.leftMs
  hands : report.described = true → report.handed = report.taken

/-- The errors that are released, kept, pending, or owned by host code on the stack. -/
def State.places (st : State T) (held : List (Error T)) : List (Error T) :=
  st.released ++ st.kept ++ st.currentException.toList ++ held

def State.owners (st : State T) (held : List (Error T)) (n : Nat) : Nat :=
  (st.places held).countP fun error => error.number == n

/-- Every error made so far has exactly one owner or was released once, `TimeoutError`s are not from
the future, and every report is right. -/
structure Good (clock : Clock T) (st : State T) (held : List (Error T)) : Prop where
  once : ∀ n, n < st.errors → st.owners held n = 1
  unmade : ∀ n, st.errors ≤ n → st.owners held n = 0
  timely : ∀ error ∈ st.places held, ∀ made, error.timeout = some made →
    made.now ≤ clock.now st.rt.clockReads
  reports : ∀ report ∈ st.reports, report.Right st.released

variable {clock : Clock T}

theorem Report.Right.mono {report : Report T} {released more : List (Error T)}
    (right : report.Right released) (within : ∀ error ∈ released, error ∈ more) :
    report.Right more := by
  refine ⟨right.succeeded, right.early, fun thrown original survived late allocated =>
    ?_, right.own, right.hands⟩
  obtain ⟨error, made, taken, timeout, same, gone⟩ :=
    right.late thrown original survived late allocated
  exact ⟨error, made, taken, timeout, same, fun replaced is => within replaced (gone replaced is)⟩

theorem mem_places_pending {st : State T} (held : List (Error T)) {error : Error T}
    (is : st.currentException = some error) : error ∈ st.places held := by
  simp [State.places, is]

-- Errors only change their owners.
theorem Good.moved {st st' : State T} {held held' : List (Error T)} (good : Good clock st held)
    (errors : st'.errors = st.errors) (rt : st'.rt = st.rt)
    (places : (st'.places held').Perm (st.places held)) (reports : st'.reports = st.reports)
    (released : ∀ error ∈ st.released, error ∈ st'.released) : Good clock st' held' where
  once n made := (places.countP_eq _).trans (good.once n (errors ▸ made))
  unmade n unmade := (places.countP_eq _).trans (good.unmade n (errors ▸ unmade))
  timely error member made is := rt ▸ good.timely error (places.mem_iff.mp member) made is
  reports report member := (good.reports report (reports ▸ member)).mono released

-- A `TimeoutError` may be made with a reading that is not from the future.
theorem good_newError {st : State T} {held : List (Error T)} (good : Good clock st held)
    (timeout : Option (Late T))
    (timely : ∀ made, timeout = some made → made.now ≤ clock.now st.rt.clockReads) :
    Good clock (newError timeout st).2 ((newError timeout st).1 :: held) := by
  have added : ((newError timeout st).2.places ((newError timeout st).1 :: held)).Perm
      ((newError timeout st).1 :: st.places held) := List.perm_middle
  have counted (n : Nat) : (newError timeout st).2.owners ((newError timeout st).1 :: held) n =
      st.owners held n + if st.errors = n then 1 else 0 := by
    rw [State.owners, added.countP_eq, List.countP_cons]
    simp [State.owners, newError]
  constructor
  · intro n made
    rw [counted]
    rcases Nat.lt_succ_iff_lt_or_eq.mp made with earlier | rfl
    · rw [good.once n earlier, if_neg (by omega)]
    · rw [good.unmade _ (Nat.le_refl _), if_pos rfl]
  · intro n unmade
    have beyond : st.errors + 1 ≤ n := unmade
    rw [counted, good.unmade n (by omega), if_neg (by omega)]
  · intro error member made is
    rcases List.mem_cons.mp (added.mem_iff.mp member) with rfl | old
    · exact timely made is
    · exact good.timely error old made is
  · exact good.reports

theorem good_jsFreeError {st : State T} {held : List (Error T)} {error : Option (Error T)}
    (good : Good clock st (error.toList ++ held)) : Good clock (jsFreeError error st) held := by
  refine good.moved rfl rfl ?_ rfl fun _ => List.mem_append_right _
  simpa [State.places, jsFreeError] using
    List.perm_append_comm_assoc error.toList
      (st.released ++ st.kept ++ st.currentException.toList) held

theorem good_jsThrow {st : State T} {held : List (Error T)} {error : Error T}
    (good : Good clock st (error :: held)) : Good clock (jsThrow error st) held := by
  refine good.moved rfl rfl ?_ rfl fun _ => List.mem_append_right _
  simpa [State.places, jsThrow, jsFreeError] using
    List.perm_append_comm_assoc st.currentException.toList (st.released ++ st.kept) (error :: held)

theorem good_jsGetException {st : State T} {held : List (Error T)} (good : Good clock st held) :
    Good clock (jsGetException st).2 ((jsGetException st).1.toList ++ held) := by
  refine good.moved rfl rfl ?_ rfl fun _ => id
  simp only [State.places, jsGetException, Option.toList_none, List.append_nil, List.append_assoc]
  exact .refl _

-- Time passes without the errors.
theorem Good.rt {st : State T} {held : List (Error T)} (good : Good clock st held) {rt : Runtime T}
    (later : st.rt.clockReads ≤ rt.clockReads) : Good clock { st with rt } held :=
  ⟨good.once, good.unmade,
    fun error member made is => (good.timely error member made is).trans (clock.monotone later),
    good.reports⟩

theorem Good.report {st : State T} {held : List (Error T)} (good : Good clock st held)
    {report : Report T} (right : report.Right st.released) :
    Good clock (st.report report) held where
  once := good.once
  unmade := good.unmade
  timely := good.timely
  reports other member := by
    rcases List.mem_cons.mp member with rfl | earlier
    · exact right
    · exact good.reports other earlier

theorem good_throwNew {st : State T} {held : List (Error T)} (good : Good clock st held) :
    Good clock (throwNew st) held :=
  good_jsThrow (good_newError good none nofun)

/-- What some code does to the errors: all are accounted for, a released one stays released, and a
pending one stays pending or is released. -/
structure Passes (before after : State T) : Prop where
  reads : before.rt.clockReads ≤ after.rt.clockReads
  released : ∀ error ∈ before.released, error ∈ after.released
  pending : ∀ error, before.currentException = some error →
    after.currentException = some error ∨ error ∈ after.released

structure Keeps (clock : Clock T) (f : Acting T) : Prop where
  good : ∀ st held, Good clock st held → Good clock (f st) held
  passes : ∀ st, Passes st (f st)

def owned : Option (Thrown T) → List (Error T)
  | some (.guest error) => [error]
  | _ => []

structure Hands (clock : Clock T) (f : State T → Option (Thrown T) × State T) : Prop where
  good : ∀ st held, Good clock st held → Good clock (f st).2 (owned (f st).1 ++ held)
  passes : ∀ st, Passes st (f st).2

theorem Passes.refl (st : State T) : Passes st st := ⟨Nat.le_refl _, fun _ => id, fun _ => .inl⟩

theorem Passes.trans {a b c : State T} (first : Passes a b) (second : Passes b c) : Passes a c where
  reads := Nat.le_trans first.reads second.reads
  released error member := second.released error (first.released error member)
  pending error is := by
    rcases first.pending error is with still | gone
    · exact second.pending error still
    · exact .inr (second.released error gone)

theorem passes_jsFreeError (error : Option (Error T)) (st : State T) :
    Passes st (jsFreeError error st) :=
  ⟨Nat.le_refl _, fun _ => List.mem_append_right _, fun _ => .inl⟩

theorem passes_jsThrow (error : Error T) (st : State T) : Passes st (jsThrow error st) where
  reads := Nat.le_refl _
  released _ := List.mem_append_right _
  pending old is := .inr (List.mem_append_left _ (by simp [is]))

theorem passes_throwNew (st : State T) : Passes st (throwNew st) :=
  have thrown := passes_jsThrow (newError none st).1 (newError none st).2
  ⟨thrown.reads, thrown.released, thrown.pending⟩

theorem throwNew_releases {st : State T} {error : Error T} (is : st.currentException = some error) :
    error ∈ (throwNew st).released :=
  List.mem_append_left _ (by simp [is])

theorem keeps_throwNew : Keeps clock (throwNew : Acting T) :=
  ⟨fun _ _ => good_throwNew, passes_throwNew⟩

theorem keeps_catchPending : Keeps clock (catchPending : Acting T) where
  good _ _ good := good_jsFreeError (good_jsGetException good)
  passes st := by
    constructor
    · exact Nat.le_refl _
    · exact fun error => List.mem_append_right _
    · exact fun error is => .inr (List.mem_append_left _ (by simp [is]))

theorem keeps_id : Keeps clock (id : Acting T) := ⟨fun _ _ => id, .refl⟩

theorem Keeps.comp {f g : Acting T} (first : Keeps clock f) (second : Keeps clock g) :
    Keeps clock (fun st => g (f st)) where
  good st held good := second.good _ held (first.good st held good)
  passes st := (first.passes st).trans (second.passes _)

/-! ### Failing, and replacing what failed -/

theorem Passes.rt (st : State T) {rt : Runtime T} (later : st.rt.clockReads ≤ rt.clockReads) :
    Passes st { st with rt } :=
  ⟨later, fun _ => id, fun _ => .inl⟩

theorem good_failPending {st : State T} {held : List (Error T)} (good : Good clock st held)
    (fails : Bool) (before : Option (Error T)) : Good clock (failPending fails before st) held := by
  unfold failPending
  split
  · exact good_throwNew good
  · exact good

theorem passes_failPending (fails : Bool) (before : Option (Error T)) (st : State T) :
    Passes st (failPending fails before st) := by
  unfold failPending
  split
  · exact passes_throwNew st
  · exact .refl st

-- Who fails leaves an exception of its own behind; what was pending before is released.
theorem failPending_spec {before st : State T} (passes : Passes before st) :
    (∃ error, (failPending true before.currentException st).currentException = some error) ∧
      ∀ error, before.currentException = some error →
        error ∈ (failPending true before.currentException st).released := by
  cases since : thrownSince before.currentException st.currentException with
  | false =>
    have throws : failPending true before.currentException st = throwNew st := by
      simp [failPending, since]
    rw [throws]
    refine ⟨⟨_, rfl⟩, fun error is => ?_⟩
    rcases passes.pending error is with still | gone
    · exact List.mem_append_left _ (by simp [still])
    · exact (passes_throwNew st).released error gone
  | true =>
    have same : failPending true before.currentException st = st := by
      simp [failPending, since]
    rw [same]
    cases now : st.currentException with
    | none => simp [thrownSince, now] at since
    | some error =>
      refine ⟨⟨error, rfl⟩, fun old is => ?_⟩
      rcases passes.pending old is with still | gone
      · obtain rfl : error = old := Option.some.inj (now.symm.trans still)
        simp [thrownSince, now, is] at since
      · exact gone

section Replacing
variable (late : Late T) (allocated : Bool) {raising freeing : Acting T}

theorem qjsBunThrowTimeout_made (raising freeing : Acting T) (st : State T) :
    qjsBunThrowTimeout late true raising freeing st =
      let made := newError (some late) (raising st)
      jsThrow made.1
        (freeing (jsFreeError made.2.currentException { made.2 with currentException := none })) :=
      rfl

theorem qjsBunThrowTimeout_failed (raising freeing : Acting T) (st : State T) :
    qjsBunThrowTimeout late false raising freeing st = throwNew (raising st) := rfl

-- What was pending is released when a `TimeoutError` takes its place.
theorem qjsBunThrowTimeout_releases (raises : Keeps clock raising) (frees : Keeps clock freeing)
    {st : State T} {error : Error T} (is : st.currentException = some error) :
    error ∈ (qjsBunThrowTimeout late allocated raising freeing st).released := by
  cases allocated with
  | true =>
    rw [qjsBunThrowTimeout_made]
    refine (passes_jsThrow _ _).released error ((frees.passes _).released error ?_)
    rcases (raises.passes st).pending error is with still | gone
    · exact List.mem_append_left _ (by simp [newError, still])
    · exact List.mem_append_right _ gone
  | false =>
    rw [qjsBunThrowTimeout_failed]
    rcases (raises.passes st).pending error is with still | gone
    · exact throwNew_releases still
    · exact (passes_throwNew _).released error gone

theorem good_qjsBunThrowTimeout (raises : Keeps clock raising) (frees : Keeps clock freeing)
    {st : State T} {held : List (Error T)} (good : Good clock st held)
    (timely : late.now ≤ clock.now st.rt.clockReads) :
    Good clock (qjsBunThrowTimeout late allocated raising freeing st) held := by
  have raised := raises.good st held good
  cases allocated with
  | true =>
    have still : late.now ≤ clock.now (raising st).rt.clockReads :=
      timely.trans (clock.monotone (raises.passes st).reads)
    have made := good_newError raised (some late) (by rintro _ ⟨⟩; exact still)
    have freed := good_jsFreeError (good_jsGetException made)
    exact good_jsThrow (frees.good _ _ freed)
  | false => exact good_throwNew raised

theorem passes_qjsBunThrowTimeout (raises : Keeps clock raising) (frees : Keeps clock freeing)
    (st : State T) : Passes st (qjsBunThrowTimeout late allocated raising freeing st) := by
  have raised := raises.passes st
  cases allocated with
  | true =>
    rw [qjsBunThrowTimeout_made]
    have freed := frees.passes
      (jsFreeError (raising st).currentException
        { (newError (some late) (raising st)).2 with currentException := none })
    constructor
    · exact raised.reads.trans freed.reads
    · intro error member
      exact (passes_jsThrow _ _).released error
        (freed.released error (List.mem_append_right _ (raised.released error member)))
    · exact fun error is => .inr (qjsBunThrowTimeout_releases late true raises frees is)
  | false => exact raised.trans (passes_throwNew _)

end Replacing

/-! ### Leaving -/

section Leaving
variable (clock : Clock T) (scope : Scope T) (allocated : Bool) {raising freeing : Acting T}

-- What the clock reads when the scope is left.
def leftMs (st : State T) : T := ((st.leave scope).nowMs clock).1

-- The bridge decides in two places, in the same way.
theorem leavePendingJob_eq (failed hasContext : Bool) (st : State T) :
    leavePendingJob clock scope failed hasContext allocated raising freeing st =
      leaveScope clock scope (failed && hasContext) allocated raising freeing st := by
  unfold leavePendingJob leaveScope
  cases failed && hasContext with
  | false => rfl
  | true =>
    by_cases late : scope.ownMs ≤ ((st.leave scope).nowMs clock).1
    · have notEarly := not_lt_of_ge late
      simp only [dif_pos late, dif_neg notEarly, if_true, Bool.not_true,
        Bool.false_eq_true, if_false]
    · have early := lt_of_not_ge late
      simp only [dif_neg late, dif_pos early, if_true, Bool.not_true, Bool.false_eq_true, if_false]

theorem leaveScope_early {st : State T} (early : leftMs clock scope st < scope.ownMs) :
    leaveScope clock scope true allocated raising freeing st = ((st.leave scope).nowMs clock).2 :=
  dif_pos early

theorem leaveScope_late {st : State T} (late : scope.ownMs ≤ leftMs clock scope st) :
    leaveScope clock scope true allocated raising freeing st =
      qjsBunThrowTimeout ⟨scope, leftMs clock scope st, late⟩ allocated raising freeing
        ((st.leave scope).nowMs clock).2 :=
  dif_neg (not_lt_of_ge late)

theorem keeps_leaveScope (failed : Bool) (raises : Keeps clock raising)
    (frees : Keeps clock freeing) :
    Keeps clock (leaveScope clock scope failed allocated raising freeing) := by
  cases failed with
  | false => exact ⟨fun _ _ good => good.rt (Nat.le_refl _), fun st => .rt st (Nat.le_refl _)⟩
  | true =>
    constructor
    · intro st held good
      rcases lt_or_ge (leftMs clock scope st) scope.ownMs with early | late
      · rw [leaveScope_early clock scope allocated early]
        exact good.rt (Nat.le_succ _)
      · rw [leaveScope_late clock scope allocated late]
        exact good_qjsBunThrowTimeout _ allocated raises frees (good.rt (Nat.le_succ _))
          (clock.monotone (Nat.le_succ _))
    · intro st
      rcases lt_or_ge (leftMs clock scope st) scope.ownMs with early | late
      · rw [leaveScope_early clock scope allocated early]
        exact .rt st (Nat.le_succ _)
      · rw [leaveScope_late clock scope allocated late]
        exact Passes.trans (.rt st (Nat.le_succ _))
          (passes_qjsBunThrowTimeout _ allocated raises frees _)

-- What is pending after a failed call left is what its report says.
theorem leaveScope_right (raises : Keeps clock raising) (frees : Keeps clock freeing) {st : State T}
    {held : List (Error T)} (good : Good clock st held) {original : Error T}
    (is : st.currentException = some original) {outcome : Outcome T} (taken : outcome.taken =
      (leaveScope clock scope true allocated raising freeing st).currentException.map .guest)
    (hands : outcome.described = true → outcome.handed = outcome.taken) :
    Report.Right ⟨outcome, scope, st.currentException.map .guest, leftMs clock scope st,
      allocated, true⟩
      (leaveScope clock scope true allocated raising freeing st).released := by
  rw [is]
  constructor
  · intro absurd_
    cases absurd_
  · rintro _ ⟨⟩ - early
    rw [leaveScope_early clock scope allocated early] at taken
    exact taken.trans (congrArg (Option.map Thrown.guest) is)
  · rintro _ ⟨⟩ - late allocates
    obtain rfl : allocated = true := allocates
    rw [leaveScope_late clock scope true late] at taken ⊢
    exact ⟨_, _, taken, rfl, rfl,
      by rintro _ ⟨⟩; exact qjsBunThrowTimeout_releases _ true raises frees is⟩
  · rintro error made - its timeout own
    refine ⟨nofun, le_of_not_gt fun early => ?_⟩
    rw [leaveScope_early clock scope allocated early] at taken
    have kept : st.currentException.map Thrown.guest = some (.guest error) := taken.symm.trans its
    obtain rfl : original = error := by
      rw [is] at kept
      simpa using kept
    have timely := good.timely original (mem_places_pending held is) made timeout
    have passed := made.passed
    rw [own] at passed
    exact absurd early (not_lt_of_ge (passed.trans timely))
  · exact hands

end Leaving

/-! ### Taking an exception -/

section Taking
variable {describing : Describing T}

theorem newJSException_taken (error : Option (Error T)) (st : State T) :
    (newJSException describing error st).1.taken = error.map .guest := by
  unfold newJSException
  split <;> rfl

theorem newJSException_hands (error : Option (Error T)) (st : State T) :
    (newJSException describing error st).1.described = true →
      (newJSException describing error st).1.handed =
        (newJSException describing error st).1.taken := by
  unfold newJSException
  split
  · exact fun _ => rfl
  · exact nofun

-- The value is owned while it is described; after a failure the host keeps it.
theorem good_newJSException (describes : Hands clock describing) {st : State T}
    {held : List (Error T)} {error : Option (Error T)}
    (good : Good clock st (error.toList ++ held)) :
    Good clock (newJSException describing error st).2
      (owned (newJSException describing error st).1.handed ++ held) := by
  have described := describes.good st _ good
  unfold newJSException
  split
  · next ended is =>
    rw [is] at described
    cases error with
    | none => exact described
    | some error => exact described
  · next thrown ended is =>
    rw [is] at described
    refine described.moved rfl rfl ?_ rfl fun _ => id
    simp only [State.places, List.append_assoc]
    apply List.Perm.append_left
    -- the value goes from those held to those kept
    have moved := List.perm_append_comm_assoc error.toList
      (ended.kept ++ (ended.currentException.toList ++ owned (some thrown))) held
    simpa only [List.append_assoc] using moved

theorem passes_newJSException (describes : Hands clock describing) (error : Option (Error T))
    (st : State T) : Passes st (newJSException describing error st).2 := by
  have described := describes.passes st
  unfold newJSException
  split
  · next ended is =>
    rw [is] at described
    exact described
  · next thrown ended is =>
    rw [is] at described
    exact ⟨described.reads, described.released, described.pending⟩

theorem getException_taken (describing : Describing T) (st : State T) :
    (getException true describing st).1.taken = st.currentException.map .guest :=
  newJSException_taken _ _

theorem getException_hands (failed : Bool) (st : State T) :
    (getException failed describing st).1.described = true →
      (getException failed describing st).1.handed =
        (getException failed describing st).1.taken := by
  cases failed with
  | false => exact fun _ => rfl
  | true => exact newJSException_hands _ _

theorem good_getException (describes : Hands clock describing) {st : State T}
    {held : List (Error T)} (good : Good clock st held) (failed : Bool) :
    Good clock (getException failed describing st).2
      (owned (getException failed describing st).1.handed ++ held) := by
  cases failed with
  | false => exact good
  | true => exact good_newJSException describes (good_jsGetException good)

theorem getException_passes (describes : Hands clock describing) {before st : State T}
    (passes : Passes before st) (failed : Bool)
    (gone : failed = true → ∀ error, before.currentException = some error → error ∈ st.released) :
    Passes before (getException failed describing st).2 := by
  cases failed with
  | false => exact passes
  | true =>
    have described := passes_newJSException describes st.currentException (jsGetException st).2
    constructor
    · exact passes.reads.trans described.reads
    · exact fun error member => described.released error (passes.released error member)
    · exact fun error is => .inr (described.released error (gone rfl error is))

theorem getException_released (describes : Hands clock describing) (failed : Bool) (st : State T) :
    ∀ error ∈ st.released, error ∈ (getException failed describing st).2.released := by
  cases failed with
  | false => exact fun _ => id
  | true =>
    exact (passes_newJSException describes st.currentException (jsGetException st).2).released

end Taking

/-! ### Calls -/

section Calls
variable (clock : Clock T) (timeoutMs : T) (allocated : Bool) {inside raising freeing : Acting T}
  {describing : Describing T}

/-- The engine's part of a call: it runs, and may fail with what it threw. -/
def engine (fails : Bool) (inside : Acting T) (st : State T) : State T :=
  failPending fails st.currentException (inside st)

theorem keeps_engine (fails : Bool) (insideKeeps : Keeps clock inside) :
    Keeps clock (engine fails inside) where
  good st held good := good_failPending (insideKeeps.good st held good) fails _
  passes st := (insideKeeps.passes st).trans (passes_failPending fails _ _)

theorem right_succeeded (scope : Scope T) (leftMs : T) (survived : Bool)
    (released : List (Error T)) :
    Report.Right ⟨.none, scope, none, leftMs, allocated, survived⟩ released := by
  constructor
  · exact fun _ => rfl
  · intro _ absurd_
    cases absurd_
  · intro _ absurd_
    cases absurd_
  · intro _ _ _ absurd_
    cases absurd_
  · exact fun _ => rfl

-- What was pending when a failing call was entered is released when it has left.
theorem left_released {left : Scope T → Acting T} (leaves : ∀ scope, Keeps clock (left scope))
    (insideKeeps : Keeps clock inside) (st : State T) : ∀ error, st.currentException = some error →
    error ∈ (left (st.enter clock timeoutMs).1
      (engine true inside (st.enter clock timeoutMs).2)).released := by
  obtain ⟨-, gone⟩ := failPending_spec (insideKeeps.passes (st.enter clock timeoutMs).2)
  exact fun error is => ((leaves _).passes _).released error (gone error is)

theorem hands_scopedCall (fails : Bool) (insideKeeps : Keeps clock inside)
    (raises : Keeps clock raising) (frees : Keeps clock freeing)
    (describes : Hands clock describing) :
    Hands clock (scopedCall clock timeoutMs inside fails allocated raising freeing describing) := by
  have leaves (scope : Scope T) := keeps_leaveScope clock scope allocated fails raises frees
  have runs := keeps_engine clock fails insideKeeps
  constructor
  · intro st held good
    have ran := runs.good (st.enter clock timeoutMs).2 held (good.rt (Nat.le_succ _))
    have left := (leaves (st.enter clock timeoutMs).1).good _ held ran
    refine (good_getException describes left fails).report ?_
    cases fails with
    | false => exact right_succeeded allocated _ _ _ _
    | true =>
      obtain ⟨⟨original, is⟩, -⟩ :=
        failPending_spec (insideKeeps.passes (st.enter clock timeoutMs).2)
      have right :=
        leaveScope_right clock (st.enter clock timeoutMs).1 allocated raises frees ran is
        (getException_taken describing _) (getException_hands true _)
      exact right.mono (getException_released describes true _)
  · intro st
    have entered : Passes st (st.enter clock timeoutMs).2 := .rt st (Nat.le_succ _)
    have left :=
      (leaves (st.enter clock timeoutMs).1).passes
        (engine fails inside (st.enter clock timeoutMs).2)
    have ended := getException_passes describes ((entered.trans (runs.passes _)).trans left) fails
      fun isFailing => by
      subst isFailing
      exact left_released clock timeoutMs leaves insideKeeps st
    exact ⟨ended.reads, ended.released, ended.pending⟩

theorem right_unsurvived (scope : Scope T) (leftMs : T) {original : Option (Thrown T)}
    {outcome : Outcome T} (succeeded : original = none → outcome.taken = none)
    (hands : outcome.described = true → outcome.handed = outcome.taken)
    (released : List (Error T)) :
    Report.Right ⟨outcome, scope, original, leftMs, allocated, false⟩ released := by
  constructor
  · exact succeeded
  · intro _ _ absurd_
    cases absurd_
  · intro _ _ absurd_
    cases absurd_
  · intro _ _ absurd_
    cases absurd_
  · exact hands

theorem hands_executePendingJob (fails hasContext found : Bool) (insideKeeps : Keeps clock inside)
    (raises : Keeps clock raising) (frees : Keeps clock freeing)
    (describes : Hands clock describing) :
    Hands clock (executePendingJob clock timeoutMs inside fails hasContext found allocated raising
      freeing describing) := by
  have leaves (scope : Scope T) :
      Keeps clock (leavePendingJob clock scope fails hasContext allocated raising freeing) := by
    have same : leavePendingJob clock scope fails hasContext allocated raising freeing = _ :=
      funext fun st => leavePendingJob_eq clock scope allocated fails hasContext st
    rw [same]
    exact keeps_leaveScope clock scope allocated (fails && hasContext) raises frees
  have runs := keeps_engine clock fails insideKeeps
  constructor
  · intro st held good
    have ran := runs.good (st.enter clock timeoutMs).2 held (good.rt (Nat.le_succ _))
    have left := (leaves (st.enter clock timeoutMs).1).good _ held ran
    cases fails with
    | false =>
      exact (good_getException describes left false).report (right_succeeded allocated _ _ _ _)
    | true =>
      obtain ⟨⟨original, is⟩, -⟩ :=
        failPending_spec (insideKeeps.passes (st.enter clock timeoutMs).2)
      have failed {taken : Option (Thrown T)} :
          (engine true inside (st.enter clock timeoutMs).2).currentException.map Thrown.guest =
            none → taken = none := by
        rw [show (engine true inside (st.enter clock timeoutMs).2).currentException =
          some original from is]
        intro absurd_
        cases absurd_
      cases found with
      | false =>
        have unsurvived : (hasContext && false) = false := Bool.and_false _
        simp only [executePendingJob, unsurvived]
        exact left.report (right_unsurvived allocated _ _ failed (fun _ => rfl) _)
      | true =>
        refine (good_getException describes left true).report ?_
        cases hasContext with
        | false => exact right_unsurvived allocated _ _ failed (getException_hands true _) _
        | true =>
          have same : leavePendingJob clock (st.enter clock timeoutMs).1 true true allocated
              raising freeing _ =
              leaveScope clock (st.enter clock timeoutMs).1 true allocated raising freeing _ :=
            leavePendingJob_eq clock (st.enter clock timeoutMs).1 allocated true true
              (engine true inside (st.enter clock timeoutMs).2)
          have right :=
            leaveScope_right clock (st.enter clock timeoutMs).1 allocated raises frees ran is
            (getException_taken describing _) (getException_hands true _)
          exact (same ▸ right).mono (getException_released describes true _)
  · intro st
    have entered : Passes st (st.enter clock timeoutMs).2 := .rt st (Nat.le_succ _)
    have left :=
      (leaves (st.enter clock timeoutMs).1).passes
        (engine fails inside (st.enter clock timeoutMs).2)
    have passed := (entered.trans (runs.passes _)).trans left
    have ended := getException_passes describes passed fails fun isFailing => by
      subst isFailing
      exact left_released clock timeoutMs leaves insideKeeps st
    cases fails with
    | false => exact ⟨ended.reads, ended.released, ended.pending⟩
    | true =>
      cases found with
      | false => exact ⟨passed.reads, passed.released, passed.pending⟩
      | true => exact ⟨ended.reads, ended.released, ended.pending⟩

end Calls

section Dump
variable (clock : Clock T) (timeoutMs : T) (allocated : Bool)
    {disposing raising cleaning : Acting T}
  {describing : Describing T}

theorem good_disposeThrown (disposes : Keeps clock disposing) {st : State T} {held : List (Error T)}
    (error : Thrown T) (good : Good clock st (owned (some error) ++ held)) :
    Good clock (disposeThrown disposing error st) held := by
  cases error with
  | guest error => exact disposes.good _ held (good_jsFreeError good)
  | host => exact good

theorem passes_disposeThrown (disposes : Keeps clock disposing) (error : Thrown T) (st : State T) :
    Passes st (disposeThrown disposing error st) := by
  cases error with
  | guest error => exact (passes_jsFreeError (some error) st).trans (disposes.passes _)
  | host => exact .refl st

theorem released_disposeThrown (disposes : Keeps clock disposing) (error : Error T) (st : State T) :
    error ∈ (disposeThrown disposing (.guest error) st).released :=
  (disposes.passes _).released error (List.mem_append_left _ (by simp))

theorem dumpCatch_early (scope : Scope T) (error : Thrown T) {st : State T}
    (early : leftMs clock scope st < scope.ownMs) :
    dumpCatch clock scope error allocated disposing raising describing st =
      (.plain error, ((st.leave scope).nowMs clock).2) :=
  dif_neg (not_le_of_gt early)

/-- The state in which the catch clause has made its error, or failed to. -/
def caught (disposing raising : Acting T) (scope : Scope T) (error : Thrown T) (st : State T) :
    State T :=
  raising (disposeThrown disposing error ((st.leave scope).nowMs clock).2)

theorem passes_caught (scope : Scope T) (disposes : Keeps clock disposing)
    (raises : Keeps clock raising) (error : Thrown T) (st : State T) :
    Passes st (caught clock disposing raising scope error st) := by
  have left : Passes st ((st.leave scope).nowMs clock).2 := .rt st (Nat.le_succ _)
  exact (left.trans (passes_disposeThrown clock disposes error _)).trans (raises.passes _)

theorem good_caught (scope : Scope T) (disposes : Keeps clock disposing)
    (raises : Keeps clock raising) {st : State T} {held : List (Error T)} {error : Thrown T}
    (good : Good clock st (owned (some error) ++ held)) :
    Good clock (caught clock disposing raising scope error st) held :=
  raises.good _ held (good_disposeThrown clock disposes error (good.rt (Nat.le_succ _)))

theorem dumpCatch_made (scope : Scope T) (error : Thrown T) {st : State T}
    (late : scope.ownMs ≤ leftMs clock scope st) :
    dumpCatch clock scope error true disposing raising describing st =
      let made := newError (some ⟨scope, leftMs clock scope st, late⟩)
        (caught clock disposing raising scope error st)
      newJSException describing (some made.1) made.2 :=
  dif_pos late

theorem dumpCatch_failed (scope : Scope T) (error : Thrown T) {st : State T}
    (late : scope.ownMs ≤ leftMs clock scope st) :
    dumpCatch clock scope error false disposing raising describing st =
      getException true describing (throwNew (caught clock disposing raising scope error st)) :=
  dif_pos late

theorem good_dumpCatch (scope : Scope T) (disposes : Keeps clock disposing)
    (raises : Keeps clock raising) (describes : Hands clock describing) {st : State T}
    {held : List (Error T)} {error : Thrown T} (good : Good clock st (owned (some error) ++ held)) :
    Good clock (dumpCatch clock scope error allocated disposing raising describing st).2
      (owned (dumpCatch clock scope error allocated disposing raising describing st).1.handed ++
        held) := by
  have reads := (passes_caught clock scope disposes raises error st).reads
  have raised := good_caught clock scope disposes raises good
  rcases lt_or_ge (leftMs clock scope st) scope.ownMs with early | late
  · rw [dumpCatch_early clock allocated scope error early]
    exact good.rt (Nat.le_succ _)
  · cases allocated with
    | true =>
      rw [dumpCatch_made clock scope error late]
      refine good_newJSException describes (good_newError raised _ ?_)
      rintro _ ⟨⟩
      exact clock.monotone reads
    | false =>
      rw [dumpCatch_failed clock scope error late]
      exact good_getException describes (good_throwNew raised) true

theorem passes_dumpCatch (scope : Scope T) (disposes : Keeps clock disposing)
    (raises : Keeps clock raising) (describes : Hands clock describing) (error : Thrown T)
    (st : State T) :
    Passes st (dumpCatch clock scope error allocated disposing raising describing st).2 := by
  have raised := passes_caught clock scope disposes raises error st
  rcases lt_or_ge (leftMs clock scope st) scope.ownMs with early | late
  · rw [dumpCatch_early clock allocated scope error early]
    exact .rt st (Nat.le_succ _)
  · cases allocated with
    | true =>
      rw [dumpCatch_made clock scope error late]
      have made : Passes st
          (newError (some ⟨scope, leftMs clock scope st, late⟩)
            (caught clock disposing raising scope error st)).2 :=
        ⟨raised.reads, raised.released, raised.pending⟩
      exact made.trans (passes_newJSException describes _ _)
    | false =>
      rw [dumpCatch_failed clock scope error late]
      refine getException_passes describes (raised.trans (passes_throwNew _)) true fun _ old is =>
        ?_
      rcases raised.pending old is with still | gone
      · exact throwNew_releases still
      · exact (passes_throwNew _).released old gone

theorem dumpCatch_hands (scope : Scope T) (error : Thrown T) (st : State T) :
    (dumpCatch clock scope error allocated disposing raising describing st).1.described = true →
      (dumpCatch clock scope error allocated disposing raising describing st).1.handed =
        (dumpCatch clock scope error allocated disposing raising describing st).1.taken := by
  rcases lt_or_ge (leftMs clock scope st) scope.ownMs with early | late
  · rw [dumpCatch_early clock allocated scope error early]
    exact fun _ => rfl
  · cases allocated with
    | true =>
      rw [dumpCatch_made clock scope error late]
      exact newJSException_hands _ _
    | false =>
      rw [dumpCatch_failed clock scope error late]
      exact getException_hands true _

theorem dumpCatch_right (scope : Scope T) (disposes : Keeps clock disposing)
    (raises : Keeps clock raising) (describes : Hands clock describing) {st : State T}
    {held : List (Error T)} {error : Thrown T} (good : Good clock st (owned (some error) ++ held)) :
    let ended := dumpCatch clock scope error allocated disposing raising describing st
    Report.Right ⟨ended.1, scope, some error, leftMs clock scope st, allocated, true⟩
      ended.2.released := by
  intro ended
  constructor
  · intro absurd_
    cases absurd_
  · intro thrown is _ early
    have same : ended = _ := dumpCatch_early clock allocated scope error early
    rw [same]
    exact is
  · rintro _ ⟨⟩ - late allocates
    obtain rfl : allocated = true := allocates
    have same : ended = _ := dumpCatch_made clock scope error late
    rw [same]
    refine ⟨_, _, newJSException_taken _ _, rfl, rfl, ?_⟩
    rintro replaced rfl
    have gone : replaced ∈ (caught clock disposing raising scope (.guest replaced) st).released :=
      (raises.passes _).released replaced (released_disposeThrown clock disposes replaced _)
    exact (passes_newJSException describes _ _).released replaced gone
  · rintro own made - taken timeout mine
    refine ⟨nofun, le_of_not_gt fun early => ?_⟩
    have same : ended = _ := dumpCatch_early clock allocated scope error early
    rw [same] at taken
    obtain rfl : error = .guest own := Option.some.inj taken
    have member : own ∈ st.places (owned (some (.guest own)) ++ held) := by
      simp [State.places, owned]
    have passed := made.passed
    rw [mine] at passed
    exact absurd early (not_lt_of_ge (passed.trans (good.timely own member made timeout)))
  · exact dumpCatch_hands clock allocated scope error st

theorem hands_dump {visit : Describing T} (visits : Hands clock visit)
    (disposes : Keeps clock disposing) (raises : Keeps clock raising)
    (cleans : Keeps clock cleaning) (describes : Hands clock describing) :
    Hands clock (dump clock timeoutMs visit allocated disposing raising cleaning describing) := by
  constructor
  · intro st held good
    have visited := visits.good (st.enter clock timeoutMs).2 held (good.rt (Nat.le_succ _))
    simp only [dump]
    split
    · next ended is =>
        rw [is] at visited
        exact ((cleans.good _ held visited).rt (Nat.le_succ _)).report
          (right_succeeded allocated _ _ _ _)
    · next error ended is =>
        rw [is] at visited
        have handed :=
          good_dumpCatch clock allocated (st.enter clock timeoutMs).1 disposes raises
            describes visited
        have right :=
          dumpCatch_right clock allocated (st.enter clock timeoutMs).1 disposes raises
            describes visited
        exact (cleans.good _ _ handed).report (right.mono (cleans.passes _).released)
  · intro st
    have entered : Passes st (st.enter clock timeoutMs).2 := .rt st (Nat.le_succ _)
    have visited := entered.trans (visits.passes _)
    simp only [dump]
    split
    · next ended is =>
        rw [is] at visited
        have cleaned := visited.trans (cleans.passes ended)
        exact ⟨cleaned.reads.trans (Nat.le_succ _), cleaned.released, cleaned.pending⟩
    · next error ended is =>
        rw [is] at visited
        have handed :=
          passes_dumpCatch clock allocated (st.enter clock timeoutMs).1 disposes raises
            describes error ended
        have cleaned := (visited.trans handed).trans (cleans.passes _)
        exact ⟨cleaned.reads, cleaned.released, cleaned.pending⟩

end Dump

/-! ### Whole trees of calls -/

theorem good_react {st : State T} {held : List (Error T)} (reaction : Reaction)
    {thrown : Option (Thrown T)} (good : Good clock st (owned thrown ++ held)) :
    Good clock (st.react reaction thrown) held := by
  match thrown, reaction with
  | none, _ => exact good
  | some .host, .rethrow => exact good_throwNew good
  | some .host, .dispose => exact good
  | some .host, .keep => exact good
  | some (.guest error), .dispose => exact good_jsFreeError good
  | some (.guest error), .keep =>
    refine good.moved rfl rfl ?_ rfl fun _ => id
    simpa [State.places, State.react, owned] using
      (List.perm_append_comm_assoc [error] (st.kept ++ st.currentException.toList) held).append_left
        st.released
  | some (.guest error), .rethrow => exact good_jsThrow good

theorem passes_react (reaction : Reaction) (thrown : Option (Thrown T)) (st : State T) :
    Passes st (st.react reaction thrown) := by
  match thrown, reaction with
  | none, _ => exact .refl st
  | some .host, .rethrow => exact passes_throwNew st
  | some .host, .dispose => exact .refl st
  | some .host, .keep => exact .refl st
  | some (.guest error), .dispose => exact passes_jsFreeError (some error) st
  | some (.guest error), .keep => exact ⟨Nat.le_refl _, fun _ => id, fun _ => .inl⟩
  | some (.guest error), .rethrow => exact passes_jsThrow error st

theorem hands_unscoped (clock : Clock T) {inside : Acting T} {describing : Describing T}
    (fails : Bool) (insideKeeps : Keeps clock inside) (describes : Hands clock describing) :
    Hands clock fun st =>
      let ended := getException fails describing (engine fails inside st)
      (ended.1.handed, ended.2) := by
  have runs := keeps_engine clock fails insideKeeps
  constructor
  · intro st held good
    exact good_getException describes (runs.good st held good) fails
  · intro st
    refine getException_passes describes (runs.passes st) fails fun isFailing => ?_
    subst isFailing
    exact (failPending_spec (insideKeeps.passes st)).2

theorem Hands.after {acting : Acting T} {last : Describing T} (hands : Hands clock last)
    (keeps : Keeps clock acting) : Hands clock fun st => last (acting st) :=
  ⟨fun st held good => hands.good _ held (keeps.good st held good), fun st =>
    (keeps.passes st).trans (hands.passes _)⟩

mutual
theorem Call.run_hands (clock : Clock T) : ∀ call : Call T, Hands clock (call.run clock)
  | .scoped timeoutMs inside fails allocated raising freeing describing described =>
    hands_scopedCall clock timeoutMs allocated fails (runActs_keeps clock inside)
      (runActs_keeps clock raising)
      (runActs_keeps clock freeing)
        ((Last.run_hands clock described).after (runActs_keeps clock describing))
  | .executePendingJob timeoutMs inside fails hasContext found allocated raising freeing describing
    described =>
    hands_executePendingJob clock timeoutMs allocated fails hasContext found
      (runActs_keeps clock inside)
      (runActs_keeps clock raising) (runActs_keeps clock freeing)
      ((Last.run_hands clock described).after (runActs_keeps clock describing))
  | .dump timeoutMs visiting ends allocated disposing raising cleaning describing described =>
    hands_dump clock timeoutMs allocated
      ((Last.run_hands clock ends).after (runActs_keeps clock visiting))
      (runActs_keeps clock disposing) (runActs_keeps clock raising) (runActs_keeps clock cleaning)
      ((Last.run_hands clock described).after (runActs_keeps clock describing))
  | .unscoped inside fails describing described =>
    hands_unscoped clock fails (runActs_keeps clock inside)
      ((Last.run_hands clock described).after (runActs_keeps clock describing))

theorem Act.run_keeps (clock : Clock T) : ∀ act : Act T, Keeps clock (act.run clock)
  | .host call reaction =>
    ⟨fun st held good => good_react reaction ((Call.run_hands clock call).good st held good),
      fun st => ((Call.run_hands clock call).passes st).trans (passes_react reaction _ _)⟩
  | .throws => keeps_throwNew
  | .catches => keeps_catchPending

theorem Last.run_hands (clock : Clock T) : ∀ last : Last T, Hands clock (last.run clock)
  | .returns => ⟨fun _ _ good => good, .refl⟩
  | .fails call => by
    have hands := Call.run_hands clock call
    constructor
    · intro st held good
      have ended := hands.good st held good
      simp only [Last.run]
      cases is : (Call.run clock call st).1 with
      | none => simpa [is, owned] using ended
      | some thrown => simpa [is] using ended
    · exact hands.passes
  | .throws => ⟨fun _ _ good => good, .refl⟩

theorem runActs_keeps (clock : Clock T) : ∀ acts : List (Act T), Keeps clock (runActs clock acts)
  | [] => keeps_id
  | act :: rest => (Act.run_keeps clock act).comp (runActs_keeps clock rest)
end

end QuickJSBun.Bridge.Timeouts
