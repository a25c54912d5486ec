import QuickJSBun.Bridge.Deadline

/-! Trees of nested API calls and the deadline along their runs.

A node is one call of the API: its timeout, how the engine answered, and the
calls the host made back into the API while it was running, in order. A host
that reacts to what it sees is covered because every tree is: the calls it made
in one run are one of the trees.
-/

set_option autoImplicit false

namespace QuickJSBun.Bridge

open Library.Nesting

/-- One API call. `raising` holds the calls of finalizers run while a `TimeoutError` is made. -/
inductive Call (T : Type) where
  | eval (timeoutMs : T) (isModule compileOnly : Bool) (compiling : List (Call T))
      (compiled importMeta : Int) (evaluating : List (Call T)) (result : Int)
      (raising : List (Call T))
  | timed (entry : Timed) (timeoutMs : T) (inside : List (Call T)) (out : Int)
      (raising : List (Call T))
  | guestOut (entry : GuestOut) (timeoutMs : T) (inside : List (Call T)) (out : Int)
      (raising : List (Call T))
  | guestRet (entry : GuestRet) (timeoutMs : T) (inside : List (Call T)) (ret : Int)
      (raising : List (Call T))
  | toCstringCopy (timeoutMs : T) (inside : List (Call T)) (text : Option Nat)
      (raising : List (Call T))
  | ownKeys (timeoutMs : T) (listing : List (Call T)) (listed : Bool)
      (copying : List (Call T)) (ret : Int) (raising : List (Call T))
  | valueToAtom (timeoutMs : T) (inside : List (Call T)) (atom : Nat) (raising : List (Call T))
  | getDataProperty (timeoutMs : T) (inside : List (Call T)) (out : Int) (raising : List (Call T))
  | executePendingJob (timeoutMs : T) (inside : List (Call T)) (ret : Int) (hasContext : Bool)
      (raising : List (Call T))
  | dump (timeoutMs : T) (visiting : List (Call T)) (failure : Option Failure)
      (disposing building cleaning : List (Call T))
  /-- A call that opens no scope of its own but lets the host in: a finalizer, a module callback. -/
  | unscoped (inside : List (Call T))

variable {T : Type} [LinearOrder T]

mutual
def Call.run (clock : Clock T) : Call T → Runtime T → Runtime T
  | .eval timeoutMs isModule compileOnly compiling compiled importMeta evaluating result raising =>
    qjsBunEval clock timeoutMs isModule compileOnly (runCalls clock compiling) compiled importMeta
      (runCalls clock evaluating) result (runCalls clock raising)
  | .timed entry timeoutMs inside out raising =>
    qjsBunTimed clock entry timeoutMs (runCalls clock inside) out (runCalls clock raising)
  | .guestOut entry timeoutMs inside out raising =>
    qjsGuestOut clock entry timeoutMs (runCalls clock inside) out (runCalls clock raising)
  | .guestRet entry timeoutMs inside ret raising =>
    qjsGuestRet clock entry timeoutMs (runCalls clock inside) ret (runCalls clock raising)
  | .toCstringCopy timeoutMs inside text raising =>
    qjsBunToCstringCopy clock timeoutMs (runCalls clock inside) text (runCalls clock raising)
  | .ownKeys timeoutMs listing listed copying ret raising =>
    qjsBunOwnKeys clock timeoutMs (runCalls clock listing) listed (runCalls clock copying) ret
      (runCalls clock raising)
  | .valueToAtom timeoutMs inside atom raising =>
    qjsBunValueToAtom clock timeoutMs (runCalls clock inside) atom (runCalls clock raising)
  | .getDataProperty timeoutMs inside out raising =>
    qjsBunGetDataProperty clock timeoutMs (runCalls clock inside) out (runCalls clock raising)
  | .executePendingJob timeoutMs inside ret hasContext raising =>
    qjsBunExecutePendingJob clock timeoutMs (runCalls clock inside) ret hasContext
      (runCalls clock raising)
  | .dump timeoutMs visiting failure disposing building cleaning =>
    Bridge.dump clock timeoutMs (runCalls clock visiting) failure (runCalls clock disposing)
      (runCalls clock building) (runCalls clock cleaning)
  | .unscoped inside => runCalls clock inside

def runCalls (clock : Clock T) : List (Call T) → Runtime T → Runtime T
  | [], rt => rt
  | call :: rest, rt => runCalls clock rest (call.run clock rt)
end

variable [OrderTop T]

/-- The deadline is the tightest own deadline of the scopes open at that moment. -/
def Moment.Tightest (moment : Moment T) : Prop := moment.deadlineMs = tightest moment.opened

/-- Now and at every recorded moment the deadline is the tightest of the open scopes' own deadlines,
and since the `earlier` moments the scopes of `base` have been open. -/
structure WellScoped (base : List T) (earlier : List (Moment T)) (rt : Runtime T) : Prop where
  current : rt.deadlineMs = tightest (rt.opened.map Prod.snd)
  recorded : ∀ moment ∈ rt.moments, moment.Tightest
  within : base <:+ rt.opened.map Prod.snd
  since : ∀ moment ∈ rt.moments, moment ∈ earlier ∨ base <:+ moment.opened

section
variable {base : List T} {earlier : List (Moment T)}

variable (base earlier) in
abbrev Nests (f : Runtime T → Runtime T) : Prop :=
  Restores (WellScoped base earlier) (fun rt => (rt.deadlineMs, rt.opened)) f

theorem WellScoped.init : WellScoped [] [] (Runtime.init : Runtime T) :=
  ⟨rfl, by simp [Runtime.init], List.nil_suffix, by simp [Runtime.init]⟩

theorem WellScoped.observe {rt : Runtime T} (valid : WellScoped base earlier rt) :
    WellScoped base earlier rt.observe where
  current := valid.current
  recorded moment member := by
    rcases List.mem_cons.mp member with rfl | old
    · exact valid.current
    · exact valid.recorded moment old
  within := valid.within
  since moment member := by
    rcases List.mem_cons.mp member with rfl | old
    · exact .inr valid.within
    · exact valid.since moment old

theorem enter_spec (clock : Clock T) (timeoutMs : T) {rt : Runtime T}
    (valid : WellScoped base earlier rt) : let entered := qjsBunEnter clock timeoutMs rt
    WellScoped base earlier entered.2 ∧
    entered.2.opened = (entered.1.number, entered.1.ownMs) :: rt.opened ∧
      entered.1.savedMs = rt.deadlineMs := by
  obtain ⟨current, recorded, within, since⟩ := valid
  let ownMs := clock.after (clock.now rt.clockReads) timeoutMs
  have lowered : (if ownMs < rt.deadlineMs then ownMs else rt.deadlineMs) =
      tightest (ownMs :: rt.opened.map Prod.snd) := by
    rw [lower_eq_min, tightest_cons, current]
  exact ⟨WellScoped.observe ⟨lowered, recorded, within.trans (List.suffix_cons _ _), since⟩, rfl,
    rfl⟩

-- Leaving the innermost scope undoes its entry.
theorem leave_spec {before rt : Runtime T} (outer : WellScoped base earlier before)
    (valid : WellScoped base earlier rt) {scope : Scope T}
    (opened : rt.opened = (scope.number, scope.ownMs) :: before.opened)
    (saved : scope.savedMs = before.deadlineMs) :
    WellScoped base earlier (rt.leave scope) ∧
      ((rt.leave scope).deadlineMs, (rt.leave scope).opened) =
        (before.deadlineMs, before.opened) := by
  have popped : rt.opened.eraseP (fun entry => entry.1 == scope.number) = before.opened := by
    simp [opened]
  refine ⟨WellScoped.observe ⟨?_, valid.recorded, ?_, valid.since⟩, ?_⟩
  · simp only [popped, saved]
    exact outer.current
  · simp only [popped]
    exact outer.within
  · simp [Runtime.leave, Runtime.observe, popped, saved]

-- An entry point nests when all it does is to enter, run code that nests, leave, and then only run
-- code that nests again.
theorem nests_scope (clock : Clock T) (timeoutMs : T) {body : Scope T → Runtime T → Runtime T}
    {finish : Scope T → Runtime T → Runtime T}
    (bodyNests : ∀ scope, Nests base earlier (body scope))
    (finishNests : ∀ scope, Nests base earlier (finish scope)) :
    Nests base earlier (fun rt =>
      let entered := qjsBunEnter clock timeoutMs rt
      finish entered.1 ((body entered.1 entered.2).leave entered.1)) := by
  have left : ∀ rt : Runtime T, WellScoped base earlier rt →
      let entered := qjsBunEnter clock timeoutMs rt
      let left := (body entered.1 entered.2).leave entered.1
      WellScoped base earlier left ∧
      (left.deadlineMs, left.opened) = (rt.deadlineMs, rt.opened) := by
    intro rt valid entered
    obtain ⟨inner, opened, saved⟩ := enter_spec clock timeoutMs valid
    have returned := (bodyNests entered.1).returns entered.2 inner
    exact leave_spec valid ((bodyNests entered.1).keeps _ inner)
      ((congrArg Prod.snd returned).trans opened) saved
  constructor
  · intro rt valid
    exact (finishNests _).keeps _ (left rt valid).1
  · intro rt valid
    exact ((finishNests _).returns _ (left rt valid).1).trans (left rt valid).2

-- Reading the clock moves nothing that the invariant mentions.
theorem nests_nowMs (clock : Clock T) :
    Nests base earlier (fun rt : Runtime T => (qjsBunNowMs clock rt).2) :=
  ⟨fun _ valid => ⟨valid.current, valid.recorded, valid.within, valid.since⟩, fun _ _ => rfl⟩

theorem nests_late (clock : Clock T) {raise : Runtime T → Runtime T}
    (raises : Nests base earlier raise) (late : T → Bool) :
    Nests base earlier (fun rt =>
      let read := qjsBunNowMs clock rt
      if late read.1 then raise read.2 else read.2) :=
  Restores.ite (fun rt : Runtime T => late (clock.now rt.clockReads))
    ((nests_nowMs clock).comp raises)
    (nests_nowMs clock)

/-- What `qjs_bun_leave` does after restoring the deadline. -/
def afterLeave (clock : Clock T) (raise : Runtime T → Runtime T) (failed : Bool) (scope : Scope T)
    (rt : Runtime T) : Runtime T :=
  if !failed then rt
  else
    let read := qjsBunNowMs clock rt
    if decide (scope.ownMs ≤ read.1) then raise read.2 else read.2

omit [OrderTop T] in
theorem qjsBunLeave_eq (clock : Clock T) (raise : Runtime T → Runtime T) (failed : Bool)
    (scope : Scope T) (rt : Runtime T) : (qjsBunLeave clock raise scope failed rt).2 =
      afterLeave clock raise failed scope (rt.leave scope) := by
  cases failed with
  | false => rfl
  | true =>
    simp only [qjsBunLeave, afterLeave, Bool.not_true, Bool.false_eq_true, if_false,
      decide_eq_true_eq]
    rcases lt_or_ge (qjsBunNowMs clock (rt.leave scope)).1 scope.ownMs with early | late
    · rw [if_pos early, if_neg early.not_ge]
    · rw [if_neg late.not_gt, if_pos late]

theorem nests_afterLeave (clock : Clock T) {raise : Runtime T → Runtime T}
    (raises : Nests base earlier raise) (failed : Bool) (scope : Scope T) :
    Nests base earlier (afterLeave clock raise failed scope) := by
  cases failed with
  | false => exact Restores.id
  | true => exact nests_late clock raises (fun now => decide (scope.ownMs ≤ now))

/-! ### The entry points nest -/

section EntryPoints
variable (clock : Clock T) (timeoutMs : T) {inside raise : Runtime T → Runtime T}

theorem bracket_nests (failed : Bool) (insideNests : Nests base earlier inside)
    (raiseNests : Nests base earlier raise) :
    Nests base earlier (bracket clock timeoutMs inside failed raise) := by
  have shape : bracket clock timeoutMs inside failed raise = fun rt =>
      let entered := qjsBunEnter clock timeoutMs rt
      afterLeave clock raise failed entered.1 ((inside entered.2).leave entered.1) :=
    funext fun rt => qjsBunLeave_eq clock raise failed _ _
  rw [shape]
  exact nests_scope clock timeoutMs (fun _ => insideNests)
    (nests_afterLeave clock raiseNests failed)

-- Whatever `qjs_bun_eval` does after compiling, it leaves once, with one verdict.
theorem qjsBunEval_nests (isModule compileOnly : Bool) {compile evaluate : Runtime T → Runtime T}
    (compiled importMeta result : Int) (compileNests : Nests base earlier compile)
    (evaluateNests : Nests base earlier evaluate) (raiseNests : Nests base earlier raise) :
    Nests base earlier
      (qjsBunEval clock timeoutMs isModule compileOnly compile compiled importMeta evaluate
        result raise) := by
  have compiledOnly (out : Int) :=
    bracket_nests clock timeoutMs (out == tagException) compileNests raiseNests
  have evaluated := bracket_nests clock timeoutMs (result == tagException)
    (compileNests.comp evaluateNests) raiseNests
  unfold qjsBunEval
  cases isCompiled : (isModule && compiled != tagException) with
  | false =>
    simp only [Bool.false_eq_true, if_false]
    exact compiledOnly compiled
  | true =>
    by_cases noMeta : importMeta < 0
    · simp only [noMeta, if_true]
      exact compiledOnly tagException
    · cases compileOnly with
      | true =>
        simp only [noMeta, if_true, if_false, Bool.not_true, Bool.false_eq_true]
        exact compiledOnly compiled
      | false =>
        simp only [noMeta, if_true, if_false, Bool.not_false]
        exact evaluated

theorem qjsBunToCstringCopy_nests (text : Option Nat) (insideNests : Nests base earlier inside)
    (raiseNests : Nests base earlier raise) :
    Nests base earlier (qjsBunToCstringCopy clock timeoutMs inside text raise) := by
  cases text with
  | none => exact bracket_nests clock timeoutMs true insideNests raiseNests
  | some size => exact bracket_nests clock timeoutMs false insideNests raiseNests

theorem qjsBunOwnKeys_nests {copying : Runtime T → Runtime T} (listed : Bool) (ret : Int)
    (insideNests : Nests base earlier inside) (copyingNests : Nests base earlier copying)
    (raiseNests : Nests base earlier raise) :
    Nests base earlier (qjsBunOwnKeys clock timeoutMs inside listed copying ret raise) := by
  cases listed with
  | false => exact bracket_nests clock timeoutMs true insideNests raiseNests
  | true =>
    exact bracket_nests clock timeoutMs (ret == -1) (insideNests.comp copyingNests) raiseNests

theorem qjsBunExecutePendingJob_nests (ret : Int) (hasContext : Bool)
    (insideNests : Nests base earlier inside) (raiseNests : Nests base earlier raise) :
    Nests base earlier (qjsBunExecutePendingJob clock timeoutMs inside ret hasContext raise) := by
  unfold qjsBunExecutePendingJob
  cases decide (ret < 0) && hasContext with
  | true =>
    have late (scope : Scope T) :=
      nests_late clock raiseNests (fun now => decide (scope.ownMs ≤ now))
    simp only [decide_eq_true_eq] at late
    simp only [if_true]
    exact nests_scope clock timeoutMs (fun _ => insideNests) late
  | false =>
    simp only [Bool.false_eq_true, if_false]
    exact nests_scope clock timeoutMs (fun _ => insideNests) (fun _ => Restores.id)

omit [OrderTop T] in
theorem dumpCatch_eq (scope : Scope T) (error : Failure)
    (disposing building : Runtime T → Runtime T) (rt : Runtime T) :
    dumpCatch clock scope error disposing building rt =
      (let read := qjsBunNowMs clock (rt.leave scope)
       if decide (scope.ownMs ≤ read.1) then
         building (if error = .jsException then disposing read.2 else read.2)
       else read.2) := by
  by_cases late : scope.ownMs ≤ (qjsBunNowMs clock (rt.leave scope)).1 <;>
    simp [dumpCatch, qjsBunLeaveScope, late]

-- `dump` leaves in its catch clause or in its finally clause, never in both: the `left` flag.
theorem dump_nests (failure : Option Failure)
    {visit disposing building cleaning : Runtime T → Runtime T}
    (visitNests : Nests base earlier visit) (disposingNests : Nests base earlier disposing)
    (buildingNests : Nests base earlier building) (cleaningNests : Nests base earlier cleaning) :
    Nests base earlier (dump clock timeoutMs visit failure disposing building cleaning) := by
  cases failure with
  | none =>
    exact nests_scope clock timeoutMs (fun _ => visitNests.comp cleaningNests)
      (fun _ => nests_nowMs clock)
  | some error =>
    have raises : Nests base earlier
        (fun rt => building (if error = .jsException then disposing rt else rt)) := by
      cases error with
      | jsException => exact disposingNests.comp buildingNests
      | other => exact buildingNests
    have shape : dump clock timeoutMs visit (some error) disposing building cleaning = fun rt =>
        let entered := qjsBunEnter clock timeoutMs rt
        cleaning (dumpCatch clock entered.1 error disposing building (visit entered.2)) := rfl
    simp only [shape, dumpCatch_eq]
    exact nests_scope clock timeoutMs (fun _ => visitNests) fun scope =>
      (nests_late clock raises (fun now => decide (scope.ownMs ≤ now))).comp cleaningNests

end EntryPoints

/-! ### Whole trees of calls -/

mutual
theorem Call.run_nests (clock : Clock T) : ∀ call : Call T, Nests base earlier (call.run clock)
  | .eval timeoutMs isModule compileOnly compiling compiled importMeta evaluating result raising =>
    qjsBunEval_nests clock timeoutMs isModule compileOnly compiled importMeta result
      (runCalls_nests clock compiling) (runCalls_nests clock evaluating)
        (runCalls_nests clock raising)
  | .timed _ timeoutMs inside out raising =>
    bracket_nests clock timeoutMs (out == tagException) (runCalls_nests clock inside)
      (runCalls_nests clock raising)
  | .guestOut _ timeoutMs inside out raising =>
    bracket_nests clock timeoutMs (out == tagException) (runCalls_nests clock inside)
      (runCalls_nests clock raising)
  | .guestRet _ timeoutMs inside ret raising =>
    bracket_nests clock timeoutMs (decide (ret < 0)) (runCalls_nests clock inside)
      (runCalls_nests clock raising)
  | .toCstringCopy timeoutMs inside text raising =>
    qjsBunToCstringCopy_nests clock timeoutMs text (runCalls_nests clock inside)
      (runCalls_nests clock raising)
  | .ownKeys timeoutMs listing listed copying ret raising =>
    qjsBunOwnKeys_nests clock timeoutMs listed ret (runCalls_nests clock listing)
      (runCalls_nests clock copying) (runCalls_nests clock raising)
  | .valueToAtom timeoutMs inside atom raising =>
    bracket_nests clock timeoutMs (atom == 0) (runCalls_nests clock inside)
      (runCalls_nests clock raising)
  | .getDataProperty timeoutMs inside out raising =>
    bracket_nests clock timeoutMs (out == tagException) (runCalls_nests clock inside)
      (runCalls_nests clock raising)
  | .executePendingJob timeoutMs inside ret hasContext raising =>
    qjsBunExecutePendingJob_nests clock timeoutMs ret hasContext (runCalls_nests clock inside)
      (runCalls_nests clock raising)
  | .dump timeoutMs visiting failure disposing building cleaning =>
    dump_nests clock timeoutMs failure (runCalls_nests clock visiting)
      (runCalls_nests clock disposing)
      (runCalls_nests clock building) (runCalls_nests clock cleaning)
  | .unscoped inside => runCalls_nests clock inside

theorem runCalls_nests (clock : Clock T) :
    ∀ calls : List (Call T), Nests base earlier (runCalls clock calls)
  | [] => Restores.id
  | call :: rest => (call.run_nests clock).comp (runCalls_nests clock rest)
end

end

-- Inside a call with a timeout, the sum of its entry time and the timeout is among the own
-- deadlines of the open scopes.
theorem opened_inside (clock : Clock T) (timeoutMs : T) (calls : List (Call T)) {rt : Runtime T}
    (valid : WellScoped [] [] rt) :
    let inside := (qjsBunEnter clock timeoutMs rt).2
    ∀ moment ∈ (runCalls clock calls inside).moments, moment ∈ inside.moments ∨
      clock.after (clock.now rt.clockReads) timeoutMs ∈ moment.opened := by
  intro inside moment member
  obtain ⟨entered, opened, -⟩ := enter_spec clock timeoutMs valid
  have start : WellScoped (inside.opened.map Prod.snd) inside.moments inside :=
    ⟨entered.current, entered.recorded, List.suffix_rfl, fun _ => .inl⟩
  have ended := (runCalls_nests clock calls).keeps inside start
  refine (ended.since moment member).imp id fun within => within.subset ?_
  rw [opened]
  exact List.mem_cons_self

/-- At every moment of every run the deadline is the least own deadline of the open scopes, so no
open scope's own deadline is exceeded; and when the outermost call is over there is no deadline. -/
theorem deadline_tightest (clock : Clock T) (calls : List (Call T)) :
    let rt := runCalls clock calls Runtime.init
    (∀ moment ∈ rt.moments, moment.deadlineMs = tightest moment.opened ∧
      ∀ ownMs ∈ moment.opened, moment.deadlineMs ≤ ownMs) ∧
    rt.deadlineMs = ⊤ ∧ rt.opened = [] := by
  intro rt
  have nests : Nests [] [] (runCalls clock calls) := runCalls_nests clock calls
  have valid : WellScoped [] [] rt := nests.keeps _ WellScoped.init
  have returned : (rt.deadlineMs, rt.opened) = (⊤, []) := nests.returns _ WellScoped.init
  refine ⟨fun moment member => ?_, congrArg Prod.fst returned, congrArg Prod.snd returned⟩
  have least := valid.recorded moment member
  exact ⟨least, fun ownMs open_ => least.trans_le (tightest_le open_)⟩

end QuickJSBun.Bridge
