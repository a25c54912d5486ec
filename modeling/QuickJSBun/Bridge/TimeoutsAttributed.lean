import QuickJSBun.Bridge.Timeouts
import Mathlib.Algebra.Order.Monoid.Unbundled.WithTop

/-! Every scope that is entered reports once, and what the reports say.
-/

set_option autoImplicit false

namespace QuickJSBun.Bridge.Timeouts

variable {T : Type} [LinearOrder T]

/-! ### Every call reports once -/

/-- The scopes that were entered are those reported and those still open. -/
def Filed (entered : List Nat) (st : State T) : Prop :=
  (st.reports.map (·.scope.number) ++ entered).Perm (List.range st.rt.scopes)

/-- No scope is entered and none is reported. -/
structure Silent (before after : State T) : Prop where
  reports : after.reports = before.reports
  scopes : after.rt.scopes = before.rt.scopes

def Files (f : Acting T) : Prop := ∀ st entered, Filed entered st → Filed entered (f st)

def Reports (f : Describing T) : Prop := ∀ st entered, Filed entered st → Filed entered (f st).2

section
variable {entered : List Nat} {st st' : State T}

theorem Filed.silent (filed : Filed entered st) (silent : Silent st st') : Filed entered st' := by
  unfold Filed
  rw [silent.reports, silent.scopes]
  exact filed

theorem Filed.enter (clock : Clock T) (timeoutMs : T) (filed : Filed entered st) :
    Filed ((st.enter clock timeoutMs).1.number :: entered) (st.enter clock timeoutMs).2 := by
  have more : ((st.reports.map (·.scope.number)) ++ st.rt.scopes :: entered).Perm
      (List.range st.rt.scopes ++ [st.rt.scopes]) :=
    List.perm_middle.trans ((filed.cons st.rt.scopes).trans (List.perm_append_singleton _ _).symm)
  rwa [← List.range_succ] at more

theorem Filed.report {report : Report T} (filed : Filed (report.scope.number :: entered) st) :
    Filed entered (st.report report) :=
  List.perm_middle.symm.trans filed

theorem silent_throwNew (st : State T) : Silent st (throwNew st) := ⟨rfl, rfl⟩

theorem silent_failPending (fails : Bool) (before : Option (Error T)) (st : State T) :
    Silent st (failPending fails before st) := by
  unfold failPending
  split
  · exact silent_throwNew st
  · exact ⟨rfl, rfl⟩

theorem silent_react (reaction : Reaction) (thrown : Option (Thrown T)) (st : State T) :
    Silent st (st.react reaction thrown) := by
  match thrown, reaction with
  | none, _ | some .host, .dispose | some .host, .keep | some .host,
    .rethrow | some (.guest _), .dispose
  | some (.guest _), .keep | some (.guest _), .rethrow => exact ⟨rfl, rfl⟩

end

section
variable {inside raising freeing disposing cleaning : Acting T} {describing visit : Describing T}

theorem reports_newJSException (describes : Reports describing) (error : Option (Error T))
    {entered : List Nat} {st : State T} (filed : Filed entered st) :
    Filed entered (newJSException describing error st).2 := by
  have described := describes st entered filed
  unfold newJSException
  split
  · next ended is =>
    rw [is] at described
    exact described
  · next thrown ended is =>
    rw [is] at described
    exact described

theorem reports_getException (describes : Reports describing) (failed : Bool) {entered : List Nat}
    {st : State T} (filed : Filed entered st) :
    Filed entered (getException failed describing st).2 := by
  cases failed with
  | false => exact filed
  | true => exact reports_newJSException describes _ (filed.silent ⟨rfl, rfl⟩)

theorem files_qjsBunThrowTimeout (raises : Files raising) (frees : Files freeing) (late : Late T)
    (allocated : Bool) : Files (qjsBunThrowTimeout late allocated raising freeing) := by
  intro st entered filed
  have raised := raises st entered filed
  cases allocated with
  | true =>
    rw [qjsBunThrowTimeout_made]
    have cleared : Silent (raising st) (jsFreeError (raising st).currentException
        { (newError (some late) (raising st)).2 with currentException := none }) := ⟨rfl, rfl⟩
    have freed := frees _ entered (raised.silent cleared)
    exact freed.silent ⟨rfl, rfl⟩
  | false => exact raised.silent ⟨rfl, rfl⟩

theorem files_leaveScope (clock : Clock T) (scope : Scope T) (failed allocated : Bool)
    (raises : Files raising) (frees : Files freeing) :
    Files (leaveScope clock scope failed allocated raising freeing) := by
  intro st entered filed
  cases failed with
  | false => exact filed.silent ⟨rfl, rfl⟩
  | true =>
    rcases lt_or_ge (leftMs clock scope st) scope.ownMs with early | late
    · rw [leaveScope_early clock scope allocated early]
      exact filed.silent ⟨rfl, rfl⟩
    · rw [leaveScope_late clock scope allocated late]
      exact files_qjsBunThrowTimeout raises frees _ allocated _ entered (filed.silent ⟨rfl, rfl⟩)

theorem files_engine (fails : Bool) (insides : Files inside) : Files (engine fails inside) :=
  fun st entered filed =>
  (insides st entered filed).silent (silent_failPending fails st.currentException _)

theorem reports_scopedCall (clock : Clock T) (timeoutMs : T) (fails allocated : Bool)
    (insides : Files inside) (raises : Files raising) (frees : Files freeing)
    (describes : Reports describing) :
    Reports (scopedCall clock timeoutMs inside fails allocated raising freeing describing) := by
  intro st entered filed
  have ran := files_engine fails insides _ _ (filed.enter clock timeoutMs)
  have left :=
    files_leaveScope clock (st.enter clock timeoutMs).1 fails allocated raises frees _ _ ran
  exact Filed.report (reports_getException describes fails left)

theorem reports_executePendingJob (clock : Clock T) (timeoutMs : T)
    (fails hasContext found allocated : Bool) (insides : Files inside) (raises : Files raising)
    (frees : Files freeing) (describes : Reports describing) :
    Reports (executePendingJob clock timeoutMs inside fails hasContext found allocated raising
      freeing describing) := by
  intro st entered filed
  have ran := files_engine fails insides _ _ (filed.enter clock timeoutMs)
  have left :=
    files_leaveScope clock (st.enter clock timeoutMs).1 (fails && hasContext) allocated raises
      frees _ _ ran
  rw [← leavePendingJob_eq] at left
  unfold executePendingJob
  cases fails with
  | false => exact Filed.report left
  | true =>
    cases found with
    | false => exact Filed.report left
    | true => exact Filed.report (reports_getException describes true left)

theorem files_disposeThrown (disposes : Files disposing) (error : Thrown T) :
    Files (disposeThrown disposing error) := by
  intro st entered filed
  cases error with
  | guest error => exact disposes _ entered (filed.silent ⟨rfl, rfl⟩)
  | host => exact filed

theorem reports_dumpCatch (clock : Clock T) (scope : Scope T) (error : Thrown T) (allocated : Bool)
    (disposes : Files disposing) (raises : Files raising) (describes : Reports describing)
    {entered : List Nat} {st : State T} (filed : Filed entered st) :
    Filed entered (dumpCatch clock scope error allocated disposing raising describing st).2 := by
  have raised : Filed entered (caught clock disposing raising scope error st) :=
    raises _ entered (files_disposeThrown disposes error _ entered (filed.silent ⟨rfl, rfl⟩))
  rcases lt_or_ge (leftMs clock scope st) scope.ownMs with early | late
  · rw [dumpCatch_early clock allocated scope error early]
    exact filed.silent ⟨rfl, rfl⟩
  · cases allocated with
    | true =>
      rw [dumpCatch_made clock scope error late]
      exact reports_newJSException describes _ (raised.silent ⟨rfl, rfl⟩)
    | false =>
      rw [dumpCatch_failed clock scope error late]
      exact reports_getException describes true (raised.silent ⟨rfl, rfl⟩)

theorem reports_dump (clock : Clock T) (timeoutMs : T) (allocated : Bool) (visits : Reports visit)
    (disposes : Files disposing) (raises : Files raising) (cleans : Files cleaning)
    (describes : Reports describing) :
    Reports (dump clock timeoutMs visit allocated disposing raising cleaning describing) := by
  intro st entered filed
  have visited := visits _ _ (filed.enter clock timeoutMs)
  simp only [dump]
  split
  · next ended is =>
    rw [is] at visited
    exact Filed.report ((cleans _ _ visited).silent ⟨rfl, rfl⟩)
  · next error ended is =>
    rw [is] at visited
    exact Filed.report
      (cleans _ _ (reports_dumpCatch clock _ error allocated disposes raises describes visited))

end

theorem Reports.after {acting : Acting T} {last : Describing T} (reports : Reports last)
    (files : Files acting) : Reports fun st => last (acting st) :=
  fun st entered filed => reports _ entered (files st entered filed)

mutual
theorem Call.run_reports (clock : Clock T) : ∀ call : Call T, Reports (call.run clock)
  | .scoped timeoutMs inside fails allocated raising freeing describing described =>
    reports_scopedCall clock timeoutMs fails allocated (runActs_files clock inside)
      (runActs_files clock raising)
      (runActs_files clock freeing)
        ((Last.run_reports clock described).after (runActs_files clock describing))
  | .executePendingJob timeoutMs inside fails hasContext found allocated raising freeing describing
    described =>
    reports_executePendingJob clock timeoutMs fails hasContext found allocated
      (runActs_files clock inside)
      (runActs_files clock raising) (runActs_files clock freeing)
      ((Last.run_reports clock described).after (runActs_files clock describing))
  | .dump timeoutMs visiting ends allocated disposing raising cleaning describing described =>
    reports_dump clock timeoutMs allocated
      ((Last.run_reports clock ends).after (runActs_files clock visiting))
      (runActs_files clock disposing) (runActs_files clock raising) (runActs_files clock cleaning)
      ((Last.run_reports clock described).after (runActs_files clock describing))
  | .unscoped inside fails describing described => fun st entered filed =>
    reports_getException
      ((Last.run_reports clock described).after (runActs_files clock describing)) fails
      (files_engine fails (runActs_files clock inside) st entered filed)

theorem Act.run_files (clock : Clock T) : ∀ act : Act T, Files (act.run clock)
  | .host call reaction => fun st entered filed =>
    (Call.run_reports clock call st entered filed).silent (silent_react reaction _ _)
  | .throws => fun _ _ filed => filed.silent ⟨rfl, rfl⟩
  | .catches => fun _ _ filed => filed.silent ⟨rfl, rfl⟩

theorem Last.run_reports (clock : Clock T) : ∀ last : Last T, Reports (last.run clock)
  | .returns => fun _ _ => id
  | .fails call => fun st entered filed => Call.run_reports clock call st entered filed
  | .throws => fun _ _ => id

theorem runActs_files (clock : Clock T) : ∀ acts : List (Act T), Files (runActs clock acts)
  | [] => fun _ _ => id
  | act :: rest => fun st entered filed =>
    runActs_files clock rest _ entered (Act.run_files clock act st entered filed)
end

/-! ### What the reports say -/

/-- The call threw the `TimeoutError` that was made when it was left. -/
def Report.TimesOut (report : Report T) : Prop :=
  ∃ error made, report.handed = some (.guest error) ∧ error.timeout = some made ∧
    made.scope = report.scope

section
variable {report : Report T} {released : List (Error T)} (right : report.Right released)
  (survived : report.survived = true) (allocated : report.allocated = true)
    (described : report.described = true)
include right survived allocated described

theorem Report.Right.timesOut_iff :
    report.TimesOut ↔ report.original ≠ none ∧ report.scope.ownMs ≤ report.leftMs := by
  have hands := right.hands described
  constructor
  · rintro ⟨error, made, handed, timeout, own⟩
    exact right.own error made survived (hands.symm.trans handed) timeout own
  · rintro ⟨failed, passed⟩
    obtain ⟨thrown, original⟩ := Option.ne_none_iff_exists'.mp failed
    obtain ⟨error, made, taken, timeout, own, -⟩ :=
      right.late thrown original survived passed allocated
    exact ⟨error, made, hands.trans taken, timeout, own⟩

theorem Report.Right.handed_of_not_timesOut (kept : ¬report.TimesOut) :
    report.handed = report.original := by
  refine (right.hands described).trans ?_
  cases original : report.original with
  | none => exact right.succeeded original
  | some thrown =>
    refine right.early thrown original survived (lt_of_not_ge fun passed => kept ?_)
    exact (right.timesOut_iff survived allocated described).mpr ⟨by simp [original], passed⟩

end

theorem Good.init [OrderTop T] (clock : Clock T) : Good clock (State.init : State T) [] := by
  constructor
  · exact fun n absurd_ => absurd absurd_ (Nat.not_lt_zero n)
  · exact fun _ _ => rfl
  · exact nofun
  · exact nofun

/-- A call throws a `TimeoutError` of its own exactly when it failed and its own deadline had passed
when it left, and what it failed with is released then; else it throws what it failed with, a
`TimeoutError` of another call included. Every scope that was entered reports once, and every error
that was ever thrown has one owner or was released once. -/
theorem timeouts_attributed [OrderTop T] (clock : Clock T) (acts : List (Act T)) :
    let st := runActs clock acts State.init
    (∀ report ∈ st.reports, report.survived = true → report.allocated = true →
      report.described = true →
      (report.TimesOut ↔ report.original ≠ none ∧ report.scope.ownMs ≤ report.leftMs) ∧
      (¬report.TimesOut → report.handed = report.original) ∧
      (report.TimesOut → ∀ error, report.original = some (.guest error) → error ∈ st.released)) ∧
    (st.reports.map (·.scope.number)).Perm (List.range st.rt.scopes) ∧
    ∀ n, n < st.errors → st.owners [] n = 1 := by
  intro st
  have good : Good clock st [] := (runActs_keeps clock acts).good _ [] (.init clock)
  have filed : Filed [] st := runActs_files clock acts State.init [] (.refl _)
  refine ⟨fun report member survived allocated described =>
    ?_, by simpa [Filed] using filed, good.once⟩
  have right := good.reports report member
  have timesOut_iff := right.timesOut_iff survived allocated described
  refine ⟨timesOut_iff, right.handed_of_not_timesOut survived allocated described, ?_⟩
  intro timesOut error original
  obtain ⟨-, passed⟩ := timesOut_iff.mp timesOut
  obtain ⟨_, _, -, -, -, gone⟩ := right.late (.guest error) original survived passed allocated
  exact gone error rfl

-- Ten units between two readings.
def ticking : Clock (WithTop Nat) where
  now n := (n * 10 : Nat)
  monotone _ _ le := WithTop.coe_le_coe.mpr (Nat.mul_le_mul_right 10 le)
  after now timeoutMs := now + timeoutMs

/-- A host function evaluates an endless loop for 5 units within a call of 1000, and lets the
`TimeoutError` out. -/
def lettingOut : List (Act (WithTop Nat)) :=
  [.host (.scoped (1000 : Nat) [.host (.scoped (5 : Nat) [] true true [] [] [] .returns) .rethrow]
    true true [] [] [] .returns) .keep]

/-- The inner call throws its own `TimeoutError`, the outer one what it failed with: the same
error. -/
theorem timeouts_attributed_let_out :
    ∃ outer inner, (runActs ticking lettingOut State.init).reports = [outer, inner] ∧
      inner.TimesOut ∧ ¬outer.TimesOut ∧ outer.handed = outer.original ∧
      outer.original = inner.handed := by
  obtain ⟨reported, -, -⟩ := timeouts_attributed ticking lettingOut
  have first := reported _ List.mem_cons_self rfl rfl rfl
  have second := reported _ (List.mem_cons_of_mem _ List.mem_cons_self) rfl rfl rfl
  have early : ¬(1000 : Nat) ≤ (30 : Nat) := by decide
  have notOuter : ¬Report.TimesOut _ :=
    fun timesOut => early (WithTop.coe_le_coe.mp (first.1.mp timesOut).2)
  have late : (15 : Nat) ≤ (20 : Nat) := by decide
  exact ⟨_, _, rfl, second.1.mpr ⟨nofun, WithTop.coe_le_coe.mpr late⟩, notOuter,
    first.2.1 notOuter, rfl⟩

/-- The outer call throws a `TimeoutError` long before its own deadline. -/
theorem timeout_let_out : ¬∀ (clock : Clock (WithTop Nat)) (acts : List (Act (WithTop Nat))),
    ∀ report ∈ (runActs clock acts State.init).reports, report.survived = true →
      report.allocated = true → report.described = true →
      ((∃ error, report.handed = some (.guest error) ∧ error.timeout ≠ none) ↔
        report.original ≠ none ∧ report.scope.ownMs ≤ report.leftMs) := by
  intro always
  have outer := always ticking lettingOut _ List.mem_cons_self rfl rfl rfl
  have late := (outer.mp ⟨_, rfl, nofun⟩).2
  have early : ¬(1000 : Nat) ≤ (30 : Nat) := by decide
  exact early (WithTop.coe_le_coe.mp late)

end QuickJSBun.Bridge.Timeouts
