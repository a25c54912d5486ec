import Mathlib.Order.Fin.Basic
import QuickJSBun.Library.Machine
import QuickJSBun.Library.Tally

/-! How the engine asks whether a guest is to be interrupted. Every context has a
countdown; the handler is asked when one of them runs out, and a handler that
interrupts cuts the countdowns of all contexts short. The functions follow
`js_poll_interrupts` and `lre_check_timeout` of `quickjs.c` and
`qjs_bun_interrupt` of `quickjs_bridge.c`.

Five places of the engine subtract the work they are about to do from the
countdown directly before they poll; `work` is that amount, zero elsewhere.
-/

set_option autoImplicit false

namespace QuickJSBun.Bridge.Interrupt

open Library

def interruptCounterInit : Int := 10000

/-- What a poll needs of a `JSContext`; `ctx` is its address. -/
structure Context where
  ctx : Nat
  interruptCounter : Int
  deriving DecidableEq, Repr

/-- `JSRuntime` with the bridge's deadline; `nowMs` is what the clock reads now. -/
structure Runtime (T : Type) where
  deadlineMs : T
  nowMs : T
  contextList : List Context

variable {T : Type} [LinearOrder T]

def Runtime.place? (rt : Runtime T) (ctx : Nat) : Option Nat :=
  rt.contextList.findIdx? (·.ctx == ctx)

def Runtime.setCounter (rt : Runtime T) (i ctx : Nat) (interruptCounter : Int) : Runtime T :=
  { rt with contextList := rt.contextList.set i ⟨ctx, interruptCounter⟩ }

def qjsBunInterrupt (rt : Runtime T) : Bool × Runtime T :=
  if rt.nowMs < rt.deadlineMs then (false, rt)
  else (true, { rt with contextList := rt.contextList.map fun context =>
    { context with interruptCounter := 2 } })

/-- `__js_poll_interrupts` for the context at place `i`. -/
def jsPollHandler (i ctx : Nat) (rt : Runtime T) : Int × Runtime T :=
  let (interrupts, rt) := qjsBunInterrupt (rt.setCounter i ctx interruptCounterInit)
  if interrupts then (-1, rt) else (0, rt)

/-- A poll by the context at place `i`, whose countdown is known. -/
def jsPollInterrupts (i ctx : Nat) (interruptCounter : Int) (work : Nat) (rt : Runtime T) :
    Int × Runtime T :=
  let interruptCounter := interruptCounter - work - 1
  if interruptCounter ≤ 0 then jsPollHandler i ctx rt else (0, rt.setCounter i ctx interruptCounter)

/-- `JS_NewContextRaw`: zeroed memory at the end of the list. -/
def jsNewContextRaw (ctx : Nat) (rt : Runtime T) : Runtime T :=
  { rt with contextList := rt.contextList ++ [⟨ctx, 0⟩] }

def jsFreeContext (ctx : Nat) (rt : Runtime T) : Runtime T :=
  { rt with contextList := rt.contextList.eraseP (·.ctx == ctx) }

inductive Event (T : Type) where
  | poll (ctx work : Nat)
  /-- A regular expression asks the handler by itself, without a countdown of a context. -/
  | checkTimeout
  | newContext (ctx : Nat)
  | freeContext (ctx : Nat)
  | clock (nowMs : T)
  /-- An entry point lowers the deadline or restores it. -/
  | deadline (deadlineMs : T)

/-- The next state, and what the guest was told: -1 interrupts it. -/
def step (rt : Runtime T) : Event T → Option (Runtime T × Option Int)
  | .poll ctx work =>
    match rt.place? ctx with
    | none => none
    | some i => (rt.contextList[i]?).map fun context =>
        let (answer, rt) := jsPollInterrupts i ctx context.interruptCounter work rt
        (rt, some answer)
  | .checkTimeout =>
    let (interrupts, rt) := qjsBunInterrupt rt
    some (rt, if interrupts then some (-1) else none)
  | .newContext ctx =>
    match rt.place? ctx with
    | none => some (jsNewContextRaw ctx rt, none)
    | some _ => none
  | .freeContext ctx => some (jsFreeContext ctx rt, none)
  | .clock nowMs => if rt.nowMs ≤ nowMs then some ({ rt with nowMs }, none) else none
  | .deadline deadlineMs => some ({ rt with deadlineMs }, none)

def machine [OrderTop T] (start : T) : Machine (Runtime T) (Event T) :=
  ⟨⟨⊤, start, []⟩, fun rt event => (step rt event).map Prod.fst⟩

def Runtime.Late (rt : Runtime T) : Prop := rt.deadlineMs ≤ rt.nowMs

def Event.Asks : Event T → Prop
  | .poll _ _ | .checkTimeout => True
  | _ => False

/-- A run in which guests only ask while the deadline has passed, with their answers in order. -/
inductive LateRun : Runtime T → List Int → Runtime T → Prop where
  | done {rt : Runtime T} : LateRun rt [] rt
  | step {rt next rt' : Runtime T} {event : Event T} {answer : Option Int} {answers : List Int} :
      (event.Asks → rt.Late) → step rt event = some (next, answer) → LateRun next answers rt' →
      LateRun rt (answer.toList ++ answers) rt'

/-- How many polls are answered with 0 before the first interrupt. -/
def unanswered (answers : List Int) : Nat := (answers.takeWhile (· == 0)).length

/-! ### What one step can do -/

-- The polls a countdown still lets pass.
def Context.slack (context : Context) : Nat := (context.interruptCounter - 1).toNat

def Runtime.slack (rt : Runtime T) : Nat := tally Context.slack rt.contextList

theorem interrupt_early {rt : Runtime T} (early : rt.nowMs < rt.deadlineMs) :
    qjsBunInterrupt rt = (false, rt) :=
  if_pos early

theorem interrupt_late {rt : Runtime T} (late : rt.Late) : qjsBunInterrupt rt =
    (true, { rt with contextList := rt.contextList.map fun context =>
      { context with interruptCounter := 2 } }) :=
  if_neg (not_lt_of_ge late)

theorem poll_cases {rt next : Runtime T} {ctx work : Nat} {answer : Option Int}
    (steps : step rt (.poll ctx work) = some (next, answer)) :
    ∃ (i : Nat) (context : Context), rt.contextList[i]? = some context ∧ context.ctx = ctx ∧
      ((0 < context.interruptCounter - work - 1 ∧ answer = some 0 ∧
          next = rt.setCounter i ctx (context.interruptCounter - work - 1)) ∨
        (context.interruptCounter - work - 1 ≤ 0 ∧ rt.nowMs < rt.deadlineMs ∧ answer = some 0 ∧
          next = rt.setCounter i ctx interruptCounterInit) ∨
        (context.interruptCounter - work - 1 ≤ 0 ∧ rt.Late ∧ answer = some (-1) ∧
          next = (qjsBunInterrupt (rt.setCounter i ctx interruptCounterInit)).2)) := by
  simp only [step] at steps
  split at steps
  · cases steps
  · next i place =>
      obtain ⟨context, found, answered⟩ := Option.map_eq_some_iff.mp steps
      have named : context.ctx = ctx := by
        obtain ⟨below, meets, -⟩ := List.findIdx?_eq_some_iff_getElem.mp place
        rw [List.getElem?_eq_getElem below, Option.some.injEq] at found
        simpa [found] using meets
      refine ⟨i, context, found, named, ?_⟩
      by_cases out : context.interruptCounter - work - 1 ≤ 0
      · rcases lt_or_ge rt.nowMs rt.deadlineMs with early | late
        · have asked := @interrupt_early _ _ (rt.setCounter i ctx interruptCounterInit) early
          simp only [jsPollInterrupts, if_pos out, jsPollHandler, asked, Bool.false_eq_true,
            if_false, Prod.mk.injEq] at answered
          exact .inr (.inl ⟨out, early, answered.2.symm, answered.1.symm⟩)
        · have asked := @interrupt_late _ _ (rt.setCounter i ctx interruptCounterInit) late
          simp only [jsPollInterrupts, if_pos out, jsPollHandler, asked, if_true,
            Prod.mk.injEq] at answered
          exact .inr (.inr ⟨out, late, answered.2.symm, by rw [asked]; exact answered.1.symm⟩)
      · simp only [jsPollInterrupts, if_neg out, Prod.mk.injEq] at answered
        exact .inl ⟨by omega, answered.2.symm, answered.1.symm⟩

/-! ### The slack of a runtime -/

omit [LinearOrder T] in
theorem slack_setCounter {rt : Runtime T} {i : Nat} {context : Context}
    (found : rt.contextList[i]? = some context) (ctx : Nat) (interruptCounter : Int) :
    (rt.setCounter i ctx interruptCounter).slack + context.slack =
      rt.slack + (Context.mk ctx interruptCounter).slack :=
  tally_set found _

theorem slack_interrupted (rt : Runtime T) (late : rt.Late) :
    (qjsBunInterrupt rt).2.slack = rt.contextList.length := by
  rw [interrupt_late late]
  induction rt.contextList with
  | nil => rfl
  | cons context rest ih =>
    have one : (Context.mk context.ctx 2).slack = 1 := rfl
    simp only [Runtime.slack, List.map_cons, tally_cons, List.length_cons] at ih ⊢
    rw [ih, one, Nat.add_comm]

omit [LinearOrder T] in
@[simp] theorem length_setCounter (rt : Runtime T) (i ctx : Nat) (interruptCounter : Int) :
    (rt.setCounter i ctx interruptCounter).contextList.length = rt.contextList.length :=
  List.length_set

-- While it is late an answer of 0 uses up slack, and only an interrupt renews it.
theorem step_slack {rt next : Runtime T} {event : Event T} {answer : Option Int}
    (late : event.Asks → rt.Late) (steps : step rt event = some (next, answer)) :
    (answer = none ∧ next.slack ≤ rt.slack) ∨ (answer = some 0 ∧ next.slack + 1 ≤ rt.slack) ∨
      (answer = some (-1) ∧ next.slack = rt.contextList.length) := by
  cases event with
  | poll ctx work =>
    obtain ⟨i, context, found, -, passes | early | interrupts⟩ := poll_cases steps
    · obtain ⟨positive, answered, rfl⟩ := passes
      have traded := slack_setCounter found ctx (context.interruptCounter - work - 1)
      have lower : (Context.mk ctx (context.interruptCounter - work - 1)).slack + 1 ≤
          context.slack := by
        simp only [Context.slack]
        omega
      exact .inr (.inl ⟨answered, by omega⟩)
    · exact absurd early.2.1 (not_lt_of_ge (late trivial))
    · obtain ⟨-, -, answered, rfl⟩ := interrupts
      have renewed := slack_interrupted (rt.setCounter i ctx interruptCounterInit) (late trivial)
      exact .inr (.inr ⟨answered, renewed.trans (length_setCounter rt i ctx _)⟩)
  | checkTimeout =>
    simp only [step, interrupt_late (late trivial), if_true, Option.some.injEq,
      Prod.mk.injEq] at steps
    obtain ⟨rfl, rfl⟩ := steps
    have renewed := slack_interrupted rt (late trivial)
    rw [interrupt_late (late trivial)] at renewed
    exact .inr (.inr ⟨rfl, renewed⟩)
  | newContext ctx =>
    simp only [step] at steps
    split at steps
    · obtain ⟨rfl, rfl⟩ : jsNewContextRaw ctx rt = next ∧ none = answer := by simpa using steps
      have added : (jsNewContextRaw ctx rt).slack = rt.slack := by
        simp [jsNewContextRaw, Runtime.slack, Context.slack]
      exact .inl ⟨rfl, added.le⟩
    · cases steps
  | freeContext ctx =>
    obtain ⟨rfl, rfl⟩ : jsFreeContext ctx rt = next ∧ none = answer := by simpa [step] using steps
    exact .inl ⟨rfl, tally_sublist List.eraseP_sublist⟩
  | clock nowMs =>
    simp only [step] at steps
    split at steps
    · obtain ⟨rfl, rfl⟩ : { rt with nowMs } = next ∧ none = answer := by simpa using steps
      exact .inl ⟨rfl, Nat.le_refl _⟩
    · cases steps
  | deadline deadlineMs =>
    obtain ⟨rfl, rfl⟩ : { rt with deadlineMs } = next ∧ none = answer := by simpa [step] using steps
    exact .inl ⟨rfl, Nat.le_refl _⟩

theorem LateRun.poll {rt next rt' : Runtime T} {answer : Int} {answers : List Int} (ctx work : Nat)
    (late : rt.Late) (steps : Interrupt.step rt (.poll ctx work) = some (next, some answer))
    (rest : LateRun next answers rt') : LateRun rt (answer :: answers) rt' :=
  .step (fun _ => late) steps rest

theorem LateRun.answered {rt rt' : Runtime T} {answers : List Int} (runs : LateRun rt answers rt') :
    ∀ answer ∈ answers, answer = 0 ∨ answer = -1 := by
  induction runs with
  | done => simp
  | step late steps _ ih =>
    rcases step_slack late steps with ⟨rfl, -⟩ | ⟨rfl, -⟩ | ⟨rfl, -⟩
    · simpa using ih
    · simpa using ih
    · simpa using ih

-- The slack bounds what passes before the first interrupt.
theorem LateRun.unanswered_le {rt rt' : Runtime T} {answers : List Int}
    (runs : LateRun rt answers rt') : unanswered answers ≤ rt.slack := by
  induction runs with
  | done => exact Nat.zero_le _
  | step late steps _ ih =>
    rcases step_slack late steps with ⟨rfl, kept⟩ | ⟨rfl, used⟩ | ⟨rfl, -⟩
    · simpa using ih.trans kept
    · simp only [unanswered, Option.toList_some, List.singleton_append, List.takeWhile_cons,
        beq_self_eq_true, if_true, List.length_cons] at ih ⊢
      omega
    · simp [unanswered]

/-! ### Countdowns of reached states -/

-- Every countdown is at most the engine's start value.
def Bounded (rt : Runtime T) : Prop :=
  ∀ context ∈ rt.contextList, context.interruptCounter ≤ interruptCounterInit

omit [LinearOrder T] in
theorem Bounded.setCounter {rt : Runtime T} (bounded : Bounded rt) (i ctx : Nat)
    {interruptCounter : Int} (small : interruptCounter ≤ interruptCounterInit) :
    Bounded (rt.setCounter i ctx interruptCounter) := by
  intro context member
  rcases List.mem_or_eq_of_mem_set member with old | rfl
  · exact bounded context old
  · exact small

theorem Bounded.interrupt {rt : Runtime T} (bounded : Bounded rt) :
    Bounded (qjsBunInterrupt rt).2 := by
  unfold qjsBunInterrupt
  split
  · exact bounded
  · intro context member
    obtain ⟨_, -, rfl⟩ := List.mem_map.mp member
    simp [interruptCounterInit]

theorem Bounded.step {rt next : Runtime T} {event : Event T} {answer : Option Int}
    (bounded : Bounded rt) (steps : step rt event = some (next, answer)) : Bounded next := by
  cases event with
  | poll ctx work =>
    obtain ⟨i, context, found, -, passes | early | interrupts⟩ := poll_cases steps
    · obtain ⟨-, -, rfl⟩ := passes
      have before := bounded context (List.mem_of_getElem? found)
      exact bounded.setCounter i ctx (by omega)
    · obtain ⟨-, -, -, rfl⟩ := early
      exact bounded.setCounter i ctx (le_refl _)
    · obtain ⟨-, -, -, rfl⟩ := interrupts
      exact (bounded.setCounter i ctx (le_refl _)).interrupt
  | checkTimeout =>
    simp only [Interrupt.step, Option.some.injEq, Prod.mk.injEq] at steps
    exact steps.1 ▸ bounded.interrupt
  | newContext ctx =>
    simp only [Interrupt.step] at steps
    split at steps
    · obtain ⟨rfl, -⟩ : jsNewContextRaw ctx rt = next ∧ none = answer := by simpa using steps
      intro context member
      rcases List.mem_append.mp member with old | fresh
      · exact bounded context old
      · obtain rfl : context = ⟨ctx, 0⟩ := List.mem_singleton.mp fresh
        simp [interruptCounterInit]
    · cases steps
  | freeContext ctx =>
    obtain ⟨rfl, -⟩ : jsFreeContext ctx rt = next ∧ none = answer := by
      simpa [Interrupt.step] using steps
    exact fun context member => bounded context (List.mem_of_mem_eraseP member)
  | clock nowMs =>
    simp only [Interrupt.step] at steps
    split at steps
    · obtain ⟨rfl, -⟩ : { rt with nowMs } = next ∧ none = answer := by simpa using steps
      exact bounded
    · cases steps
  | deadline deadlineMs =>
    obtain ⟨rfl, -⟩ : { rt with deadlineMs } = next ∧ none = answer := by
      simpa [Interrupt.step] using steps
    exact bounded

omit [LinearOrder T] in
theorem Bounded.slack_le {rt : Runtime T} (bounded : Bounded rt) :
    rt.slack ≤ 9999 * rt.contextList.length := by
  apply tally_le
  intro context member
  have := bounded context member
  simp only [interruptCounterInit] at this
  simp only [Context.slack]
  omega

theorem bounded_reached [OrderTop T] {start : T} {rt : Runtime T}
    (reaches : (machine start).Reaches (fun _ _ => True) rt) : Bounded rt := by
  have kept : (machine start).Invariant (fun _ _ => True) Bounded := by
    constructor
    · intro context member
      cases member
    · intro rt rt' event bounded _ steps
      obtain ⟨⟨next, answer⟩, stepped, rfl⟩ := Option.map_eq_some_iff.mp steps
      exact bounded.step stepped
  exact kept.reached reaches

/-! ### A context created late -/

/-- The context `ctx`, if it exists, has not polled since it was created. -/
def Unpolled (ctx : Nat) (rt : Runtime T) : Prop :=
  ∀ context ∈ rt.contextList, context.ctx = ctx → context.interruptCounter = 0

theorem Unpolled.poll {ctx work : Nat} {rt next : Runtime T} {answer : Option Int}
    (unpolled : Unpolled ctx rt) (late : rt.Late)
    (steps : step rt (.poll ctx work) = some (next, answer)) : answer = some (-1) := by
  obtain ⟨i, context, found, named, passes | early | interrupts⟩ := poll_cases steps
  · have zero := unpolled context (List.mem_of_getElem? found) named
    have positive := passes.1
    omega
  · exact absurd early.2.1 (not_lt_of_ge late)
  · exact interrupts.2.2.1

theorem Unpolled.step {ctx : Nat} {rt next : Runtime T} {event : Event T} {answer : Option Int}
    (unpolled : Unpolled ctx rt) (late : event.Asks → rt.Late)
    (steps : step rt event = some (next, answer)) (passes : answer ≠ some (-1)) :
    Unpolled ctx next := by
  cases event with
  | poll other work =>
    obtain ⟨i, context, found, named, passed | early | interrupts⟩ := poll_cases steps
    · have distinct : other ≠ ctx := by
        rintro rfl
        exact passes (unpolled.poll (late trivial) steps)
      obtain ⟨-, -, rfl⟩ := passed
      intro context member same
      rcases List.mem_or_eq_of_mem_set member with old | rfl
      · exact unpolled context old same
      · exact absurd same distinct
    · exact absurd early.2.1 (not_lt_of_ge (late trivial))
    · exact absurd interrupts.2.2.1 passes
  | checkTimeout =>
    simp only [Interrupt.step, interrupt_late (late trivial), if_true, Option.some.injEq,
      Prod.mk.injEq] at steps
    exact absurd steps.2.symm passes
  | newContext other =>
    simp only [Interrupt.step] at steps
    split at steps
    · obtain ⟨rfl, -⟩ : jsNewContextRaw other rt = next ∧ none = answer := by simpa using steps
      intro context member same
      rcases List.mem_append.mp member with old | fresh
      · exact unpolled context old same
      · obtain rfl : context = ⟨other, 0⟩ := List.mem_singleton.mp fresh
        rfl
    · cases steps
  | freeContext other =>
    obtain ⟨rfl, -⟩ : jsFreeContext other rt = next ∧ none = answer := by
      simpa [Interrupt.step] using steps
    exact fun context member => unpolled context (List.mem_of_mem_eraseP member)
  | clock nowMs =>
    simp only [Interrupt.step] at steps
    split at steps
    · obtain ⟨rfl, -⟩ : { rt with nowMs } = next ∧ none = answer := by simpa using steps
      exact unpolled
    · cases steps
  | deadline deadlineMs =>
    obtain ⟨rfl, -⟩ : { rt with deadlineMs } = next ∧ none = answer := by
      simpa [Interrupt.step] using steps
    exact unpolled

theorem Unpolled.run {ctx : Nat} {rt rt' : Runtime T} {answers : List Int}
    (unpolled : Unpolled ctx rt) (runs : LateRun rt answers rt')
    (passes : ∀ answer ∈ answers, answer = 0) : Unpolled ctx rt' := by
  induction runs with
  | done => exact unpolled
  | @step rt next rt' event answer answers late steps _ ih =>
    apply ih
    · apply unpolled.step late steps
      rintro rfl
      exact absurd (passes (-1) (by simp)) (by decide)
    · exact fun answer member => passes answer (List.mem_append_right _ member)

-- A new context is not in the list before, so whatever carries its address is new.
theorem unpolled_newContext {ctx : Nat} {before rt : Runtime T} {answer : Option Int}
    (created : step before (.newContext ctx) = some (rt, answer)) : Unpolled ctx rt := by
  simp only [step] at created
  split at created
  · next absent =>
      obtain ⟨rfl, -⟩ : jsNewContextRaw ctx before = rt ∧ none = answer := by simpa using created
      intro context member same
      rcases List.mem_append.mp member with old | fresh
      · have other := List.findIdx?_eq_none_iff.mp absent context old
        simp [same] at other
      · obtain rfl : context = ⟨ctx, 0⟩ := List.mem_singleton.mp fresh
        rfl
  · cases created

/-! ### The bounds -/

theorem poll_early {rt next : Runtime T} {ctx work : Nat} {answer : Option Int}
    (early : rt.nowMs < rt.deadlineMs) (steps : step rt (.poll ctx work) = some (next, answer)) :
    answer = some 0 := by
  obtain ⟨_, _, -, -, passes | asked | interrupts⟩ := poll_cases steps
  · exact passes.2.1
  · exact asked.2.2.1
  · exact absurd early (not_lt_of_ge interrupts.2.1)

/-- Guests that run on past the deadline: the first interrupt comes within 10000 polls for each
context, after an interrupt each context passes at most one poll before the next, a context created
late is interrupted at its first poll unless another was since, and no poll interrupts once the
deadline lies in the future again. -/
theorem late_guests_interrupted [OrderTop T] {start : T} {rt rt' : Runtime T} {answers : List Int}
    (reaches : (machine start).Reaches (fun _ _ => True) rt) (runs : LateRun rt answers rt') :
    (∀ answer ∈ answers, answer = 0 ∨ answer = -1) ∧
    unanswered answers ≤ 9999 * rt.contextList.length ∧
    (0 < rt.contextList.length → unanswered answers + 1 ≤ 10000 * rt.contextList.length) ∧
    (∀ before event, before.Late → step before event = some (rt, some (-1)) →
      unanswered answers ≤ before.contextList.length) ∧
    (∀ before ctx answer, step before (.newContext ctx) = some (rt, answer) →
      (∀ answer ∈ answers, answer = 0) →
      rt'.Late → ∀ work next answer, step rt' (.poll ctx work) = some (next, answer) →
      answer = some (-1)) ∧
    (rt'.nowMs < rt'.deadlineMs → ∀ ctx work next answer,
      step rt' (.poll ctx work) = some (next, answer) → answer = some 0) := by
  have first := runs.unanswered_le.trans (bounded_reached reaches).slack_le
  refine ⟨runs.answered, first, fun some_ => by omega, ?_, ?_, ?_⟩
  · intro before event late interrupted
    rcases step_slack (fun _ => late) interrupted with ⟨absurd_, -⟩ | ⟨absurd_, -⟩ | ⟨-, renewed⟩
    · cases absurd_
    · cases absurd_
    · exact runs.unanswered_le.trans renewed.le
  · intro before ctx _ created passes late work next answer polled
    exact ((unpolled_newContext created).run runs passes).poll late polled
  · intro early ctx work next answer polled
    exact poll_early early polled

/-- Two contexts past their deadline. Each interrupt arms both again, so that after the first of
them two polls pass, and the second, which context 9 gets, lets context 7 pass once more before it
is interrupted itself. -/
theorem late_guests_interrupted_twice : ∃ before rt rt' : Runtime (Fin 3),
    step before (.poll 7 0) = some (rt, some (-1)) ∧ LateRun rt [0, 0, -1, 0, -1] rt' ∧
    unanswered [0, 0, -1, 0, -1] + 1 ≤ 10000 * rt.contextList.length ∧
    unanswered [0, 0, -1, 0, -1] ≤ before.contextList.length := by
  let armed (first second : Int) : Runtime (Fin 3) := ⟨1, 2, [⟨7, first⟩, ⟨9, second⟩]⟩
  have late : (1 : Fin 3) ≤ 2 := by decide
  have reaches : (machine (0 : Fin 3)).Reaches (fun _ _ => True) (armed 2 2) :=
    Machine.Reaches.run [.newContext 7, .newContext 9, .deadline 1, .clock 2, .poll 7 0] .init rfl
  have interrupted : step (armed 0 0) (.poll 7 0) = some (armed 2 2, some (-1)) := rfl
  have again : LateRun (armed 2 2) [0, -1] (armed 2 2) := by
    have spent : LateRun (armed 1 2) [-1] (armed 2 2) := .poll 7 0 late rfl .done
    exact .poll 7 0 late rfl spent
  have runs : LateRun (armed 2 2) [0, 0, -1, 0, -1] (armed 2 2) := by
    have expired : LateRun (armed 1 1) [-1, 0, -1] (armed 2 2) := .poll 9 0 late rfl again
    exact .poll 9 0 late rfl (.poll 7 0 late rfl expired)
  obtain ⟨-, -, first, next, -⟩ := late_guests_interrupted reaches runs
  exact ⟨armed 0 0, armed 2 2, armed 2 2, interrupted, runs, first (by decide),
    next _ _ late interrupted⟩

end QuickJSBun.Bridge.Interrupt
