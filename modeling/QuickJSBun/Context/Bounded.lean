import QuickJSBun.Bridge.Deadline
import QuickJSBun.Context.Failing
import QuickJSBun.Context.Framing
import QuickJSBun.Context.Leaving
import QuickJSBun.Context.NotingWalk
import QuickJSBun.Context.Walking

/-! `dump` is bounded, puts the deadline back, and disposes what the walk kept. What an exception that
cannot be described leaves behind is not the dump's own.
-/

set_option autoImplicit false

namespace QuickJSBun.Context

open Library Effect

variable {σ V T α : Type}

/-- An engine in whose state the bridge keeps the deadline. Every other native puts it back as the
bridge does, and `scopes` are the scopes of the callers that have not left. -/
structure ScopedEngine (σ T : Type) [LinearOrder T] extends LawfulEngine σ where
  clock : Bridge.Clock T
  timeoutMs : T
  runtime : σ → Bridge.Runtime T
  scopes : σ → List (Bridge.Scope T)
  enters : ∀ w, let (scope, entered) := Bridge.qjsBunEnterScope clock timeoutMs (runtime w.guest)
    runtime (call .enterScope w).2.guest = entered ∧
    scopes (call .enterScope w).2.guest = scope :: scopes w.guest
  leaves : ∀ scope rest w, scopes w.guest = scope :: rest →
    let (late, left) := Bridge.qjsBunLeaveScope clock scope (runtime w.guest)
    (call .leaveScope w).1 = late ∧ runtime (call .leaveScope w).2.guest = left ∧
      scopes (call .leaveScope w).2.guest = rest
  stays : Stays toEngine fun guest => ((runtime guest).deadlineMs, scopes guest)

/-! ### The deadline -/

section
variable {engine : Engine σ} {host : Host V σ} {τ : Type} {observe : σ → τ}

theorem steady_onWorld {x : Run σ V α} (steady : Steady observe x) :
    Keeps (fun s : Walk σ => observe s.world.guest) (onWorld x) :=
  fun s => steady s.world

variable (stays : Stays engine observe)
include stays

theorem Reading.steady {x : Run σ V α} (reading : Reading engine host x) : Steady observe x := by
  have excepts := steady_getException stays host
  cases reading with
  | ptr h => exact steady_ptr h
  | type h => exact steady_type stays excepts h
  | toBoolean h => exact steady_toBoolean stays host h
  | toNumber h => exact steady_toNumber stays host h
  | toBigInt h => exact steady_toBigInt stays excepts h
  | toString h => exact steady_valueToString stays excepts h
  | toError h => exact steady_toError stays host h
  | length h => exact steady_valueLength stays host h
  | keys h => exact steady_keys stays excepts h

theorem Entry.steady {x : Run σ V JSValue} (entry : Entry engine host x) : Steady observe x := by
  have excepts := steady_getException stays host
  cases entry with
  | index h index => exact steady_getIndex stays excepts h index
  | property h key => exact steady_getProp stays excepts h key

theorem steady_rules (holds : τ → Prop) :
    WalkRules engine host (fun s => holds (observe s.world.guest)) fun _ s =>
      holds (observe s.world.guest) where
  reads reading := (steady_onWorld (reading.steady stays)).triple holds
  entries entry :=
    ⟨fun _ s => holds (observe s.world.guest), (steady_onWorld (entry.steady stays)).triple holds,
    fun _ => Triple.modify fun _ start => start⟩
  refuses _ _ _ start := start
  same s s' world _ _ start := by
    rw [world]
    exact start

theorem steady_visit (holds : τ → Prop) (maxDepth maxNodes levels : Nat) (h : JSValue) :
    Triple (fun s => holds (observe s.world.guest)) (visit engine host maxDepth maxNodes levels h)
      (fun _ s => holds (observe s.world.guest)) fun _ s => holds (observe s.world.guest) := by
  have counts : Keeps (fun s : Walk σ => observe s.world.guest)
      (countNode maxNodes : WalkRun σ V Unit) :=
    Keeps.bind (Keeps.modify fun _ => rfl) fun _ => Keeps.bind Keeps.get fun _ => Keeps.check _ _
  exact (steady_rules stays holds).visit (counts.triple holds) levels h

end

theorem runWalk_ends {x : WalkRun σ V α} {w : World σ} {post : α → Walk σ → Prop}
    {fails : HostValue V → Walk σ → Prop}
    (walks : Triple (· = ⟨w, [], [], 0, [], [], []⟩) x post fails) :
    Triple (· = w) (runWalk x)
      (fun ended w' => w' = ended.2.world ∧ (∀ a, ended.1 = .ok a → post a ended.2) ∧
      ∀ e, ended.1 = .error e → fails e ended.2) fun _ _ => False := by
  refine Triple.lift fun s isW => ?_
  subst isW
  exact ⟨rfl, fun a returns => walks.returned rfl (Prod.ext returns rfl), fun e throws =>
    walks.thrown rfl (Prod.ext throws rfl)⟩

section
variable [LinearOrder T] (engine : ScopedEngine σ T) (host : Host V σ)

def ScopedEngine.time (guest : σ) : T × List (Bridge.Scope T) :=
  ((engine.runtime guest).deadlineMs, engine.scopes guest)

-- One scope further in, which holds the deadline from before.
def Inside (before during : T × List (Bridge.Scope T)) : Prop :=
  ∃ scope : Bridge.Scope T, scope.savedMs = before.1 ∧ during.2 = scope :: before.2

theorem enterScope_inside (before : T × List (Bridge.Scope T)) :
    Triple (fun w => engine.time w.guest = before) (call engine.toEngine .enterScope : Run σ V Unit)
      (fun _ w => Inside before (engine.time w.guest)) fun _ _ => False :=
  Triple.lift fun w start => by
    have entered := engine.enters w
    subst start
    exact ⟨_, rfl, entered.2⟩

theorem leaveScope_before (before : T × List (Bridge.Scope T)) :
    Triple (fun w => Inside before (engine.time w.guest))
      (call engine.toEngine .leaveScope : Run σ V Bool)
      (fun _ w => engine.time w.guest = before) fun _ _ => False :=
  Triple.lift fun w start => by
    obtain ⟨scope, saved, opened⟩ := start
    have left := engine.leaves scope before.2 w opened
    refine Prod.ext ?_ left.2.2
    rw [← saved]
    exact congrArg (·.deadlineMs) left.2.1

-- The deadline is what it was before, and the scope that was entered is left.
theorem dump_deadline (root : JSValue) (options : JSDumpOptions) :
    Steady engine.time (dump engine.toEngine host root options) := by
  have stays : Stays engine.toEngine engine.time := engine.stays
  have excepts := steady_getException stays host
  refine Keeps.of_triple fun before => ?_
  refine Triple.bind ((steady_assertSameVM root).triple (· = before)) fun _ => ?_
  refine Triple.bind ((Keeps.check _ _).triple (· = before)) fun _ =>
    Triple.bind ((Keeps.check _ _).triple (· = before)) fun _ => ?_
  refine Triple.bind (enterScope_inside engine before).throwless fun _ => ?_
  refine Triple.bind (Q := fun _ w => Inside before (engine.time w.guest))
    (Triple.each fun w inside => ?_) fun ended => ?_
  · have walks :
        Triple (· = ⟨w, [], [], 0, [], [], []⟩) (visit engine.toEngine host _ _ _ root) _ _ :=
      (steady_visit stays (Inside before) (options.maxDepth.getD 1024).toNat
        (options.maxNodes.getD 1000000).toNat ((options.maxDepth.getD 1024).toNat + 1) root).weaken
          (fun s isStart => isStart ▸ inside) (fun _ _ ends => ends)
        fun _ _ ends => ends
    refine (runWalk_ends walks).throwless.weaken (fun _ same => same) (fun ended w' ends => ?_)
      fun _ _ ends => ends
    obtain ⟨rfl, returned, thrown⟩ := ends
    cases outcome : ended.1 with
    | ok d => exact returned d outcome
    | error e => exact thrown e outcome
  · obtain ⟨outcome, s⟩ := ended
    have disposes (holds : T × List (Bridge.Scope T) → Prop) {fails : HostValue V →
        World σ → Prop} :
        Triple (fun w => holds (engine.time w.guest))
          (Effect.forEach (dispose engine.toEngine) s.kept)
          (fun _ w => holds (engine.time w.guest)) fails :=
      ((Keeps.forEach (fun entry => steady_dispose stays entry) s.kept).triple holds).returning
        (Returns.forEach (dispose_returns engine.toEngine) s.kept)
    cases outcome with
    | ok value =>
      refine Triple.bind (disposes (Inside before)) fun _ => ?_
      exact Triple.bind (leaveScope_before engine before).throwless fun _ =>
        Triple.pure _ fun _ ends => ends
    | error e =>
      refine Triple.tryFinally ?_ (fun _ => disposes (· = before)) fun _ => disposes (· = before)
      refine Triple.bind (leaveScope_before engine before).throwless fun late => ?_
      have rest : Steady engine.time (if !late then Effect.throw e
          else do
            disposeException engine.toEngine e
            let out : Value ← call engine.toEngine .timeoutError
            let value ← resultValue (getException engine.toEngine host) out
            let exception ← newJSException engine.toEngine host
                (getException engine.toEngine host) value
            Effect.throw exception : Run σ V (Dumped × Walk σ)) := by
        refine Keeps.ite (Keeps.throw e)
          (Keeps.bind ?_ fun _ => Keeps.bind (steady_call stays rfl) fun out => ?_)
        · cases e with
          | exception h => exact steady_dispose stays h
          | _ => exact Keeps.pure ()
        · refine Keeps.bind (steady_resultValue excepts out) fun value => ?_
          exact Keeps.bind (steady_newJSException stays host excepts value) fun exception =>
            Keeps.throw _
      exact rest.triple (· = before)

end

/-! ### The handles -/

section
variable (engine : LawfulEngine σ) (host : LawfulHost V σ)

variable {engine host}

theorem Reading.quiet {x : Run σ V α} (reading : Reading engine.toEngine host.toHost x) :
    Quiet x := by
  have excepts := excepts_getException engine host
  cases reading with
  | ptr h => exact quiet_ptr h
  | type h => exact quiet_type engine excepts h
  | toBoolean h => exact quiet_toBoolean engine host h
  | toNumber h => exact quiet_toNumber engine host h
  | toBigInt h => exact quiet_toBigInt engine excepts h
  | toString h => exact quiet_valueToString engine excepts h
  | toError h => exact quiet_toError engine host h
  | length h => exact quiet_valueLength engine host h
  | keys h => exact quiet_keys engine excepts h

theorem Entry.makesNew {x : Run σ V JSValue} (entry : Entry engine.toEngine host.toHost x) :
    MakesNew x := by
  have excepts := excepts_getException engine host
  cases entry with
  | index h index => exact makesNew_getIndex engine excepts h index
  | property h key => exact makesNew_getProp engine excepts h key

end

section
variable (engine : LawfulEngine σ) (host : LawfulHost V σ) (flight : List Nat) (w : World σ)

theorem leaving_rules :
    WalkRules engine.toEngine host.toHost (fun s => Leaving flight w nobody s.kept s.world)
      fun e s => Fleeing flight w s.kept e s.world where
  reads reading := Triple.each fun s leaving => by
    refine (onWorld_ends (reading.quiet flight s.world leaving.sound)).weaken (fun _ same => same)
      (fun _ _ ends => ?_)
      fun _ _ ends => ?_
    · obtain ⟨w', rfl, sound, step⟩ := ends
      exact leaving.quiet sound step
    · obtain ⟨w', rfl, sound, throws⟩ := ends
      exact leaving.throws sound throws
  entries entry := by
    refine ⟨fun h s => ∃ w', Leaving flight w nobody s.kept w' ∧ Sound flight s.world ∧
      Step w' s.world nobody (· = h) ∧
      Made w' s.world h, Triple.each fun s leaving => ?_, fun h => Triple.modify fun s ends => ?_⟩
    · refine (onWorld_ends (entry.makesNew flight s.world leaving.sound)).weaken
        (fun _ same => same) (fun _ _ ends => ?_)
        fun _ _ ends => ?_
      · obtain ⟨w', rfl, sound, step, made⟩ := ends
        exact ⟨s.world, leaving, sound, step, made⟩
      · obtain ⟨w', rfl, sound, throws⟩ := ends
        exact leaving.throws sound throws
    · obtain ⟨w', leaving, sound, step, made⟩ := ends
      refine ⟨sound,
        (leaving.step.trans step).weaken (fun _ _ freed => freed.elim id id) fun k _ _ _ leftOver =>
          ?_,
        fun k member => ?_⟩
      · rcases leftOver with (earlier | none) | isNew
        · exact .inl (List.mem_append_left _ earlier)
        · exact none.elim
        · exact .inl (List.mem_append_right _ (List.mem_singleton.mpr isNew))
      · rcases List.mem_append.mp member with earlier | new
        · exact (leaving.fresh k earlier).step step
        · obtain rfl := List.mem_singleton.mp new
          exact made.fresh.earlier leaving.step
  refuses _ _ plain leaving := leaving.plain plain
  same s s' world kept _ leaving := by
    rw [world, kept]
    exact leaving

theorem leaving_visit (maxDepth maxNodes levels : Nat) (h : JSValue) :
    Triple (fun s => Leaving flight w nobody s.kept s.world)
      (visit engine.toEngine host.toHost maxDepth maxNodes levels h)
      (fun _ s => Leaving flight w nobody s.kept s.world) fun e s =>
        Fleeing flight w s.kept e s.world := by
  refine (leaving_rules engine host flight w).visit ?_ levels h
  refine Triple.bind (Q := fun _ s => Leaving flight w nobody s.kept s.world)
    (Triple.modify fun _ start => start) fun _ => ?_
  refine Triple.bind (Q := fun _ s => Leaving flight w nobody s.kept s.world)
    (Triple.get fun _ start => start) fun _ => ?_
  exact Triple.check (fun _ start _ => start) fun _ start _ => start.plain rfl

end

def thrown (outcome : Except (HostValue V) α) : HostValue V :=
  match outcome with
  | .ok _ => .undefined
  | .error e => e

section
variable (engine : LawfulEngine σ) (host : LawfulHost V σ)

theorem quiet_leaveScope : Quiet (V := V) (call engine.toEngine .leaveScope) :=
  quiet_call engine rfl fun _ => rfl

-- The way out after a throw: the exception is replaced if the walk was late.
theorem fleeing_out {flight : List Nat} {w w' : World σ} {kept : List JSValue} {e : HostValue V}
    (fleeing : Fleeing flight w kept e w') :
    Triple (· = w') (do
      let late : Bool ← call engine.toEngine .leaveScope
      if !late then .throw e
      else do
        disposeException engine.toEngine e
        let out : Value ← call engine.toEngine .timeoutError
        let value ← resultValue (getException engine.toEngine host.toHost) out
        let exception ← newJSException engine.toEngine host.toHost
          (getException engine.toEngine host.toHost) value
        .throw exception : Run σ V α) (fun _ _ => False) fun e s => Fleeing flight w kept e s := by
  have made :=
    makesNew_result (gives_lift (engine.acts .timeoutError)) (excepts_getException engine host)
  have replaces := excepts_new engine host (excepts_getException engine host) made
  refine Triple.bind
    ((quiet_leaveScope engine flight w' fleeing.sound).returning (Returns.lift _)) fun late =>
    Triple.each fun s ends => ?_
  obtain ⟨sound, step⟩ := ends
  have later := fleeing.quiet sound step
  split
  · refine Triple.throw e fun s' isS => ?_
    subst isS
    exact later
  · refine Triple.bind later.disposed.throwless fun _ => Triple.each fun s' leaving => ?_
    have all : Triple (· = s') _ (fun _ _ => False) fun e s => Fleeing flight w kept e s :=
      Triple.bind ((replaces flight s' leaving.sound).weaken (fun _ same => same)
        (fun _ _ ends => ends)
        fun e s'' ends => leaving.throws ends.1 ends.2) fun exception =>
          show Triple _ (Effect.throw exception : Run σ V α) _ _ from
            Triple.throw exception fun s'' ends => leaving.throws ends.1 ends.2
    simp only [bind_assoc] at all
    exact all

/-- What is left of a dump that throws: the handle of what it throws, which is not lost. -/
structure Fled (flight : List Nat) (w : World σ) (e : HostValue V) (w' : World σ) : Prop where
  sound : Sound flight w'
  step : Step w w' nobody (carried e)
  kept : ∀ h, carried e h → h ∉ w'.undescribed

theorem quiet_then {β : Type} {x : Run σ V β} {f : β → Run σ V α} {flight : List Nat}
    {w w' : World σ} {post : α → World σ → Prop} (quiet : Quiet x) (sound : Sound flight w')
    (step : Step w w' nobody nobody)
    (next : ∀ b s, Sound flight s → Step w s nobody nobody → Triple (· = s) (f b) post fun e s =>
      Fled flight w e s) :
    Triple (· = w') (x >>= f) post fun e s => Fled flight w e s := by
  refine Triple.bind ((quiet flight w' sound).weaken (fun _ same => same) (fun _ _ ends => ends)
    fun _ _ ends => ⟨ends.1, step.trans_quiet ends.2.step, ends.2.kept ends.1⟩) fun b =>
      Triple.each fun s ends => ?_
  exact next b s ends.1 (step.trans_quiet ends.2)

-- Whatever the way out, what stays is the handle of what is thrown, and those of exceptions
-- without a description.
theorem dump_step (root : JSValue) (options : JSDumpOptions) {flight : List Nat} {w : World σ}
    (sound : Sound flight w) :
    Triple (· = w) (dump engine.toEngine host.toHost root options)
      (fun _ w' => Sound flight w' ∧ Step w w' nobody nobody) fun e w' => Fled flight w e w' := by
  refine quiet_then (quiet_assertSameVM root) sound (Step.refl w) fun _ w₁ sound₁ step₁ => ?_
  refine quiet_then (Quiet.check _ rfl) sound₁ step₁ fun _ w₂ sound₂ step₂ => ?_
  refine quiet_then (Quiet.check _ rfl) sound₂ step₂ fun _ w₃ sound₃ step₃ => ?_
  refine quiet_then (quiet_call engine rfl fun _ => rfl) sound₃ step₃ fun _ w₄ sound₄ step₄ => ?_
  have start : Leaving flight w nobody [] w₄ :=
    ⟨sound₄, step₄.weaken (fun _ _ freed => freed) fun _ _ _ _ leftOver => leftOver.elim, nofun⟩
  have walks : Triple (· = ⟨w₄, [], [], 0, [], [], []⟩)
      (visit engine.toEngine host.toHost _ _ _ root) _ _ :=
    (leaving_visit engine host flight w (options.maxDepth.getD 1024).toNat
      (options.maxNodes.getD 1000000).toNat ((options.maxDepth.getD 1024).toNat + 1) root).weaken
        (fun s isStart => isStart ▸ start) (fun _ _ ends => ends)
      fun _ _ ends => ends
  refine Triple.bind (runWalk_ends walks).throwless fun ended => Triple.each fun w₅ ends => ?_
  obtain ⟨rfl, returned, thrown⟩ := ends
  obtain ⟨outcome, s⟩ := ended
  cases outcome with
  | ok d =>
    refine Triple.bind (returned d rfl).disposed.throwless fun _ => Triple.each fun w₆ ends => ?_
    obtain ⟨sound₆, step₆, -⟩ := ends
    refine quiet_then (quiet_leaveScope engine) sound₆ step₆ fun _ w₇ sound₇ step₇ =>
      Triple.pure _ fun s' isS => ?_
    subst isS
    exact ⟨sound₇, step₇⟩
  | error e =>
    refine Triple.tryFinally (fleeing_out engine host (thrown e rfl)) (fun _ _ never => never.elim)
      fun e' => ?_
    apply Triple.each
    intro w₆ fleeing
    refine (fleeing.toLeaving.disposed.throwless).weaken (fun _ same => same) (fun _ s' ends => ?_)
      fun _ _ ends => ends
    obtain ⟨sound, step, disposes⟩ := ends
    refine ⟨sound, step, fun h isCarried lost => ?_⟩
    -- disposing loses no handle that was there
    obtain ⟨below, kept⟩ := carried_kept fleeing.sound fleeing.yields h isCarried
    rcases disposes.lost h lost with earlier | above
    · exact kept earlier
    · exact absurd below (Nat.not_lt.mpr above)

end

/-! ### What a dump comes to -/

def JSDumpOptions.depth (options : JSDumpOptions) : Nat := (options.maxDepth.getD 1024).toNat

def JSDumpOptions.nodes (options : JSDumpOptions) : Nat := (options.maxNodes.getD 1000000).toNat

def walkFrom (engine : Engine σ) (w : World σ) : Walk σ :=
  ⟨(engine.call .enterScope w).2, [], [], 0, [], [], []⟩

def walk (engine : Engine σ) (host : Host V σ) (root : JSValue) (options : JSDumpOptions)
    (w : World σ) : Except (HostValue V) Dumped × Walk σ :=
  (visit engine host options.depth options.nodes (options.depth + 1) root).run (walkFrom engine w)

/-- A dump is bounded and leaves nothing behind: no value is converted that is one too many, the
walk is the same whatever there would be below the depth or after the rounds, the deadline is the
one before, and so are the handles. -/
structure Contained [LinearOrder T] (engine : ScopedEngine σ T) (host : Host V σ)
    (root : JSValue) (options : JSDumpOptions)
    (outcome : Except (HostValue V) (Dumped × Walk σ)) (w w' : World σ) : Prop where
  values : Stopped options.nodes (thrown (walk engine.toEngine host root options w).1)
    (walk engine.toEngine host root options w).2
  depth : ∀ (deeper : JSValue → Nat → WalkRun σ V Dumped) (more : WalkRun σ V Unit) (rounds : Nat),
    options.nodes < rounds →
    (visitWithin engine.toEngine host deeper more options.depth options.nodes rounds
      (options.depth + 2) root 0).run (walkFrom engine.toEngine w) =
      walk engine.toEngine host root options w
  deadline : (engine.runtime w'.guest).deadlineMs = (engine.runtime w.guest).deadlineMs
  handles : Clean (thrown outcome) w w'

theorem walk_stopped (engine : Engine σ) (host : Host V σ) (root : JSValue)
    (options : JSDumpOptions) (w : World σ) :
    Stopped options.nodes (thrown (walk engine host root options w).1)
      (walk engine host root options w).2 := by
  have counts := visit_counts engine host options.depth options.nodes (options.depth + 1) root 0
  have start : Counted options.nodes 0 (walkFrom engine w) := ⟨Nat.zero_le _, Nat.zero_le _⟩
  cases ends : walk engine host root options w with
  | mk outcome s =>
    cases outcome with
    | ok d => exact .inl (counts.returned start ends).2
    | error e => exact counts.thrown start ends

/-- A dump is contained exactly if every exception that the engine gave it on the way could be
described. -/
theorem dump_contained [LinearOrder T] (engine : ScopedEngine σ T) (host : LawfulHost V σ)
    (unaware : Unaware engine.toEngine host.toHost) (root : JSValue) (options : JSDumpOptions)
    (outcome : Except (HostValue V) (Dumped × Walk σ)) (flight : List Nat) (w w' : World σ)
    (sound : Sound flight w)
    (runs : (dump engine.toEngine host.toHost root options).run w = (outcome, w')) :
    Contained engine host.toHost root options outcome w w' ↔
      Described engine.toEngine host.toHost
        (dump engine.toEngine.noting host.toHost.noting root options) w := by
  have fled : Fled flight w (thrown outcome) w' := by
    have steps := dump_step engine.toLawfulEngine host root options sound
    cases outcome with
    | ok found =>
      obtain ⟨later, step⟩ := steps.returned rfl runs
      exact ⟨later, step.weaken (fun _ _ freed => freed) fun _ _ _ _ leftOver =>
        leftOver.elim, fun _ never => never.elim⟩
    | error e => exact steps.thrown rfl runs
  have deadline := dump_deadline engine host.toHost root options w
  rw [runs] at deadline
  have clean : Clean (thrown outcome) w w' ↔
      Described engine.toEngine host.toHost
        (dump engine.toEngine.noting host.toHost.noting root options) w := by
    obtain ⟨noted, n, w'', runsNoted, runsPlain, mirrors⟩ :=
      notes_dump unaware root options w nobody _ _ (mirrors_start w)
    obtain ⟨-, rfl⟩ := Prod.mk.inj (runs.symm.trans runsPlain)
    unfold Described takings
    rw [runsNoted, ← mirrors.lists_iff sound fled.sound fled.step fled.kept]
    exact ⟨fun clean => ⟨clean.kept, clean.added⟩, fun both => ⟨both.1, both.2⟩⟩
  refine ⟨fun contained => clean.mp contained.handles, fun described => ?_⟩
  refine ⟨walk_stopped engine.toEngine host.toHost root options w,
    fun deeper more rounds enough => ?_, congrArg Prod.fst deadline, clean.mpr described⟩
  have agree : Agree _ (visit engine.toEngine host.toHost _ _ (options.depth + 1 - 0) root) _ :=
    agree_visit deeper more enough (Nat.zero_le _)
      (by omega : options.depth + 1 < options.depth + 2 + 0) root 0
  exact (agree (walkFrom engine.toEngine w) ⟨Nat.zero_le _, Nat.zero_le _⟩).symm

/-! ### A getter that throws a revoked proxy -/

abbrev Timed := Bridge.Runtime Nat × List (Bridge.Scope Nat)

def ticking : Bridge.Clock Nat := ⟨id, monotone_id, (· + ·)⟩

namespace Script
variable (script : Script Unit)

def timed : Script Timed where
  reply native w :=
    match native with
    | .leaveScope =>
      match w.guest.2 with
      | [] => false
      | scope :: _ => (Bridge.qjsBunLeaveScope ticking scope w.guest.1).1
    | native => script.reply native (w.withGuest ())
  pending native w := script.pending native (w.withGuest ())
  guest native w :=
    match native with
    | .enterScope =>
      let (scope, runtime) := Bridge.qjsBunEnterScope ticking 1000 w.guest.1
      (runtime, scope :: w.guest.2)
    | .leaveScope =>
      match w.guest.2 with
      | [] => w.guest
      | scope :: rest => ((Bridge.qjsBunLeaveScope ticking scope w.guest.1).2, rest)
    | _ => w.guest
  typed value w above := script.typed value (w.withGuest ()) above

def scopedEngine : ScopedEngine Timed Nat where
  toLawfulEngine := script.timed.engine
  clock := ticking
  timeoutMs := 1000
  runtime := Prod.fst
  scopes := Prod.snd
  enters w := ⟨rfl, rfl⟩
  leaves scope rest w opened := by
    simp [engine, call, answer, timed, Native.given, opened]
  stays native w unscoped := by
    cases native with
    | enterScope | leaveScope => cases unscoped
    | freeValue => rfl
    | _ =>
      simp only [engine, call, answer]
      split
      · rfl
      · rfl

end Script

/-- Cell 0 is an object with one property, whose getter throws cell 1, a revoked proxy; cell 2 is
the `TypeError` of its type. -/
def throwing : Script Unit where
  reply native w :=
    match native with
    | .newAtomLen _ => (1 : Nat)
    | .ownKeys _ => some [encode (text "a")]
    | .getProperty _ _ => .exception
    | .getException => w.pending
    | .type (.heap .object cell) => if cell = 0 then 7 else if cell = 1 then (-1 : Int) else 10
    | native => native.idle
  pending native w :=
    match native with
    | .getProperty _ _ => .heap .object 1
    | .getException => .uninitialized
    | .type (.heap .object cell) => if cell = 1 then .heap .object 2 else w.pending
    | _ => w.pending
  guest _ w := w.guest
  typed value w above := by
    cases value with
    | heap tag cell =>
      cases tag with
      | object => exact ⟨cell, rfl⟩
      | _ =>
        have none : (7 : Int) ≤ 0 := above
        cases none
    | _ =>
      have none : (7 : Int) ≤ 0 := above
      cases none

def quietHost : LawfulHost Unit Timed := answering (fun _ => false) (fun _ => []) fun op => op.idle

def timedWorld : World Timed := proxyWorld.withGuest (⟨5000, 0, 0, [], []⟩, [])

/-- Cell 0 is `{ a: <cell 0>, b: <getter> }`, and the getter throws cell 1, an error. -/
def faulty : Script Unit where
  reply native w :=
    match native with
    | .newAtomLen name => (name.headD 0).toNat
    | .ownKeys _ => some [encode (text "a"), encode (text "b")]
    | .getProperty _ atom => if atom = 98 then .exception else .heap .object 0
    | .getException => w.pending
    | .type (.heap .object cell) => if cell = 0 then (7 : Int) else 10
    | native => native.idle
  pending native w :=
    match native with
    | .getProperty _ atom => if atom = 98 then .heap .object 1 else w.pending
    | .getException => .uninitialized
    | _ => w.pending
  guest _ w := w.guest
  typed value w above := by
    cases value with
    | heap tag cell =>
      cases tag with
      | object => exact ⟨cell, rfl⟩
      | _ =>
        have none : (7 : Int) ≤ 0 := above
        cases none
    | _ =>
      have none : (7 : Int) ≤ 0 := above
      cases none

/-- The cycle is read once, then the getter throws; the error has the only handle that stays. -/
theorem dump_contained_cyclic :
    ∃ w', (dump faulty.scopedEngine.toEngine quietHost.toHost 4 ⟨some 2, some 2⟩).run timedWorld =
        (.error (.exception 7 (text "Error") (text "Error")), w') ∧
      Contained faulty.scopedEngine quietHost.toHost 4 ⟨some 2, some 2⟩
        (.error (.exception 7 (text "Error") (text "Error"))) timedWorld w' := by
  obtain ⟨w', throws⟩ : ∃ w',
      (dump faulty.scopedEngine.toEngine quietHost.toHost 4 ⟨some 2, some 2⟩).run timedWorld =
      (.error (.exception 7 (text "Error") (text "Error")), w') := ⟨_, rfl⟩
  have contained :=
    dump_contained faulty.scopedEngine quietHost (unaware_answering faulty.timed _ _ _) 4
    ⟨some 2, some 2⟩ _ [] _ _ (proxyWorld_sound.withGuest _) throws
  exact ⟨w', throws, contained.mpr (by decide +kernel)⟩

/-- The dump throws the `TypeError`; the handle of the revoked proxy stays. -/
theorem dump_leaks :
    ∃ w', (dump throwing.scopedEngine.toEngine quietHost.toHost 4 ⟨none, none⟩).run timedWorld =
        (.error (.exception 7 (text "Error") (text "Error")), w') ∧
      w'.Lists 6 ∧ ¬Contained throwing.scopedEngine quietHost.toHost 4 ⟨none, none⟩
        (.error (.exception 7 (text "Error") (text "Error"))) timedWorld w' := by
  refine ⟨_, rfl, ⟨_, rfl, rfl, rfl⟩, fun contained => ?_⟩
  rcases contained.handles.added 6 ⟨_, rfl, rfl, rfl⟩ with ⟨handle, found, -⟩ | isCarried
  · cases found
  · cases isCarried

end QuickJSBun.Context
