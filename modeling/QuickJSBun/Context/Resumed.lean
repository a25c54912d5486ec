import Mathlib.Logic.Relation
import QuickJSBun.Context.Iterated
import QuickJSBun.Context.NotingIterator

/-! Runs of a generator: the host resumes it and does other things in between. The `return` method is asked
for when the host stops early and never otherwise, every value is delivered once, and at the end the
handles of the generator are disposed.
-/

set_option autoImplicit false

namespace QuickJSBun.Context

open Library Effect

variable {σ V : Type}

def Outcome.yielded : Outcome V → Option JSValue
  | .yields value => some value
  | _ => none

theorem Outcome.yielded_eq {outcome : Outcome V} {value : JSValue} :
    outcome.yielded = some value ↔ outcome = .yields value := by
  cases outcome with
  | yields other =>
    simp only [yielded, Option.some.injEq, yields.injEq]
  | returns => exact ⟨nofun, nofun⟩
  | throws e => exact ⟨nofun, nofun⟩

/-! ### The log -/

/-- What a resumption shows of the generator before it. -/
structure Regular (before : Generator) (entry : Resumption V × Turn V) : Prop where
  asked : entry.2.closing ≠ .notAsked ↔ Stops before entry.1
  paused : Paused entry.2
  ended : before = .ended → entry.2.generator = .ended ∧ entry.2.reply = none

/-- The resumptions that lead from one generator to another. -/
inductive Follows : Generator → List (Resumption V × Turn V) → Generator → Prop where
  | nothing {generator : Generator} : Follows generator [] generator
  | entry {generator last : Generator} {entry : Resumption V × Turn V}
    {rest : List (Resumption V × Turn V)} :
      Regular generator entry → Follows entry.2.generator rest last →
      Follows generator (entry :: rest) last

section
variable {first last : Generator} {log before after : List (Resumption V × Turn V)}
    {entry : Resumption V × Turn V}

theorem Follows.concat (follows : Follows first log last) (regular : Regular last entry) :
    Follows first (log ++ [entry]) entry.2.generator := by
  induction follows with
  | nothing => exact .entry regular .nothing
  | entry head _ ih => exact .entry head (ih regular)

theorem Follows.split (follows : Follows first (before ++ entry :: after) last) :
    ∃ middle, Follows first before middle ∧ Regular middle entry ∧
    Follows entry.2.generator after last := by
  induction before generalizing first with
  | nil =>
    cases follows with
    | entry regular rest => exact ⟨first, .nothing, regular, rest⟩
  | cons head tail ih =>
    cases follows with
    | entry regular rest =>
      obtain ⟨middle, start, here, later⟩ := ih rest
      exact ⟨middle, .entry regular start, here, later⟩

-- A generator at its end stays there, and its iterator is left alone.
theorem Follows.ended (follows : Follows .ended log last) :
    last = .ended ∧ ∀ entry ∈ log, entry.2.closing = .notAsked := by
  induction log with
  | nil =>
    cases follows with
    | nothing => exact ⟨rfl, fun _ member => nomatch member⟩
  | cons entry rest ih =>
    cases follows with
    | entry regular later =>
      rw [(regular.ended rfl).1] at later
      obtain ⟨still, others⟩ := ih later
      refine ⟨still, fun other member => ?_⟩
      rcases List.mem_cons.mp member with rfl | isLater
      · refine Decidable.of_not_not fun asked => ?_
        obtain ⟨⟨_, _, same⟩, -⟩ := regular.asked.mp asked
        cases same
      · exact others other isLater

-- Whoever asks for the `return` method is at the end.
theorem Follows.once (follows : Follows first log last) :
    log.countP (fun entry => entry.2.closing != .notAsked) ≤ 1 := by
  induction follows with
  | nothing => exact Nat.zero_le _
  | @entry generator last entry rest regular later ih =>
    rw [List.countP_cons]
    by_cases asked : entry.2.closing = .notAsked
    · simpa [asked] using ih
    · have atEnd := (regular.paused.closed asked).1
      rw [atEnd] at later
      have none : rest.countP (fun entry => entry.2.closing != .notAsked) = 0 :=
        List.countP_eq_zero.mpr fun other member => by simp [later.ended.2 other member]
      rw [none]
      split
      · exact Nat.le_refl 1
      · exact Nat.zero_le 1

-- The last resumption has yielded.
def Yielded (log : List (Resumption V × Turn V)) : Prop :=
  ∃ entry value, log.getLast? = some entry ∧ entry.2.outcome = .yields value

theorem Follows.yielded {source : JSValue} (follows : Follows (.fresh source) log last) :
    (∃ iterator next, last = .suspended iterator next) ↔ Yielded log := by
  rcases List.eq_nil_or_concat log with rfl | ⟨before, entry, rfl⟩
  · cases follows with
    | nothing =>
      refine ⟨fun suspended => ?_, fun yielded => ?_⟩
      · obtain ⟨_, _, same⟩ := suspended
        cases same
      · obtain ⟨_, _, none, -⟩ := yielded
        cases none
  · rw [List.concat_eq_append] at follows ⊢
    obtain ⟨middle, -, regular, rest⟩ := follows.split
    cases rest with
    | nothing =>
      have isLast : (before ++ [entry]).getLast? = some entry := List.getLast?_concat
      rcases regular.paused.suspended with ⟨⟨value, yields⟩, suspended⟩ | ⟨noYield, isEnded⟩
      · exact ⟨fun _ => ⟨entry, value, isLast, yields⟩, fun _ => suspended⟩
      · refine ⟨fun ⟨_, _, suspended⟩ => ?_, fun ⟨other, value, same, yields⟩ => ?_⟩
        · rw [isEnded] at suspended
          cases suspended
        · obtain rfl := Option.some.inj (isLast.symm.trans same)
          exact absurd yields (noYield value)

end

/-! ### Runs -/

/-- A generator in the hands of the host, with its log. -/
structure Iteration (V σ : Type) where
  world : World σ
  generator : Generator
  log : List (Resumption V × Turn V)

-- The handles that were delivered, in order.
def Iteration.delivered (s : Iteration V σ) : List JSValue :=
  s.log.filterMap fun entry => entry.2.outcome.yielded

section
variable (engine : IteratorEngine σ) (host : Host V σ)

/-- Every exception that the engine gives in a resumption can be described. -/
def Meets (s : Iteration V σ) (resumption : Resumption V) : Prop :=
  Described engine.toEngine host (resume engine.noting host.noting s.generator resumption) s.world

/-- The host does something else, or resumes the generator, if it may, and gets what comes of it. -/
inductive Proceeds (may : Iteration V σ → Resumption V → Prop) : Iteration V σ →
    Iteration V σ → Prop where
  | elsewhere {s : Iteration V σ} {w' : World σ} : Acts [] s.world [] w' →
    Proceeds may s { s with world := w' }
  | resumes {s : Iteration V σ} {resumption : Resumption V} {turn : Turn V} {w' : World σ} :
      (∀ e, resumption = .throw e → Known s.world e) → may s resumption →
      (resume engine host s.generator resumption).run s.world = (.ok turn, w') →
      Proceeds may s ⟨w'.hand turn.outcome.handles, turn.generator, s.log ++ [(resumption, turn)]⟩

end

section
variable {flight : List Nat} {w₀ w w' : World σ} {generator : Generator} {turn : Turn V}

theorem Outcome.left_handles {outcome : Outcome V} {h : JSValue} (left : outcome.left h) :
    h ∈ outcome.handles := by
  cases outcome with
  | yields value => exact List.mem_singleton.mpr left
  | returns => exact left.elim
  | throws e =>
    cases e with
    | exception value _ _ => exact List.mem_singleton.mpr left
    | _ => exact left.elim

theorem valued_hand (w : World σ) (given : List JSValue) : Valued w (w.hand given) := by
  intro h handle found
  refine ⟨_, (hand_get w given h).trans (congrArg _ found), ?_⟩
  split
  · rfl
  · rfl

-- The host has what the outcome gives it, and the generator what it keeps.
theorem Turned.holding (turned : Turned flight w₀ w turn w') :
    Holding flight w₀ turn.generator (w'.hand turn.outcome.handles) where
  sound := turned.sound.hand fun h member lost => by
    rcases turned.gives h member with new | ⟨handle, found, known⟩
    · exact new.2.2 lost
    · obtain ⟨value, its⟩ := turned.sound.lost h lost
      obtain rfl := Option.some.inj (found.symm.trans its)
      exact known.elim nofun nofun
  step :=
    Step.hand (turned.step.weaken (fun _ _ freed => freed) fun _ _ _ _ leftOver =>
      leftOver.imp id Outcome.left_handles)
    turned.gives
  made h member := by
    obtain ⟨above, kept, value, found⟩ := turned.made h member
    refine ⟨above, kept, value, ?_⟩
    rw [hand_other fun given => turned.apart h given member]
    exact found

theorem Holding.acts (holding : Holding flight w₀ generator w) (acts : Acts [] w [] w') :
    Holding flight w₀ generator w' where
  sound := ((acts.frame flight).kept holding.sound).1
  step := (holding.step.trans ((acts.frame flight).kept holding.sound).2).weaken
    (fun _ _ freed => freed.elim id id)
    fun _ _ _ _ leftOver => leftOver.resolve_right id
  made h member := (holding.made h member).step ((acts.frame flight).kept holding.sound).2

/-- What was yielded is what `next` gave. -/
def Turn.Delivers (turn : Turn V) (w : World σ) : Prop :=
  ∀ value, turn.outcome = .yields value →
    ∃ cell handle, turn.reply = some (cell, false) ∧ cell ≠ .exception ∧
    w.handles[value]? = some handle ∧ handle.value = cell

theorem Turn.Delivers.later (delivers : turn.Delivers w) (valued : Valued w w') :
    turn.Delivers w' := by
  intro value yields
  obtain ⟨cell, handle, replied, noException, found, isCell⟩ := delivers value yields
  obtain ⟨later, still, same⟩ := valued value handle found
  exact ⟨cell, later, replied, noException, still, same.trans isCell⟩

/-- What holds after any number of resumptions. -/
structure Consumed (flight : List Nat) (w₀ : World σ) (source : JSValue)
    (s : Iteration V σ) : Prop where
  holding : Holding flight w₀ s.generator s.world
  follows : Follows (.fresh source) s.log s.generator
  delivers : ∀ entry ∈ s.log, entry.2.Delivers s.world
  ordered : s.delivered.Pairwise (· < ·)
  range : ∀ value ∈ s.delivered, w₀.handles.length ≤ value ∧ value < s.world.handles.length

theorem consumed_start {source : JSValue} (sound : Sound flight w₀) :
    Consumed (V := V) flight w₀ source ⟨w₀, .fresh source, []⟩ where
  holding := ⟨sound, (Step.refl w₀).any, fun _ member => nomatch member⟩
  follows := .nothing
  delivers _ member := nomatch member
  ordered := .nil
  range _ member := nomatch member

end

section
variable (engine : IteratorEngine σ) (host : LawfulHost V σ) {flight : List Nat} {w₀ : World σ}
    {source : JSValue}
  {s s' : Iteration V σ}

theorem resume_ended {w : World σ} (resumption : Resumption V) :
    Triple (· = w) (resume engine host.toHost .ended resumption)
      (fun turn _ => turn.generator = .ended ∧ turn.reply = none) fun _ _ => False := by
  cases resumption with
  | next => exact Triple.pure _ fun _ _ => ⟨rfl, rfl⟩
  | «return» => exact Triple.pure _ fun _ _ => ⟨rfl, rfl⟩
  | throw e => exact Triple.pure _ fun _ _ => ⟨rfl, rfl⟩

theorem resume_regular {generator : Generator} {resumption : Resumption V} {w w' : World σ}
    {turn : Turn V} (holding : Holding flight w₀ generator w)
    (known : ∀ e, resumption = .throw e → Known w e)
    (runs : (resume engine host.toHost generator resumption).run w = (.ok turn, w')) :
    Turned flight w₀ w turn w' ∧ Regular generator (resumption, turn) := by
  obtain ⟨turned, asked, paused⟩ := (resume_ends engine host holding known).returned rfl runs
  refine ⟨turned, asked, paused, fun isEnded => ?_⟩
  subst isEnded
  exact (resume_ended engine host resumption).returned rfl runs

theorem Consumed.step {may : Iteration V σ → Resumption V → Prop}
    (consumed : Consumed flight w₀ source s) (proceeds : Proceeds engine host.toHost may s s') :
    Consumed flight w₀ source s' := by
  obtain ⟨holding, follows, delivers, ordered, range⟩ := consumed
  cases proceeds with
  | elsewhere acts =>
    have quiet := ((acts.frame flight).kept holding.sound).2
    exact ⟨holding.acts acts, follows, fun entry member =>
      (delivers entry member).later quiet.valued, ordered,
      fun value member => (range value member).imp id fun known =>
        Nat.lt_of_lt_of_le known quiet.length_le⟩
  | @resumes resumption turn w' known _ runs =>
    obtain ⟨turned, regular⟩ := resume_regular engine host holding known runs
    have longer : s.world.handles.length ≤ w'.handles.length := by
      by_contra shorter
      obtain ⟨later, found, -⟩ :=
        turned.valued w'.handles.length _ (List.getElem?_eq_getElem (Nat.lt_of_not_le shorter))
      exact absurd (List.getElem?_eq_some_iff.mp found).1 (Nat.lt_irrefl _)
    have valued : Valued s.world (w'.hand turn.outcome.handles) :=
      turned.valued.trans (valued_hand w' _)
    have here : turn.Delivers (w'.hand turn.outcome.handles) := by
      intro value yields
      obtain ⟨-, cell, replied, noException, found⟩ := turned.yields value yields
      obtain ⟨later, still, same⟩ := valued_hand w' turn.outcome.handles value _ found
      exact ⟨cell, later, replied, noException, still, same⟩
    have news : ∀ value, turn.outcome.yielded = some value → s.world.handles.length ≤ value ∧
        value < w'.handles.length := by
      intro value yields
      obtain ⟨above, cell, -, -, found⟩ := turned.yields value (Outcome.yielded_eq.mp yields)
      exact ⟨above, (List.getElem?_eq_some_iff.mp found).1⟩
    have all : Iteration.delivered
        ⟨w'.hand turn.outcome.handles, turn.generator, s.log ++ [(resumption, turn)]⟩ =
        s.delivered ++ turn.outcome.yielded.toList := by
      unfold Iteration.delivered
      rw [List.filterMap_append]
      cases yields : turn.outcome.yielded with
      | none => simp [yields]
      | some value => simp [yields]
    refine ⟨turned.holding, follows.concat regular, fun entry member =>
      ?_, ?_, fun value member => ?_⟩
    · rcases List.mem_append.mp member with earlier | new
      · exact (delivers entry earlier).later valued
      · obtain rfl := List.mem_singleton.mp new
        exact here
    · rw [all]
      refine List.pairwise_append.mpr ⟨ordered, ?_, fun earlier isEarlier value isNew => ?_⟩
      · cases turn.outcome.yielded with
        | none => exact .nil
        | some value => exact List.pairwise_singleton _ _
      · exact Nat.lt_of_lt_of_le (range earlier isEarlier).2
          (news value (Option.mem_toList.mp isNew)).1
    · rw [hand_length]
      rw [all] at member
      rcases List.mem_append.mp member with earlier | new
      · exact (range value earlier).imp id fun known => Nat.lt_of_lt_of_le known longer
      · have ends := news value (Option.mem_toList.mp new)
        exact ⟨Nat.le_trans holding.step.length_le ends.1, ends.2⟩

theorem consumed_run {may : Iteration V σ → Resumption V → Prop} (sound : Sound flight w₀)
    (runs : Relation.ReflTransGen (Proceeds engine host.toHost may) ⟨w₀, .fresh source, []⟩ s) :
    Consumed flight w₀ source s := by
  induction runs with
  | refl => exact consumed_start sound
  | tail _ step ih => exact ih.step engine host step

end

/-! ### The protocol -/

/-- `next` has reported the end, or has thrown. -/
def Turn.Finishes (turn : Turn V) : Prop :=
  ∃ cell done, turn.reply = some (cell, done) ∧ (cell = .exception ∨ done = true)

/-- The order of an iteration. The `return` method is asked for at most once, exactly when the host
stops at a `yield`, and never once `next` has finished or thrown. What `next` gives is delivered,
each value by a handle of its own and in order. -/
structure Ordered (w₀ : World σ) (s : Iteration V σ) : Prop where
  once : s.log.countP (fun entry => entry.2.closing != .notAsked) ≤ 1
  exactly : ∀ before entry after, s.log = before ++ entry :: after →
    (entry.2.closing ≠ .notAsked ↔ Yielded before ∧ entry.1 ≠ .next)
  never : ∀ before entry after, s.log = before ++ entry :: after → entry.2.Finishes →
    ∀ later ∈ entry :: after, later.2.closing = .notAsked
  delivered : ∀ entry ∈ s.log, ∀ cell, (entry.2.reply = some (cell, false) ∧ cell ≠ .exception) ↔
    ∃ value handle, entry.2.outcome = .yields value ∧ s.world.handles[value]? = some handle ∧
    handle.value = cell
  ordered : s.delivered.Pairwise (· < ·)
  new : ∀ value ∈ s.delivered, w₀.handles.length ≤ value

/-- The protocol: besides, the handle list has what it had, and the handles of a generator that is
not at its end. -/
structure Protocol (w₀ : World σ) (s : Iteration V σ) : Prop extends Ordered w₀ s where
  handles : (∀ h, w₀.Lists h → s.world.Lists h) ∧ ∀ h, s.world.Lists h → w₀.Lists h ∨
    h ∈ s.generator.handles

section
variable {flight : List Nat} {w₀ : World σ} {source : JSValue} {s : Iteration V σ}

theorem Consumed.never (consumed : Consumed flight w₀ source s)
    {before after : List (Resumption V × Turn V)} {entry : Resumption V × Turn V}
    (split : s.log = before ++ entry :: after) (finishes : entry.2.Finishes) :
    ∀ later ∈ entry :: after, later.2.closing = .notAsked := by
  obtain ⟨cell, done, replied, stopped⟩ := finishes
  have follows := consumed.follows
  rw [split] at follows
  obtain ⟨middle, -, regular, rest⟩ := follows.split
  have noYield : ¬∃ value, entry.2.outcome = .yields value := fun yields => by
    obtain ⟨other, same, noException⟩ := regular.paused.replied.mp yields
    obtain ⟨rfl, rfl⟩ := Prod.mk.inj (Option.some.inj (replied.symm.trans same))
    exact stopped.elim noException nofun
  obtain ⟨-, isEnded⟩ := regular.paused.suspended.resolve_left fun suspended => noYield suspended.1
  rw [isEnded] at rest
  intro later member
  rcases List.mem_cons.mp member with rfl | isLater
  · refine Decidable.of_not_not fun asked => ?_
    rw [(regular.paused.closed asked).2] at replied
    cases replied
  · exact rest.ended.2 later isLater

theorem Consumed.delivered (consumed : Consumed flight w₀ source s) {entry : Resumption V × Turn V}
    (member : entry ∈ s.log) (cell : Value) :
    (entry.2.reply = some (cell, false) ∧ cell ≠ .exception) ↔
      ∃ value handle, entry.2.outcome = .yields value ∧ s.world.handles[value]? = some handle ∧
      handle.value = cell := by
  have delivers := consumed.delivers entry member
  constructor
  · rintro ⟨replied, noException⟩
    obtain ⟨before, after, split⟩ := List.append_of_mem member
    have follows := consumed.follows
    rw [split] at follows
    obtain ⟨middle, -, regular, -⟩ := follows.split
    obtain ⟨value, yields⟩ := regular.paused.replied.mpr ⟨cell, replied, noException⟩
    obtain ⟨other, handle, same, -, found, isOther⟩ := delivers value yields
    obtain ⟨rfl, -⟩ := Prod.mk.inj (Option.some.inj (replied.symm.trans same))
    exact ⟨value, handle, yields, found, isOther⟩
  · rintro ⟨value, handle, yields, found, rfl⟩
    obtain ⟨other, later, replied, noException, still, rfl⟩ := delivers value yields
    obtain rfl := Option.some.inj (found.symm.trans still)
    exact ⟨replied, noException⟩

theorem Consumed.ordered_log (consumed : Consumed flight w₀ source s) : Ordered w₀ s := by
  refine ⟨consumed.follows.once, fun before entry after split => ?_, fun before entry after split =>
    consumed.never split,
    fun entry member cell => consumed.delivered member cell, consumed.ordered, fun value member =>
      (consumed.range value member).1⟩
  have follows := consumed.follows
  rw [split] at follows
  obtain ⟨middle, start, regular, -⟩ := follows.split
  rw [regular.asked, Stops, start.yielded]

/-! ### What is lost on the way -/

theorem Harmless.step {engine : IteratorEngine σ} {host : LawfulHost V σ}
    (unaware : UnawareIterator engine host.toHost) {s' : Iteration V σ}
    (consumed : Consumed flight w₀ source s) (harmless : Harmless w₀ s.world)
    (proceeds : Proceeds engine host.toHost (Meets engine host.toHost) s s') :
    Harmless w₀ s'.world := by
  have sound := consumed.holding.sound
  cases proceeds with
  | elsewhere acts =>
    exact harmless.trans sound acts.untouched.valued (harmless_same acts.untouched.undescribed)
  | @resumes resumption turn w' known meets runs =>
    obtain ⟨turned, -⟩ := resume_regular engine host consumed.holding known runs
    obtain ⟨n, noted, mirrors⟩ := (notes_resume unaware s.generator resumption).mirrored runs
    have during : Harmless s.world w' := by
      rw [mirrors.harmless_iff sound turned.sound]
      unfold Meets Described takings at meets
      rwa [noted] at meets
    -- handing handles over loses none
    have handed : Harmless w' (w'.hand turn.outcome.handles) := harmless_same rfl
    exact (harmless.trans sound turned.valued during).trans turned.sound (valued_hand w' _) handed

theorem harmless_run {engine : IteratorEngine σ} {host : LawfulHost V σ}
    (unaware : UnawareIterator engine host.toHost) (sound : Sound flight w₀)
    (runs : Relation.ReflTransGen (Proceeds engine host.toHost (Meets engine host.toHost))
      ⟨w₀, .fresh source, []⟩ s) :
    Harmless w₀ s.world := by
  induction runs with
  | refl => exact fun h isLost isNew => absurd isLost isNew
  | tail earlier step ih => exact ih.step unaware (consumed_run engine host sound earlier) step

end

/-! ### An iterator whose `next` throws a revoked proxy -/

-- Calls are answered as properties of the method are.
def Script.iteratorEngine (script : Script σ) : IteratorEngine σ where
  toLawfulEngine := script.engine
  atomSymbolIterator := 2
  atomDone := 3
  atomValue := 4
  atomReturn := 5
  isFunction value _ := value.isObject
  toBool _ _ := false
  builtin _ _ := false
  invoke method _ w := script.answer (.getProperty method 6) w
  invokes method _ _ w sound :=
    (script.answer_acts sound :
      Acts [] w (Native.given (.getProperty method 6) (script.answer (.getProperty method 6) w).1)
        _)
  iteratorNext _ _ w := ((.exception, 0), w)
  iterates _ _ _ _ _ := .nothing
  enter := id
  enters _ _ _ := .nothing
  leave _ := id
  leaves _ _ _ _ := .nothing

theorem Script.unawareIterator (script : Script σ) (callable : V → Bool) (numeral : Number → Text)
    (answer : (op : HostOp V) → op.Reply V) :
    UnawareIterator script.iteratorEngine (answering (σ := σ) callable numeral answer).toHost where
  toUnaware := unaware_answering script callable numeral answer
  invoke method _ w := by
    show Untouched w (script.answer (.getProperty method 6) w).2
    exact script.untouched (.getProperty method 6) w
  iteratorNext _ _ w := ⟨rfl, Valued.refl w⟩
  enter w := ⟨rfl, Valued.refl w⟩
  leave _ w := ⟨rfl, Valued.refl w⟩

/-- Cell 0 is a function that is its own iterator, `next` method and result. It may throw cell 1, a
revoked proxy, from the second call on; cell 2 is the `TypeError` of its type. If it does not,
reading its `return` method throws cell 0. -/
def looping (throws : Bool) : Script Nat where
  reply native w :=
    match native with
    | .newAtomLen _ => (1 : Nat)
    | .getProperty _ atom =>
      if atom = 6 ∧ throws = true ∧ w.guest ≠ 0 then .exception
      else if atom = 5 then if throws then .undefined else .exception
      else .heap .object 0
    | .getException => w.pending
    | .type (.heap .object cell) => if cell = 1 then (-1 : Int) else 10
    | native => native.idle
  pending native w :=
    match native with
    | .getProperty _ atom =>
      if atom = 6 ∧ throws = true ∧ w.guest ≠ 0 then .heap .object 1
      else if atom = 5 ∧ throws = false then .heap .object 0 else w.pending
    | .getException => .uninitialized
    | .type (.heap .object cell) => if cell = 1 then .heap .object 2 else w.pending
    | _ => w.pending
  guest native w :=
    match native with
    | .getProperty _ atom => if atom = 6 then w.guest + 1 else w.guest
    | _ => w.guest
  typed value w above := by
    cases value with
    | heap tag cell =>
      cases tag with
      | object => exact ⟨cell, rfl⟩
      | _ =>
        have none : (7 : Int) ≤ 0 := above
        cases none
    | _ =>
      have none : (7 : Int) ≤ 0 := above
      cases none

def loopingHost : LawfulHost Unit Nat := answering (fun _ => false) (fun _ => []) fun op => op.idle

def loopingWorld : World Nat := proxyWorld.withGuest 0

end QuickJSBun.Context
