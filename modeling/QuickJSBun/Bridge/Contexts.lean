import Mathlib.Order.WithBot
import QuickJSBun.Library.Linked
import QuickJSBun.Library.Machine

/-! The contexts of a runtime and their timeouts. The bridge keeps them in a list in which every lookup
moves what it finds to the front; whatever the order of the calls, the list is a map.

Contexts are known by their addresses, which the engine may use again for another one.
-/

set_option autoImplicit false

namespace QuickJSBun.Bridge.Contexts

open Library

variable {T : Type}

structure QJSBunContext (T : Type) where
  ctx : Nat
  timeoutMs : T
  deriving DecidableEq, Repr

/-- The list that a `QJSBunRuntime` has in `contexts`. -/
abbrev Entries (T : Type) := Linked.Memory (QJSBunContext T)

/-- `alive` are the contexts that the engine has. `owned` is not in the source: those whose first
reference has not been given back. -/
structure Runtime (T : Type) where
  contexts : Entries T
  alive : List Nat
  owned : List Nat

def isEntryOf (ctx : Nat) (entry : QJSBunContext T) : Bool := entry.ctx == ctx

section
variable [Top T]

/-- `INFINITY` for a context without an entry. -/
def qjsBunTimeout (contexts : Entries T) (ctx : Nat) : Option (T × Entries T) := do
  match ← contexts.find (isEntryOf ctx) with
  | none => pure (⊤, contexts)
  | some (link, entry) =>
    let contexts ← contexts.toFront link entry
    let node ← contexts.read entry
    pure (node.value.timeoutMs, contexts)

end

/-- `JS_FreeContext` gives a reference back, and the context dies if it was the last. -/
def jsFreeContext (ctx : Nat) (dies : Bool) (rt : Runtime T) : Runtime T :=
  if dies then { rt with alive := rt.alive.filter (· != ctx) } else rt

/-- `made` is what `JS_NewContext` or `JS_NewContextRaw` answers and `entry` what `malloc` does. -/
def qjsBunNewContext (made : Option Nat) (timeoutMs : T) (entry : Option Nat) (dies : Bool)
    (rt : Runtime T) : Option Nat × Runtime T :=
  match made with
  | none => (none, rt)
  | some ctx =>
    let rt := { rt with alive := ctx :: rt.alive }
    match entry with
    | none => (none, jsFreeContext ctx dies rt)
    | some entry =>
      (some ctx, { rt with contexts := rt.contexts.push entry ⟨ctx, timeoutMs⟩, owned := ctx :: rt.owned })

/-- The loop of `qjs_bun_free_context` -/
def freeEntry (contexts : Entries T) (ctx : Nat) : Option (Entries T) := do
  match ← contexts.find (isEntryOf ctx) with
  | none => pure contexts
  | some (link, entry) => contexts.remove link entry

def qjsBunFreeContext (ctx : Nat) (dies : Bool) (rt : Runtime T) : Option (Runtime T) := do
  let contexts ← freeEntry rt.contexts ctx
  pure (jsFreeContext ctx dies { rt with contexts, owned := rt.owned.filter (· != ctx) })

/-- The loop of `qjs_bun_free_runtime`, and the entries that it frees. -/
def qjsBunFreeRuntime (rt : Runtime T) : Option (List Nat × Entries T) := rt.contexts.freeAll

/-! ### Runs -/

inductive Op (T : Type) where
  | newContext (made : Option Nat) (timeoutMs : T) (entry : Option Nat) (dies : Bool)
  | timeout (ctx : Nat)
  | freeContext (ctx : Nat) (dies : Bool)
  /-- The last reference to a context goes elsewhere, as in a collection. -/
  | die (ctx : Nat)

/-- What the callers, the engine and `malloc` keep to: the context of a call is alive, a new one and
a new entry have addresses of their own, and a context with references left does not die. -/
def Allowed (rt : Runtime T) : Op T → Prop
  | .newContext made _ entry _ =>
    (∀ ctx ∈ made, ctx ∉ rt.alive) ∧ ∀ address ∈ entry, address ∉ rt.contexts.allocated
  | .timeout ctx | .freeContext ctx _ => ctx ∈ rt.alive
  | .die ctx => ctx ∈ rt.alive ∧ ctx ∉ rt.owned

instance (rt : Runtime T) : (op : Op T) → Decidable (Allowed rt op)
  | .newContext _ _ _ _ => inferInstanceAs (Decidable (_ ∧ _))
  | .timeout _ | .freeContext _ _ => inferInstanceAs (Decidable (_ ∈ _))
  | .die _ => inferInstanceAs (Decidable (_ ∧ _))

section
variable [Top T]

def Op.run : Op T → Runtime T → Option (Option T × Runtime T)
  | .newContext made timeoutMs entry dies, rt =>
    some (none, (qjsBunNewContext made timeoutMs entry dies rt).2)
  | .timeout ctx, rt => (qjsBunTimeout rt.contexts ctx).map fun (timeoutMs, contexts) =>
    (some timeoutMs, { rt with contexts })
  | .freeContext ctx dies, rt => (qjsBunFreeContext ctx dies rt).map fun rt => (none, rt)
  | .die ctx, rt => some (none, jsFreeContext ctx true rt)

end

/-- A runtime and what was done with it, each operation with its answer. -/
structure Session (T : Type) where
  runtime : Runtime T
  log : List (Op T × Option T)

def machine (T : Type) [Top T] [Inhabited T] : Machine (Session T) (Op T) where
  init := ⟨⟨⟨none, [], fun _ => ⟨⟨0, default⟩, none⟩⟩, [], []⟩, []⟩
  step s op := (op.run s.runtime).map fun (answer, runtime) => ⟨runtime, s.log ++ [(op, answer)]⟩

/-! ### The map -/

abbrev Timeouts (T : Type) := Nat → Option T

def Op.apply : Op T → Timeouts T → Timeouts T
  | .newContext (some ctx) timeoutMs (some _) _, timeouts =>
    Function.update timeouts ctx (some timeoutMs)
  | .freeContext ctx _, timeouts => Function.update timeouts ctx none
  | _, timeouts => timeouts

def Op.answer [Top T] : Op T → Timeouts T → Option T
  | .timeout ctx, timeouts => some ((timeouts ctx).getD ⊤)
  | _, _ => none

def timeoutsAfter (log : List (Op T × Option T)) : Timeouts T :=
  log.foldl (fun timeouts entry => entry.1.apply timeouts) fun _ => none

theorem timeoutsAfter_concat (log : List (Op T × Option T)) (entry : Op T × Option T) :
    timeoutsAfter (log ++ [entry]) = entry.1.apply (timeoutsAfter log) := by
  simp only [timeoutsAfter, List.foldl_append, List.foldl_cons, List.foldl_nil]

/-- The entries are those of the map, and no two are of one context. -/
structure Graph (values : List (QJSBunContext T)) (timeouts : Timeouts T) : Prop where
  distinct : (values.map QJSBunContext.ctx).Nodup
  entries : ∀ ctx timeoutMs, timeouts ctx = some timeoutMs ↔ ⟨ctx, timeoutMs⟩ ∈ values

section
variable {values front back : List (QJSBunContext T)} {timeouts : Timeouts T} {ctx : Nat}
    {timeoutMs : T}

theorem Graph.perm {others : List (QJSBunContext T)} (graph : Graph values timeouts)
    (same : values.Perm others) : Graph others timeouts where
  distinct := (same.map _).nodup_iff.mp graph.distinct
  entries ctx timeoutMs := (graph.entries ctx timeoutMs).trans same.mem_iff

theorem Graph.missing (graph : Graph values timeouts) :
    timeouts ctx = none ↔ ∀ entry ∈ values, isEntryOf ctx entry = false := by
  constructor
  · intro unknown entry member
    refine beq_eq_false_iff_ne.mpr fun same => ?_
    subst same
    have known := (graph.entries entry.ctx entry.timeoutMs).mpr member
    rw [unknown] at known
    cases known
  · intro none
    cases found : timeouts ctx with
    | none => rfl
    | some timeoutMs =>
      have isOther := none _ ((graph.entries ctx timeoutMs).mp found)
      simp [isEntryOf] at isOther

theorem Graph.cons (graph : Graph values timeouts) (unknown : timeouts ctx = none) (timeoutMs : T) :
    Graph (⟨ctx, timeoutMs⟩ :: values) (Function.update timeouts ctx (some timeoutMs)) where
  distinct := by
    refine List.nodup_cons.mpr ⟨fun member => ?_, graph.distinct⟩
    obtain ⟨entry, isIn, same⟩ := List.mem_map.mp member
    have other := graph.missing.mp unknown entry isIn
    simp [isEntryOf, same] at other
  entries other otherMs := by
    rw [List.mem_cons, QJSBunContext.mk.injEq]
    by_cases same : other = ctx
    · subst same
      rw [Function.update_self, Option.some.injEq]
      have none : ¬⟨other, otherMs⟩ ∈ values := fun member => by
        have isOther := graph.missing.mp unknown _ member
        simp [isEntryOf] at isOther
      simp [none, eq_comm]
    · rw [Function.update_of_ne same, graph.entries]
      simp [same]

theorem Graph.remove {entry : QJSBunContext T} (graph : Graph (front ++ entry :: back) timeouts) :
    Graph (front ++ back) (Function.update timeouts entry.ctx none) where
  distinct := by
    have moved := (graph.perm List.perm_middle).distinct
    exact (List.nodup_cons.mp moved).2
  entries other otherMs := by
    have moved := graph.perm List.perm_middle
    by_cases same : other = entry.ctx
    · subst same
      have none : ¬⟨entry.ctx, otherMs⟩ ∈ front ++ back := fun member =>
        (List.nodup_cons.mp moved.distinct).1 (List.mem_map.mpr ⟨_, member, rfl⟩)
      rw [Function.update_self]
      simp [none]
    · have apart : ({ ctx := other, timeoutMs := otherMs } : QJSBunContext T) ≠ entry :=
        fun isEntry => same (isEntry ▸ rfl)
      rw [Function.update_of_ne same, moved.entries, List.mem_cons]
      simp [apart]

end

/-! ### What the calls do -/

def values (contexts : Entries T) (entries : List Nat) : List (QJSBunContext T) :=
  entries.map fun entry => (contexts.node entry).value

theorem values_same {contexts contexts' : Entries T} (same : contexts.SameValues contexts')
    (entries : List Nat) : values contexts' entries = values contexts entries :=
  List.map_congr_left fun entry _ => same entry

/-- The list is the map. -/
def Represents (contexts : Entries T) (timeouts : Timeouts T) : Prop :=
  ∃ entries, contexts.Holds entries ∧ Graph (values contexts entries) timeouts

section
variable {contexts : Entries T} {timeouts : Timeouts T} {ctx : Nat}

theorem Represents.push {entry : Nat} (represents : Represents contexts timeouts)
    (fresh : entry ∉ contexts.allocated) (unknown : timeouts ctx = none) (timeoutMs : T) :
    Represents (contexts.push entry ⟨ctx, timeoutMs⟩)
      (Function.update timeouts ctx (some timeoutMs)) := by
  obtain ⟨entries, holds, graph⟩ := represents
  refine ⟨entry :: entries, holds.push fresh _, ?_⟩
  have others : values (contexts.push entry ⟨ctx, timeoutMs⟩) entries =
      values contexts entries := by
    refine List.map_congr_left fun other member => ?_
    have apart : other ≠ entry := fun same => fresh (same ▸ holds.all.mem_iff.mpr member)
    exact Linked.Memory.push_value_of_ne apart _
  unfold values at others ⊢
  rw [List.map_cons, others, Linked.Memory.push_value_self]
  exact graph.cons unknown timeoutMs

theorem Represents.find (represents : Represents contexts timeouts) (ctx : Nat) :
    (contexts.find (isEntryOf ctx) = some none ∧ timeouts ctx = none) ∨
      ∃ front entry back, contexts.Holds (front ++ entry :: back) ∧
      Graph (values contexts (front ++ entry :: back)) timeouts ∧
        (contexts.node entry).value.ctx = ctx ∧
        contexts.find (isEntryOf ctx) = some (some (Linked.lastLink .head front, entry)) := by
  obtain ⟨entries, holds, graph⟩ := represents
  rcases holds.find (isEntryOf ctx) with ⟨finds, none⟩ | ⟨front, entry, back, rfl, isIt, finds⟩
  · left
    refine ⟨finds, graph.missing.mpr fun value member => ?_⟩
    obtain ⟨entry, isIn, rfl⟩ := List.mem_map.mp member
    exact none entry isIn
  · right
    exact ⟨front, entry, back, holds, graph, beq_iff_eq.mp isIt, finds⟩

theorem Represents.timeout [Top T] (represents : Represents contexts timeouts) (ctx : Nat) :
    ∃ contexts', qjsBunTimeout contexts ctx = some ((timeouts ctx).getD ⊤, contexts') ∧
    Represents contexts' timeouts := by
  rcases represents.find ctx with ⟨finds, unknown⟩ | ⟨front, entry, back, holds, graph, rfl, finds⟩
  · refine ⟨contexts, ?_, represents⟩
    rw [qjsBunTimeout, finds, unknown]
    rfl
  · obtain ⟨contexts', moves, holds', same⟩ := holds.toFront
    have found : timeouts (contexts.node entry).value.ctx =
        some (contexts.node entry).value.timeoutMs :=
      (graph.entries _ _).mpr (List.mem_map.mpr ⟨entry, by simp, rfl⟩)
    refine ⟨contexts', ?_, entry :: (front ++ back), holds', ?_⟩
    · rw [qjsBunTimeout, finds, found]
      simp only [Option.bind_eq_bind, Option.bind_some, moves,
        holds'.read List.mem_cons_self, same entry]
      rfl
    · rw [values_same same]
      exact graph.perm (List.perm_middle.map _)

theorem Represents.freeEntry (represents : Represents contexts timeouts) (ctx : Nat) :
    ∃ contexts', freeEntry contexts ctx = some contexts' ∧
    Represents contexts' (Function.update timeouts ctx none) := by
  rcases represents.find ctx with ⟨finds, unknown⟩ | ⟨front, entry, back, holds, graph, rfl, finds⟩
  · refine ⟨contexts, ?_, ?_⟩
    · rw [Contexts.freeEntry, finds]
      rfl
    · rwa [← unknown, Function.update_eq_self]
  · obtain ⟨contexts', removes, holds', same⟩ := holds.remove
    refine ⟨contexts', ?_, front ++ back, holds', ?_⟩
    · rw [Contexts.freeEntry, finds]
      exact removes
    · rw [values_same same]
      unfold values at graph ⊢
      rw [List.map_append, List.map_cons] at graph
      rw [List.map_append]
      exact graph.remove

end

/-! ### What holds in every run -/

/-- A registered context is one that its creator still has. -/
structure Kept (rt : Runtime T) (timeouts : Timeouts T) : Prop where
  represents : Represents rt.contexts timeouts
  owned : ∀ ctx, ctx ∈ rt.owned ↔ timeouts ctx ≠ none
  alive : ∀ ctx ∈ rt.owned, ctx ∈ rt.alive

section
variable {rt : Runtime T} {timeouts : Timeouts T} {ctx : Nat}

theorem Kept.unknown (kept : Kept rt timeouts) (dead : ctx ∉ rt.alive) : timeouts ctx = none :=
  Decidable.of_not_not fun known => dead (kept.alive ctx ((kept.owned ctx).mpr known))

theorem Kept.jsFreeContext (kept : Kept rt timeouts) (unowned : ctx ∉ rt.owned) (dies : Bool) :
    Kept (jsFreeContext ctx dies rt) timeouts := by
  unfold Contexts.jsFreeContext
  split
  · refine ⟨kept.represents, kept.owned, fun other member =>
      List.mem_filter.mpr ⟨kept.alive other member, ?_⟩⟩
    refine bne_iff_ne.mpr fun same => ?_
    subst same
    exact unowned member
  · exact kept

-- What an operation does to the list it does to the map, and a lookup answers what the map says.
theorem Kept.run [Top T] (kept : Kept rt timeouts) {op : Op T} (allowed : Allowed rt op) :
    ∃ rt', op.run rt = some (op.answer timeouts, rt') ∧ Kept rt' (op.apply timeouts) := by
  cases op with
  | newContext made timeoutMs entry dies =>
    refine ⟨_, rfl, ?_⟩
    cases made with
    | none => exact kept
    | some ctx =>
      have dead : ctx ∉ rt.alive := allowed.1 ctx rfl
      have unknown := kept.unknown dead
      have more : Kept { rt with alive := ctx :: rt.alive } timeouts :=
        ⟨kept.represents, kept.owned, fun other member => List.mem_cons_of_mem _ (kept.alive other member)⟩
      cases entry with
      | none => exact more.jsFreeContext (fun member => dead (kept.alive ctx member)) dies
      | some entry =>
        refine ⟨kept.represents.push (allowed.2 entry rfl) unknown timeoutMs,
          fun other => ?_, fun other member => ?_⟩
        · simp only [qjsBunNewContext, Op.apply, List.mem_cons]
          by_cases same : other = ctx
          · simp [same]
          · rw [Function.update_of_ne same]
            simp [same, kept.owned other]
        · rcases List.mem_cons.mp member with rfl | earlier
          · exact List.mem_cons_self
          · exact List.mem_cons_of_mem _ (kept.alive other earlier)
  | timeout ctx =>
    obtain ⟨contexts', answers, represents⟩ := kept.represents.timeout ctx
    refine ⟨{ rt with contexts := contexts' }, ?_, represents, kept.owned, kept.alive⟩
    rw [Op.run, answers]
    rfl
  | freeContext ctx dies =>
    obtain ⟨contexts', frees, represents⟩ := kept.represents.freeEntry ctx
    refine ⟨Contexts.jsFreeContext ctx dies
      { rt with contexts := contexts', owned := rt.owned.filter (· != ctx) }, ?_, ?_⟩
    · rw [Op.run, qjsBunFreeContext, frees]
      rfl
    · refine Kept.jsFreeContext ⟨represents, fun other => ?_, fun other member => ?_⟩ (by simp) dies
      · simp only [List.mem_filter, bne_iff_ne, Op.apply]
        by_cases same : other = ctx
        · simp [same]
        · rw [Function.update_of_ne same]
          simp [same, kept.owned other]
      · exact kept.alive other (List.mem_filter.mp member).1
  | die ctx => exact ⟨_, rfl, kept.jsFreeContext allowed.2 true⟩

end

structure Implements [Top T] [Inhabited T] (s : Session T) : Prop where
  represents : Represents s.runtime.contexts (timeoutsAfter s.log)
  answers : ∀ before op answer after, s.log = before ++ (op, answer) :: after →
    answer = op.answer (timeoutsAfter before)
  safe : ∀ op, Allowed s.runtime op → ∃ s', (machine T).step s op = some s'
  freed : ∃ freed emptied, qjsBunFreeRuntime s.runtime = some (freed, emptied) ∧ freed.Nodup ∧
    freed.Perm s.runtime.contexts.allocated ∧ emptied.allocated = []

section
variable [Top T] [Inhabited T]

-- Kept, and every answer so far was the map's.
def Answered (s : Session T) : Prop :=
  Kept s.runtime (timeoutsAfter s.log) ∧
    ∀ before op answer after, s.log = before ++ (op, answer) :: after →
      answer = op.answer (timeoutsAfter before)

theorem answered_invariant : (machine T).Invariant (fun s op => Allowed s.runtime op) Answered where
  init := by
    have noOwner : ∀ ctx, ctx ∈ ([] : List Nat) ↔ (none : Option T) ≠ none := fun _ => by simp
    refine ⟨⟨⟨[], Linked.Memory.holds_empty _, .nil, fun _ _ =>
      by simp [values, timeoutsAfter, machine]⟩, noOwner, nofun⟩, ?_⟩
    intro before op answer after split
    cases before <;> cases split
  step := by
    intro s s' op answered allowed steps
    obtain ⟨rt', runs, kept⟩ := answered.1.run allowed
    simp only [machine, runs, Option.map_some, Option.some.injEq] at steps
    subst steps
    refine ⟨?_, fun before op' answer' after split => ?_⟩
    · rw [timeoutsAfter_concat]
      exact kept
    · rcases List.eq_nil_or_concat after with rfl | ⟨init, last, rfl⟩
      · obtain ⟨rfl, same⟩ := List.append_inj' split rfl
        cases same
        rfl
      · rw [List.concat_eq_append, ← List.cons_append, ← List.append_assoc] at split
        exact answered.2 before op' answer' init (List.append_inj' split rfl).1

/-- Whatever the order of the calls and whichever addresses are used again, the list of contexts is
a map. -/
theorem contexts_map (s : Session T)
    (reaches : (machine T).Reaches (fun s op => Allowed s.runtime op) s) : Implements s := by
  obtain ⟨kept, answers⟩ := answered_invariant.reached reaches
  refine ⟨kept.represents, answers, fun op allowed => ?_, ?_⟩
  · obtain ⟨rt', runs, -⟩ := kept.run allowed
    exact ⟨_, congrArg (Option.map _) runs⟩
  · obtain ⟨entries, holds, -⟩ := kept.represents
    obtain ⟨emptied, frees, none, -⟩ := holds.freeAll
    exact ⟨entries, emptied, frees, holds.distinct, holds.all.symm, none⟩

end

/-- The address of the first context is used again by the third, whose timeout is another. -/
def reusing : List (Op (WithTop Nat)) :=
  [.newContext (some 16) (.some 5) (some 64) false, .newContext (some 32) (.some 6) (some 96) false,
    .timeout 16, .freeContext 16 false, .timeout 16, .die 16,
    .newContext (some 16) (.some 7) (some 64) false, .timeout 32, .timeout 16]

theorem contexts_map_reused :
    ∃ s, (machine (WithTop Nat)).run (fun s op => Allowed s.runtime op)
      (machine (WithTop Nat)).init reusing = some s ∧ s.log.map Prod.snd =
        [none, none, some (.some 5), none, some ⊤, none, none, some (.some 6), some (.some 7)] ∧
        Implements s :=
  ⟨_, rfl, rfl, contexts_map _ (Machine.Reaches.run reusing .init rfl)⟩

end QuickJSBun.Bridge.Contexts
