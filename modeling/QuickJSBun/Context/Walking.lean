import QuickJSBun.Context.Lawful

/-! The walk of a dump as such: rules for what every visit keeps, the two counters that bound it,
and the walk as the source writes it, whose calls and rounds they bound.
-/

set_option autoImplicit false

namespace QuickJSBun.Context

open Library Effect

variable {σ V α : Type} (engine : Engine σ) (host : Host V σ)

-- What the walk reads of a value.
inductive Reading : {α : Type} → Run σ V α → Prop where
  | ptr (h : JSValue) : Reading (ptr h)
  | type (h : JSValue) : Reading (type engine (getException engine host) h)
  | toBoolean (h : JSValue) : Reading (toBoolean engine host h)
  | toNumber (h : JSValue) : Reading (toNumber engine host h)
  | toBigInt (h : JSValue) : Reading (toBigInt engine (getException engine host) h)
  | toString (h : JSValue) : Reading (valueToString engine (getException engine host) h)
  | toError (h : JSValue) : Reading (toError engine host h)
  | length (h : JSValue) : Reading (valueLength engine host h)
  | keys (h : JSValue) : Reading (keys engine (getException engine host) h)

/-- How the walk comes to the values inside an object. -/
inductive Entry : Run σ V JSValue → Prop where
  | index (h : JSValue) (index : Nat) : Entry (getIndex engine (getException engine host) h index)
  | property (h : JSValue) (key : Text) : Entry (getProp engine (getException engine host) h key)

/-- What has to be shown of an invariant, and of what holds when the walk throws. -/
structure WalkRules (invariant : Walk σ → Prop) (fails : HostValue V → Walk σ → Prop) : Prop where
  reads : ∀ {α : Type} {x : Run σ V α}, Reading engine host x →
    Triple invariant (onWorld x) (fun _ => invariant) fails
  entries : ∀ {x : Run σ V JSValue}, Entry engine host x → ∃ read : JSValue → Walk σ → Prop,
    Triple invariant (onWorld x) read fails ∧
    ∀ entry, Triple (read entry) (keep entry) (fun _ => invariant) fails
  refuses : ∀ (e : HostValue V) (s : Walk σ), e.handles = [] → invariant s → fails e s
  same : ∀ s s' : Walk σ, s'.world = s.world → s'.kept = s.kept → s'.nodes = s.nodes → invariant s →
    invariant s'

/-- `if (++nodes > maxNodes) throw …` -/
def countNode (maxNodes : Nat) : WalkRun σ V Unit := do
  .modify fun s => { s with nodes := s.nodes + 1 }
  let s ← .get
  .check (decide (s.nodes ≤ maxNodes))
    (rangeError ("QuickJS dump exceeded maximum of " ++ toString maxNodes ++ " values"))

/-- What `visit` does with a value that has been counted. -/
def visitBody (items : JSValue → Nat → Nat → WalkRun σ V Unit)
    (members : JSValue → Nat → List Text → WalkRun σ V Unit) (h : JSValue) :
    WalkRun σ V Dumped := do
  let found ← onWorld (type engine (getException engine host) h)
  match found with
  | .undefined => pure .undefined
  | .null => pure .null
  | .boolean => do
    let value ← onWorld (toBoolean engine host h)
    pure (.boolean value)
  | .number => do
    let value ← onWorld (toNumber engine host h)
    pure (.number value)
  | .bigint => visitLeaf h do
    let value ← onWorld (toBigInt engine (getException engine host) h)
    pure (.bigint value)
  | .string => visitLeaf h do
    let value ← onWorld (valueToString engine (getException engine host) h)
    pure (.string value)
  | .error => visitLeaf h do
    let error ← onWorld (toError engine host h)
    let object ← newHostObject error
    pure (.object object)
  | .array => visitContainer h (.array []) fun array => do
    let length ← onWorld (valueLength engine host h)
    announce (.items array length.indices)
    items h array length.indices
  | .object => visitContainer h (.object []) fun object => do
    let keys ← onWorld (keys engine (getException engine host) h)
    announce (.members object keys)
    members h object keys
  | found => .throw (typeError ("Cannot dump QuickJS " ++ found.name))

theorem countNode_bind (maxNodes : Nat) (next : Unit → WalkRun σ V α) :
    countNode maxNodes >>= next = (do
      .modify fun s => { s with nodes := s.nodes + 1 }
      let s ← .get
      .check (decide (s.nodes ≤ maxNodes))
        (rangeError ("QuickJS dump exceeded maximum of " ++ toString maxNodes ++ " values"))
      next ()) := by
  simp only [countNode, bind_assoc]

theorem visit_succ (maxDepth maxNodes levels : Nat) (h : JSValue) :
    visit engine host maxDepth maxNodes (levels + 1) h = (do
      countNode maxNodes
      visitBody engine host
        (fun h array count =>
          visitItems engine host (visit engine host maxDepth maxNodes levels) h array count 0)
        (visitMembers engine host (visit engine host maxDepth maxNodes levels)) h) := by
  refine Eq.trans ?_ (countNode_bind maxNodes _).symm
  exact rfl

/-! ### What a walk keeps -/

section
variable {engine host} {invariant : Walk σ → Prop} {fails : HostValue V → Walk σ → Prop}
variable (rules : WalkRules engine host invariant fails)
include rules

theorem WalkRules.change {f : Walk σ → Walk σ}
    (same : ∀ s, (f s).world = s.world ∧ (f s).kept = s.kept ∧ (f s).nodes = s.nodes) :
    Triple invariant (Effect.modify f : WalkRun σ V Unit) (fun _ => invariant) fails :=
  Triple.modify fun s start => rules.same s (f s) (same s).1 (same s).2.1 (same s).2.2 start

theorem WalkRules.newHostObject (object : HostObject) :
    Triple invariant (newHostObject object : WalkRun σ V Nat) (fun _ => invariant) fails :=
  Triple.lift fun s start => rules.same s _ rfl rfl rfl start

theorem WalkRules.throws {e : HostValue V} (plain : e.handles = []) {post : α → Walk σ → Prop} :
    Triple invariant (Effect.throw e : WalkRun σ V α) post fails :=
  Triple.throw e fun s start => rules.refuses e s plain start

theorem WalkRules.reading {x : Run σ V α} (reading : Reading engine host x) (result : α → Dumped) :
    Triple invariant (do
      let a ← onWorld x
      Pure.pure (result a)) (fun _ => invariant) fails :=
  Triple.bind (rules.reads reading) fun _ => Triple.pure _ fun _ start => start

theorem WalkRules.leaf (h : JSValue) {convert : WalkRun σ V Dumped}
    (converts : Triple invariant convert (fun _ => invariant) fails) :
    Triple invariant (visitLeaf h convert) (fun _ => invariant) fails := by
  refine Triple.bind (rules.reads (.ptr h)) fun value =>
    Triple.bind (Triple.get fun _ start => start) fun s => ?_
  dsimp only
  generalize (if value.tag < 0 then s.world.pointer value else 0) = pointer
  split
  · exact Triple.pure _ fun _ start => start
  · refine Triple.bind converts fun converted => ?_
    split
    · exact Triple.bind (rules.change fun _ => ⟨rfl, rfl, rfl⟩) fun _ =>
        Triple.pure _ fun _ start => start
    · exact Triple.pure _ fun _ start => start

theorem WalkRules.container (h : JSValue) (empty : HostObject) {fill : Nat → WalkRun σ V Unit}
    (fills : ∀ object, Triple invariant (fill object) (fun _ => invariant) fails) :
    Triple invariant (visitContainer h empty fill) (fun _ => invariant) fails := by
  refine Triple.bind (rules.reads (.ptr h)) fun value =>
    Triple.bind (Triple.get fun _ start => start) fun s => ?_
  dsimp only
  split
  · exact Triple.pure _ fun _ start => start
  · refine Triple.bind (rules.newHostObject empty) fun object => ?_
    refine Triple.bind (rules.change fun _ => ⟨rfl, rfl, rfl⟩) fun _ =>
      Triple.bind (fills object) fun _ => ?_
    exact Triple.pure _ fun _ start => start

theorem WalkRules.body {items : JSValue → Nat → Nat → WalkRun σ V Unit}
    {members : JSValue → Nat → List Text → WalkRun σ V Unit}
    (fillsItems : ∀ h array count, Triple invariant (items h array count)
      (fun _ => invariant) fails)
    (fillsMembers : ∀ h object keys, Triple invariant (members h object keys)
      (fun _ => invariant) fails)
    (h : JSValue) :
    Triple invariant (visitBody engine host items members h) (fun _ => invariant) fails := by
  refine Triple.bind (rules.reads (.type h)) fun found => ?_
  cases found with
  | undefined => exact Triple.pure _ fun _ start => start
  | null => exact Triple.pure _ fun _ start => start
  | boolean => exact rules.reading (.toBoolean h) _
  | number => exact rules.reading (.toNumber h) _
  | bigint => exact rules.leaf h (rules.reading (.toBigInt h) _)
  | string => exact rules.leaf h (rules.reading (.toString h) _)
  | error =>
    refine rules.leaf h (Triple.bind (rules.reads (.toError h)) fun error => ?_)
    exact Triple.bind (rules.newHostObject error) fun _ => Triple.pure _ fun _ start => start
  | array =>
    refine rules.container h _ fun array => Triple.bind (rules.reads (.length h)) fun length => ?_
    exact Triple.bind (rules.change fun _ => ⟨rfl, rfl, rfl⟩) fun _ => fillsItems h array _
  | object =>
    refine rules.container h _ fun object => Triple.bind (rules.reads (.keys h)) fun keys => ?_
    exact Triple.bind (rules.change fun _ => ⟨rfl, rfl, rfl⟩) fun _ => fillsMembers h object keys
  | symbol => exact rules.throws rfl
  | function => exact rules.throws rfl

section
variable {visit : JSValue → WalkRun σ V Dumped}
    (visits : ∀ h, Triple invariant (visit h) (fun _ => invariant) fails)
include visits

theorem WalkRules.round {x : Run σ V JSValue} (entry : Entry engine host x)
    (change : Dumped → List HostObject → List HostObject) (place : Place) :
    Triple invariant (do
      let entry ← onWorld x
      keep entry
      let item ← visit entry
      put (change item) place entry item) (fun _ => invariant) fails := by
  obtain ⟨read, reads, keeps⟩ := rules.entries entry
  refine Triple.bind reads fun entry => Triple.bind (keeps entry) fun _ =>
    Triple.bind (visits entry) fun item => ?_
  exact rules.change fun _ => ⟨rfl, rfl, rfl⟩

theorem WalkRules.items (h : JSValue) (array count index : Nat) :
    Triple invariant (visitItems engine host visit h array count index)
      (fun _ => invariant) fails := by
  induction count generalizing index with
  | zero => exact Triple.pure _ fun _ start => start
  | succ count ih =>
    have both := Triple.bind (rules.round visits (.index h index) (push array) (.item array index))
      fun _ => ih (index + 1)
    simp only [bind_assoc] at both
    exact both

theorem WalkRules.members (h : JSValue) (object : Nat) (keys : List Text) :
    Triple invariant (visitMembers engine host visit h object keys) (fun _ => invariant) fails :=
  Triple.forEach fun key _ =>
    rules.round visits (.property h key) (defineHost object key) (.member object key)

end

theorem WalkRules.visit {maxDepth maxNodes : Nat}
    (counts : Triple invariant (countNode maxNodes) (fun _ => invariant) fails) (levels : Nat)
    (h : JSValue) :
    Triple invariant (visit engine host maxDepth maxNodes levels h) (fun _ => invariant) fails := by
  induction levels generalizing h with
  | zero => exact rules.throws rfl
  | succ levels ih =>
    rw [visit_succ]
    refine Triple.bind counts fun _ => ?_
    exact rules.body (fun h array count => rules.items ih h array count 0)
      (fun h object keys => rules.members ih h object keys) h

end

/-! ### How far it goes -/

def tooMany (maxNodes : Nat) : HostValue V :=
  rangeError ("QuickJS dump exceeded maximum of " ++ toString maxNodes ++ " values")

def tooDeep (maxDepth : Nat) : HostValue V :=
  rangeError ("QuickJS dump exceeded maximum depth of " ++ toString maxDepth)

-- So many values were counted, and no more than are allowed.
def Counted (maxNodes least : Nat) (s : Walk σ) : Prop := least ≤ s.nodes ∧ s.nodes ≤ maxNodes

/-- The value that is one too many is refused before it is converted. -/
def Stopped (maxNodes : Nat) (e : HostValue V) (s : Walk σ) : Prop :=
  s.nodes ≤ maxNodes ∨ e = tooMany maxNodes ∧ s.nodes = maxNodes + 1

theorem onWorld_ends {x : Run σ V α} {s : Walk σ} {post : α → World σ → Prop}
    {fails : HostValue V → World σ → Prop}
    (triple : Triple (· = s.world) x post fails) :
    Triple (· = s) (onWorld x) (fun a s' => ∃ w', s' = { s with world := w' } ∧ post a w')
      fun e s' => ∃ w', s' = { s with world := w' } ∧ fails e w' := by
  rintro _ rfl
  have ends := triple _ rfl
  simp only [onWorld]
  split at ends
  · next a w' runs =>
      simp only [runs]
      exact ⟨w', rfl, ends⟩
  · next e w' runs =>
      simp only [runs]
      exact ⟨w', rfl, ends⟩

theorem onWorld_frame (x : Run σ V α) {pre : Walk σ → Prop} {fails : HostValue V → Walk σ → Prop}
    (frame : ∀ s world, pre s → pre { s with world }) (throws : ∀ e s, pre s → fails e s) :
    Triple pre (onWorld x) (fun _ => pre) fails := by
  intro s start
  simp only [onWorld]
  have later := frame s (x.run s.world).2 start
  split
  · next runs =>
      rw [(Prod.mk.inj runs).2] at later
      exact later
  · next e _ runs =>
      rw [(Prod.mk.inj runs).2] at later
      exact throws e _ later

theorem counted_rules (maxNodes least : Nat) :
    WalkRules engine host (Counted maxNodes least) (Stopped (V := V) maxNodes) where
  reads _ := onWorld_frame _ (fun _ _ start => start) fun _ _ start => .inl start.2
  entries _ :=
    ⟨fun _ => Counted maxNodes least, onWorld_frame _ (fun _ _ start => start) fun _ _ start =>
      .inl start.2,
    fun _ => Triple.modify fun _ start => start⟩
  refuses _ _ _ start := .inl start.2
  same s s' _ _ nodes start := by
    rw [Counted, nodes]
    exact start

theorem countNode_counts (maxNodes least : Nat) :
    Triple (Counted maxNodes least) (countNode maxNodes : WalkRun σ V Unit)
      (fun _ => Counted maxNodes (least + 1))
      (Stopped maxNodes) := by
  refine Triple.bind (Q := fun _ s => least + 1 ≤ s.nodes ∧ s.nodes ≤ maxNodes + 1)
    (Triple.modify fun s start =>
    ⟨Nat.succ_le_succ start.1, Nat.succ_le_succ start.2⟩) fun _ => ?_
  refine Triple.bind (Q := fun a s => a = s ∧ least + 1 ≤ s.nodes ∧ s.nodes ≤ maxNodes + 1)
    (Triple.get fun _ start => ⟨rfl, start⟩) fun a => ?_
  refine Triple.check (fun s start few => ?_) fun s start many => ?_
  · obtain ⟨rfl, counted, -⟩ := start
    exact ⟨counted, of_decide_eq_true few⟩
  · obtain ⟨rfl, -, most⟩ := start
    have above := of_decide_eq_false many
    exact .inr ⟨rfl, by omega⟩

theorem Counted.earlier {maxNodes least : Nat} {s : Walk σ}
    (counted : Counted maxNodes (least + 1) s) : Counted maxNodes least s :=
  ⟨Nat.le_of_succ_le counted.1, counted.2⟩

theorem rounds_counted {maxNodes least : Nat} {x : WalkRun σ V α}
    (counts : Triple (Counted maxNodes least) x (fun _ => Counted maxNodes (least + 1))
      (Stopped maxNodes)) :
    Triple (Counted maxNodes least) x (fun _ => Counted maxNodes least) (Stopped maxNodes) :=
  counts.weaken (fun _ start => start) (fun _ _ ends => ends.earlier) fun _ _ ends => ends

theorem visit_counts (maxDepth maxNodes levels : Nat) (h : JSValue) (least : Nat) :
    Triple (Counted maxNodes least) (visit engine host maxDepth maxNodes levels h)
      (fun _ => Counted maxNodes (least + 1))
      (Stopped maxNodes) := by
  induction levels generalizing h least with
  | zero => exact Triple.throw _ fun _ start => .inl start.2
  | succ levels ih =>
    rw [visit_succ]
    have rules := counted_rules engine host maxNodes (least + 1)
    have visits := fun h => rounds_counted (ih h (least + 1))
    refine Triple.bind (countNode_counts maxNodes least) fun _ => ?_
    exact rules.body (fun h array count => rules.items visits h array count 0)
      (fun h object keys => rules.members visits h object keys) h

/-! ### The walk as the source writes it

`deeper` stands for a call of `visit` inside all the others, `more` for what a loop does after its rounds.
-/

section
variable (deeper : JSValue → Nat → WalkRun σ V Dumped) (more : WalkRun σ V Unit)

/-- `for (let index = 0; index < length; index++)` -/
def itemsWithin (visit : JSValue → WalkRun σ V Dumped) (h : JSValue) (array length : Nat) :
    Nat → Nat → WalkRun σ V Unit
  | 0, index => if index < length then more else pure ()
  | rounds + 1, index =>
    if index < length then do
      let entry ← onWorld (getIndex engine (getException engine host) h index)
      keep entry
      let item ← visit entry
      put (push array item) (.item array index) entry item
      itemsWithin visit h array length rounds (index + 1)
    else pure ()

/-- `visit(value, depth)`, with so many calls of it inside each other and so many rounds of a
loop. -/
def visitWithin (maxDepth maxNodes rounds : Nat) : Nat → JSValue → Nat → WalkRun σ V Dumped
  | 0, h, depth => deeper h depth
  | calls + 1, h, depth =>
    if maxDepth < depth then .throw (tooDeep maxDepth)
    else do
      countNode maxNodes
      let visit (entry : JSValue) := visitWithin maxDepth maxNodes rounds calls entry (depth + 1)
      visitBody engine host
        (fun h array length => itemsWithin engine host more visit h array length rounds 0)
        (visitMembers engine host visit) h

end

-- A round of a loop that has not reached its end.
theorem visitItems_lt (visit : JSValue → WalkRun σ V Dumped) (h : JSValue)
    {array length index : Nat} (below : index < length) :
    visitItems engine host visit h array (length - index) index = (do
      let entry ← onWorld (getIndex engine (getException engine host) h index)
      keep entry
      let item ← visit entry
      put (push array item) (.item array index) entry item
      visitItems engine host visit h array (length - (index + 1)) (index + 1)) := by
  have one : length - index = length - (index + 1) + 1 := by omega
  rw [one]
  rfl

section
variable {engine host} {maxNodes least : Nat}

theorem Counted.reads (x : Run σ V α) :
    Triple (Counted maxNodes least) (onWorld x) (fun _ => Counted maxNodes least) fun _ _ => True :=
  onWorld_frame x (fun _ _ start => start) fun _ _ _ => trivial

theorem Counted.change {f : Walk σ → Walk σ} (same : ∀ s, (f s).nodes = s.nodes) :
    Triple (Counted maxNodes least) (Effect.modify f : WalkRun σ V Unit)
      (fun _ => Counted maxNodes least) fun _ _ => True :=
  Triple.modify fun s start => by
    rw [Counted, same s]
    exact start

theorem counted_newHostObject (object : HostObject) :
    Triple (Counted maxNodes least) (newHostObject object : WalkRun σ V Nat)
      (fun _ => Counted maxNodes least) fun _ _ => True :=
  Triple.lift fun _ start => start

theorem agree_container (h : JSValue) (empty : HostObject) {fill other : Nat → WalkRun σ V Unit}
    (fills : ∀ object, Agree (Counted maxNodes least) (fill object) (other object))
    (counts : ∀ object, Triple (Counted maxNodes least) (fill object)
      (fun _ => Counted maxNodes least) fun _ _ => True) :
    Agree (Counted maxNodes least) (visitContainer h empty fill)
      (visitContainer h empty other) := by
  refine Agree.bind (Agree.refl _) (Counted.reads _) fun value => ?_
  refine Agree.bind (Agree.refl _) (Triple.get fun _ start => start) fun s => ?_
  dsimp only
  split
  · exact Agree.refl _
  · refine Agree.bind (Agree.refl _) (counted_newHostObject empty) fun object => ?_
    refine Agree.bind (Agree.refl _) (Counted.change fun _ => rfl) fun _ => ?_
    exact Agree.bind (fills object) (counts object) fun _ => Agree.refl _

theorem agree_body {items others : JSValue → Nat → Nat → WalkRun σ V Unit}
    {members otherMembers : JSValue → Nat → List Text → WalkRun σ V Unit}
    (agreeItems : ∀ h array count, Agree (Counted maxNodes least) (items h array count)
      (others h array count))
    (agreeMembers : ∀ h object keys, Agree (Counted maxNodes least) (members h object keys)
      (otherMembers h object keys))
    (countItems : ∀ h array count, Triple (Counted maxNodes least) (items h array count)
      (fun _ => Counted maxNodes least) fun _ _ => True)
    (countMembers : ∀ h object keys, Triple (Counted maxNodes least) (members h object keys)
      (fun _ => Counted maxNodes least) fun _ _ => True)
    (h : JSValue) :
    Agree (Counted maxNodes least) (visitBody engine host items members h)
      (visitBody engine host others otherMembers h) := by
  refine Agree.bind (Agree.refl _) (Counted.reads _) fun found => ?_
  cases found with
  | array =>
    refine agree_container h _ (fun array => ?_) fun array => ?_
    · refine Agree.bind (Agree.refl _) (Counted.reads _) fun length => ?_
      exact Agree.bind (Agree.refl _) (Counted.change fun _ => rfl) fun _ => agreeItems h array _
    · refine Triple.bind (Counted.reads _) fun length => ?_
      exact Triple.bind (Counted.change fun _ => rfl) fun _ => countItems h array _
  | object =>
    refine agree_container h _ (fun object => ?_) fun object => ?_
    · refine Agree.bind (Agree.refl _) (Counted.reads _) fun keys => ?_
      exact Agree.bind (Agree.refl _) (Counted.change fun _ => rfl) fun _ =>
        agreeMembers h object keys
    · refine Triple.bind (Counted.reads _) fun keys => ?_
      exact Triple.bind (Counted.change fun _ => rfl) fun _ => countMembers h object keys
  | _ => exact Agree.refl _

section
variable {visit other : JSValue → WalkRun σ V Dumped}
variable (agrees : ∀ h least, Agree (Counted maxNodes least) (visit h) (other h))
variable (counts : ∀ h least, Triple (Counted maxNodes least) (visit h)
    (fun _ => Counted maxNodes (least + 1)) fun _ _ => True)
include agrees counts

-- Every round counts a value, so the rounds do not run out before the values do.
theorem agree_items (more : WalkRun σ V Unit) (h : JSValue) (array length index : Nat)
    {rounds : Nat} (enough : maxNodes < rounds + least) :
    Agree (Counted maxNodes least) (visitItems engine host visit h array (length - index) index)
      (itemsWithin engine host more other h array length rounds index) := by
  induction rounds generalizing least index with
  | zero =>
    rintro s ⟨counted, most⟩
    omega
  | succ rounds ih =>
    unfold itemsWithin
    by_cases below : index < length
    · rw [if_pos below, visitItems_lt engine host visit h below]
      refine Agree.bind (Agree.refl _) (Counted.reads _) fun entry => ?_
      refine Agree.bind (Agree.refl _) (Counted.change fun _ => rfl) fun _ => ?_
      refine Agree.bind (agrees entry least) (counts entry least) fun item => ?_
      exact Agree.bind (Agree.refl _) (Counted.change fun _ => rfl) fun _ =>
        ih (index + 1) (by omega)
    · rw [if_neg below, Nat.sub_eq_zero_of_le (Nat.le_of_not_lt below)]
      exact Agree.refl _

theorem agree_members (h : JSValue) (object : Nat) (keys : List Text) :
    Agree (Counted maxNodes least) (visitMembers engine host visit h object keys)
      (visitMembers engine host other h object keys) := by
  refine Agree.forEach (fun key => ?_) (fun key => ?_) keys
  · refine Agree.bind (Agree.refl _) (Counted.reads _) fun entry => ?_
    refine Agree.bind (Agree.refl _) (Counted.change fun _ => rfl) fun _ => ?_
    exact Agree.bind (agrees entry least) (counts entry least) fun item => Agree.refl _
  · refine Triple.bind (Counted.reads _) fun entry =>
      Triple.bind (Counted.change fun _ => rfl) fun _ => ?_
    exact Triple.bind (counts entry least) fun item => Triple.modify fun _ start => start.earlier

end

-- The walk never calls itself deeper than below `maxDepth`, and no loop goes on after its rounds.
theorem agree_visit (deeper : JSValue → Nat → WalkRun σ V Dumped) (more : WalkRun σ V Unit)
    {maxDepth rounds : Nat} (enough : maxNodes < rounds) {calls depth : Nat}
    (shallow : depth ≤ maxDepth + 1) (deep : maxDepth + 1 < calls + depth) (h : JSValue)
    (least : Nat) :
    Agree (Counted maxNodes least) (visit engine host maxDepth maxNodes (maxDepth + 1 - depth) h)
      (visitWithin engine host deeper more maxDepth maxNodes rounds calls h depth) := by
  induction calls generalizing depth h least with
  | zero => omega
  | succ calls ih =>
    unfold visitWithin
    by_cases below : maxDepth < depth
    · rw [if_pos below, Nat.sub_eq_zero_of_le below]
      exact Agree.refl _
    · have one : maxDepth + 1 - depth = maxDepth + 1 - (depth + 1) + 1 := by omega
      rw [if_neg below, one, visit_succ]
      have agrees :=
        fun entry least => ih (by omega : depth + 1 ≤ maxDepth + 1) (by omega) entry least
      have counts := fun entry least =>
        (visit_counts engine host maxDepth maxNodes (maxDepth + 1 - (depth + 1)) entry least).weaken
        (fun _ start => start) (fun _ _ ends => ends) fun _ _ _ => trivial
      refine Agree.bind (Agree.refl _)
        ((countNode_counts maxNodes least).weaken (fun _ start => start) (fun _ _ ends => ends)
        fun _ _ _ => trivial) fun _ => ?_
      have rules := counted_rules engine host maxNodes (least + 1)
      have visits := fun entry =>
        rounds_counted
          (visit_counts engine host maxDepth maxNodes (maxDepth + 1 - (depth + 1)) entry
            (least + 1))
      refine agree_body (fun h array count => ?_)
        (fun h object keys => agree_members agrees counts h object keys)
        (fun h array count => ?_) (fun h object keys => ?_) h
      · have rounds : maxNodes < rounds + (least + 1) := by omega
        exact agree_items agrees counts more h array count 0 rounds
      · exact (rules.items visits h array count 0).weaken (fun _ start => start)
          (fun _ _ ends => ends) fun _ _ _ => trivial
      · exact (rules.members visits h object keys).weaken (fun _ start => start)
          (fun _ _ ends => ends) fun _ _ _ => trivial

end

end QuickJSBun.Context
