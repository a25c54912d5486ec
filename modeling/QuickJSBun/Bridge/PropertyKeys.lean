import QuickJSBun.Bridge.Texts
import QuickJSBun.Context.World
import QuickJSBun.Engine.PropertyAtoms
import QuickJSBun.Library.Machine

/-! Property keys of the host: `JSContext.atom` with its cache, `newAtom`, `newAtomUInt32`
and the handles of atoms, over the atom table of the engine, of which the guest and other
contexts hold references as well.

While they are held, two atoms are the same number exactly when their keys are the same
text, whether a key came as a number, as UTF-8, as a JSON text or as a `uint32`.
-/

set_option autoImplicit false

namespace QuickJSBun.Bridge.PropertyKeys

open Library Engine.Strings Engine.Atoms Texts

/-- A handle of an atom; `key` is the text that it was made from, which no code reads. -/
structure JSAtom where
  value : Nat
  owned : Bool
  disposed : Bool
  key : Text

/-- A runtime and one of its contexts; `others` are the references held by anybody else. -/
structure World where
  rt : JSRuntime
  hostDepth : Nat
  cache : List (Text × Nat)
  atoms : List JSAtom
  others : List Nat

inductive KeyFailure where
  | text (failure : TextFailure)
  /-- `assert` -/
  | assertion

abbrev Keyed := Effect World KeyFailure

def engine {α : Type} (x : Running α) : Keyed α := ⟨fun w =>
  match x.run w.rt with
  | (.ok a, rt) => (.ok a, { w with rt })
  | (.error _, rt) => (.error (.text .undefined), { w with rt })⟩

def hosted {α : Type} (x : Hosted α) : Keyed α := ⟨fun w =>
  match x.run w.rt.calls with
  | (.ok a, calls) => (.ok a, { w with rt := { w.rt with calls } })
  | (.error e, calls) => (.error (.text e), { w with rt := { w.rt with calls } })⟩

/-- `String(key)`; how other doubles are printed is left to the host. -/
def numberText (printed : UInt64 → Text) : Context.Number → Text
  | .int value => decimal value.toInt
  | .double bits => if (Context.Number.double bits).isNegativeZero then digits 0 else printed bits

/-- `Number.isInteger(key) && key >= 0 && key <= QuickJSAtom.MAX_INT` -/
def indexOf : Context.Number → Option Nat
  | .int value => if 0 ≤ value.toInt then some value.toInt.toNat else none
  | .double bits => if (Context.Number.double bits).isNegativeZero then some 0 else none

section
variable (memory : Memory) (host : Host)

/-- A result that is `QuickJSAtom.NULL` throws. -/
def nonNull (atom : Nat) : Keyed Nat :=
  if atom = 0 then Effect.throw (.text .exception) else pure atom

def newAtom (value : Text) : Keyed Nat :=
  if !isWellFormed value then do
    let text ← hosted (newString memory host value)
    let atom ← engine (jsValueToAtom memory text)
    nonNull atom
  else do
    let text ← hosted (encoder host value)
    let atom ← engine (jsNewAtomLen memory text)
    nonNull atom

def newAtomUInt32 (value : Nat) : Keyed Nat := do
  let atom ← engine (jsNewAtomUInt32 memory value)
  nonNull atom

def flush : Keyed Unit := do
  let w ← Effect.get
  if 4096 ≤ w.cache.length && w.hostDepth == 0 then do
    engine (Effect.forEach jsFreeAtom (w.cache.map Prod.snd))
    Effect.modify fun w => { w with cache := [] }
  else pure ()

def makeAtom (key : Text) : Keyed Nat := do
  let text ← hosted (encoder host key)
  if isWellFormed key then do
    let atom ← engine (jsNewAtomLen memory text)
    nonNull atom
  else newAtom memory host key

def atomText (key : Text) : Keyed Nat := do
  let w ← Effect.get
  match w.cache.find? fun entry => entry.1 == key with
  | some entry => pure entry.2
  | none => do
    flush
    let atom ← makeAtom memory host key
    Effect.modify fun w => { w with cache := w.cache ++ [(key, atom)] }
    pure atom

def atomNumber (printed : UInt64 → Text) (key : Context.Number) : Keyed Nat :=
  match indexOf key with
  | some n => pure (atomFromUInt32 n)
  | none => atomText memory host (numberText printed key)

def toString (atom : JSAtom) : Keyed Text :=
  if atomIsTaggedInt atom.value then pure (digits (atomToUInt32 atom.value))
  else do
    match ← engine (jsAtomToCStringLen memory atom.value) with
    | none => Effect.throw .assertion
    | some cstr =>
      if cstr.len = 0 then pure []
      else match Keys.utf8 ((Buffer.unknown cstr.len).memcpy 0 (cstr.bytes.take cstr.len)) 0 cstr.len with
        | .ok read => pure read
        | .error failure => Effect.throw (.text (.utf8 failure))

def dup (atom : JSAtom) : Keyed JSAtom :=
  if atomIsTaggedInt atom.value then pure { atom with owned := false }
  else do
    let value ← engine (jsDupAtom atom.value)
    pure { atom with value, owned := true }

end

/-! ### Runs -/

inductive Event where
  | atomText (key : Text)
  | atomNumber (key : Context.Number)
  | newAtom (value : Text)
  | newAtomUInt32 (value : Nat)
  | toString (handle : Nat)
  | dup (handle : Nat)
  | dispose (handle : Nat)
  /-- Host code is called by the engine, and returns. -/
  | enter
  | leave
  /-- The guest or another context takes a reference of an atom that is there, gives one back, or makes an atom. -/
  | take (atom : Nat)
  | drop (atom : Nat)
  | makeString (str : JSString)
  | makeSymbol (str : JSString) (isGlobal : Bool)

/-- A call and what is recorded of it; one that does what C leaves undefined has no result. -/
def perform {α : Type} (x : Keyed α) (record : α → World → World) (w : World) : Option World :=
  match x.run w with
  | (.ok a, w) => some (record a w)
  | (.error (.text .undefined), _) => none
  | (.error _, w) => some w

def World.push (w : World) (atom : JSAtom) : World := { w with atoms := w.atoms ++ [atom] }

-- Somebody else has got a reference, if there is an atom.
def World.lend (w : World) (atom : Nat) : World :=
  if atom = 0 then w else { w with others := atom :: w.others }

section
variable (memory : Memory) (host : Host) (printed : UInt64 → Text)

-- Texts longer than the strings of the engine are left out.
def step (w : World) : Event → Option World
  | .atomText key =>
    if (key.length : Int) ≤ lenMax then perform (atomText memory host key) (fun _ w => w) w
    else none
  | .atomNumber key =>
    if ((numberText printed key).length : Int) ≤ lenMax then
      perform (atomNumber memory host printed key) (fun _ w => w) w
    else none
  | .newAtom value =>
    if (value.length : Int) ≤ lenMax then
      perform (newAtom memory host value) (fun atom w => w.push ⟨atom, true, false, value⟩) w
    else none
  | .newAtomUInt32 value =>
    if value < 2 ^ 32 then
      perform (newAtomUInt32 memory value) (fun atom w => w.push ⟨atom, true, false, digits value⟩) w
    else some w
  | .toString handle =>
    match w.atoms[handle]? with
    | some atom => if atom.disposed then some w else perform (toString memory atom) (fun _ w => w) w
    | none => none
  | .dup handle =>
    match w.atoms[handle]? with
    | some atom =>
      if atom.disposed then some w else perform (dup atom) (fun atom w => w.push atom) w
    | none => none
  | .dispose handle =>
    match w.atoms[handle]? with
    | some atom =>
      if !atom.owned || atom.disposed then some w
      else
        perform (engine (if atomIsTaggedInt atom.value then pure () else jsFreeAtom atom.value))
          (fun _ w => { w with atoms := w.atoms.set handle { atom with disposed := true } }) w
    | none => none
  | .enter => some { w with hostDepth := w.hostDepth + 1 }
  | .leave => some { w with hostDepth := w.hostDepth - 1 }
  | .take atom =>
    if atomIsConst atom || (w.rt.table.value atom).isSome then
      perform (engine (jsDupAtom atom)) (fun atom w => w.lend atom) w
    else none
  | .drop atom =>
    if atom ∈ w.others then
      perform (engine (jsFreeAtom atom)) (fun _ w => { w with others := w.others.erase atom }) w
    else none
  | .makeString str =>
    if str.len ≤ lenMax then
      perform (engine (jsNewAtomStr memory str)) (fun atom w => w.lend atom) w
    else none
  | .makeSymbol str isGlobal =>
    if str.len ≤ lenMax then
      perform
        (engine (Engine.Atoms.newAtom memory str (if isGlobal then .globalSymbol else .symbol)))
        (fun atom w => w.lend atom) w
    else none

/-- From the runtime that `JS_InitAtoms` has made. -/
def machine (rt : JSRuntime) : Machine World Event where
  init := ⟨rt, 0, [], [], []⟩
  step := step memory host printed

end

/-! ### What is held -/

namespace World
variable (w : World)

def live : List Nat := (w.atoms.filter fun atom => atom.owned && !atom.disposed).map JSAtom.value

def held : List Nat := w.cache.map Prod.snd ++ (w.live ++ w.others)

/-- The atoms that the host has of a key: those with a tag, cached ones, and those of handles. -/
def Names (a : Nat) (key : Text) : Prop :=
  (∃ n < atomTagInt, a = n + atomTagInt ∧ key = digits n) ∨ (key, a) ∈ w.cache ∨
    ∃ atom ∈ w.atoms, atom.disposed = false ∧ atom.value = a ∧ atom.key = key

structure Good : Prop where
  valid : w.rt.Valid
  initial : w.rt.Initial
  counts : w.rt.Counts w.held
  cached : ∀ key a, (key, a) ∈ w.cache → w.rt.Denotes a key
  made : ∀ atom ∈ w.atoms, atom.disposed = false → w.rt.Denotes atom.value atom.key
  borrowed : ∀ atom ∈ w.atoms, atom.owned = false → ∃ n < atomTagInt, atom.value = n + atomTagInt

-- There is room for the atom of a key.
def Room (memory : Memory) (host : Host) (key : Text) : Prop :=
  memory.Ample ∧ ¬w.rt.Crowded ∧ (encode key).length ≤ host.buffers ∧ host.Admits key ∧ Readable key

end World

variable {w w' : World} {rt : JSRuntime} {memory : Memory} {host : Host} {key : Text} {a : Nat}

theorem World.Good.names (good : w.Good) (names : w.Names a key) : w.rt.Denotes a key := by
  rcases names with tagged | cached | ⟨atom, member, undisposed, rfl, rfl⟩
  · exact .inl tagged
  · exact good.cached key a cached
  · exact good.made atom member undisposed

theorem World.Good.idle (good : w.Good) (idle : Idle w.rt rt) : World.Good { w with rt } where
  valid := idle.valid
  initial := good.initial.kept fun j p stored _ => idle.kept j p stored
  counts := idle.counts good.counts
  cached key a member := (good.cached key a member).kept idle.kept
  made atom member undisposed := (good.made atom member undisposed).kept idle.kept
  borrowed := good.borrowed

theorem World.Good.cache (good : w.Good) (gains : Gains w.rt a rt) (denotes : rt.Denotes a key) :
    World.Good { w with rt, cache := w.cache ++ [(key, a)] } where
  valid := gains.valid
  initial := good.initial.kept fun j p stored _ => gains.kept j p stored
  counts := by
    refine (gains.counts _ good.counts).perm ?_
    show (a :: (w.cache.map Prod.snd ++ _)).Perm
        ((w.cache ++ [(key, a)]).map Prod.snd ++ (w.live ++ w.others))
    rw [List.map_append, List.append_assoc]
    exact List.perm_middle.symm
  cached other b member := by
    rcases List.mem_append.mp member with before | new
    · exact (good.cached other b before).kept gains.kept
    · obtain ⟨rfl, rfl⟩ := Prod.mk.inj (List.mem_singleton.mp new)
      exact denotes
  made atom member undisposed := (good.made atom member undisposed).kept gains.kept
  borrowed := good.borrowed

theorem World.Good.push (good : w.Good) (gains : Gains w.rt a rt) (denotes : rt.Denotes a key) :
    (World.push { w with rt } ⟨a, true, false, key⟩).Good where
  valid := gains.valid
  initial := good.initial.kept fun j p stored _ => gains.kept j p stored
  counts := by
    refine (gains.counts _ good.counts).perm ?_
    have live : (World.push { w with rt } ⟨a, true, false, key⟩).live = w.live ++ [a] := by
      simp [World.live, World.push]
    show (a :: (w.cache.map Prod.snd ++ (w.live ++ w.others))).Perm
      (w.cache.map Prod.snd ++ ((World.push { w with rt } ⟨a, true, false, key⟩).live ++ w.others))
    rw [live, List.append_assoc, ← List.append_assoc, ← List.append_assoc]
    exact List.perm_middle.symm
  cached other b member := (good.cached other b member).kept gains.kept
  made atom member undisposed := by
    rcases List.mem_append.mp member with before | new
    · exact (good.made atom before undisposed).kept gains.kept
    · obtain rfl := List.mem_singleton.mp new
      exact denotes
  borrowed atom member unowned := by
    rcases List.mem_append.mp member with before | new
    · exact good.borrowed atom before unowned
    · obtain rfl := List.mem_singleton.mp new
      cases unowned

-- One more reference, of somebody else, if there is an atom.
theorem World.Good.lend (good : w.Good) (gains : Gains w.rt a rt) :
    (World.lend { w with rt } a).Good := by
  have initial : rt.Initial := good.initial.kept fun j p stored _ => gains.kept j p stored
  have counts := gains.counts _ good.counts
  have cached : ∀ key b, (key, b) ∈ w.cache → rt.Denotes b key := fun key b member =>
    (good.cached key b member).kept gains.kept
  have made : ∀ atom ∈ w.atoms, atom.disposed = false → rt.Denotes atom.value atom.key :=
    fun atom member undisposed =>
    (good.made atom member undisposed).kept gains.kept
  unfold World.lend
  split
  · next none =>
    refine ⟨gains.valid, initial, fun i counted => ?_, cached, made, good.borrowed⟩
    have here := counts i counted
    rwa [List.count_cons_of_ne (none.symm ▸ (ne_zero_of_const counted).symm)] at here
  · refine ⟨gains.valid, initial, counts.perm ?_, cached, made, good.borrowed⟩
    show (a :: (w.cache.map Prod.snd ++ (w.live ++ w.others))).Perm
        (w.cache.map Prod.snd ++ (w.live ++ a :: w.others))
    rw [← List.append_assoc, ← List.append_assoc]
    exact List.perm_middle.symm

-- What is held is kept when other references are given back.
theorem denotes_kept {refs : List Nat} (denotes : w.rt.Denotes a key) (held : a ∈ refs)
    (kept : ∀ j p, w.rt.table.value j = some p → atomIsConst j = true ∨ j ∈ refs →
      ∃ q, rt.table.value j = some q ∧ q.str = p.str ∧ q.atomType = p.atomType) :
    rt.Denotes a key := by
  rcases denotes with tagged | ⟨plain, some, p, stored, isString, rfl⟩
  · exact .inl tagged
  · obtain ⟨q, stored', str, sameType⟩ := kept a p stored (.inr held)
    exact .inr ⟨plain, some, q, stored', sameType.trans isString, by rw [str]⟩

-- References are given back; the others are still those that are held.
theorem World.Good.give (good : w.Good) (valid : w'.rt.Valid) (counts : w'.rt.Counts w'.held)
    (kept : ∀ j p, w.rt.table.value j = some p → atomIsConst j = true ∨ j ∈ w'.held →
      ∃ q, w'.rt.table.value j = some q ∧ q.str = p.str ∧ q.atomType = p.atomType)
    (cached : ∀ entry ∈ w'.cache, entry ∈ w.cache)
    (made : ∀ atom ∈ w'.atoms, atom.disposed = false → atom ∈ w.atoms)
    (borrowed : ∀ atom ∈ w'.atoms, atom.owned = false →
      ∃ n < atomTagInt, atom.value = n + atomTagInt) :
    w'.Good where
  valid := valid
  initial := good.initial.kept fun j p stored const => kept j p stored (.inl const)
  counts := counts
  cached key a member := by
    refine denotes_kept (good.cached key a (cached _ member)) ?_ kept
    exact List.mem_append_left _ (List.mem_map.mpr ⟨_, member, rfl⟩)
  made atom member undisposed := by
    have before := good.made atom (made atom member undisposed) undisposed
    cases owned : atom.owned with
    | true =>
      refine denotes_kept before ?_ kept
      refine List.mem_append_right _
        (List.mem_append_left _ (List.mem_map.mpr ⟨atom, List.mem_filter.mpr ⟨member, ?_⟩, rfl⟩))
      rw [owned, undisposed]
      rfl
    | false =>
      obtain ⟨n, small, tagged⟩ := borrowed atom member owned
      rcases before with index | ⟨-, -, p, stored, -⟩
      · exact .inl index
      · have := good.valid.untagged stored
        omega
  borrowed := borrowed

/-! ### Calls -/

section
variable {α : Type}

theorem engine_ends {x : Running α} {post : α → JSRuntime → Prop}
    {fails : StringFailure → JSRuntime → Prop} (ends : Effect.Triple (· = w.rt) x post fails) :
    Effect.Triple (· = w) (engine x) (fun a w' => ∃ rt, w' = { w with rt } ∧ post a rt)
      fun e _ => e = .text .undefined ∧ ∃ failure rt, fails failure rt := by
  rintro w rfl
  have ended := ends w.rt rfl
  unfold engine
  split at ended
  · next a rt runs =>
      simp only [runs]
      exact ⟨rt, rfl, ended⟩
  · next failure rt runs =>
      simp only [runs]
      exact ⟨trivial, failure, rt, ended⟩

theorem hosted_ends {x : Hosted α} {post : α → Prop} {fails : TextFailure → Prop}
    (ends : Effect.Triple (fun _ => True) x (fun a _ => post a) fun e _ => fails e) :
    Effect.Triple (· = w) (hosted x)
      (fun a w' => (∃ calls, w' = { w with rt := { w.rt with calls } }) ∧ post a)
      fun e w' => (∃ calls, w' = { w with rt := { w.rt with calls } }) ∧
      ∃ failure, e = .text failure ∧ fails failure := by
  rintro w rfl
  have ended := ends w.rt.calls trivial
  unfold hosted
  split at ended
  · next a calls runs =>
      simp only [runs]
      exact ⟨⟨calls, rfl⟩, ended⟩
  · next failure calls runs =>
      simp only [runs]
      exact ⟨⟨calls, rfl⟩, failure, rfl, ended⟩

end

-- There is one more reference of the atom of a key.
def Made (w : World) (key : Text) (a : Nat) (w' : World) : Prop :=
  ∃ rt, w' = { w with rt } ∧ a ≠ 0 ∧ Gains w.rt a rt ∧ rt.Denotes a key

/-- There is no room for an atom; nothing has changed, if C defines what happens. -/
def Refused (memory : Memory) (host : Host) (w : World) (key : Text) (e : KeyFailure) (w' : World) :
    Prop :=
  ¬w.Room memory host key ∧ (e ≠ .text .undefined → ∃ rt, w' = { w with rt } ∧ Idle w.rt rt)

theorem not_room_of_starved (starved : w.rt.Starved memory) : ¬w.Room memory host key := by
  rintro ⟨ample, enough, -⟩
  exact starved.elim (fun poor => poor ample) enough

theorem nonNull_ends {w₀ : World}
    (named : Named memory w₀.rt key a rt ∨ (a = 0 ∧ Idle w₀.rt rt ∧ ¬Readable key)) :
    Effect.Triple (· = { w₀ with rt }) (nonNull a) (Made w₀ key) (Refused memory host w₀ key) := by
  unfold nonNull
  rcases named with (⟨rfl, idle, starved⟩ | ⟨some, gains, denotes⟩) | ⟨rfl, idle, unreadable⟩
  · rw [if_pos rfl]
    refine Effect.Triple.throw _ ?_
    rintro _ rfl
    exact ⟨not_room_of_starved starved, fun _ => ⟨rt, rfl, idle⟩⟩
  · rw [if_neg some]
    refine Effect.Triple.pure _ ?_
    rintro _ rfl
    exact ⟨rt, rfl, some, gains, denotes⟩
  · rw [if_pos rfl]
    refine Effect.Triple.throw _ ?_
    rintro _ rfl
    exact ⟨fun room => unreadable room.2.2.2.2, fun _ => ⟨rt, rfl, idle⟩⟩

theorem engine_makes (calls : Nat) {x : Running Nat} (valid : w.rt.Valid)
    (ends : Effect.Triple (· = { w.rt with calls }) x (Asked memory { w.rt with calls } key)
      fun e _ => e = .undefined ∧ (w.rt.Crowded ∨ ¬Readable key)) :
    Effect.Triple (· = { w with rt := { w.rt with calls } }) (engine x >>= nonNull) (Made w key)
      (Refused memory host w key) := by
  have ended : Effect.Triple (· = { w with rt := { w.rt with calls } }) (engine x) _ _ :=
    engine_ends ends
  refine Effect.Triple.bind (ended.weaken (fun _ start => start) (fun _ _ ends => ends) ?_) fun a =>
    Effect.Triple.each ?_
  · rintro e w' ⟨rfl, -, -, -, cause⟩
    refine ⟨fun room => ?_, fun defined => absurd rfl defined⟩
    rcases cause with crowded | unreadable
    · exact not_room_of_starved (.inr crowded) room
    · exact unreadable room.2.2.2.2
  · rintro _ ⟨rt, rfl, asked⟩
    have same : Idle w.rt { w.rt with calls } := .of_table valid rfl
    have ends : Effect.Triple (· = { w with rt }) (nonNull a) (Made w key)
        (Refused memory host w key) := by
      refine nonNull_ends ?_
      rcases asked with named | ⟨none, idle, unreadable⟩
      · exact .inl (named.of_calls valid)
      · exact .inr ⟨none, same.trans idle, unreadable⟩
    exact ends

-- What hands texts over leaves the table as it is.
theorem hosted_refused {α : Type} {x : Hosted α} {post : α → Prop} {fails : TextFailure → Prop}
    (valid : w.rt.Valid)
    (ends : Effect.Triple (fun _ => True) x (fun a _ => post a) fun e _ => fails e)
    (cause : ∀ e, fails e → ¬w.Room memory host key) :
    Effect.Triple (· = w) (hosted x)
      (fun a w' => (∃ calls, w' = { w with rt := { w.rt with calls } }) ∧ post a)
      (Refused memory host w key) := by
  refine (hosted_ends ends).weaken (fun _ start => start) (fun _ _ ended => ended) ?_
  rintro _ _ ⟨⟨calls, rfl⟩, failure, rfl, failed⟩
  exact ⟨cause failure failed, fun _ => ⟨_, rfl, .of_table valid rfl⟩⟩

theorem not_room_of_wants {e : TextFailure} (wants : Wants memory (host.Admits key) e) :
    ¬w.Room memory host key := by
  rintro ⟨ample, -, -, admits, -⟩
  rcases wants with ⟨-, poor⟩ | ⟨-, small⟩
  · exact poor ample
  · exact small admits

theorem newAtom_makes (valid : w.rt.Valid) (short : (key.length : Int) ≤ lenMax) :
    Effect.Triple (· = w) (newAtom memory host key) (Made w key) (Refused memory host w key) := by
  unfold newAtom
  cases wellFormed : isWellFormed key with
  | false =>
    rw [Bool.not_false, if_pos rfl]
    have hands : Effect.Triple (fun _ => True) (newString memory host key) _ _ :=
      newString_ends short fun formed _ => absurd (wellFormed.symm.trans formed) (by decide)
    refine Effect.Triple.bind (hosted_refused valid hands fun _ => not_room_of_wants) fun val =>
      Effect.Triple.each ?_
    rintro _ ⟨⟨calls, rfl⟩, sound, rfl, -⟩
    have valid' : JSRuntime.Valid { w.rt with calls } := valid.of_table rfl
    refine engine_makes calls valid
      ((jsValueToAtom_names valid' sound).weaken (fun _ start => start)
      (fun _ _ named => .inl named) fun _ _ ⟨same, crowded⟩ => ⟨same, .inl crowded⟩)
  | true =>
    rw [Bool.not_true, if_neg Bool.false_ne_true]
    refine Effect.Triple.bind (hosted_refused valid (encoder_ends key) fun _ small room => ?_)
      fun bytes => Effect.Triple.each ?_
    · exact Nat.not_lt.mpr room.2.2.1 small.2
    rintro _ ⟨⟨calls, rfl⟩, rfl⟩
    rw [encode_wellFormed wellFormed]
    have valid' : JSRuntime.Valid { w.rt with calls } := valid.of_table rfl
    exact engine_makes calls valid (jsNewAtomLen_names valid' short)

theorem newAtomUInt32_makes (valid : w.rt.Valid) {value : Nat} (small : value < 2 ^ 32) :
    Effect.Triple (· = w) (newAtomUInt32 memory value) (Made w (digits value))
      (Refused memory host w (digits value)) :=
  engine_makes w.rt.calls valid ((jsNewAtomUInt32_names valid small).weaken (fun _ start => start)
    (fun _ _ named => .inl named) fun _ _ ⟨same, crowded⟩ => ⟨same, .inl crowded⟩)

theorem Made.of_calls {calls : Nat} (valid : w.rt.Valid)
    (made : Made { w with rt := { w.rt with calls } } key a w') : Made w key a w' := by
  have same : Idle w.rt { w.rt with calls } := .of_table valid rfl
  obtain ⟨rt, rfl, some, gains, denotes⟩ := made
  exact ⟨rt, rfl, some, same.gains gains, denotes⟩

theorem Refused.of_calls {calls : Nat} {e : KeyFailure} (valid : w.rt.Valid)
    (refused : Refused memory host { w with rt := { w.rt with calls } } key e w') :
    Refused memory host w key e w' := by
  have same : Idle w.rt { w.rt with calls } := .of_table valid rfl
  refine ⟨refused.1, fun defined => ?_⟩
  obtain ⟨rt, rfl, idle⟩ := refused.2 defined
  exact ⟨rt, rfl, same.trans idle⟩

theorem makeAtom_makes (valid : w.rt.Valid) (short : (key.length : Int) ≤ lenMax) :
    Effect.Triple (· = w) (makeAtom memory host key) (Made w key) (Refused memory host w key) := by
  unfold makeAtom
  refine Effect.Triple.bind (hosted_refused valid (encoder_ends key) fun _ small room => ?_)
    fun bytes => Effect.Triple.each ?_
  · exact Nat.not_lt.mpr room.2.2.1 small.2
  rintro _ ⟨⟨calls, rfl⟩, rfl⟩
  have valid' : JSRuntime.Valid { w.rt with calls } := valid.of_table rfl
  cases wellFormed : isWellFormed key with
  | true =>
    rw [if_pos rfl, encode_wellFormed wellFormed]
    exact engine_makes calls valid (jsNewAtomLen_names valid' short)
  | false =>
    rw [if_neg Bool.false_ne_true]
    have makes : Effect.Triple (· = { w with rt := { w.rt with calls } })
        (newAtom memory host key) _ _ :=
      newAtom_makes valid' short
    exact makes.weaken (fun _ start => start) (fun _ _ made => made.of_calls valid)
      fun _ _ refused => refused.of_calls valid

/-- What a call leaves of the handles, of the references that others hold, and of the room for
atoms. -/
structure Aside (w w' : World) : Prop where
  good : w'.Good
  atoms : w'.atoms = w.atoms
  others : w'.others = w.others

theorem flush_ends (good : w.Good) :
    Effect.Triple (· = w) flush
      (fun _ w' => Aside w w' ∧ (w'.rt.Crowded → w.rt.Crowded))
      fun _ _ => False := by
  unfold flush
  refine Effect.Triple.get_bind ?_
  by_cases full : (4096 ≤ w.cache.length && w.hostDepth == 0) = true
  · rw [if_pos full]
    refine Effect.Triple.bind
      (Q := fun _ w' => ∃ rt, w' = { w with rt } ∧ KeptFor (w.live ++ w.others) w.rt rt) ?_ fun _ =>
      Effect.Triple.each ?_
    · exact (engine_ends (freeAll_ends good.valid good.counts)).weaken (fun _ start => start)
        (fun _ _ ends => ends)
        fun _ _ ends => ends.2.elim fun _ never => never.elim fun _ never => never
    rintro _ ⟨rt, rfl, ends⟩
    refine Effect.Triple.modify ?_
    rintro _ rfl
    refine ⟨⟨?_, rfl, rfl⟩, ends.crowded⟩
    exact good.give ends.valid ends.counts ends.kept (fun _ none => absurd none List.not_mem_nil)
      (fun _ member _ => member)
      good.borrowed
  · rw [if_neg full]
    refine Effect.Triple.pure () ?_
    rintro _ rfl
    exact ⟨⟨good, rfl, rfl⟩, id⟩

/-- A call for a key was refused: there was no room, or C leaves undefined what happens. -/
def Fails (memory : Memory) (host : Host) (w : World) (key : Text) (e : KeyFailure) (w' : World) :
    Prop :=
  ¬w.Room memory host key ∧ (e ≠ .text .undefined → Aside w w')

theorem atomText_ends (good : w.Good) (short : (key.length : Int) ≤ lenMax) :
    Effect.Triple (· = w) (atomText memory host key) (fun a w' => Aside w w' ∧ (key, a) ∈ w'.cache)
      (Fails memory host w key) := by
  unfold atomText
  refine Effect.Triple.get_bind ?_
  cases found : w.cache.find? fun entry => entry.1 == key with
  | some entry =>
    have isIt : entry.1 = key := by simpa using List.find?_some found
    refine Effect.Triple.pure _ ?_
    rintro _ rfl
    refine ⟨⟨good, rfl, rfl⟩, ?_⟩
    rw [← isIt]
    exact List.mem_of_find?_eq_some found
  | none =>
    refine Effect.Triple.bind (flush_ends good).throwless fun _ =>
      Effect.Triple.each fun w₁ flushed => ?_
    obtain ⟨aside, crowded⟩ := flushed
    have room : w.Room memory host key → w₁.Room memory host key := by
      rintro ⟨ample, enough, others⟩
      exact ⟨ample, fun full => enough (crowded full), others⟩
    refine Effect.Triple.bind
      ((makeAtom_makes aside.good.valid short).weaken (fun _ start => start)
        (fun _ _ made => made) ?_)
      fun a => Effect.Triple.each ?_
    · rintro e w' ⟨full, unchanged⟩
      refine ⟨fun enough => full (room enough), fun defined => ?_⟩
      obtain ⟨rt, rfl, idle⟩ := unchanged defined
      exact ⟨aside.good.idle idle, aside.atoms, aside.others⟩
    · rintro _ ⟨rt, rfl, -, gains, denotes⟩
      refine Effect.Triple.modify_bind (Effect.Triple.pure _ ?_)
      rintro _ rfl
      exact ⟨⟨aside.good.cache gains denotes, aside.atoms, aside.others⟩,
        List.mem_append_right _ List.mem_cons_self⟩

-- A number has the atom of its text, except those that the host gives their tag itself.
theorem atomNumber_ends {printed : UInt64 → Text} {key : Context.Number} (good : w.Good)
    (short : ((numberText printed key).length : Int) ≤ lenMax) :
    Effect.Triple (· = w) (atomNumber memory host printed key)
      (fun a w' => Aside w w' ∧ w'.Names a (numberText printed key))
      (Fails memory host w (numberText printed key)) := by
  unfold atomNumber
  cases index : indexOf key with
  | none =>
    exact (atomText_ends good short).weaken (fun _ start => start)
      (fun _ _ ⟨aside, cached⟩ => ⟨aside, .inr (.inl cached)⟩)
      fun _ _ fails => fails
  | some n =>
    obtain ⟨small, written⟩ : n < atomTagInt ∧ numberText printed key = digits n := by
      cases key with
      | int value =>
        rw [indexOf] at index
        split at index
        · next positive =>
          obtain rfl := Option.some.inj index
          have bounded := value.toInt_lt
          unfold atomTagInt
          refine ⟨by omega, ?_⟩
          rw [numberText, ← Int.toNat_of_nonneg positive]
          rfl
        · cases index
      | double bits =>
        rw [indexOf] at index
        split at index
        · next negative =>
          obtain rfl := Option.some.inj index
          rw [numberText, if_pos negative]
          exact ⟨by decide, rfl⟩
        · cases index
    dsimp only
    rw [atomFromUInt32_eq small]
    refine Effect.Triple.pure _ ?_
    rintro _ rfl
    exact ⟨⟨good, rfl, rfl⟩, .inl ⟨n, small, rfl, written⟩⟩

/-! ### The text of an atom -/

theorem nil_of_encodeAll {text : Text} (empty : encodeAll text = []) : text = [] := by
  rw [← flatMap_fromCodePoint text]
  cases points : codePoints text with
  | nil => rfl
  | cons c rest =>
    rw [encodeAll, points, List.flatMap_cons] at empty
    exact absurd (List.append_eq_nil_iff.mp empty).1 (encodePoint_ne_nil c)

-- Only the allocator has been called.
def Called (w w' : World) : Prop := ∃ calls, w' = { w with rt := { w.rt with calls } }

theorem Called.good (called : Called w w') (good : w.Good) : w'.Good := by
  obtain ⟨calls, rfl⟩ := called
  exact good.idle (.of_table good.valid rfl)

-- The bytes of a text are read as it.
theorem utf8_copied {text : Text} {c : CString} (bytes : c.bytes = encodeAll text)
    (len : c.len = (encodeAll text).length) :
    Keys.utf8 ((Buffer.unknown c.len).memcpy 0 (c.bytes.take c.len)) 0 c.len = .ok text := by
  have whole : c.bytes.take c.len = encodeAll text := by rw [bytes, len, List.take_length]
  have room : 0 + (encodeAll text).length ≤ (Buffer.unknown c.len).length := by
    rw [Buffer.length_unknown, len, Nat.zero_add]
  have decoded := Keys.utf8_holds (Buffer.holds_memcpy room)
  rw [Nat.zero_add, ← len] at decoded
  rw [whole, decoded]

theorem toString_ends {atom : JSAtom} {text : Text} (valid : w.rt.Valid) (denotes : w.rt.Denotes atom.value text) :
    Effect.Triple (· = w) (toString memory atom) (fun read w' => read = text ∧ Called w w')
      fun e w' => (¬memory.Ample ∨ 0x80000000 ≤ 3 * text.length) ∧ (e ≠ .text .undefined → Called w w') := by
  unfold toString
  have reads : Effect.Triple (· = w) (engine (jsAtomToCStringLen memory atom.value)) _ _ :=
    engine_ends (jsAtomToCStringLen_reads valid denotes)
  rcases denotes with ⟨n, small, value, rfl⟩ | ⟨-, -, p, stored, -, -⟩
  · rw [value, isTagged_tagged small, if_pos rfl, atomToUInt32_tagged small]
    refine Effect.Triple.pure _ ?_
    rintro _ rfl
    exact ⟨rfl, _, rfl⟩
  · rw [isTagged_place (valid.untagged stored), if_neg Bool.false_ne_true]
    refine Effect.Triple.bind (reads.weaken (fun _ start => start) (fun _ _ ends => ends) ?_)
      fun result =>
      Effect.Triple.each ?_
    · rintro _ w' ⟨rfl, -, -, -, large⟩
      exact ⟨.inr large, fun defined => absurd rfl defined⟩
    rintro _ ⟨rt, rfl, ⟨calls, rfl⟩, ⟨c, rfl, bytes, len⟩ | ⟨rfl, cause⟩⟩
    · have called : Called w { w with rt := { w.rt with calls } } := ⟨calls, rfl⟩
      dsimp only
      by_cases empty : c.len = 0
      · rw [if_pos empty]
        refine Effect.Triple.pure _ ?_
        rintro _ rfl
        refine ⟨(nil_of_encodeAll (List.length_eq_zero_iff.mp (len.symm.trans empty))).symm, called⟩
      · rw [if_neg empty, utf8_copied bytes len]
        refine Effect.Triple.pure _ ?_
        rintro _ rfl
        exact ⟨rfl, called⟩
    · refine Effect.Triple.throw _ ?_
      rintro _ rfl
      exact ⟨cause, fun _ => ⟨calls, rfl⟩⟩

/-! ### Handles -/

theorem isConst_of_tagged {v : Nat} (tagged : atomIsTaggedInt v = true) : atomIsConst v = true := by
  unfold atomIsConst
  rw [Bool.or_eq_true, decide_eq_true_eq, decide_eq_true_eq]
  by_contra low
  have small : v < atomTagInt := by omega
  rw [isTagged_place small] at tagged
  cases tagged

theorem denotes_tagged (tagged : atomIsTaggedInt a = true) (valid : rt.Valid)
    (denotes : rt.Denotes a key) : ∃ n < atomTagInt, a = n + atomTagInt := by
  rcases denotes with ⟨n, small, same, -⟩ | ⟨-, -, p, stored, -⟩
  · exact ⟨n, small, same⟩
  · rw [isTagged_place (valid.untagged stored)] at tagged
    cases tagged

theorem World.Good.pushBorrowed (good : w.Good) {n : Nat} (small : n < atomTagInt)
    (denotes : w.rt.Denotes (n + atomTagInt) key) :
    (w.push ⟨n + atomTagInt, false, false, key⟩).Good where
  valid := good.valid
  initial := good.initial
  counts := by
    have live : (w.push ⟨n + atomTagInt, false, false, key⟩).live = w.live := by
      simp [World.live, World.push]
    show w.rt.Counts
        (w.cache.map Prod.snd ++ ((w.push ⟨n + atomTagInt, false, false, key⟩).live ++ w.others))
    rw [live]
    exact good.counts
  cached := good.cached
  made atom member undisposed := by
    rcases List.mem_append.mp member with before | new
    · exact good.made atom before undisposed
    · obtain rfl := List.mem_singleton.mp new
      exact denotes
  borrowed atom member unowned := by
    rcases List.mem_append.mp member with before | new
    · exact good.borrowed atom before unowned
    · obtain rfl := List.mem_singleton.mp new
      exact ⟨n, small, rfl⟩

theorem dup_ends {atom : JSAtom} (good : w.Good) (member : atom ∈ w.atoms)
    (undisposed : atom.disposed = false) :
    Effect.Triple (· = w) (dup atom) (fun made w' => (w'.push made).Good) fun _ _ => False := by
  have denotes := good.made atom member undisposed
  obtain ⟨value, owned, disposed, key⟩ := atom
  obtain rfl : disposed = false := undisposed
  unfold dup
  dsimp only
  cases tagged : atomIsTaggedInt value with
  | true =>
    obtain ⟨n, small, rfl⟩ := denotes_tagged tagged good.valid denotes
    rw [if_pos rfl]
    refine Effect.Triple.pure _ ?_
    rintro _ rfl
    exact good.pushBorrowed small denotes
  | false =>
    rw [if_neg Bool.false_ne_true]
    have stored : ∃ p, w.rt.table.value value = some p := by
      rcases denotes with ⟨n, small, rfl, -⟩ | ⟨-, -, p, stored, -⟩
      · rw [isTagged_tagged small] at tagged
        cases tagged
      · exact ⟨p, stored⟩
    obtain ⟨p, stored⟩ := stored
    refine Effect.Triple.bind
      ((engine_ends (jsDupAtom_ends good.valid fun _ => stored)).weaken (fun _ start => start)
      (fun _ _ ends => ends) fun _ _ ends => ends.2.elim fun _ never => never.elim fun _ never =>
        never) fun v =>
      Effect.Triple.each ?_
    rintro _ ⟨rt, rfl, rfl, shared⟩
    refine Effect.Triple.pure _ ?_
    rintro _ rfl
    exact good.push shared.gains (denotes.kept shared.gains.kept)

-- A handle that is disposed no longer counts.
theorem live_set {w : World} {handle : Nat} {atom : JSAtom} (found : w.atoms[handle]? = some atom)
    (owned : atom.owned = true) (undisposed : atom.disposed = false) :
    w.live.Perm (atom.value ::
      World.live { w with atoms := w.atoms.set handle { atom with disposed := true } }) := by
  obtain ⟨inside, isIt⟩ := List.getElem?_eq_some_iff.mp found
  have split : w.atoms = w.atoms.take handle ++ atom :: w.atoms.drop (handle + 1) := by
    rw [← isIt, ← List.drop_eq_getElem_cons inside, List.take_append_drop]
  have set : w.atoms.set handle { atom with disposed := true } =
      w.atoms.take handle ++ { atom with disposed := true } :: w.atoms.drop (handle + 1) :=
    List.set_eq_take_append_cons_drop .. |>.trans (if_pos inside)
  unfold World.live
  dsimp only
  rw [set]
  conv_lhs => rw [split]
  simp only [List.filter_append, List.filter_cons, owned, undisposed, Bool.not_false, Bool.not_true,
    Bool.and_true, Bool.and_false, Bool.false_eq_true, if_true, if_false, List.map_append,
    List.map_cons]
  exact List.perm_middle

theorem dispose_ends {handle : Nat} {atom : JSAtom} (good : w.Good)
    (found : w.atoms[handle]? = some atom) (owned : atom.owned = true)
    (undisposed : atom.disposed = false) :
    Effect.Triple (· = w)
      (engine (if atomIsTaggedInt atom.value then pure () else jsFreeAtom atom.value))
      (fun _ w' => World.Good
        { w' with atoms := w'.atoms.set handle { atom with disposed := true } }) fun _ _ =>
          False := by
  -- an atom with a tag is given back by doing nothing
  have same : (if atomIsTaggedInt atom.value then pure () else jsFreeAtom atom.value) =
      jsFreeAtom atom.value := by
    cases tagged : atomIsTaggedInt atom.value with
    | true => rw [if_pos rfl, jsFreeAtom, if_pos (isConst_of_tagged tagged)]
    | false => rw [if_neg Bool.false_ne_true]
  rw [same]
  have counts : w.rt.Counts
      (atom.value ::
        World.held { w with atoms := w.atoms.set handle { atom with disposed := true } }) := by
    refine good.counts.perm ?_
    refine (List.Perm.append_left _ ((live_set found owned undisposed).append_right _)).trans ?_
    exact List.perm_middle
  refine (engine_ends (jsFreeAtom_ends good.valid counts)).weaken (fun _ start => start) ?_
    fun _ _ ends => ends.2.elim fun _ never => never.elim fun _ never => never
  rintro _ _ ⟨rt, rfl, loses⟩
  have before : ∀ other ∈ w.atoms.set handle { atom with disposed := true },
      other ∈ w.atoms ∨ other = { atom with disposed := true } :=
    fun other member => List.mem_or_eq_of_mem_set member
  refine good.give loses.valid loses.counts loses.kept (fun _ member => member)
    (fun other member undisposed => ?_)
    fun other member unowned => ?_
  · rcases before other member with was | rfl
    · exact was
    · cases undisposed
  · rcases before other member with was | rfl
    · exact good.borrowed other was unowned
    · rw [owned] at unowned
      cases unowned

theorem drop_ends (good : w.Good) (held : a ∈ w.others) :
    Effect.Triple (· = w) (engine (jsFreeAtom a))
      (fun _ w' => World.Good { w' with others := w'.others.erase a })
      fun _ _ => False := by
  have counts : w.rt.Counts (a :: World.held { w with others := w.others.erase a }) := by
    refine good.counts.perm ?_
    show (w.cache.map Prod.snd ++ (w.live ++ w.others)).Perm
        (a :: (w.cache.map Prod.snd ++ (w.live ++ w.others.erase a)))
    rw [← List.append_assoc, ← List.append_assoc]
    exact (List.Perm.append_left _ (List.perm_cons_erase held)).trans List.perm_middle
  refine (engine_ends (jsFreeAtom_ends good.valid counts)).weaken (fun _ start => start) ?_
    fun _ _ ends => ends.2.elim fun _ never => never.elim fun _ never => never
  rintro _ _ ⟨rt, rfl, loses⟩
  exact good.give loses.valid loses.counts loses.kept (fun _ member => member)
    (fun _ member _ => member) good.borrowed

theorem take_ends (good : w.Good) (there : (atomIsConst a || (w.rt.table.value a).isSome) = true) :
    Effect.Triple (· = w) (engine (jsDupAtom a))
      (fun a w' => (w'.lend a).Good) fun _ _ => False := by
  have stored : ∃ p, atomIsConst a = false → w.rt.table.value a = some p := by
    cases stored : w.rt.table.value a with
    | some p => exact ⟨p, fun _ => rfl⟩
    | none =>
      rw [stored, Option.isSome_none, Bool.or_false] at there
      exact ⟨nullEntry, fun counted => absurd (there.symm.trans counted) (by decide)⟩
  obtain ⟨p, stored⟩ := stored
  refine (engine_ends (jsDupAtom_ends good.valid stored)).weaken (fun _ start => start) ?_
    fun _ _ ends => ends.2.elim fun _ never => never.elim fun _ never => never
  rintro _ _ ⟨rt, rfl, rfl, shared⟩
  exact good.lend shared.gains

theorem lent_ends {x : Running Nat} (good : w.Good) {fails : StringFailure → JSRuntime → Prop}
    (ends : Effect.Triple (· = w.rt) x
      (fun i rt' => (i = 0 ∧ Idle w.rt rt') ∨ Gains w.rt i rt') fails) :
    Effect.Triple (· = w) (engine x) (fun a w' => (w'.lend a).Good) fun e _ =>
      e = .text .undefined := by
  refine (engine_ends ends).weaken (fun _ start => start) ?_ fun _ _ fails => fails.1
  rintro a _ ⟨rt, rfl, ⟨rfl, idle⟩ | gains⟩
  · exact good.idle idle
  · exact good.lend gains

/-! ### Steps -/

section
variable {printed : UInt64 → Text} {e : Event}

theorem perform_good {α : Type} {x : Keyed α} {record : α → World → World}
    {fails : KeyFailure → World → Prop}
    (ends : Effect.Triple (· = w) x (fun a w' => (record a w').Good) fails)
    (keeps : ∀ e w', fails e w' → e ≠ .text .undefined → w'.Good)
    (performs : perform x record w = some w') : w'.Good := by
  have ended := ends w rfl
  unfold perform at performs
  split at performs
  · next a w'' runs =>
    rw [runs] at ended
    obtain rfl := Option.some.inj performs
    exact ended
  · cases performs
  · next failure w'' defined runs =>
    rw [runs] at ended
    obtain rfl := Option.some.inj performs
    refine keeps _ _ ended ?_
    rintro rfl
    exact defined rfl

theorem step_good (good : w.Good) (steps : step memory host printed w e = some w') : w'.Good := by
  have made : ∀ (x : Keyed Nat) (key : Text),
      Effect.Triple (· = w) x (Made w key) (Refused memory host w key) →
      perform x (fun atom w => w.push ⟨atom, true, false, key⟩) w = some w' → w'.Good := by
    intro x key makes
    refine perform_good (makes.weaken (fun _ start => start) ?_ fun _ _ refused => refused)
      fun e w' refused defined => ?_
    · rintro a _ ⟨rt, rfl, -, gains, denotes⟩
      exact good.push gains denotes
    · obtain ⟨rt, rfl, idle⟩ := refused.2 defined
      exact good.idle idle
  cases e with
  | atomText key =>
    rw [step] at steps
    split at steps
    · next short =>
      exact perform_good
        ((atomText_ends good short).weaken (fun _ start => start) (fun _ _ ends => ends.1.good)
        fun _ _ fails => fails) (fun _ _ fails defined => (fails.2 defined).good) steps
    · cases steps
  | atomNumber key =>
    rw [step] at steps
    split at steps
    · next short =>
      exact perform_good
        ((atomNumber_ends good short).weaken (fun _ start => start) (fun _ _ ends => ends.1.good)
        fun _ _ fails => fails) (fun _ _ fails defined => (fails.2 defined).good) steps
    · cases steps
  | newAtom value =>
    rw [step] at steps
    split at steps
    · next short => exact made _ _ (newAtom_makes good.valid short) steps
    · cases steps
  | newAtomUInt32 value =>
    rw [step] at steps
    split at steps
    · next small => exact made _ _ (newAtomUInt32_makes good.valid small) steps
    · exact Option.some.inj steps ▸ good
  | toString handle =>
    rw [step] at steps
    split at steps
    · next atom found =>
      split at steps
      · exact Option.some.inj steps ▸ good
      · next undisposed =>
        have denotes :=
          good.made atom (List.mem_of_getElem? found) (Bool.eq_false_iff.mpr undisposed)
        exact perform_good ((toString_ends good.valid denotes).weaken (fun _ start => start)
          (fun _ _ ends => ends.2.good good) fun _ _ fails => fails)
            (fun _ _ fails defined => (fails.2 defined).good good) steps
    · cases steps
  | dup handle =>
    rw [step] at steps
    split at steps
    · next atom found =>
      split at steps
      · exact Option.some.inj steps ▸ good
      · next undisposed =>
        exact perform_good
          (dup_ends good (List.mem_of_getElem? found) (Bool.eq_false_iff.mpr undisposed))
          (fun _ _ never => never.elim) steps
    · cases steps
  | dispose handle =>
    rw [step] at steps
    split at steps
    · next atom found =>
      split at steps
      · exact Option.some.inj steps ▸ good
      · next counted =>
        obtain ⟨owned, undisposed⟩ : atom.owned = true ∧ atom.disposed = false := by
          simpa using counted
        exact perform_good (dispose_ends good found owned undisposed)
          (fun _ _ never => never.elim) steps
    · cases steps
  | enter =>
    obtain rfl := Option.some.inj steps
    exact ⟨good.valid, good.initial, good.counts, good.cached, good.made, good.borrowed⟩
  | leave =>
    obtain rfl := Option.some.inj steps
    exact ⟨good.valid, good.initial, good.counts, good.cached, good.made, good.borrowed⟩
  | take atom =>
    rw [step] at steps
    split at steps
    · next there => exact perform_good (take_ends good there) (fun _ _ never => never.elim) steps
    · cases steps
  | drop atom =>
    rw [step] at steps
    split at steps
    · next held => exact perform_good (drop_ends good held) (fun _ _ never => never.elim) steps
    · cases steps
  | makeString str =>
    rw [step] at steps
    split at steps
    · next short =>
      refine perform_good
        (lent_ends good ((jsNewAtomStr_names good.valid short).weaken (fun _ start => start) ?_
        fun _ _ fails => fails)) (fun _ _ undefined defined => absurd undefined defined) steps
      rintro i rt' (⟨none, idle, -⟩ | ⟨-, gains, -⟩)
      · exact .inl ⟨none, idle⟩
      · exact .inr gains
    · cases steps
  | makeSymbol str isGlobal =>
    rw [step] at steps
    split at steps
    · next short =>
      have notString : (if isGlobal = true then AtomType.globalSymbol else .symbol) ≠ .string := by
        cases isGlobal <;> decide
      refine perform_good
        (lent_ends good
          ((newAtom_ends good.valid short fun isString => absurd isString notString).weaken
        (fun _ start => start) ?_ fun _ _ fails => fails))
          (fun _ _ undefined defined => absurd undefined defined) steps
      intro i rt' obtained
      rcases obtained.gained good.valid with ⟨none, idle, -⟩ | ⟨gains, -⟩
      · exact .inl ⟨none, idle⟩
      · exact .inr gains
    · cases steps

theorem machine_kept (started : Started rt) :
    (machine memory host printed rt).Invariant (fun _ _ => True) World.Good where
  init :=
    ⟨started.valid, started.initial, started.counts, fun _ _ none => absurd none List.not_mem_nil,
    fun _ none => absurd none List.not_mem_nil, fun _ none => absurd none List.not_mem_nil⟩
  step good _ steps := step_good good steps

end

/-! ### Every run -/

/-- A runtime whose atoms `JS_InitAtoms` has made. -/
def Initialized (memory : Memory) (rt : JSRuntime) : Prop :=
  (jsInitAtoms memory).run noAtoms = (.ok true, rt)

section
variable {printed : UInt64 → Text}

theorem reached_good (initialized : Initialized memory rt)
    (reaches : (machine memory host printed rt).Reaches (fun _ _ => True) w) : w.Good := by
  have ends : Effect.Triple (· = noAtoms) (jsInitAtoms memory) _ _ := jsInitAtoms_ends
  rcases ends.returned rfl initialized with ⟨-, started⟩ | ⟨failed, -⟩
  · exact (machine_kept started).reached reaches
  · cases failed

theorem World.Good.agree (good : w.Good) {b : Nat} {other : Text} (one : w.Names a key)
    (two : w.Names b other) : a = b ↔ key = other :=
  denotes_iff good.valid (good.names one) (good.names two)

theorem World.Good.predefined (good : w.Good) {k : Nat} {str : String}
    (found : jsAtomInit[k]? = some str) (isString : k + 1 < atomPrivateBrand)
    (names : w.Names a (JSString.str8 (initBytes str)).text) : a = k + 1 := by
  have known := good.initial k str found
  have stored : (atomTypeInit (k + 1)).stored = .string := by
    unfold atomTypeInit
    rw [if_neg (by omega), if_neg (by omega)]
    rfl
  rw [stored] at known
  have plain := List.all_eq_true.mp jsAtomInit_plain str (List.mem_of_getElem? found)
  exact (denotes_iff good.valid (good.names names) (.inr ⟨not_index_of_plain plain, known⟩)).mpr rfl

theorem returns_of_triple {α : Type} {x : Keyed α} {post : α → World → Prop}
    {fails : KeyFailure → World → Prop} (ends : Effect.Triple (· = w) x post fails)
    (never : ∀ e w', ¬fails e w') : ∃ a w', x.run w = (.ok a, w') ∧ post a w' := by
  cases runs : x.run w with
  | mk outcome w' =>
    cases outcome with
    | ok a => exact ⟨a, w', rfl, ends.returned rfl runs⟩
    | error e => exact absurd (ends.thrown rfl runs) (never e w')

-- An allocator that refuses nothing, and a host with room for a key.
theorem plenty_room {key : Text} (readable : Readable key) :
    ∃ rt, Initialized plenty rt ∧ World.Room ⟨rt, 0, [], [], []⟩ plenty (hostFor key) key := by
  have ends : Effect.Triple (· = noAtoms) (jsInitAtoms plenty) _ _ := jsInitAtoms_ends
  cases runs : (jsInitAtoms plenty).run noAtoms with
  | mk outcome rt =>
    cases outcome with
    | ok done =>
      rcases ends.returned rfl runs with ⟨rfl, started⟩ | ⟨-, starved⟩
      · refine ⟨rt, runs, plenty_ample, started.room, ?_, hostFor_admits key, readable⟩
        show (encode key).length ≤ 2 ^ 32 + (encode key).length + (encode (quote key ++ [0])).length
        omega
      · exact absurd plenty_ample starved
    | error e => exact (ends.thrown rfl runs).elim

/-- In every run the atoms that the host has of two keys are the same number exactly when the keys
are the same text, a predefined key has its predefined number, and what `atom`, `newAtom` and
`newAtomUInt32` give joins them. -/
theorem keys_agree (initialized : Initialized memory rt)
    (reaches : (machine memory host printed rt).Reaches (fun _ _ => True) w) :
    (∀ a b key other, w.Names a key → w.Names b other → (a = b ↔ key = other)) ∧
    (∀ k str a, jsAtomInit[k]? = some str → k + 1 < atomPrivateBrand →
      w.Names a (JSString.str8 (initBytes str)).text → a = k + 1) ∧
    (∀ key a w', (key.length : Int) ≤ lenMax → (atomText memory host key).run w = (.ok a, w') →
      ∀ b other, w'.Names b other → (a = b ↔ key = other)) ∧
    (∀ key a w', ((numberText printed key).length : Int) ≤ lenMax →
      (atomNumber memory host printed key).run w = (.ok a, w') →
      ∀ b other, w'.Names b other → (a = b ↔ numberText printed key = other)) ∧
    (∀ value a w', (value.length : Int) ≤ lenMax → (newAtom memory host value).run w = (.ok a, w') →
      ∀ b other, w'.Names b other → (a = b ↔ value = other)) ∧
    ∀ value a w', value < 2 ^ 32 → (newAtomUInt32 memory value).run w = (.ok a, w') →
      ∀ b other, w'.Names b other → (a = b ↔ digits value = other) := by
  have good := reached_good initialized reaches
  have made : ∀ (x : Keyed Nat) (key : Text) (a : Nat) (w' : World),
      Effect.Triple (· = w) x (Made w key) (Refused memory host w key) → x.run w = (.ok a, w') →
      ∀ b other, w'.Names b other → (a = b ↔ key = other) := by
    intro x key a w' makes runs b other names
    obtain ⟨rt, rfl, -, gains, denotes⟩ := makes.returned rfl runs
    -- with one more handle, which has this atom
    have pushed := good.push gains denotes
    have isOne : (World.push { w with rt } ⟨a, true, false, key⟩).Names a key :=
      .inr (.inr ⟨_, List.mem_append_right _ List.mem_cons_self, rfl, rfl, rfl⟩)
    refine pushed.agree isOne ?_
    rcases names with tagged | cached | ⟨atom, member, live⟩
    · exact .inl tagged
    · exact .inr (.inl cached)
    · exact .inr (.inr ⟨atom, List.mem_append_left _ member, live⟩)
  refine ⟨fun a b key other => good.agree, fun k str a => good.predefined,
    fun key a w' short runs b other names => ?_,
    fun key a w' short runs b other names => ?_, fun value a w' short =>
      made _ _ a w' (newAtom_makes good.valid short),
    fun value a w' small => made _ _ a w' (newAtomUInt32_makes good.valid small)⟩
  · obtain ⟨aside, cached⟩ := (atomText_ends good short).returned rfl runs
    exact aside.good.agree (.inr (.inl cached)) names
  · obtain ⟨aside, named⟩ := (atomNumber_ends good short).returned rfl runs
    exact aside.good.agree named names

theorem makeAtom_index (ample : memory.Ample) {n : Nat} (small : n < atomTagInt)
    (fits : (encode (digits n)).length ≤ host.buffers) :
    Effect.Triple (· = w) (makeAtom memory host (digits n))
      (fun a w' => a = n + atomTagInt ∧ ∃ calls, w' = { w with rt := { w.rt with calls } })
        fun _ _ => False := by
  have wellFormed : isWellFormed (digits n) = true := by
    apply wellFormed_ascii
    intro u member
    have digit := isDigit_digits n u member
    simp only [isDigit, Bool.and_eq_true, decide_eq_true_eq] at digit
    omega
  have hands : Effect.Triple (· = w) (hosted (encoder host (digits n))) _ _ :=
    hosted_ends (encoder_ends (digits n))
  unfold makeAtom
  refine Effect.Triple.bind
    (hands.weaken (fun _ start => start) (fun _ _ ends => ends) ?_) fun text =>
    Effect.Triple.each ?_
  · rintro _ _ ⟨-, _, -, -, large⟩
    omega
  · rintro _ ⟨⟨calls, rfl⟩, rfl⟩
    rw [if_pos wellFormed, encode_wellFormed wellFormed]
    have index : Effect.Triple (· = { w with rt := { w.rt with calls } })
        (engine (jsNewAtomLen memory (encodeAll (digits n)))) _ _ :=
      engine_ends (jsNewAtomLen_index ample small)
    refine Effect.Triple.bind
      (index.weaken (fun _ start => start) (fun _ _ ends => ends) ?_) fun a =>
      Effect.Triple.each ?_
    · rintro _ _ ⟨-, _, _, never⟩
      exact never
    · rintro _ ⟨_, rfl, rfl, later, rfl⟩
      have some : n + atomTagInt ≠ 0 := by
        unfold atomTagInt
        omega
      rw [nonNull, if_neg some]
      refine Effect.Triple.pure _ ?_
      rintro _ rfl
      exact ⟨rfl, later, rfl⟩

-- Where the engine has memory, the atom of an index is its tag, and only the cache has changed.
theorem atomText_index (ample : memory.Ample) {n : Nat} (small : n < atomTagInt)
    (fits : (encode (digits n)).length ≤ host.buffers)
    (fresh : w.cache.find? (fun entry => entry.1 == digits n) = none)
    (few : w.cache.length < 4096) :
    ∃ calls, (atomText memory host (digits n)).run w = (.ok (n + atomTagInt),
      { w with rt := { w.rt with calls }, cache := w.cache ++ [(digits n, n + atomTagInt)] }) := by
  have still : Effect.Triple (· = w) flush (fun _ w' => w' = w) fun _ _ => False := by
    unfold flush
    refine Effect.Triple.get_bind ?_
    rw [if_neg (by simp [Nat.not_le.mpr few])]
    exact Effect.Triple.pure () fun _ same => same
  have ends : Effect.Triple (· = w) (atomText memory host (digits n))
      (fun a w' => a = n + atomTagInt ∧ ∃ calls, w' =
        { w with rt := { w.rt with calls }, cache := w.cache ++ [(digits n, n + atomTagInt)] })
          fun _ _ => False := by
    unfold atomText
    refine Effect.Triple.get_bind ?_
    rw [fresh]
    dsimp only
    refine Effect.Triple.bind still fun _ => Effect.Triple.each fun _ same => ?_
    rw [same]
    refine Effect.Triple.bind (makeAtom_index ample small fits) fun a => Effect.Triple.each ?_
    rintro _ ⟨rfl, calls, rfl⟩
    refine Effect.Triple.modify_bind (Effect.Triple.pure _ ?_)
    rintro _ rfl
    exact ⟨rfl, calls, rfl⟩
  obtain ⟨a, w', runs, rfl, calls, rfl⟩ := returns_of_triple ends fun _ _ never => never
  exact ⟨calls, runs⟩

-- A lone surrogate and a wide unit.
def oddKey : Text := [0x61, 0xD800, 0x20AC]

def indices (n : Nat) : List (Text × Nat) := (List.range n).map fun i => (digits i, i + atomTagInt)

theorem indices_cached {rt : JSRuntime} {w : World}
    (reaches : (machine plenty (hostFor oddKey) (fun _ => []) rt).Reaches (fun _ _ => True) w)
    (empty : w.cache = []) {n : Nat} (few : n ≤ 4096) :
    ∃ calls, (machine plenty (hostFor oddKey) (fun _ => []) rt).Reaches (fun _ _ => True)
      { w with rt := { w.rt with calls }, cache := indices n } := by
  induction n with
  | zero =>
    refine ⟨w.rt.calls, ?_⟩
    rw [show indices 0 = w.cache from empty.symm]
    exact reaches
  | succ n ih =>
    obtain ⟨calls, before⟩ := ih (by omega)
    have small : n < atomTagInt := Nat.lt_of_lt_of_le few (by decide)
    have length : (digits n).length ≤ 4 := length_digits_le (by omega) (by decide)
    have fits : (encode (digits n)).length ≤ (hostFor oddKey).buffers := by
      have bytes := length_encode_le (digits n)
      have roomy := hostFor_roomy oddKey
      unfold Host.Roomy at roomy
      omega
    have fresh : (indices n).find? (fun entry => entry.1 == digits n) = none := by
      apply List.find?_eq_none.mpr
      intro entry member
      obtain ⟨i, below, rfl⟩ := List.mem_map.mp member
      have apart : digits i ≠ digits n := fun same => by
        have := digits_injective same
        have := List.mem_range.mp below
        omega
      simpa using apart
    obtain ⟨later, runs⟩ := atomText_index plenty_ample small fits
      (w := { w with rt := { w.rt with calls }, cache := indices n }) fresh
        (by simp [indices]; omega)
    refine ⟨later, before.step (e := .atomText (digits n)) trivial ?_⟩
    show step plenty (hostFor oddKey) (fun _ => []) _ (.atomText (digits n)) = _
    rw [step, if_pos (by unfold lenMax; omega), perform, runs]
    simp [indices, List.range_succ]

-- Somebody takes an atom and drops it, a handle is made, duplicated and disposed of, and then so
-- many keys are asked for that the next one flushes the cache.
theorem crowd_reached : ∃ rt w, Initialized plenty rt ∧
    (machine plenty (hostFor oddKey) (fun _ => []) rt).Reaches (fun _ _ => True) w ∧
    w.cache.length = 4096 ∧ w.hostDepth = 0 ∧
    w.atoms = [⟨7 + atomTagInt, true, true, digits 7⟩, ⟨7 + atomTagInt, false, false, digits 7⟩] ∧
    w.Room plenty (hostFor oddKey) oddKey := by
  obtain ⟨rt, initialized, room⟩ := plenty_room (show Readable oddKey from fun _ => by decide)
  have lent : (machine plenty (hostFor oddKey) (fun _ => []) rt).Reaches (fun _ _ => True)
      ⟨rt, 0, [], [], []⟩ := by
    have taken : (machine plenty (hostFor oddKey) (fun _ => []) rt).Reaches (fun _ _ => True)
        ⟨rt, 0, [], [], [48]⟩ :=
      Machine.Reaches.init.step (e := .take 48) trivial rfl
    exact taken.step (e := .drop 48) trivial rfl
  have handled : (machine plenty (hostFor oddKey) (fun _ => []) rt).Reaches (fun _ _ => True)
      ⟨rt, 0, [], [⟨7 + atomTagInt, true, true, digits 7⟩,
        ⟨7 + atomTagInt, false, false, digits 7⟩], []⟩ := by
    have made : (machine plenty (hostFor oddKey) (fun _ => []) rt).Reaches (fun _ _ => True)
        ⟨rt, 0, [], [⟨7 + atomTagInt, true, false, digits 7⟩], []⟩ :=
      lent.step (e := .newAtomUInt32 7) trivial rfl
    have twice : (machine plenty (hostFor oddKey) (fun _ => []) rt).Reaches (fun _ _ => True)
        ⟨rt, 0, [], [⟨7 + atomTagInt, true, false, digits 7⟩,
          ⟨7 + atomTagInt, false, false, digits 7⟩], []⟩ :=
      made.step (e := .dup 0) trivial rfl
    exact twice.step (e := .dispose 0) trivial rfl
  obtain ⟨calls, cached⟩ := indices_cached handled rfl (Nat.le_refl 4096)
  exact ⟨rt, _, initialized, cached, by simp [indices], rfl, rfl, room⟩

/-- A key with a surrogate, which flushes the cache; the atom is that of no other key. -/
theorem keys_agree_flush : ∃ rt w a w', Initialized plenty rt ∧
    (machine plenty (hostFor oddKey) (fun _ => []) rt).Reaches (fun _ _ => True) w ∧
    w.cache.length = 4096 ∧
    w.hostDepth = 0 ∧ (atomText plenty (hostFor oddKey) oddKey).run w = (.ok a, w') ∧
    (∀ b, w'.Names b oddKey → a = b) ∧ a ≠ 7 + atomTagInt := by
  obtain ⟨rt, w, initialized, reaches, full, outside, atoms, room⟩ := crowd_reached
  have short : (oddKey.length : Int) ≤ lenMax := by decide
  obtain ⟨a, w', runs, aside, -⟩ :=
    returns_of_triple (atomText_ends (reached_good initialized reaches) short)
    fun e w fails => fails.1 room
  obtain ⟨-, -, made, -⟩ := keys_agree initialized reaches
  refine ⟨rt, w, a, w', initialized, reaches, full, outside, runs, ?_, ?_⟩
  · intro b names
    exact (made _ a w' short runs b _ names).mpr rfl
  · intro same
    have seven : w'.Names (7 + atomTagInt) (digits 7) := .inl ⟨7, by decide, rfl, rfl⟩
    exact absurd ((made _ a w' short runs _ _ seven).mp same) (by decide)

-- A new atom of it, in a runtime that has just been made.
theorem odd_reached : ∃ rt a w, Initialized plenty rt ∧
    (machine plenty (hostFor oddKey) (fun _ => []) rt).Reaches (fun _ _ => True) w ∧
    w.atoms = [⟨a, true, false, oddKey⟩] := by
  obtain ⟨rt, initialized, room⟩ := plenty_room (show Readable oddKey from fun _ => by decide)
  have short : (oddKey.length : Int) ≤ lenMax := by decide
  have reaches : (machine plenty (hostFor oddKey) (fun _ => []) rt).Reaches (fun _ _ => True)
      ⟨rt, 0, [], [], []⟩ := .init
  obtain ⟨a, _, runs, rt', rfl, -⟩ :=
    returns_of_triple (newAtom_makes (reached_good initialized reaches).valid short)
    fun e w fails => fails.1 room
  have steps : (machine plenty (hostFor oddKey) (fun _ => []) rt).step ⟨rt, 0, [], [], []⟩
      (.newAtom oddKey) = some (World.push ⟨rt', 0, [], [], []⟩ ⟨a, true, false, oddKey⟩) := by
    show step plenty (hostFor oddKey) (fun _ => []) ⟨rt, 0, [], [], []⟩ (.newAtom oddKey) = _
    rw [step, if_pos short, perform, runs]
  exact ⟨rt, a, _, initialized, reaches.step trivial steps, rfl⟩

/-- The engine keeps every atom once for its type and text, in the chain of its hash, and counts
exactly the references that the cache, the handles and everybody else hold; one that nobody holds is
given up. -/
theorem references_counted (initialized : Initialized memory rt)
    (reaches : (machine memory host printed rt).Reaches (fun _ _ => True) w) :
    w.rt.table.Holds (bucketOf w.rt.table.heads.length) ∧
    (∀ i j p q, w.rt.table.value i = some p → w.rt.table.value j = some q →
      p.atomType.isHashed = true → q.atomType = p.atomType → q.str.text = p.str.text → i = j) ∧
    ∀ i, atomIsConst i = false → ((w.rt.table.value i).isSome ↔ i ∈ w.held) ∧
      ∀ p, w.rt.table.value i = some p → p.refCount = w.held.count i := by
  have good := reached_good initialized reaches
  refine ⟨good.valid.holds, good.valid.once, fun i counted => ?_⟩
  obtain ⟨count, positive⟩ := good.counts i counted
  rw [JSRuntime.references] at count
  cases stored : w.rt.table.value i with
  | none =>
    rw [stored] at count
    have none : i ∉ w.held := List.count_eq_zero.mp count.symm
    refine ⟨iff_of_false Bool.false_ne_true none, ?_⟩
    intro p found
    cases found
  | some p =>
    rw [stored] at count
    have same : p.refCount = w.held.count i := count
    have held : i ∈ w.held := List.count_pos_iff.mp (same ▸ positive p stored)
    refine ⟨⟨fun _ => held, fun _ => rfl⟩, fun q found => ?_⟩
    obtain rfl := Option.some.inj found
    exact same

/-- The one handle of an atom that nobody else holds. -/
theorem references_counted_odd : ∃ rt a w, Initialized plenty rt ∧
    (machine plenty (hostFor oddKey) (fun _ => []) rt).Reaches (fun _ _ => True) w ∧
    w.atoms = [⟨a, true, false, oddKey⟩] ∧
    (atomIsConst a = false → ((w.rt.table.value a).isSome ↔ a ∈ w.held)) := by
  obtain ⟨rt, a, w, initialized, reaches, atoms⟩ := odd_reached
  exact ⟨rt, a, w, initialized, reaches, atoms, fun counted =>
    ((references_counted initialized reaches).2.2 a counted).1⟩

/-- While it is not disposed, a handle reads as the text that its atom was made from, or not at all,
and it does read where the engine has memory and the text is short enough. -/
theorem toString_exact (initialized : Initialized memory rt)
    (reaches : (machine memory host printed rt).Reaches (fun _ _ => True) w) {handle : Nat}
    {atom : JSAtom} (found : w.atoms[handle]? = some atom) (undisposed : atom.disposed = false) :
    (∀ read w', (toString memory atom).run w = (.ok read, w') → read = atom.key ∧ Called w w') ∧
    (memory.Ample → 3 * atom.key.length < 2 ^ 31 →
      ∃ w', (toString memory atom).run w = (.ok atom.key, w') ∧ Called w w') := by
  have good := reached_good initialized reaches
  have ends : Effect.Triple (· = w) (toString memory atom) _ _ :=
    toString_ends good.valid (good.made atom (List.mem_of_getElem? found) undisposed)
  refine ⟨fun read w' runs => ends.returned rfl runs, fun ample short => ?_⟩
  obtain ⟨read, w', runs, rfl, called⟩ := returns_of_triple ends fun e w' fails =>
    fails.1.elim (fun starved => starved ample) fun long => by omega
  exact ⟨w', runs, called⟩

theorem toString_exact_odd : ∃ rt a w w', Initialized plenty rt ∧
    (machine plenty (hostFor oddKey) (fun _ => []) rt).Reaches (fun _ _ => True) w ∧
    (toString plenty ⟨a, true, false, oddKey⟩).run w = (.ok oddKey, w') := by
  obtain ⟨rt, a, w, initialized, reaches, atoms⟩ := odd_reached
  have found : w.atoms[0]? = some ⟨a, true, false, oddKey⟩ := by
    rw [atoms]
    rfl
  obtain ⟨w', runs, -⟩ := (toString_exact initialized reaches found rfl).2 plenty_ample
    (show 3 * oddKey.length < 2 ^ 31 by decide)
  exact ⟨rt, a, w, w', initialized, reaches, runs⟩

/-- Where there is room, the calls for a key give its atom. -/
theorem keys_made (initialized : Initialized memory rt)
    (reaches : (machine memory host printed rt).Reaches (fun _ _ => True) w)
    (short : (key.length : Int) ≤ lenMax) (room : w.Room memory host key) :
    (∃ a w', (atomText memory host key).run w = (.ok a, w') ∧ w'.Names a key ∧ w'.atoms = w.atoms) ∧
    ∃ a rt', (newAtom memory host key).run w = (.ok a, { w with rt := rt' }) ∧
      World.Names (World.push { w with rt := rt' } ⟨a, true, false, key⟩) a key := by
  have good := reached_good initialized reaches
  have atom : Effect.Triple (· = w) (atomText memory host key) _ _ := atomText_ends good short
  have new : Effect.Triple (· = w) (newAtom memory host key) _ _ := newAtom_makes good.valid short
  constructor
  · obtain ⟨a, w', runs, aside, cached⟩ := returns_of_triple atom fun e w' fails => fails.1 room
    exact ⟨a, w', runs, .inr (.inl cached), aside.atoms⟩
  · obtain ⟨a, _, runs, rt', rfl, -⟩ := returns_of_triple new fun e w' fails => fails.1 room
    exact ⟨a, rt', runs, .inr (.inr ⟨_, List.mem_append_right _ List.mem_cons_self, rfl, rfl, rfl⟩)⟩

theorem keys_made_flush : ∃ rt w a w', Initialized plenty rt ∧
    (machine plenty (hostFor oddKey) (fun _ => []) rt).Reaches (fun _ _ => True) w ∧
    w.cache.length = 4096 ∧
    w.hostDepth = 0 ∧ (atomText plenty (hostFor oddKey) oddKey).run w = (.ok a, w') ∧
    w'.Names a oddKey := by
  obtain ⟨rt, w, initialized, reaches, full, outside, -, room⟩ := crowd_reached
  obtain ⟨⟨a, w', runs, names, -⟩, -⟩ := keys_made initialized reaches (by decide) room
  exact ⟨rt, w, a, w', initialized, reaches, full, outside, runs, names⟩

end

end QuickJSBun.Bridge.PropertyKeys
