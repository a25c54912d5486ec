import QuickJSBun.Context.Convert
import QuickJSBun.Library.Members

/-! `JSContext.dump`: the walk over a guest value that builds a host value. Guest objects,
strings, bigints and errors that the walk meets again are looked up by their address.
-/

set_option autoImplicit false

namespace QuickJSBun.Context

open Library

/-- A host value of a dump; objects are numbered in the order of their creation. -/
inductive Dumped where
  | undefined
  | null
  | boolean (value : Bool)
  | number (value : Number)
  | bigint (value : Int)
  | string (value : Text)
  | object (number : Nat)
  deriving DecidableEq, Repr

inductive HostObject where
  | array (items : List Dumped)
  | object (members : List (Text × Dumped))
  | error (name message : Text) (stack : Option Text)
  deriving DecidableEq, Repr

-- The array index that a key names, for the order of keys.
def arrayIndex (key : Text) : Option Nat :=
  (readDigits key).bind fun n => if digits n = key ∧ n < 2 ^ 32 - 1 then some n else none

def Number.indices : Number → Nat
  | .int value => value.toInt.toNat
  | .double bits =>
    let exponent := (bits.toNat / 2 ^ 52) % 2 ^ 11
    let fraction := bits.toNat % 2 ^ 52
    if 2 ^ 63 ≤ bits.toNat then 0
    else if exponent = 2 ^ 11 - 1 then (if fraction = 0 then unbounded else 0)
    else if exponent = 0 then (if fraction = 0 then 0 else 1)
    else if 1075 ≤ exponent then (2 ^ 52 + fraction) * 2 ^ (exponent - 1075)
    else (2 ^ 52 + fraction + 2 ^ (1075 - exponent) - 1) / 2 ^ (1075 - exponent)

inductive Place where
  | item (array index : Nat)
  | member (object : Nat) (key : Text)
  deriving DecidableEq, Repr

/-- The guest value that was read for a place, and what became of it. Not in the source. -/
structure Read where
  place : Place
  value : Value
  item : Dumped
  deriving DecidableEq, Repr

/-- The places that a guest array or object showed. Not in the source. -/
inductive Listing where
  | items (array length : Nat)
  | members (object : Nat) (keys : List Text)
  deriving DecidableEq, Repr

/-- The variables of `dump` around the world. -/
structure Walk (σ : Type) where
  world : World σ
  seen : List (Nat × Dumped)
  kept : List JSValue
  nodes : Nat
  objects : List HostObject
  reads : List Read
  listed : List Listing

structure JSDumpOptions where
  maxDepth : Option Int
  maxNodes : Option Int

variable {σ V : Type} (engine : Engine σ) (host : Host V σ)

abbrev WalkRun (σ V α : Type) := Effect (Walk σ) (HostValue V) α

def onWorld {α : Type} (x : Run σ V α) : WalkRun σ V α := ⟨fun s =>
  let (outcome, world) := x.run s.world
  (outcome, { s with world })⟩

/-- `Map.set` -/
def setSeen (pointer : Nat) (value : Dumped) (seen : List (Nat × Dumped)) : List (Nat × Dumped) :=
  if seen.any (·.1 == pointer) then
    seen.map fun entry => if entry.1 = pointer then (pointer, value) else entry
  else seen ++ [(pointer, value)]

def getSeen (pointer : Nat) (seen : List (Nat × Dumped)) : Option Dumped :=
  (seen.find? (·.1 == pointer)).map (·.2)

-- The pointer in the cell of a heap value, 0 for others.
def World.pointer (w : World σ) : Value → Nat
  | .heap _ cell => w.address cell
  | _ => 0

def newHostObject (object : HostObject) : WalkRun σ V Nat :=
  .lift fun s => (s.objects.length, { s with objects := s.objects ++ [object] })

def toBoolean (h : JSValue) : Run σ V Bool := do
  let value ← ptr h
  match value with
  | .bool b => pure b
  | _ => do
    let type ← type engine (getException engine host) h
    .throw (typeError ("Cannot convert QuickJS " ++ type.name ++ " to boolean"))

def toNumber (h : JSValue) : Run σ V Number := do
  let value ← ptr h
  match value with
  | .int i => pure (.int i)
  | .float64 n => pure n
  | _ => do
    let type ← type engine (getException engine host) h
    .throw (typeError ("Cannot convert QuickJS " ++ type.name ++ " to number"))

def valueLength (h : JSValue) : Run σ V Number := do
  let length ← getProp engine (getException engine host) h (text "length")
  withValue engine length (toNumber engine host length)

def toError (h : JSValue) : Run σ V HostObject := do
  let found ← type engine (getException engine host) h
  if found ≠ .error then .throw (typeError ("Cannot convert QuickJS " ++ found.name ++ " to error"))
  else do
    let message ← errorProperty engine host (getException engine host) h "message"
    let name ← errorProperty engine host (getException engine host) h "name"
    let stack ← errorProperty engine host (getException engine host) h "stack"
    pure (.error (name.getD (text "Error")) (message.getD (text "Error")) stack)

def keep (entry : JSValue) : WalkRun σ V Unit :=
  .modify fun s => { s with kept := s.kept ++ [entry] }

def push (array : Nat) (item : Dumped) : List HostObject → List HostObject := fun objects =>
  objects.modify array fun
    | .array items => .array (items ++ [item])
    | object => object

def defineHost (object : Nat) (key : Text) (item : Dumped) : List HostObject → List HostObject :=
  fun objects => objects.modify object fun
    | .object members => .object (define arrayIndex key item members)
    | object => object

def put (change : List HostObject → List HostObject) (place : Place) (entry : JSValue)
    (item : Dumped) : WalkRun σ V Unit :=
  .modify fun s => { s with
    objects := change s.objects
    reads := ⟨place, (s.world.handle entry).value, item⟩ :: s.reads }

def announce (listing : Listing) : WalkRun σ V Unit :=
  .modify fun s => { s with listed := listing :: s.listed }

def visitItems (visit : JSValue → WalkRun σ V Dumped) (h : JSValue) (array : Nat) :
    Nat → Nat → WalkRun σ V Unit
  | 0, _ => pure ()
  | count + 1, index => do
    let entry ← onWorld (getIndex engine (getException engine host) h index)
    keep entry
    let item ← visit entry
    put (push array item) (.item array index) entry item
    visitItems visit h array count (index + 1)

def visitMembers (visit : JSValue → WalkRun σ V Dumped) (h : JSValue) (object : Nat) :
    List Text → WalkRun σ V Unit :=
  .forEach fun key => do
    let entry ← onWorld (getProp engine (getException engine host) h key)
    keep entry
    let item ← visit entry
    put (defineHost object key item) (.member object key) entry item

-- A leaf that is converted once for each address.
def visitLeaf (h : JSValue) (convert : WalkRun σ V Dumped) : WalkRun σ V Dumped := do
  let value ← onWorld (ptr h)
  let s ← .get
  let pointer := if value.tag < 0 then s.world.pointer value else 0
  match getSeen pointer s.seen with
  | some existing => pure existing
  | none => do
    let converted ← convert
    if pointer ≠ 0 then
      .modify fun s => { s with seen := setSeen pointer converted s.seen }
    pure converted

/-- An object is entered in `seen` before what it holds is visited. -/
def visitContainer (h : JSValue) (empty : HostObject) (fill : Nat → WalkRun σ V Unit) :
    WalkRun σ V Dumped := do
  let value ← onWorld (ptr h)
  let s ← .get
  let pointer := s.world.pointer value
  match getSeen pointer s.seen with
  | some existing => pure existing
  | none => do
    let object ← newHostObject empty
    .modify fun s => { s with seen := setSeen pointer (.object object) s.seen }
    fill object
    pure (.object object)

/-- `visit` at a depth from which it may still go `levels - 1` deeper. -/
def visit (maxDepth maxNodes : Nat) : Nat → JSValue → WalkRun σ V Dumped
  | 0, _ => .throw (rangeError ("QuickJS dump exceeded maximum depth of " ++ toString maxDepth))
  | levels + 1, h => do
    .modify fun s => { s with nodes := s.nodes + 1 }
    let s ← .get
    .check (decide (s.nodes ≤ maxNodes))
      (rangeError ("QuickJS dump exceeded maximum of " ++ toString maxNodes ++ " values"))
    let found ← onWorld (type engine (getException engine host) h)
    match found with
    | .undefined => pure .undefined
    | .null => pure .null
    | .boolean => do
      let value ← onWorld (toBoolean engine host h)
      pure (.boolean value)
    | .number => do
      let value ← onWorld (toNumber engine host h)
      pure (.number value)
    | .bigint => visitLeaf h do
      let value ← onWorld (toBigInt engine (getException engine host) h)
      pure (.bigint value)
    | .string => visitLeaf h do
      let value ← onWorld (valueToString engine (getException engine host) h)
      pure (.string value)
    | .error => visitLeaf h do
      let error ← onWorld (toError engine host h)
      let object ← newHostObject error
      pure (.object object)
    | .array => visitContainer h (.array []) fun array => do
      let length ← onWorld (valueLength engine host h)
      announce (.items array length.indices)
      visitItems engine host (visit maxDepth maxNodes levels) h array length.indices 0
    | .object => visitContainer h (.object []) fun object => do
      let keys ← onWorld (keys engine (getException engine host) h)
      announce (.members object keys)
      visitMembers engine host (visit maxDepth maxNodes levels) h object keys
    | found => .throw (typeError ("Cannot dump QuickJS " ++ found.name))

def runWalk {α : Type} (x : WalkRun σ V α) : Run σ V (Except (HostValue V) α × Walk σ) :=
  .lift fun w =>
    let ended := x.run ⟨w, [], [], 0, [], [], []⟩
    (ended, ended.2.world)

def isSafePositive (n : Int) : Bool := decide (0 < n) && decide (n ≤ 2 ^ 53 - 1)

/-- `if (error instanceof JSException) error.dispose()` -/
def disposeException (error : HostValue V) : Run σ V Unit :=
  match error with
  | .exception value _ _ => dispose engine value
  | _ => pure ()

/-- `dump`, with the variables of the walk where it ended. -/
def dump (h : JSValue) (options : JSDumpOptions) : Run σ V (Dumped × Walk σ) := do
  assertSameVM h
  let maxDepth := options.maxDepth.getD 1024
  let maxNodes := options.maxNodes.getD 1000000
  .check (isSafePositive maxDepth) (assertionError "maxDepth must be a positive integer")
  .check (isSafePositive maxNodes) (assertionError "maxNodes must be a positive integer")
  let _ : Unit ← call engine .enterScope
  let (outcome, s) ← runWalk
      (visit engine host maxDepth.toNat maxNodes.toNat (maxDepth.toNat + 1) h)
  let disposeKept : Run σ V Unit := .forEach (dispose engine) s.kept
  match outcome with
  | .ok value => do
    disposeKept
    let _ : Bool ← call engine .leaveScope
    pure (value, s)
  | .error error =>
    .tryFinally
      (do
        let late : Bool ← call engine .leaveScope
        if !late then .throw error
        else do
          disposeException engine error
          let out : Value ← call engine .timeoutError
          let value ← resultValue (getException engine host) out
          let exception ← newJSException engine host (getException engine host) value
          .throw exception)
      disposeKept

end QuickJSBun.Context
