import QuickJSBun.Engine.Strings
import QuickJSBun.Library.Chained

/-! The atoms of a runtime: the strings that are property keys, each once, and the symbols.
They stand in `atom_array`, whose free places make a list, and are found through the chains
of `atom_hash`. An atom is the number of its place; 0 is none.

A string that is handed over is taken to be fresh: one that is an atom already comes back as
that atom. The predefined atoms are never given up, and their counts mean nothing.
-/

set_option autoImplicit false

namespace QuickJSBun.Engine.Atoms

open Library Library.Chained Engine.Strings

/-! ### The table -/

/-- `JS_ATOM_TYPE_*`; in the table a private name is a symbol. -/
inductive AtomType where
  | string
  | globalSymbol
  | symbol
  | privateName
  deriving DecidableEq, Repr

def AtomType.number : AtomType → Nat
  | .string => 1
  | .globalSymbol => 2
  | .symbol => 3
  | .privateName => 4

structure JSAtomStruct where
  str : JSString
  hash : Nat
  atomType : AtomType
  refCount : Nat

/-- The atoms, and the number of calls of the allocator. -/
structure JSRuntime where
  calls : Nat
  table : Table JSAtomStruct
  atomCount : Nat
  atomCountResize : Nat

abbrev Running := Effect JSRuntime StringFailure

def jsAtomInit : List String := [
  "null", "false", "true", "if", "else", "return", "var", "this", "delete", "void", "typeof",
  "new", "in", "instanceof", "do", "while", "for", "break", "continue", "switch", "case",
  "default", "throw", "try", "catch", "finally", "function", "debugger", "with", "class", "const",
  "enum", "export", "extends", "import", "super", "implements", "interface", "let", "package",
  "private", "protected", "public", "static", "yield", "await", "", "keys", "size", "length",
  "fileName", "lineNumber", "columnNumber", "message", "cause", "errors", "stack", "name",
  "toString", "toLocaleString", "valueOf", "eval", "prototype", "constructor", "configurable",
  "writable", "enumerable", "value", "get", "set", "of", "__proto__", "undefined", "number",
  "boolean", "string", "object", "symbol", "integer", "unknown", "arguments", "callee", "caller",
  "<eval>", "<ret>", "<var>", "<arg_var>", "<with>", "lastIndex", "target", "index", "input",
  "defineProperties", "apply", "join", "concat", "split", "construct", "getPrototypeOf",
  "setPrototypeOf", "isExtensible", "preventExtensions", "has", "deleteProperty",
  "defineProperty", "getOwnPropertyDescriptor", "ownKeys", "add", "done", "next", "values",
  "source", "flags", "global", "unicode", "raw", "rawJSON", "new.target", "this.active_func",
  "<home_object>", "<computed_field>", "<static_computed_field>", "<class_fields_init>",
  "<brand>", "#constructor", "as", "from", "meta", "*default*", "*", "Module", "then", "resolve",
  "reject", "promise", "proxy", "revoke", "async", "exec", "groups", "indices", "status",
  "reason", "globalThis", "bigint", "-0", "Infinity", "-Infinity", "NaN", "hasIndices",
  "ignoreCase", "multiline", "dotAll", "sticky", "unicodeSets", "not-equal", "timed-out", "ok",
  "toISOString", "alphabet", "lastChunkHandling", "omitPadding", "toJSON", "maxByteLength",
  "Object", "Array", "Error", "Number", "String", "Boolean", "Symbol", "Arguments", "Math",
  "JSON", "Date", "Function", "GeneratorFunction", "ForInIterator", "RegExp", "ArrayBuffer",
  "SharedArrayBuffer", "Uint8ClampedArray", "Int8Array", "Uint8Array", "Int16Array",
  "Uint16Array", "Int32Array", "Uint32Array", "BigInt64Array", "BigUint64Array", "Float16Array",
  "Float32Array", "Float64Array", "DataView", "BigInt", "WeakRef", "FinalizationRegistry", "Map",
  "Set", "WeakMap", "WeakSet", "Iterator", "Iterator Helper", "Iterator Concat", "Iterator Wrap",
  "Map Iterator", "Set Iterator", "Array Iterator", "String Iterator", "RegExp String Iterator",
  "Generator", "Proxy", "Promise", "PromiseResolveFunction", "PromiseRejectFunction",
  "AsyncFunction", "AsyncFunctionResolve", "AsyncFunctionReject", "AsyncGeneratorFunction",
  "AsyncGenerator", "EvalError", "RangeError", "ReferenceError", "SyntaxError", "TypeError",
  "URIError", "InternalError", "AggregateError", "<brand>", "Symbol.toPrimitive",
  "Symbol.iterator", "Symbol.match", "Symbol.matchAll", "Symbol.replace", "Symbol.search",
  "Symbol.split", "Symbol.toStringTag", "Symbol.isConcatSpreadable", "Symbol.hasInstance",
  "Symbol.species", "Symbol.unscopables", "Symbol.asyncIterator"]

def initBytes (str : String) : Bytes := str.toList.map fun c => .ofNat c.toNat

def atomEnd : Nat := 243

/-- `JS_ATOM_Private_brand`; the symbols follow it. -/
def atomPrivateBrand : Nat := 229

def atomTagInt : Nat := 2 ^ 31

def atomMax : Nat := 2 ^ 30 - 1

/-- `JS_ATOM_HASH_MASK` and `JS_ATOM_HASH_PRIVATE` -/
def atomHashMask : Nat := 2 ^ 30 - 1

/-- As an `int`, a number with the tag is negative. -/
def atomIsConst (v : Nat) : Bool := decide (v < atomEnd) || decide (atomTagInt ≤ v)

def hashString (str : JSString) (h : Nat) : Nat :=
  str.text.foldl (fun h u => (h * 263 + u.toNat) % 2 ^ 32) h

def atomHash (str : JSString) : AtomType → Nat
  | .symbol => 0
  | .privateName => atomHashMask
  | atomType => hashString str atomType.number &&& atomHashMask

def AtomType.stored : AtomType → AtomType
  | .privateName => .symbol
  | atomType => atomType

def AtomType.isHashed : AtomType → Bool
  | .string => true
  | .globalSymbol => true
  | _ => false

/-- A call of the allocator, or of what makes a string; none where it fails. -/
@[irreducible] def attempt {α : Type} (x : Making α) : Running (Option α) := ⟨fun rt =>
  match x.run rt.calls with
  | (.ok a, calls) => (.ok (some a), { rt with calls })
  | (.error .undefined, calls) => (.error .undefined, { rt with calls })
  | (.error _, calls) => (.ok none, { rt with calls })⟩

/-- A walk that leaves the places in use does what C leaves undefined. -/
def walk {α : Type} : Option α → Running α
  | some a => pure a
  | none => Effect.throw .undefined

section
variable (memory : Memory)

def jsResizeAtomHash (newHashSize : Nat) : Running Bool := do
  match ← attempt (jsMalloc memory (4 * newHashSize)) with
  | none => pure false
  | some _ =>
    let rt ← Effect.get
    let table ← walk (rt.table.rehash (fun p => p.hash &&& (newHashSize - 1)) newHashSize)
    Effect.modify fun rt => { rt with table, atomCountResize := newHashSize * 2 }
    pure true

def findAtom (h : Nat) (wanted : JSAtomStruct → Bool) : Running Nat := do
  let rt ← Effect.get
  walk (rt.table.find (fun _ p => wanted p) (h &&& (rt.table.heads.length - 1)))

def jsDupAtom (v : Nat) : Running Nat :=
  if atomIsConst v then pure v
  else do
    let rt ← Effect.get
    let table ← walk (rt.table.modify v fun p => { p with refCount := p.refCount + 1 })
    Effect.modify fun rt => { rt with table }
    pure v

def nullEntry : JSAtomStruct := ⟨.str8 [], 0, .symbol, 1⟩

/-- "size progression 3/2": from 2^31 / 3 places on the product wraps. -/
@[irreducible] def progression (start : Nat) : Nat := (max 711 ((toInt (start * 3)).tdiv 2)).toNat

/-- "allow new atom entries"; where the product has wrapped, the array is made smaller than it
was. -/
def moreAtoms : Running Bool := do
  let rt ← Effect.get
  let start := rt.table.slots.length
  let newSize := progression start
  if atomMax < newSize then pure false
  else match ← attempt (jsMalloc memory (8 * newSize)) with
    | none => pure false
    | some _ =>
      if start = 0 then
        match ← attempt (jsMalloc memory headerBytes) with
        | none => pure false
        | some _ =>
          Effect.modify fun rt => { rt with
            table := { rt.table with slots := [.used nullEntry 0] }.grow newSize
            atomCount := rt.atomCount + 1 }
          pure true
      else if newSize ≤ start then Effect.throw .undefined
      else do
        Effect.modify fun rt => { rt with table := rt.table.grow newSize }
        pure true

-- "use an already free entry"
def useEntry (p : JSAtomStruct) : Running Nat := do
  let rt ← Effect.get
  let (i, table) ← walk (rt.table.take p)
  if p.atomType.isHashed then do
    let table ← walk (table.link i (p.hash &&& (table.heads.length - 1)))
    Effect.modify fun rt => { rt with table, atomCount := rt.atomCount + 1 }
    if rt.atomCountResize ≤ rt.atomCount + 1 then do
      let _ ← jsResizeAtomHash memory (table.heads.length * 2)
      pure i
    else pure i
  else do
    Effect.modify fun rt => { rt with table, atomCount := rt.atomCount + 1 }
    pure i

/-- What is the same key: `js_string_memcmp` compares units, of whatever width. -/
def isAtom (str : JSString) (atomType : AtomType) (p : JSAtomStruct) : Bool :=
  p.hash == atomHash str atomType && p.atomType == atomType && p.str.len == str.len &&
    p.str.text == str.text

-- "try and locate an already registered atom"
def locateAtom (str : JSString) (atomType : AtomType) : Running Nat :=
  if atomType.isHashed then findAtom (atomHash str atomType) (isAtom str atomType) else pure 0

def readyEntry : Running Bool := do
  let rt ← Effect.get
  if rt.table.freeHead = 0 then moreAtoms memory else pure true

def newAtom (str : JSString) (atomType : AtomType) : Running Nat := do
  let i ← locateAtom str atomType
  if i ≠ 0 then jsDupAtom i
  else do
    let room ← readyEntry memory
    if room then useEntry memory ⟨str, atomHash str atomType, atomType.stored, 1⟩ else pure 0

def newAtomInit (str : String) (atomType : AtomType) : Running Nat := do
  match ← attempt (jsAllocString memory (initBytes str).length false) with
  | none => pure 0
  | some _ => newAtom memory (.str8 (initBytes str)) atomType

/-- `__JS_FindAtom` -/
def findAscii (buf : Bytes) : Running Nat := do
  let i ← findAtom (atomHash (.str8 buf) .string) fun p =>
    isAtom (.str8 buf) .string p && p.str.isWideChar == false
  if i ≠ 0 then jsDupAtom i else pure 0

def jsFreeAtomStruct (i : Nat) : Running Unit := do
  let rt ← Effect.get
  let (p, own) ← walk (rt.table.read i)
  if p.atomType.isHashed then do
    let table ← walk (rt.table.unlink i (p.hash &&& (rt.table.heads.length - 1)))
    Effect.modify fun rt => { rt with table := table.give i, atomCount := rt.atomCount - 1 }
  else Effect.modify fun rt => { rt with table := rt.table.give own, atomCount := rt.atomCount - 1 }

def jsFreeAtom (v : Nat) : Running Unit :=
  if atomIsConst v then pure ()
  else do
    let rt ← Effect.get
    let (p, _) ← walk (rt.table.read v)
    let table ← walk (rt.table.modify v fun p => { p with refCount := p.refCount - 1 })
    Effect.modify fun rt => { rt with table }
    if 0 < p.refCount - 1 then pure () else jsFreeAtomStruct v

def atomTypeInit (i : Nat) : AtomType :=
  if i = atomPrivateBrand then .privateName else if atomPrivateBrand < i then .symbol else .string

def initAtomsFrom (i : Nat) : List String → Running Bool
  | [] => pure true
  | str :: rest => do
    let atom ← newAtomInit memory str (atomTypeInit i)
    if atom = 0 then pure false else initAtomsFrom (i + 1) rest

def jsInitAtoms : Running Bool := do
  if ← jsResizeAtomHash memory 512 then initAtomsFrom memory 1 jsAtomInit else pure false

end

/-- What `JS_InitAtoms` starts from. -/
def noAtoms : JSRuntime := ⟨0, ⟨[], [], 0⟩, 0, 0⟩

end QuickJSBun.Engine.Atoms
