import QuickJSBun.Handle.SlotsValid

/-! Array buffers over host memory: `newArrayBuffer` and its bridge function, the
engine's constructor, `transfer`, `resize`, detach and finalizer, as a machine over
the slot table of the runtime, whose entries are what pins the memory.

An operation that lets other code run before it is done (the conversion of a
length, the collection an allocation may trigger and with it the host's class
finalizers) is split there: it leaves a frame and is resumed by a later event.
-/

set_option autoImplicit false

namespace QuickJSBun.Bridge

open Library Handle

/-- What a call of `slot` was made for. -/
def kindOf (slots : Slots) (allocation : Nat) : Option HostKind :=
  (slots.allocations[allocation]?).map (·.kind)

/-- `INT32_MAX`, the largest buffer. -/
def int32Max : Nat := 2147483647

/-- What `abuf->data` points at. Host memory is named after the call of `slot` that pinned it. -/
inductive Backing where
  | null
  | host (pin : Nat)
  | block
  deriving DecidableEq, Repr

inductive FreeFunc where
  | jsArrayBufferFree
  | qjsBunArrayBufferFree
  deriving DecidableEq, Repr

/-- `JSArrayBuffer`. A length of -1 in `max_byte_length` is `none`; `live` ends with the finalizer.
`hostSlot` is the `QJSBunHostSlot` behind the field that is passed to the free function, by its
number in the table. -/
structure ArrayBuffer where
  data : Backing
  byteLength : Nat
  maxByteLength : Option Nat
  detached : Bool
  shared : Bool
  freeFunc : FreeFunc
  hostSlot : Option Nat
  live : Bool
  deriving DecidableEq, Repr

def ArrayBuffer.neutered (abuf : ArrayBuffer) : ArrayBuffer :=
  { abuf with data := .null, byteLength := 0, detached := true }

/-- What a transfer has read from its buffer when it starts to allocate the new one. -/
inductive Plan where
  | emptying (maxLen : Option Nat)
  | copying (oldLen newLen : Nat) (maxLen : Option Nat)
  | reallocating (newLen : Nat) (maxLen : Option Nat)
  | moving (newLen : Nat) (maxLen : Option Nat) (data : Backing) (freeFunc : FreeFunc)
    (hostSlot : Option Nat)
  deriving DecidableEq, Repr

inductive Frame where
  /-- In `JS_NewArrayBuffer`. -/
  | creating (pin byteLength : Nat)
  /-- `newArrayBuffer` has thrown and its catch clause has yet to run. -/
  | failed (pin : Nat)
  /-- A frame of the slot table that is not a buffer's: a host function in the making, or a class finalizer. -/
  | hosting
  /-- In the `JS_ToIndex` of a transfer. -/
  | converting (buffer : Nat) (toFixedLength : Bool)
  /-- In the `JS_ToIndex` of a resize. -/
  | resizing (buffer : Nat)
  /-- In the constructor call of a transfer. -/
  | transferring (buffer : Nat) (plan : Plan)
  deriving DecidableEq, Repr

/-- `releases` is not in the source: the pins that were asked to be released, the last one first.
`crashed` tells that the process has read through a null pointer. -/
structure Buffers where
  slots : Slots
  buffers : List ArrayBuffer
  frames : List Frame
  releases : List Nat
  crashed : Bool
  deriving DecidableEq, Repr

namespace Buffers

def add (s : Buffers) (abuf : ArrayBuffer) : Buffers := { s with buffers := s.buffers ++ [abuf] }

def put (s : Buffers) (buffer : Nat) (abuf : ArrayBuffer) : Buffers :=
  { s with buffers := s.buffers.set buffer abuf }

def push (s : Buffers) (frame : Frame) : Buffers := { s with frames := frame :: s.frames }

/-- The request of `qjs_bun_array_buffer_free`. A slot that was freed before is read as it was
left. -/
def release (s : Buffers) (hostSlot : Nat) : Buffers :=
  match s.slots.carriers[hostSlot]? with
  | none => s
  | some carrier => { s with
      slots := s.slots.finalize hostSlot carrier
      releases := carrier.allocation :: s.releases }

/-- `qjs_bun_array_buffer_free`, with its NULL test, or the engine's `js_array_buffer_free`. -/
def freeData (s : Buffers) : FreeFunc → Option Nat → Backing → Buffers
  | .jsArrayBufferFree, _, _ => s
  | .qjsBunArrayBufferFree, _, .null => s
  | .qjsBunArrayBufferFree, none, _ => s
  | .qjsBunArrayBufferFree, some hostSlot, _ => s.release hostSlot

end Buffers

/-- `js_array_buffer_constructor3`. With `allocFlag` the memory is the engine's own. -/
def jsArrayBufferConstructor3 (len : Nat) (maxLen : Option Nat) (shared : Bool) (buf : Backing)
    (freeFunc : FreeFunc) (hostSlot : Option Nat) (allocFlag allocated : Bool) :
    Option ArrayBuffer :=
  if !allocFlag && buf != .null && maxLen.isSome && freeFunc != .jsArrayBufferFree then none
  else if len > int32Max then none
  else if maxLen.any (fun m => decide (m > int32Max)) then none
  else if !allocated then none
  else some {
    data := if allocFlag then .block else buf
    byteLength := len
    maxByteLength := maxLen
    detached := false
    shared
    freeFunc
    hostSlot
    live := true }

def jsArrayBufferConstructor2 (len : Nat) (maxLen : Option Nat) (shared allocated : Bool) :
    Option ArrayBuffer :=
  jsArrayBufferConstructor3 len maxLen shared .null .jsArrayBufferFree none true allocated

/-- `JS_NewArrayBuffer` as `qjs_bun_new_array_buffer` calls it. -/
def jsNewArrayBuffer (len pin hostSlot : Nat) (allocated : Bool) : Option ArrayBuffer :=
  jsArrayBufferConstructor3 len none false (.host pin) .qjsBunArrayBufferFree
    (some hostSlot) false allocated

def jsDetachArrayBuffer (s : Buffers) (buffer : Nat) (abuf : ArrayBuffer) : Buffers :=
  if abuf.shared || abuf.detached then s
  else (s.freeData abuf.freeFunc abuf.hostSlot abuf.data).put buffer abuf.neutered

/-- `maxByteLength` is carried over unless the memory is the host's; `none` is the error for a
length above it. -/
def transferMaxLen (abuf : ArrayBuffer) (toFixedLength : Bool) (newLen : Nat) :
    Option (Option Nat) :=
  if toFixedLength then some none
  else match abuf.maxByteLength with
    | none => some none
    | some maxLen =>
      if newLen > maxLen then none
      else some (if abuf.freeFunc = .jsArrayBufferFree then some maxLen else none)

/-- `js_array_buffer_transfer` from the test of `detached` to the constructor call. -/
def jsArrayBufferTransfer (s : Buffers) (buffer : Nat) (abuf : ArrayBuffer) (toFixedLength : Bool)
    (newLen : Nat) : Buffers :=
  if abuf.detached then s
  else match transferMaxLen abuf toFixedLength newLen with
    | none => s
    | some maxLen =>
      if newLen = 0 then s.push (.transferring buffer (.emptying maxLen))
      else if newLen ≠ abuf.byteLength then
        if newLen > int32Max then s
        else if abuf.freeFunc ≠ .jsArrayBufferFree then
          s.push (.transferring buffer (.copying abuf.byteLength newLen maxLen))
        else s.push (.transferring buffer (.reallocating newLen maxLen))
      else s.push (.transferring buffer
        (.moving newLen maxLen abuf.data abuf.freeFunc abuf.hostSlot))

/-- `js_array_buffer_transfer` from the return of the constructor call to its end. `grown` is the
answer of `js_realloc`, after whose failure the new buffer is freed again. -/
def jsArrayBufferTransferEnd (s : Buffers) (buffer : Nat) (abuf : ArrayBuffer) (plan : Plan)
    (made grown : Bool) : Buffers :=
  match plan with
  | .emptying maxLen =>
    match jsArrayBufferConstructor2 0 maxLen false made with
    | none => s
    | some res => jsDetachArrayBuffer (s.add res) buffer abuf
  | .copying oldLen newLen maxLen =>
    match jsArrayBufferConstructor2 newLen maxLen false made with
    | none => s
    | some res =>
      -- `memcpy` reads from the data of a buffer that may have been detached since
      if abuf.data = .null ∧ 0 < min oldLen newLen then { s with crashed := true }
      else ((s.add res).freeData abuf.freeFunc abuf.hostSlot abuf.data).put buffer abuf.neutered
  | .reallocating newLen maxLen =>
    match jsArrayBufferConstructor2 0 maxLen false made with
    | none => s
    | some res =>
      if !grown then s
      else (s.add { res with byteLength := newLen }).put buffer abuf.neutered
  | .moving newLen maxLen data freeFunc hostSlot =>
    match jsArrayBufferConstructor3 newLen maxLen false data freeFunc hostSlot false made with
    | none => s
    | some res => (s.add res).put buffer abuf.neutered

/-- `js_array_buffer_resize` after its conversion; only memory of the engine can be resized. -/
def jsArrayBufferResize (s : Buffers) (buffer : Nat) (abuf : ArrayBuffer) (len : Nat)
    (grown : Bool) : Buffers :=
  if abuf.detached then s
  else match abuf.maxByteLength with
    | none => s
    | some maxLen =>
      if abuf.freeFunc ≠ .jsArrayBufferFree then s
      else if len > maxLen then s
      else if abuf.shared then
        if len < abuf.byteLength then s else s.put buffer { abuf with byteLength := len }
      else if !grown then s
      else s.put buffer { abuf with byteLength := len, data := .block }

def jsArrayBufferFinalizer (s : Buffers) (buffer : Nat) (abuf : ArrayBuffer) : Buffers :=
  (s.freeData abuf.freeFunc abuf.hostSlot abuf.data).put buffer { abuf with live := false }

def finalizeOne (s : Buffers) (buffer : Nat) : Buffers :=
  match s.buffers[buffer]? with
  | none => s
  | some abuf => if abuf.live then jsArrayBufferFinalizer s buffer abuf else s

/-- `JS_FreeRuntime` finalizes what is left, from the buffer with the given number on. -/
def finalizeFrom (s : Buffers) (buffer : Nat) : Nat → Buffers
  | 0 => s
  | count + 1 => finalizeFrom (finalizeOne s buffer) (buffer + 1) count

inductive BufferEvent where
  /-- `newArrayBuffer`; `slotAllocated` is the answer of the `js_malloc` for the host slot. -/
  | newArrayBuffer (byteLength : Nat) (slotAllocated : Bool)
  /-- `JS_NewArrayBuffer` returns. -/
  | created (allocated : Bool)
  /-- The catch clause of `newArrayBuffer`. -/
  | releaseFailed
  /-- Any other way to make a buffer: constructor, `slice`, `newArrayBufferCopy`. -/
  | construct (byteLength : Nat) (maxByteLength : Option Nat) (shared allocated : Bool)
  | transfer (buffer : Nat) (toFixedLength hasLength : Bool)
  | resize (buffer : Nat)
  /-- `JS_ToIndex` returns, with an exception if there is no index. -/
  | toIndex (index : Option Nat) (grown : Bool)
  /-- The constructor call of a transfer returns. -/
  | constructed (made grown : Bool)
  | detachArrayBuffer (buffer : Nat)
  | collect (buffer : Nat)
  /-- What becomes of host functions, and the class finalizers of the host. -/
  | host (event : SlotEvent)
  | dispose
  deriving DecidableEq, Repr

namespace Buffers

def find (s : Buffers) (buffer : Nat) : Option ArrayBuffer :=
  (s.buffers[buffer]?).filter (·.live)

def newArrayBuffer (s : Buffers) (byteLength : Nat) (slotAllocated : Bool) : Option Buffers :=
  let pin := s.slots.allocations.length
  (s.slots.step (.create .bytes)).bind fun slots =>
    if slotAllocated then some { s with slots, frames := .creating pin byteLength :: s.frames }
    else
      (slots.step .allocationFails).map fun slots =>
        { s with slots, frames := .failed pin :: s.frames }

/-- The answer of `JS_NewArrayBuffer` reaches `newArrayBuffer`, with `rest` below it. -/
def created (s : Buffers) (pin byteLength : Nat) (allocated : Bool) (rest : List Frame) :
    Option Buffers :=
  match jsNewArrayBuffer byteLength pin s.slots.carriers.length allocated with
  | none => (s.slots.step .allocationFails).map fun slots =>
    { s with slots, frames := .failed pin :: rest }
  | some abuf => (s.slots.step .attach).map fun slots => { s with slots, frames := rest }.add abuf

def construct (s : Buffers) (byteLength : Nat) (maxByteLength : Option Nat)
    (shared allocated : Bool) : Buffers :=
  match jsArrayBufferConstructor2 byteLength maxByteLength shared allocated with
  | none => s
  | some abuf => s.add abuf

/-- The frames after something has happened to a host function or a class finalizer. -/
def framesAfter : SlotEvent → List Frame → Option (List Frame)
  | .create .function, frames => some (.hosting :: frames)
  | .enterFinalizer, frames => some (.hosting :: frames)
  | .allocationFails, .hosting :: rest => some (.hosting :: rest)
  | .attach, .hosting :: rest => some (.hosting :: rest)
  | .defineFails _, .hosting :: rest => some (.hosting :: rest)
  | .defined, .hosting :: rest => some rest
  | .catchRelease, .hosting :: rest => some rest
  | .leaveFinalizer, .hosting :: rest => some rest
  | .drop _ _, frames => some frames
  | .collect _, frames => some frames
  | _, _ => none

/-- Whether an event is about the slot of a buffer, which only `freeData` gives up. -/
def shared (s : Buffers) : SlotEvent → Bool
  | .drop hostSlot _ | .collect hostSlot =>
    (s.slots.carriers[hostSlot]?).any fun carrier =>
      kindOf s.slots carrier.allocation == some .bytes
  | _ => false

def host (s : Buffers) (event : SlotEvent) : Option Buffers :=
  if s.shared event then none
  else (framesAfter event s.frames).bind fun frames =>
    (s.slots.step event).map fun slots => { s with slots, frames }

-- The memory of a freed buffer is read as it was left.
def resume (s : Buffers) (buffer : Nat) (rest : List Frame)
    (continue' : Buffers → ArrayBuffer → Buffers) : Option Buffers :=
  (s.buffers[buffer]?).map fun abuf => continue' { s with frames := rest } abuf

def step (s : Buffers) (event : BufferEvent) : Option Buffers :=
  if s.slots.disposed ∨ s.crashed then none
  else match event with
    | .newArrayBuffer byteLength slotAllocated =>
      if byteLength = 0 then some (s.construct 0 none false slotAllocated)
      else s.newArrayBuffer byteLength slotAllocated
    | .created allocated =>
      match s.frames with
      | .creating pin byteLength :: rest => s.created pin byteLength allocated rest
      | _ => none
    | .releaseFailed =>
      match s.frames with
      | .failed pin :: rest =>
        (s.slots.step .catchRelease).map fun slots =>
          { s with slots, frames := rest, releases := pin :: s.releases }
      | _ => none
    | .construct byteLength maxByteLength shared allocated =>
      some (s.construct byteLength maxByteLength shared allocated)
    | .transfer buffer toFixedLength hasLength =>
      (s.find buffer).map fun abuf =>
        if abuf.shared then s
        else if !hasLength then jsArrayBufferTransfer s buffer abuf toFixedLength abuf.byteLength
        else s.push (.converting buffer toFixedLength)
    | .resize buffer => (s.find buffer).map fun _ => s.push (.resizing buffer)
    | .toIndex index grown =>
      match s.frames, index with
      | .converting _ _ :: rest, none => some { s with frames := rest }
      | .converting buffer toFixedLength :: rest, some newLen =>
        s.resume buffer rest fun s abuf => jsArrayBufferTransfer s buffer abuf toFixedLength newLen
      | .resizing _ :: rest, none => some { s with frames := rest }
      | .resizing buffer :: rest, some len =>
        s.resume buffer rest fun s abuf => jsArrayBufferResize s buffer abuf len grown
      | _, _ => none
    | .constructed made grown =>
      match s.frames with
      | .transferring buffer plan :: rest =>
        s.resume buffer rest fun s abuf => jsArrayBufferTransferEnd s buffer abuf plan made grown
      | _ => none
    | .detachArrayBuffer buffer => (s.find buffer).map (jsDetachArrayBuffer s buffer)
    | .collect buffer => (s.find buffer).map (jsArrayBufferFinalizer s buffer)
    | .host event => s.host event
    | .dispose =>
      let ended := finalizeFrom s 0 s.buffers.length
      if s.frames ≠ [] then none else (ended.slots.step .dispose).map fun slots =>
        { ended with slots }

end Buffers

def bufferMachine : Machine Buffers BufferEvent where
  init := ⟨slotMachine.init, [], [], [], false⟩
  step := Buffers.step

end QuickJSBun.Bridge
