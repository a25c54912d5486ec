import QuickJSBun.Library.Buffer

/-! Property names on their way to the host: `qjs_bun_own_keys` packs them into a buffer
of the host, `JSValue.keys` asks again with a larger buffer while they do not fit and
unpacks them.

The bytes of a buffer are unknown when the bridge starts to copy: whatever
an earlier call or a call from inside a guest trap left there must not matter. No guest
code runs from there until the host has unpacked.
-/

set_option autoImplicit false

namespace QuickJSBun.Bridge.Keys

open Library

/-- A text for which the engine can make a C string; the length of a string has 31 bits. -/
structure CString where
  text : Text
  short : (encodeAll text).length < 2 ^ 31

def CString.bytes (name : CString) : Bytes := encodeAll name.text

/-- What the engine lists; `none` stands for an atom whose text cannot be made. -/
inductive Listing where
  | failed
  | listed (names : List (Option CString))

/-! ### The bridge -/

/-- Whether a text failed, the bytes used so far, and the buffer. -/
structure Copied where
  failed : Bool
  used : Nat
  buf : Buffer

/-- The loop of `qjs_bun_own_keys`; an entry that does not fit is counted but not written. -/
def copyNames (capacity : Nat) : List (Option CString) → Nat → Buffer → Copied
  | [], used, buf => ⟨false, used, buf⟩
  | none :: _, used, buf => ⟨true, used, buf⟩
  | some name :: rest, used, buf =>
    let len := name.bytes.length
    let buf :=
      if used + 4 + len ≤ capacity then
        (buf.memcpy used (encodeUInt32LE (len % 2 ^ 32))).memcpy (used + 4) name.bytes
      else buf
    copyNames capacity rest (used + 4 + len) buf

-- The value returned, and the buffer.
def qjsBunOwnKeys (listing : Listing) (buf : Buffer) (capacity : Nat) : Int × Buffer :=
  match listing with
  | .failed => (-1, buf)
  | .listed names =>
    let copied := copyNames capacity names 0 buf
    if copied.failed then (-1, copied.buf)
    else if copied.used ≤ capacity then (names.length, copied.buf)
    else (-copied.used, copied.buf)

/-! ### The host -/

inductive Failure where
  /-- `vm.getException()` -/
  | exception
  /-- `RangeError("QuickJS property names keep growing between reads")` -/
  | growing
  /-- `Buffer.allocUnsafe` throws. -/
  | allocation
  /-- The assertions of `vm.ctx` and `this.ptr`, which every call reads again. -/
  | disposed
  /-- A read of a byte that the last call has not written. -/
  | unwritten
  /-- `String.fromCodePoint` throws. -/
  | codePoint
  deriving DecidableEq, Repr

def readByte (buffer : Buffer) (index : Nat) : Except Failure UInt8 :=
  match buffer.read index with
  | some byte => .ok byte
  | none => .error .unwritten

def readUInt32LE (buffer : Buffer) (offset : Nat) : Except Failure Nat := do
  let a ← readByte buffer offset
  let b ← readByte buffer (offset + 1)
  let c ← readByte buffer (offset + 2)
  let d ← readByte buffer (offset + 3)
  pure (decodeUInt32LE a b c d)

/-- How many bytes follow a first byte: `width` less one. -/
def tail (byte : UInt8) : Nat :=
  if 0xF0 ≤ byte.toNat then 3 else if 0xE0 ≤ byte.toNat then 2
    else if 0xC0 ≤ byte.toNat then 1 else 0

/-- The bits of the first byte: `byte & (0x7f >> width)`. -/
def lead (byte : UInt8) : Nat :=
  if tail byte = 0 then byte.toNat else byte.toNat % 2 ^ (6 - tail byte)

/-- The loop over `offset` inside the one over `index`. -/
def foldTail (buffer : Buffer) (index : Nat) : Nat → Nat → Except Failure Nat
  | 0, code => pure code
  | left + 1, code => do
    let byte ← readByte buffer index
    foldTail buffer (index + 1) left (code * 64 + byte.toNat % 64)

/-- The loop of `utf8` over the bytes of a text with lone surrogates. -/
def decodeLoop (buffer : Buffer) (index stop : Nat) : Except Failure Text :=
  if index < stop then do
    let byte ← readByte buffer index
    let code ← foldTail buffer (index + 1) (tail byte) (lead byte)
    if 0x10FFFF < code then .error .codePoint
    else
      let decoded ← decodeLoop buffer (index + (tail byte + 1)) stop
      pure (fromCodePoint code ++ decoded)
  else pure []
termination_by stop - index

def utf8 (buffer : Buffer) (start stop : Nat) : Except Failure Text :=
  match buffer.slice start stop with
  | none => .error .unwritten
  | some bytes =>
    let text := (decodeReplacing bytes).flatMap fromCodePoint
    if (0xFFFD : UInt16) ∉ text then pure text else decodeLoop buffer start stop

def unpack (scratch : Buffer) : Nat → Nat → Except Failure (List Text)
  | 0, _ => pure []
  | left + 1, offset => do
    let length ← readUInt32LE scratch offset
    let key ← utf8 scratch (offset + 4) (offset + 4 + length)
    let keys ← unpack scratch left (offset + 4 + length)
    pure (key :: keys)

/-- A buffer never changes its length, so `vm.scratch` is known by it. `disposed` is about the value
that is asked for its keys, or its context. -/
structure Vm where
  scratch : Nat
  disposed : Bool

/-- What listing the names does in the call with a given number. Guest traps may call the host back,
which may replace `vm.scratch` and dispose of the value. -/
abbrev Guest := Nat → Vm → Vm × Listing

structure Attempt where
  capacity : Nat
  listing : Listing
  count : Int
  buffer : Buffer
  disposed : Bool

structure Outcome where
  result : Except Failure (List Text)
  attempts : List Attempt
  vm : Vm

/-- A call with the buffer in the local variable `scratch`, whose length was read before. -/
def callOwnKeys (guest : Guest) (call capacity : Nat) (vm : Vm) : Attempt × Vm :=
  let (vm, listing) := guest call vm
  let (count, buffer) := qjsBunOwnKeys listing (.unknown capacity) capacity
  (⟨capacity, listing, count, buffer, vm.disposed⟩, vm)

/-- What follows the loop over `attempt`. -/
def finish (attempt : Attempt) : Except Failure (List Text) :=
  if attempt.count = -1 then .error .exception
  else if attempt.count < -1 then .error .growing
  else unpack attempt.buffer attempt.count.toNat 0

/-- The loop over `attempt`, of which `left` turns are left. -/
def retry (guest : Guest) (allocUnsafe : Nat → Bool) (call : Nat) : Nat → Attempt → Vm → Outcome
  | 0, attempt, vm => ⟨finish attempt, [attempt], vm⟩
  | left + 1, attempt, vm =>
    if attempt.count < -1 then
      let capacity := (-attempt.count * 2).toNat
      if allocUnsafe capacity then
        let vm := { vm with scratch := capacity }
        if vm.disposed then ⟨.error .disposed, [attempt], vm⟩
        else
          let (next, vm) := callOwnKeys guest call capacity vm
          let outcome := retry guest allocUnsafe (call + 1) left next vm
          { outcome with attempts := attempt :: outcome.attempts }
      else ⟨.error .allocation, [attempt], vm⟩
    else ⟨finish attempt, [attempt], vm⟩

/-- `JSValue.keys`; `allocUnsafe` tells for which sizes the host has memory. -/
def keys (guest : Guest) (allocUnsafe : Nat → Bool) (vm : Vm) : Outcome :=
  if vm.disposed then ⟨.error .disposed, [], vm⟩
  else
    let (attempt, vm) := callOwnKeys guest 0 vm.scratch vm
    retry guest allocUnsafe 1 4 attempt vm

/-! ### What the bridge writes -/

-- The entries one after the other, each after its length.
def pack (names : List CString) : Bytes :=
  names.flatMap fun name => encodeUInt32LE name.bytes.length ++ name.bytes

@[simp] theorem pack_nil : pack [] = [] := rfl

theorem pack_cons (name : CString) (names : List CString) :
    pack (name :: names) = encodeUInt32LE name.bytes.length ++ (name.bytes ++ pack names) := by
  simp [pack]

theorem length_pack_cons (name : CString) (names : List CString) :
    (pack (name :: names)).length = 4 + name.bytes.length + (pack names).length := by
  simp [pack_cons, Nat.add_assoc]

theorem length_mod (name : CString) : name.bytes.length % 2 ^ 32 = name.bytes.length := by
  have short := name.short
  apply Nat.mod_eq_of_lt
  simp only [CString.bytes]
  omega

-- Every text is either made or the list has one that is not.
theorem made_or_not (names : List (Option CString)) :
    none ∈ names ∨ ∃ made : List CString, names = made.map some := by
  induction names with
  | nil => exact .inr ⟨[], rfl⟩
  | cons name rest ih =>
    cases name with
    | none => exact .inl List.mem_cons_self
    | some name =>
      rcases ih with missing | ⟨made, rfl⟩
      · exact .inl (List.mem_cons_of_mem _ missing)
      · exact .inr ⟨name :: made, rfl⟩

theorem copyNames_missing {capacity : Nat} {names : List (Option CString)} (missing : none ∈ names)
    (used : Nat) (buf : Buffer) : (copyNames capacity names used buf).failed = true := by
  induction names generalizing used buf with
  | nil => cases missing
  | cons name rest ih =>
    cases name with
    | none => rfl
    | some name =>
      rcases List.mem_cons.mp missing with absurd_ | later
      · cases absurd_
      · exact ih later _ _

theorem copyNames_used (capacity : Nat) (names : List CString) (used : Nat) (buf : Buffer) :
    (copyNames capacity (names.map some) used buf).failed = false ∧
      (copyNames capacity (names.map some) used buf).used = used + (pack names).length := by
  induction names generalizing used buf with
  | nil => exact ⟨rfl, rfl⟩
  | cons name rest ih =>
    obtain ⟨made, counted⟩ := ih (used + 4 + name.bytes.length) _
    refine ⟨made, counted.trans ?_⟩
    rw [length_pack_cons]
    omega

-- When everything fits, the entries stand one after the other behind what stood there before.
theorem copyNames_holds {capacity : Nat} {names : List CString} {used : Nat} {buf : Buffer}
    {before : Bytes} (sized : buf.length = capacity) (fits : used + (pack names).length ≤ capacity)
    (holds : buf.Holds 0 before) (behind : before.length = used) :
    (copyNames capacity (names.map some) used buf).buf.Holds 0 (before ++ pack names) := by
  induction names generalizing used buf before with
  | nil => simpa [copyNames] using holds
  | cons name rest ih =>
    rw [length_pack_cons] at fits
    have room : used + 4 + name.bytes.length ≤ capacity := by omega
    let prefixed := buf.memcpy used (encodeUInt32LE name.bytes.length)
    have small : used + (encodeUInt32LE name.bytes.length).length ≤ buf.length := by
      rw [length_encodeUInt32LE]
      omega
    have prefixedLength : prefixed.length = capacity := (Buffer.length_memcpy small).trans sized
    have prefixedHolds : prefixed.Holds 0 (before ++ encodeUInt32LE name.bytes.length) := by
      rw [Buffer.holds_append, Nat.zero_add, behind]
      exact ⟨holds.memcpy (by omega) (by omega), Buffer.holds_memcpy small⟩
    have large : used + 4 + name.bytes.length ≤ prefixed.length := by omega
    have copiedLength : (prefixed.memcpy (used + 4) name.bytes).length = capacity :=
      (Buffer.length_memcpy large).trans prefixedLength
    have copiedHolds : (prefixed.memcpy (used + 4) name.bytes).Holds 0
        (before ++ encodeUInt32LE name.bytes.length ++ name.bytes) := by
      rw [Buffer.holds_append, Nat.zero_add, List.length_append, length_encodeUInt32LE, behind]
      refine ⟨prefixedHolds.memcpy ?_ (by omega), Buffer.holds_memcpy large⟩
      simp [behind]
    have behindCopied : (before ++ encodeUInt32LE name.bytes.length ++ name.bytes).length =
        used + 4 + name.bytes.length := by
      simp [behind, Nat.add_assoc]
    have later := ih copiedLength (by omega) copiedHolds behindCopied
    rw [pack_cons]
    simp only [List.map_cons, copyNames, if_pos room, length_mod]
    simpa using later

/-! ### What the host reads -/

theorem readByte_holds {buffer : Buffer} {offset : Nat} {bytes : Bytes}
    (holds : buffer.Holds offset bytes) {k : Nat} {byte : UInt8} (found : bytes[k]? = some byte) :
    readByte buffer (offset + k) = .ok byte := by
  rw [readByte, holds.read found]

theorem readUInt32LE_holds {buffer : Buffer} {offset n : Nat}
    (holds : buffer.Holds offset (encodeUInt32LE n)) (bounded : n < 2 ^ 32) :
    readUInt32LE buffer offset = .ok n := by
  have a : readByte buffer offset = .ok (.ofNat n) := readByte_holds (k := 0) holds rfl
  have b : readByte buffer (offset + 1) = .ok (.ofNat (n / 0x100)) :=
    readByte_holds (k := 1) holds rfl
  have c : readByte buffer (offset + 2) = .ok (.ofNat (n / 0x10000)) :=
    readByte_holds (k := 2) holds rfl
  have d : readByte buffer (offset + 3) = .ok (.ofNat (n / 0x1000000)) :=
    readByte_holds (k := 3) holds rfl
  simp only [readUInt32LE, a, b, c, d, bind, Except.bind, pure, Except.pure]
  rw [decodeUInt32LE_encode bounded]

theorem tail_byte {n : Nat} (bounded : n < 256) :
    tail (.ofNat n) =
      if 0xF0 ≤ n then 3 else if 0xE0 ≤ n then 2 else if 0xC0 ≤ n then 1 else 0 := by
  rw [tail, toNat_byte bounded]

theorem lead_byte {n : Nat} (bounded : n < 256) :
    lead (.ofNat n) = if tail (.ofNat n) = 0 then n else n % 2 ^ (6 - tail (.ofNat n)) := by
  rw [lead, toNat_byte bounded]

-- The first byte of a code point tells how many follow, and together they give it back.
theorem tail_encodePoint {c : Nat} (bounded : c < 0x110000) :
    ∃ first rest, encodePoint c = first :: rest ∧ rest.length = tail first ∧
      rest.foldl (fun code byte => code * 64 + byte.toNat % 64) (lead first) = c := by
  have follow (n : Nat) : (UInt8.ofNat (0x80 + n % 64)).toNat = 0x80 + n % 64 :=
    toNat_byte (by omega)
  unfold encodePoint
  by_cases one : c < 0x80
  · have width : tail (.ofNat c) = 0 := by
      rw [tail_byte (by omega), if_neg (by omega), if_neg (by omega), if_neg (by omega)]
    refine ⟨.ofNat c, [], if_pos one, width.symm, ?_⟩
    rw [List.foldl_nil, lead_byte (by omega), if_pos width]
  rw [if_neg one]
  by_cases two : c < 0x800
  · have width : tail (.ofNat (0xC0 + c / 64)) = 1 := by
      rw [tail_byte (by omega), if_neg (by omega), if_neg (by omega), if_pos (by omega)]
    have bits : lead (.ofNat (0xC0 + c / 64)) = (0xC0 + c / 64) % 32 := by
      rw [lead_byte (by omega), width]
      rfl
    refine ⟨_, _, if_pos two, width.symm, ?_⟩
    simp only [List.foldl_cons, List.foldl_nil, follow, bits]
    omega
  rw [if_neg two]
  by_cases three : c < 0x10000
  · have width : tail (.ofNat (0xE0 + c / 4096)) = 2 := by
      rw [tail_byte (by omega), if_neg (by omega), if_pos (by omega)]
    have bits : lead (.ofNat (0xE0 + c / 4096)) = (0xE0 + c / 4096) % 16 := by
      rw [lead_byte (by omega), width]
      rfl
    refine ⟨_, _, if_pos three, width.symm, ?_⟩
    simp only [List.foldl_cons, List.foldl_nil, follow, bits]
    omega
  · have width : tail (.ofNat (0xF0 + c / 262144)) = 3 := by
      rw [tail_byte (by omega), if_pos (by omega)]
    have bits : lead (.ofNat (0xF0 + c / 262144)) = (0xF0 + c / 262144) % 8 := by
      rw [lead_byte (by omega), width]
      rfl
    refine ⟨_, _, if_neg three, width.symm, ?_⟩
    simp only [List.foldl_cons, List.foldl_nil, follow, bits]
    omega

theorem foldTail_holds {buffer : Buffer} {index : Nat} {bytes : Bytes}
    (holds : buffer.Holds index bytes) (code : Nat) :
    foldTail buffer index bytes.length code =
      .ok (bytes.foldl (fun code byte => code * 64 + byte.toNat % 64) code) := by
  induction bytes generalizing index code with
  | nil => rfl
  | cons byte rest ih =>
    have first : readByte buffer index = .ok byte := readByte_holds (k := 0) holds rfl
    simp only [List.length_cons, foldTail, first, bind, Except.bind, List.foldl_cons]
    exact ih (Buffer.holds_cons.mp holds).2 _

-- The loop renders every text, whether or not surrogates stand alone in it.
theorem decodeLoop_holds {buffer : Buffer} {index : Nat} {points : List Nat}
    (bounded : ∀ c ∈ points, c < 0x110000)
    (holds : buffer.Holds index (points.flatMap encodePoint)) :
    decodeLoop buffer index (index + (points.flatMap encodePoint).length) =
      .ok (points.flatMap fromCodePoint) := by
  induction points generalizing index with
  | nil =>
    rw [decodeLoop, if_neg (by simp)]
    rfl
  | cons c rest ih =>
    obtain ⟨first, tail_, shape, width, folded⟩ := tail_encodePoint (bounded c List.mem_cons_self)
    rw [List.flatMap_cons, Buffer.holds_append, shape] at holds
    have later := ih (fun d member => bounded d (List.mem_cons_of_mem _ member)) holds.2
    have firstByte : readByte buffer index = .ok first := readByte_holds (k := 0) holds.1 rfl
    have tailBytes := foldTail_holds (Buffer.holds_cons.mp holds.1).2 (lead first)
    have stop : index + ((c :: rest).flatMap encodePoint).length =
        index + (tail first + 1) + (rest.flatMap encodePoint).length := by
      rw [List.flatMap_cons, shape, List.length_append, List.length_cons, width]
      omega
    rw [List.length_cons, width] at later
    have code : ¬0x10FFFF < c := by
      have := bounded c List.mem_cons_self
      omega
    rw [width, folded] at tailBytes
    rw [decodeLoop, if_pos (by omega), stop]
    simp only [firstByte, tailBytes, bind, Except.bind, if_neg code, Nat.add_assoc] at later ⊢
    rw [later]
    rfl

-- What `utf8` makes of the bytes of a text is the text.
theorem utf8_holds {buffer : Buffer} {start : Nat} {text : Text}
    (holds : buffer.Holds start (encodeAll text)) :
    utf8 buffer start (start + (encodeAll text).length) = .ok text := by
  simp only [utf8, holds.slice]
  split
  · next clean => rw [decodeReplacing_encodeAll clean]; rfl
  · have looped := decodeLoop_holds (codePoints_lt text) holds
    rwa [flatMap_fromCodePoint] at looped

theorem unpack_holds {scratch : Buffer} {names : List CString} {offset : Nat}
    (holds : scratch.Holds offset (pack names)) :
    unpack scratch names.length offset = .ok (names.map CString.text) := by
  induction names generalizing offset with
  | nil => rfl
  | cons name rest ih =>
    rw [pack_cons, Buffer.holds_append, Buffer.holds_append, length_encodeUInt32LE] at holds
    obtain ⟨prefixed, written, others⟩ := holds
    have short : name.bytes.length < 2 ^ 32 := by
      have := name.short
      simp only [CString.bytes]
      omega
    have key : utf8 scratch (offset + 4) (offset + 4 + name.bytes.length) = .ok name.text :=
      utf8_holds written
    simp only [List.length_cons, unpack, readUInt32LE_holds prefixed short, key, ih others, bind,
      Except.bind]
    rfl

/-! ### Single calls -/

-- The bytes the names of a call need.
def Attempt.needed (attempt : Attempt) : Nat := (-attempt.count).toNat

/-- How a call answers: an exception, every name packed in order, or the size that would have
done. -/
inductive Attempt.Exact (attempt : Attempt) : Prop where
  | failed : attempt.listing = .failed → attempt.count = -1 → Exact attempt
  | missing (names : List (Option CString)) : attempt.listing = .listed names → none ∈ names →
      attempt.count = -1 → Exact attempt
  | packed (names : List CString) : attempt.listing = .listed (names.map some) →
      (pack names).length ≤ attempt.capacity → attempt.count = names.length →
      attempt.buffer.Holds 0 (pack names) → Exact attempt
  | short (names : List CString) : attempt.listing = .listed (names.map some) →
      attempt.capacity < (pack names).length → attempt.count = -(pack names).length →
      attempt.count < -1 → Exact attempt

theorem callOwnKeys_exact (guest : Guest) (call : Nat) {capacity : Nat} (large : 4096 ≤ capacity)
    (vm : Vm) : (callOwnKeys guest call capacity vm).1.Exact := by
  cases listing : (guest call vm).2 with
  | failed => exact .failed listing (by simp [callOwnKeys, listing, qjsBunOwnKeys])
  | listed names =>
    rcases made_or_not names with missing | ⟨made, rfl⟩
    · have failed := @copyNames_missing capacity _ missing 0 (.unknown capacity)
      exact .missing names listing missing (by simp [callOwnKeys, listing, qjsBunOwnKeys, failed])
    · obtain ⟨all, used⟩ := copyNames_used capacity made 0 (.unknown capacity)
      rw [Nat.zero_add] at used
      by_cases fits : (pack made).length ≤ capacity
      · have holds :=
          @copyNames_holds capacity _ _ (.unknown capacity) [] (Buffer.length_unknown capacity)
          (by simpa using fits) (Buffer.holds_nil _ 0) rfl
        refine .packed made listing fits ?_ ?_
        · simp [callOwnKeys, listing, qjsBunOwnKeys, all, used, fits]
        · simpa [callOwnKeys, listing, qjsBunOwnKeys, all, used, fits] using holds
      · have count : (callOwnKeys guest call capacity vm).1.count = -(pack made).length := by
          simp [callOwnKeys, listing, qjsBunOwnKeys, all, used, fits]
        exact .short made listing (Nat.lt_of_not_le fits) count (by omega)

def Attempt.Ends (attempt : Attempt) : Except Failure (List Text) → Prop
  | .ok keys => ∃ names : List CString, attempt.listing = .listed (names.map some) ∧
      keys = names.map CString.text
  | .error .exception => attempt.count = -1
  | .error .growing => attempt.count < -1
  | .error _ => False

theorem finish_ends {attempt : Attempt} (exact_ : attempt.Exact) :
    attempt.Ends (finish attempt) := by
  unfold finish
  cases exact_ with
  | failed _ count => rw [if_pos count]; exact count
  | missing _ _ _ count => rw [if_pos count]; exact count
  | packed names listed _ count holds =>
    rw [if_neg (by omega), if_neg (by omega), count, Int.toNat_natCast, unpack_holds holds]
    exact ⟨names, listed, rfl⟩
  | short _ _ _ _ below => rw [if_neg (by omega), if_pos below]; exact below

/-! ### The attempts -/

/-- Every call asks with twice what the one before it said was needed. -/
def Doubling (attempts : List Attempt) : Prop :=
  attempts.IsChain fun before after => before.count < -1 ∧ after.capacity = 2 * before.needed

/-- How `keys` ends after its last call: as that call tells, or because it cannot ask again. -/
def Outcome.EndsAfter (outcome : Outcome) (allocUnsafe : Nat → Bool) (last : Attempt) : Prop :=
  (outcome.result = .error .allocation ∧ last.count < -1 ∧ allocUnsafe (2 * last.needed) = false) ∨
    (outcome.result = .error .disposed ∧ last.count < -1 ∧ last.disposed = true) ∨
    last.Ends outcome.result

/-- What is true of the attempts of one call of `keys`, of which `left` may still be repeated. -/
structure Outcome.Bounded (outcome : Outcome) (allocUnsafe : Nat → Bool) (first : Attempt)
    (left : Nat) : Prop where
  head : outcome.attempts.head? = some first
  length : outcome.attempts.length ≤ left + 1
  exact_ : ∀ attempt ∈ outcome.attempts, attempt.Exact
  doubling : Doubling outcome.attempts
  ends : ∃ last, outcome.attempts.getLast? = some last ∧ outcome.EndsAfter allocUnsafe last
  growing : outcome.result = .error .growing → outcome.attempts.length = left + 1

theorem Outcome.Bounded.done {allocUnsafe : Nat → Bool} {attempt : Attempt} (exact_ : attempt.Exact)
    (vm : Vm) {left : Nat} (over_ : attempt.count < -1 → left = 0) :
    (Outcome.mk (finish attempt) [attempt] vm).Bounded allocUnsafe attempt left where
  head := rfl
  length := by simp
  exact_ := by simpa using exact_
  doubling := .singleton _
  ends := ⟨attempt, rfl, .inr (.inr (finish_ends exact_))⟩
  growing fails := by
    have ends := finish_ends exact_
    rw [show finish attempt = .error .growing from fails] at ends
    simp [over_ ends]

theorem Outcome.Bounded.stopped {allocUnsafe : Nat → Bool} {attempt : Attempt}
    (exact_ : attempt.Exact) {failure : Failure} (vm : Vm) (left : Nat) (other : failure ≠ .growing)
    (ends : (Outcome.mk (.error failure) [attempt] vm).EndsAfter allocUnsafe attempt) :
    (Outcome.mk (.error failure) [attempt] vm).Bounded allocUnsafe attempt left where
  head := rfl
  length := by simp
  exact_ := by simpa using exact_
  doubling := .singleton _
  ends := ⟨attempt, rfl, ends⟩
  growing fails := absurd (Except.error.inj fails) other

-- One attempt more in front, when the next asked with twice the size.
theorem Outcome.Bounded.cons {allocUnsafe : Nat → Bool} {attempt next : Attempt} {left : Nat}
    {outcome : Outcome} (later : outcome.Bounded allocUnsafe next left) (exact_ : attempt.Exact)
    (below : attempt.count < -1) (doubled : next.capacity = 2 * attempt.needed) :
    ({ outcome with attempts := attempt :: outcome.attempts } : Outcome).Bounded allocUnsafe
      attempt (left + 1) := by
  obtain ⟨rest, shape⟩ := List.head?_eq_some_iff.mp later.head
  constructor
  · rfl
  · simpa using later.length
  · simpa using ⟨exact_, later.exact_⟩
  · have chain := later.doubling
    rw [shape] at chain
    rw [shape]
    exact .cons_cons ⟨below, doubled⟩ chain
  · obtain ⟨last, isLast, ends⟩ := later.ends
    refine ⟨last, ?_, ends⟩
    rw [shape] at isLast
    rw [shape, List.getLast?_cons_cons]
    exact isLast
  · simpa using later.growing

theorem retry_bounded (guest : Guest) (allocUnsafe : Nat → Bool) (call left : Nat)
    {attempt : Attempt} (vm : Vm) (large : 4096 ≤ attempt.capacity) (exact_ : attempt.Exact)
    (same : vm.disposed = attempt.disposed) :
    (retry guest allocUnsafe call left attempt vm).Bounded allocUnsafe attempt left := by
  induction left generalizing call attempt vm with
  | zero => exact .done exact_ vm fun _ => rfl
  | succ left ih =>
    simp only [retry]
    split
    · next below =>
        have doubled : (-attempt.count * 2).toNat = 2 * attempt.needed := by
          simp only [Attempt.needed]
          omega
        rw [doubled]
        split
        · next allocated =>
            have larger : 4096 ≤ 2 * attempt.needed := by
              cases exact_ with
              | failed _ count | missing _ _ _ count | packed _ _ _ count => omega
              | short names _ over_ count =>
                simp only [Attempt.needed]
                omega
            split
            · next gone =>
                exact .stopped exact_ _ _ nofun (.inr (.inl ⟨rfl, below, same.symm.trans gone⟩))
            · let grown : Vm := { vm with scratch := 2 * attempt.needed }
              have nextExact := callOwnKeys_exact guest call larger grown
              have later :=
                ih (call + 1) (callOwnKeys guest call (2 * attempt.needed) grown).2 larger
                  nextExact rfl
              exact later.cons exact_ below rfl
        · next refused =>
            exact .stopped exact_ _ _ nofun (.inl ⟨rfl, below, by simpa using refused⟩)
    · next above => exact .done exact_ vm fun below => absurd below above

theorem retry_done (guest : Guest) (allocUnsafe : Nat → Bool) (call left : Nat) {attempt : Attempt}
    {vm : Vm} (enough : ¬attempt.count < -1) :
    retry guest allocUnsafe call left attempt vm = ⟨finish attempt, [attempt], vm⟩ := by
  cases left with
  | zero => rfl
  | succ left => rw [retry, if_neg enough]

theorem listed_inj {names others : List CString}
    (same : Listing.listed (names.map some) = Listing.listed (others.map some)) : names = others :=
  (List.map_inj_right fun _ _ => Option.some.inj).mp (Listing.listed.inj same)

theorem Attempt.Exact.listed {attempt : Attempt} {names : List CString} (exact_ : attempt.Exact)
    (listed : attempt.listing = .listed (names.map some)) :
    ((pack names).length ≤ attempt.capacity ∧ ¬attempt.count < -1 ∧
      finish attempt = .ok (names.map CString.text)) ∨
      (attempt.capacity < (pack names).length ∧ attempt.count < -1 ∧
        attempt.needed = (pack names).length) := by
  cases exact_ with
  | failed failed _ => cases failed.symm.trans listed
  | missing others others_ missing _ =>
    obtain rfl := Listing.listed.inj (others_.symm.trans listed)
    obtain ⟨_, -, absurd_⟩ := List.mem_map.mp missing
    cases absurd_
  | packed others others_ fits count holds =>
    obtain rfl := listed_inj (others_.symm.trans listed)
    refine .inl ⟨fits, by omega, ?_⟩
    rw [finish, if_neg (by omega), if_neg (by omega), count, Int.toNat_natCast, unpack_holds holds]
  | short others others_ over_ count below =>
    obtain rfl := listed_inj (others_.symm.trans listed)
    refine .inr ⟨over_, below, ?_⟩
    simp only [Attempt.needed]
    omega

-- An object whose names do not change is asked at most twice.
theorem retry_unchanging {guest : Guest} {allocUnsafe : Nat → Bool} {names : List CString}
    (unchanging : ∀ call vm, (guest call vm).2 = .listed (names.map some))
    (allocates : allocUnsafe (2 * (pack names).length) = true) (call left : Nat) {attempt : Attempt}
    {vm : Vm} (undisposed : vm.disposed = false) (large : 4096 ≤ attempt.capacity)
    (exact_ : attempt.Exact) (listed : attempt.listing = .listed (names.map some)) :
    (retry guest allocUnsafe call (left + 1) attempt vm).result = .ok (names.map CString.text) ∧
      (retry guest allocUnsafe call (left + 1) attempt vm).attempts.length ≤ 2 := by
  rcases exact_.listed listed with ⟨-, enough, finished⟩ | ⟨over_, below, needed⟩
  · rw [retry_done guest allocUnsafe call (left + 1) enough, finished]
    exact ⟨rfl, by simp⟩
  · have doubled : (-attempt.count * 2).toNat = 2 * (pack names).length := by
      simp only [Attempt.needed] at needed
      omega
    let grown : Vm := ⟨2 * (pack names).length, false⟩
    have next := callOwnKeys_exact guest call (show 4096 ≤ 2 * (pack names).length by omega) grown
    rcases next.listed (unchanging call _) with ⟨-, enough, finished⟩ | ⟨over_, -, -⟩
    · have again : retry guest allocUnsafe call (left + 1) attempt vm =
          ⟨.ok (names.map CString.text),
            [attempt, (callOwnKeys guest call (2 * (pack names).length) grown).1],
            (callOwnKeys guest call (2 * (pack names).length) grown).2⟩ := by
        rw [retry, if_pos below]
        simp only [doubled, if_pos allocates, undisposed, Bool.false_eq_true, if_false]
        rw [retry_done guest allocUnsafe (call + 1) left enough, finished]
      rw [again]
      exact ⟨rfl, Nat.le_refl 2⟩
    · have sized : (callOwnKeys guest call (2 * (pack names).length) grown).1.capacity = 2 *
          (pack names).length := rfl
      omega

/-- `keys` asks at most five times, each time with twice the size that was needed before; it gives
exactly the names that the last call saw, and reads nothing that call has not written; an object
that does not change is asked at most twice. Where the value is disposed of it asks no more. -/
theorem keys_exact (guest : Guest) (allocUnsafe : Nat → Bool) (vm : Vm)
    (large : 4096 ≤ vm.scratch) : let outcome := keys guest allocUnsafe vm
    outcome.attempts.length ≤ 5 ∧ (∀ attempt ∈ outcome.attempts, attempt.Exact) ∧
    Doubling outcome.attempts ∧
    (vm.disposed = true → outcome.attempts = [] ∧ outcome.result = .error .disposed) ∧
    (vm.disposed = false → ∃ last, outcome.attempts.getLast? = some last ∧
      outcome.EndsAfter allocUnsafe last) ∧
    (outcome.result = .error .growing → outcome.attempts.length = 5) ∧
    ∀ names : List CString, (∀ call vm, (guest call vm).2 = .listed (names.map some)) →
      allocUnsafe (2 * (pack names).length) = true → vm.disposed = false →
      (guest 0 vm).1.disposed = false →
      outcome.result = .ok (names.map CString.text) ∧ outcome.attempts.length ≤ 2 := by
  intro outcome
  have first := callOwnKeys_exact guest 0 large vm
  cases gone : vm.disposed with
  | true =>
    have none : outcome = ⟨.error .disposed, [], vm⟩ := if_pos gone
    rw [none]
    refine ⟨Nat.zero_le 5, nofun, .nil, fun _ => ⟨rfl, rfl⟩, nofun, nofun, ?_⟩
    intro names _ _ absurd_
    cases absurd_
  | false =>
    have asked : outcome = retry guest allocUnsafe 1 4 (callOwnKeys guest 0 vm.scratch vm).1
        (callOwnKeys guest 0 vm.scratch vm).2 := if_neg (by simp [gone])
    have bounded : outcome.Bounded allocUnsafe _ 4 :=
      asked ▸ retry_bounded guest allocUnsafe 1 4 _ large first rfl
    refine ⟨bounded.length, bounded.exact_, bounded.doubling, nofun, fun _ =>
      bounded.ends, bounded.growing, ?_⟩
    intro names unchanging allocates _ kept
    rw [asked]
    exact retry_unchanging unchanging allocates 1 3 kept large first (unchanging 0 vm)

/-- Two names, one of them empty and one with a NUL and a lone surrogate. -/
theorem keys_exact_surrogate :
    let empty : CString := ⟨[], by decide⟩
    let odd : CString := ⟨[0, 0xD800], by decide⟩
    (keys (fun _ vm => (vm, .listed ([empty, odd].map some)))
      (fun _ => true) ⟨4096, false⟩).result = .ok [[], [0, 0xD800]] := by
  intro empty odd
  obtain ⟨-, -, -, -, -, -, unchanging⟩ :=
    keys_exact (fun _ vm => (vm, .listed ([empty, odd].map some))) (fun _ => true)
      ⟨4096, false⟩ (by decide)
  exact (unchanging [empty, odd] (fun _ _ => rfl) rfl rfl rfl).1

end QuickJSBun.Bridge.Keys
