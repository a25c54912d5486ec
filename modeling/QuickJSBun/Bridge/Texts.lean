import QuickJSBun.Bridge.Keys
import QuickJSBun.Engine.CStrings
import QuickJSBun.Engine.JsonStrings

/-! Texts between the host and the engine: `newString` hands one over as UTF-8, or as a
JSON text where a surrogate stands alone in it, and `#text` reads one back through the
scratch buffer of the context, which it replaces where it is too small.

The host has its own limits, on the length of its strings and on the size of its buffers.
What the engine cannot do for want of memory it throws.
-/

set_option autoImplicit false

namespace QuickJSBun.Bridge.Texts

open Library Engine.Strings

/-- The longest string of the host, and the largest of its buffers. -/
structure Host where
  strings : Nat
  buffers : Nat

inductive TextFailure where
  /-- `vm.getException()` -/
  | exception
  /-- The host throws a `RangeError` of its own. -/
  | host
  | utf8 (failure : Keys.Failure)
  /-- The engine has done what C leaves undefined. -/
  | undefined

/-- The state is the number of calls of the allocator of the engine. -/
abbrev Hosted := Effect Nat TextFailure

/-- A call of the engine; none where it leaves an exception pending. -/
def call {α : Type} (x : Making α) : Hosted (Option α) := ⟨fun calls =>
  match x.run calls with
  | (.ok a, calls) => (.ok (some a), calls)
  | (.error .undefined, calls) => (.error .undefined, calls)
  | (.error .otherValue, calls) => (.error .undefined, calls)
  | (.error _, calls) => (.ok none, calls)⟩

def resultValue {α : Type} : Option α → Hosted α
  | some value => pure value
  | none => Effect.throw .exception

section
variable (memory : Memory) (host : Host)

/-! ### To the engine -/

/-- `encoder.encode` -/
def encoder (text : Text) : Hosted Bytes :=
  if (encode text).length ≤ host.buffers then pure (encode text) else Effect.throw .host

def stringify (value : Text) : Hosted Text :=
  if (quote value).length ≤ host.strings then pure (quote value) else Effect.throw .host

def parseJson (text : Text) : Hosted StringValue := do
  Effect.check (decide (text.length + 1 ≤ host.strings)) .host
  let source ← encoder host (text ++ [0])
  let value ← resultValue (← call (jsParseJson memory source))
  pure (.string value)

def newString (value : Text) : Hosted StringValue :=
  if !isWellFormed value then do
    let json ← stringify host value
    parseJson memory host json
  else do
    let text ← encoder host value
    let value ← resultValue (← call (jsNewStringLen memory text))
    pure (.string value)

/-! ### From the engine -/

/-- `qjs_bun_to_cstring_copy`: the length, the buffer, and the value that may have been updated. -/
def toCstringCopy (v : StringValue) (buf : Buffer) : Hosted (Int × Buffer × StringValue) := do
  match ← call (jsToCStringLen2 memory v) with
  | none => pure (-1, buf, v)
  | some (text, v) =>
    let buf := if text.len ≤ buf.length then buf.memcpy 0 (text.bytes.take text.len) else buf
    pure (text.len, buf, v)

def decode (length : Int) (scratch : Buffer) : Hosted Text :=
  if length < 0 then Effect.throw .exception
  else match Keys.utf8 scratch 0 length.toNat with
    | .ok text => pure text
    | .error failure => Effect.throw (.utf8 failure)

/-- `JSValue.#text`: the text, and the size of `vm.scratch` afterwards. -/
def text (scratch : Nat) (v : StringValue) : Hosted (Text × Nat) := do
  let (length, buffer, v) ← toCstringCopy memory v (.unknown scratch)
  if scratch < length then do
    let capacity := (length * 2).toNat
    Effect.check (decide (capacity ≤ host.buffers)) .host
    let (length, buffer, _) ← toCstringCopy memory v (.unknown capacity)
    let text ← decode length buffer
    pure (text, capacity)
  else do
    let text ← decode length buffer
    pure (text, scratch)

/-- A text made by `newString` and read back by `toString`. -/
def roundTrip (scratch : Nat) (value : Text) : Hosted (Text × Nat) := do
  let v ← newString memory host value
  text memory host scratch v

end

/-! ### Single calls -/

section
variable {memory : Memory} {host : Host} {α : Type}

/-- The host has room for twice the bytes of any string of the engine. -/
def Host.Roomy (host : Host) : Prop := 2 ^ 32 ≤ host.buffers

theorem call_makes {x : Making α} {post : α → Prop} (makes : Makes memory x post) :
    Effect.Triple (fun _ => True) (call x)
      (fun result _ => (∃ a, result = some a ∧ post a) ∨ (result = none ∧ ¬memory.Ample)) fun _ _ =>
        False := by
  intro calls start
  have ends := makes.triple calls start
  unfold call
  split at ends
  · next a calls' runs =>
      simp only [runs]
      exact .inl ⟨a, rfl, ends⟩
  · next failure calls' runs =>
      obtain ⟨rfl, starved⟩ := ends
      simp only [runs]
      exact .inr ⟨trivial, starved⟩

theorem call_never {x : Making α} (never : Never x) :
    Effect.Triple (fun _ => True) (call x) (fun result _ => result = none) fun _ _ => True := by
  intro calls start
  have ends := never.triple calls start
  unfold call
  split at ends
  · exact ends.elim
  · next failure calls' runs =>
      cases failure <;> simp [runs]

theorem resultValue_ends {result : Option α} {post : α → Prop}
    (ends : (∃ a, result = some a ∧ post a) ∨ (result = none ∧ ¬memory.Ample)) :
    Effect.Triple (fun _ => True) (resultValue result) (fun a _ => post a)
      fun e _ => e = .exception ∧ ¬memory.Ample := by
  rcases ends with ⟨a, rfl, holds⟩ | ⟨rfl, starved⟩
  · exact Effect.Triple.pure a fun _ _ => holds
  · exact Effect.Triple.throw _ fun _ _ => ⟨rfl, starved⟩

/-- What a copy gives: all bytes of the text where they fit, and their number in any case. -/
structure Copied (v : StringValue) (buf : Buffer) (copied : Int × Buffer × StringValue) : Prop where
  length : copied.1 = (encodeAll v.text).length
  holds : (encodeAll v.text).length ≤ buf.length → copied.2.1.Holds 0 (encodeAll v.text)
  valid : copied.2.2.Valid
  same : copied.2.2.text = v.text
  sameWide : copied.2.2.isWideChar = v.isWideChar

theorem toCstringCopy_ends {v : StringValue} (valid : v.Valid)
    (fits : v.isWideChar = true → 3 * v.text.length < 0x80000000) (buf : Buffer) :
    Effect.Triple (fun _ => True) (toCstringCopy memory v buf)
      (fun copied _ => Copied v buf copied ∨ (copied.1 = -1 ∧ ¬memory.Ample)) fun _ _ => False := by
  unfold toCstringCopy
  refine Effect.Triple.bind (call_makes (jsToCStringLen2_makes valid fits)) fun result => ?_
  refine Effect.Triple.each fun calls ends => ?_
  rcases ends with ⟨⟨made, v'⟩, rfl, encoded⟩ | ⟨rfl, starved⟩
  · refine Effect.Triple.pure _ fun _ _ =>
      .inl ⟨?_, fun room => ?_, encoded.valid, encoded.same, encoded.sameWide⟩
    · exact congrArg Nat.cast encoded.len
    · have bytes : made.bytes.take made.len = encodeAll v.text := by
        rw [encoded.bytes, encoded.len, List.take_length]
      dsimp only
      rw [encoded.len, if_pos room, ← encoded.len, bytes]
      exact Buffer.holds_memcpy (by omega)
  · exact Effect.Triple.pure _ fun _ _ => .inr ⟨rfl, starved⟩

theorem toCstringCopy_never {v : StringValue} (valid : v.Valid) (wide : v.isWideChar = true)
    (large : 0x80000000 ≤ 3 * v.text.length) (buf : Buffer) :
    Effect.Triple (fun _ => True) (toCstringCopy memory v buf)
      (fun copied _ => copied.1 = -1) fun _ _ => True := by
  unfold toCstringCopy
  refine Effect.Triple.bind (call_never (jsToCStringLen2_never valid wide large)) fun result => ?_
  refine Effect.Triple.each fun calls none => ?_
  subst none
  exact Effect.Triple.pure _ fun _ _ => rfl

theorem decode_ends {v : StringValue} {buf : Buffer} {copied : Int × Buffer × StringValue}
    (ends : Copied v buf copied ∨ (copied.1 = -1 ∧ ¬memory.Ample))
    (room : copied.1 ≤ buf.length) :
    Effect.Triple (fun _ => True) (decode copied.1 copied.2.1) (fun text _ => text = v.text)
      fun e _ => e = .exception ∧ ¬memory.Ample := by
  unfold decode
  rcases ends with copies | ⟨failed, starved⟩
  · rw [copies.length] at room ⊢
    have decoded := Keys.utf8_holds (copies.holds (by omega))
    rw [Nat.zero_add] at decoded
    rw [if_neg (by omega), Int.toNat_natCast, decoded]
    exact Effect.Triple.pure _ fun _ _ => rfl
  · rw [failed, if_pos (by decide)]
    exact Effect.Triple.throw _ fun _ _ => ⟨rfl, starved⟩

/-- Why a text may not come: the engine lacks memory, or the host room for a larger buffer. -/
def Wants (memory : Memory) (room : Prop) (e : TextFailure) : Prop :=
  (e = .exception ∧ ¬memory.Ample) ∨ (e = .host ∧ ¬room)

/-! ### Reading -/

theorem text_ends {v : StringValue} (valid : v.Valid)
    (fits : v.isWideChar = true → 3 * v.text.length < 0x80000000) (scratch : Nat) :
    Effect.Triple (fun _ => True) (text memory host scratch v) (fun read _ => read.1 = v.text)
      fun e _ => Wants memory host.Roomy e := by
  unfold text
  refine Effect.Triple.bind ((toCstringCopy_ends valid fits (.unknown scratch)).throwless)
    fun copied => ?_
  refine Effect.Triple.each fun calls ends => ?_
  obtain ⟨length, buffer, v'⟩ := copied
  dsimp only
  by_cases grows : (scratch : Int) < length
  · rw [if_pos grows]
    obtain ⟨told, -, valid', same, sameWide⟩ :
        Copied v (.unknown scratch) (length, buffer, v') := by
      rcases ends with copies | ⟨failed, -⟩
      · exact copies
      · change length = -1 at failed
        omega
    change length = _ at told
    change v'.text = _ at same
    change v'.isWideChar = _ at sameWide
    have bytes := StringValue.length_encoded valid fits
    have room : host.Roomy → (length * 2).toNat ≤ host.buffers := by
      intro roomy
      unfold Host.Roomy at roomy
      omega
    refine Effect.Triple.bind (Q := fun _ _ => True) ?_ fun _ => ?_
    · exact Effect.Triple.check (fun _ _ _ => trivial) fun _ _ small =>
        .inr ⟨rfl, fun roomy => of_decide_eq_false small (room roomy)⟩
    have fits' : v'.isWideChar = true → 3 * v'.text.length < 0x80000000 := by rwa [same, sameWide]
    refine Effect.Triple.bind
      ((toCstringCopy_ends valid' fits' (.unknown (length * 2).toNat)).throwless) fun second => ?_
    refine Effect.Triple.each fun _ again => ?_
    refine Effect.Triple.bind (Q := fun text _ => text = v.text) ?_ fun text => ?_
    · have fills : second.1 ≤ (Buffer.unknown (length * 2).toNat).length := by
        rw [Buffer.length_unknown]
        rcases again with copies | ⟨failed, -⟩
        · rw [copies.length, same, ← told]
          omega
        · omega
      have read := decode_ends again fills
      rw [same] at read
      exact read.weaken (fun _ _ => trivial) (fun _ _ same => same) fun _ _ starved => .inl starved
    · exact Effect.Triple.pure _ fun _ same => same
  · rw [if_neg grows]
    refine Effect.Triple.bind (Q := fun text _ => text = v.text) ?_ fun text => ?_
    · have read := decode_ends ends (by simpa using Int.not_lt.mp grows)
      exact read.weaken (fun _ _ => trivial) (fun _ _ same => same) fun _ _ starved => .inl starved
    · exact Effect.Triple.pure _ fun _ same => same

theorem text_never {v : StringValue} (valid : v.Valid) (wide : v.isWideChar = true)
    (large : 0x80000000 ≤ 3 * v.text.length) (scratch : Nat) :
    Effect.Triple (fun _ => True) (text memory host scratch v)
      (fun _ _ => False) fun _ _ => True := by
  unfold text
  refine Effect.Triple.bind (toCstringCopy_never valid wide large (.unknown scratch)) fun copied =>
    ?_
  refine Effect.Triple.each fun calls failed => ?_
  obtain ⟨length, buffer, v'⟩ := copied
  change length = -1 at failed
  dsimp only
  rw [if_neg (by omega), failed]
  refine Effect.Triple.bind (Q := fun _ _ => False)
    (Effect.Triple.throw _ fun _ _ => trivial) fun _ => ?_
  exact fun _ impossible => impossible.elim

/-! ### Writing -/

-- The host can make what it hands over.
def Host.Admits (host : Host) (value : Text) : Prop :=
  if isWellFormed value then (encode value).length ≤ host.buffers
  else (quote value).length + 1 ≤ host.strings ∧ (encode (quote value ++ [0])).length ≤ host.buffers

theorem made_value {x : Making JSString} {value : Text} (short : (value.length : Int) ≤ lenMax)
    {room : Prop}
    (makes : Makes memory x fun str => str.text = value ∧ str.isWideChar = isWide value) :
    Effect.Triple (fun _ => True) (do
        let value ← resultValue (← call x)
        pure (StringValue.string value) : Hosted StringValue)
      (fun v _ => v.Valid ∧ v.text = value ∧ v.isWideChar = isWide value) fun e _ =>
        Wants memory room e := by
  refine Effect.Triple.bind (call_makes makes).throwless fun result => ?_
  refine Effect.Triple.each fun calls ends => ?_
  refine Effect.Triple.bind (Q := fun str _ => str.text = value ∧ str.isWideChar = isWide value) ?_
    fun str => ?_
  · exact (resultValue_ends ends).weaken (fun _ _ => trivial) (fun _ _ made => made)
      fun _ _ starved => .inl starved
  · refine Effect.Triple.pure _ fun _ made => ⟨?_, made⟩
    show str.len ≤ lenMax
    rw [str.len_eq, made.1]
    exact short

theorem encoder_ends (value : Text) :
    Effect.Triple (fun _ => True) (encoder host value) (fun bytes _ => bytes = encode value)
      fun e _ => e = .host ∧ host.buffers < (encode value).length := by
  unfold encoder
  split
  · exact Effect.Triple.pure _ fun _ _ => rfl
  · next large => exact Effect.Triple.throw _ fun _ _ => ⟨rfl, Nat.not_le.mp large⟩

theorem parseJson_ends {value : Text} (short : (value.length : Int) ≤ lenMax) {room : Prop}
    (made : room → (quote value).length + 1 ≤ host.strings ∧
      (encode (quote value ++ [0])).length ≤ host.buffers) :
    Effect.Triple (fun _ => True) (parseJson memory host (quote value))
      (fun v _ => v.Valid ∧ v.text = value ∧ v.isWideChar = isWide value) fun e _ =>
        Wants memory room e := by
  unfold parseJson
  refine Effect.Triple.bind (Q := fun _ _ => True) ?_ fun _ => ?_
  · exact Effect.Triple.check (fun _ _ _ => trivial) fun _ _ small =>
      .inr ⟨rfl, fun fits => of_decide_eq_false small (made fits).1⟩
  refine Effect.Triple.bind (Q := fun bytes _ => bytes = encode (quote value ++ [0])) ?_
    fun source => ?_
  · exact (encoder_ends _).weaken (fun _ _ => trivial) (fun _ _ same => same) fun _ _ ends =>
      .inr ⟨ends.1, fun fits => Nat.not_lt.mpr (made fits).2 ends.2⟩
  refine Effect.Triple.each fun calls same => ?_
  subst same
  exact (made_value short (jsParseJson_makes short)).weaken (fun _ _ => trivial)
    (fun _ _ ends => ends) fun _ _ wants => wants

-- Every text reaches the engine but well-formed ones with wide units and too many bytes.
theorem newString_ends {value : Text} (short : (value.length : Int) ≤ lenMax)
    (fits : isWellFormed value = true → isWide value = true → (encode value).length < 0x40000000) :
    Effect.Triple (fun _ => True) (newString memory host value)
      (fun v _ => v.Valid ∧ v.text = value ∧ v.isWideChar = isWide value)
      fun e _ => Wants memory (host.Admits value) e := by
  unfold newString Host.Admits
  cases wellFormed : isWellFormed value with
  | true =>
    have same := encode_wellFormed wellFormed
    have makes : Makes memory (jsNewStringLen memory (encode value)) fun str =>
        str.text = value ∧ str.isWideChar = isWide value := by
      rw [same]
      exact jsNewStringLen_makes short fun wide => by rw [← same]; exact fits wellFormed wide
    simp only [Bool.not_true, Bool.false_eq_true, if_false, if_true]
    refine Effect.Triple.bind (Q := fun bytes _ => bytes = encode value) ?_ fun bytes => ?_
    · exact (encoder_ends value).weaken (fun _ _ => trivial) (fun _ _ same => same) fun _ _ ends =>
        .inr ⟨ends.1, fun fits => Nat.not_lt.mpr fits ends.2⟩
    refine Effect.Triple.each fun calls encoded => ?_
    subst encoded
    exact (made_value short makes).weaken (fun _ _ => trivial) (fun _ _ ends => ends) fun _ _ wants => wants
  | false =>
    simp only [Bool.not_false, if_true, Bool.false_eq_true, if_false]
    refine Effect.Triple.bind (Q := fun json _ => json = quote value) ?_ fun json => ?_
    · unfold stringify
      split
      · exact Effect.Triple.pure _ fun _ _ => rfl
      · next large => exact Effect.Triple.throw _ fun _ _ => .inr ⟨rfl, fun fits => large (by omega)⟩
    refine Effect.Triple.each fun calls quoted => ?_
    subst quoted
    exact (parseJson_ends short id).weaken (fun _ _ => trivial) (fun _ _ ends => ends)
      fun _ _ wants => wants

theorem newString_never {value : Text} (short : (value.length : Int) ≤ lenMax)
    (wellFormed : isWellFormed value = true) (wide : isWide value = true)
    (large : 0x40000000 ≤ (encode value).length) :
    Effect.Triple (fun _ => True) (newString memory host value)
      (fun _ _ => False) fun _ _ => True := by
  have same := encode_wellFormed wellFormed
  unfold newString
  simp only [wellFormed, Bool.not_true, Bool.false_eq_true, if_false]
  refine Effect.Triple.bind (Q := fun bytes _ => bytes = encode value) ?_ fun bytes => ?_
  · exact (encoder_ends value).weaken (fun _ _ => trivial) (fun _ _ same => same) fun _ _ _ =>
      trivial
  refine Effect.Triple.each fun calls encoded => ?_
  subst encoded
  have never : Never (jsNewStringLen memory (encode value)) := by
    rw [same] at large ⊢
    exact jsNewStringLen_never short wide large
  refine Effect.Triple.bind
    ((call_never never).weaken (fun _ _ => trivial) (fun _ _ none => none) fun _ _ _ => trivial)
    fun result => ?_
  refine Effect.Triple.each fun calls none => ?_
  subst none
  refine Effect.Triple.bind (Q := fun _ _ => False)
    (Effect.Triple.throw _ fun _ _ => trivial) fun _ => ?_
  exact fun _ impossible => impossible.elim

end

/-! ### Both ways -/

-- A string of the guest.
structure GuestString where
  value : StringValue
  valid : value.Valid

/-- Where the engine has memory and the host room, `toString` gives the code units, whatever the
size of the buffer. -/
def Reads (v : StringValue) : Prop :=
  ∀ (memory : Memory) (host : Host) (scratch calls : Nat), memory.Ample → host.Roomy →
    ∃ capacity calls', (text memory host scratch v).run calls = (.ok (v.text, capacity), calls')

/-- What `newString` makes of a text reads back as it. -/
def Survives (value : Text) : Prop :=
  ∀ (memory : Memory) (host : Host) (scratch calls : Nat), memory.Ample → host.Roomy →
    host.Admits value → ∃ capacity calls',
      (roundTrip memory host scratch value).run calls = (.ok (value, capacity), calls')

/-- The lengths that the engine multiplies: three times the units of a wide string, and twice the
bytes of a text with wide units that are handed over as they are. -/
def Fits (value : Text) : Prop :=
  isWide value = true → 3 * value.length < 2 ^ 31 ∧
    (isWellFormed value = true → (encode value).length < 2 ^ 30)

section
variable {memory : Memory} {host : Host}

theorem roundTrip_ends {value : Text} (short : (value.length : Int) ≤ lenMax) (fits : Fits value)
    (scratch : Nat) :
    Effect.Triple (fun _ => True) (roundTrip memory host scratch value)
      (fun read _ => read.1 = value)
      fun e _ => Wants memory (host.Roomy ∧ host.Admits value) e := by
  unfold roundTrip
  have writes : Effect.Triple (fun _ => True) (newString memory host value) _ _ :=
    newString_ends short fun wellFormed wide => (fits wide).2 wellFormed
  refine Effect.Triple.bind (Q := fun v _ => v.Valid ∧ v.text = value ∧ v.isWideChar = isWide value)
    ?_ fun v => ?_
  · refine writes.weaken (fun _ _ => trivial) (fun _ _ ends => ends) fun _ _ wants => ?_
    exact wants.imp_right fun ⟨failed, admits⟩ => ⟨failed, fun both => admits both.2⟩
  refine Effect.Triple.each fun calls ends => ?_
  obtain ⟨valid, text, wide⟩ := ends
  subst text
  refine (text_ends valid (fun isWide => (fits (wide ▸ isWide)).1) scratch).weaken
    (fun _ _ => trivial)
    (fun _ _ same => same) fun _ _ wants => ?_
  exact wants.imp_right fun ⟨failed, roomy⟩ => ⟨failed, fun both => roomy both.1⟩

theorem roundTrip_never {value : Text} (short : (value.length : Int) ≤ lenMax) (large : ¬Fits value)
    (scratch : Nat) :
    Effect.Triple (fun _ => True) (roundTrip memory host scratch value)
      (fun _ _ => False) fun _ _ => True := by
  obtain ⟨wide, beyond⟩ : isWide value = true ∧
      ¬(3 * value.length < 2 ^ 31 ∧
        (isWellFormed value = true → (encode value).length < 2 ^ 30)) := by
    simpa only [Fits, Classical.not_imp] using large
  unfold roundTrip
  by_cases written : isWellFormed value = true → (encode value).length < 2 ^ 30
  · have tripled : 0x80000000 ≤ 3 * value.length := Nat.not_lt.mp fun few => beyond ⟨few, written⟩
    have writes : Effect.Triple (fun _ => True) (newString memory host value) _ _ :=
      newString_ends short fun wellFormed _ => written wellFormed
    refine Effect.Triple.bind
      (Q := fun v _ => v.Valid ∧ v.text = value ∧ v.isWideChar = isWide value) ?_ fun v => ?_
    · exact writes.weaken (fun _ _ => trivial) (fun _ _ ends => ends) fun _ _ _ => trivial
    refine Effect.Triple.each fun calls ends => ?_
    obtain ⟨valid, text, same⟩ := ends
    exact (text_never valid (same.trans wide) (by rwa [text]) scratch).weaken (fun _ _ => trivial)
      (fun _ _ ends => ends)
      fun _ _ ends => ends
  · obtain ⟨wellFormed, doubled⟩ := Classical.not_imp.mp written
    refine Effect.Triple.bind
      (newString_never short wellFormed wide (Nat.not_lt.mp doubled)) fun _ => ?_
    exact fun _ impossible => impossible.elim

-- A computation that fails only for want of something returns where nothing is wanting.
theorem returns_ok {α : Type} {x : Hosted α} {post : α → Prop} {room : Prop}
    (ends : Effect.Triple (fun _ => True) x (fun a _ => post a) fun e _ => Wants memory room e)
    (ample : memory.Ample) (roomy : room) (calls : Nat) :
    ∃ a calls', x.run calls = (.ok a, calls') ∧ post a := by
  cases runs : x.run calls with
  | mk outcome calls' =>
    cases outcome with
    | ok a => exact ⟨a, calls', rfl, ends.returned trivial runs⟩
    | error e =>
      rcases ends.thrown trivial runs with ⟨-, starved⟩ | ⟨-, small⟩
      · exact absurd ample starved
      · exact absurd roomy small

end

-- An allocator that gives exactly what it is asked for.
def plenty : Memory where
  malloc _ bytes := if bytes < 2 ^ 63 then some bytes else none
  usable _ bytes given gives := by
    split at gives
    · cases gives
      omega
    · cases gives
  bounded _ bytes large := if_neg (Nat.not_lt.mpr large)

theorem plenty_ample : plenty.Ample := by
  intro call bytes small
  have below : bytes < 2 ^ 63 := Nat.lt_trans small (by decide)
  simp only [plenty, if_pos below]
  exact Option.some_ne_none _

def hostFor (value : Text) : Host where
  strings := (quote value).length + 1
  buffers := 2 ^ 32 + (encode value).length + (encode (quote value ++ [0])).length

theorem hostFor_roomy (value : Text) : (hostFor value).Roomy := by
  show 2 ^ 32 ≤ 2 ^ 32 + (encode value).length + (encode (quote value ++ [0])).length
  omega

theorem hostFor_admits (value : Text) : (hostFor value).Admits value := by
  unfold Host.Admits hostFor
  split
  · dsimp only
    omega
  · dsimp only
    omega

theorem reads_iff (t : GuestString) :
    Reads t.value ↔ (t.value.isWideChar = true → 3 * t.value.text.length < 2 ^ 31) := by
  constructor
  · intro reads wide
    by_cases few : 3 * t.value.text.length < 2 ^ 31
    · exact few
    · obtain ⟨capacity, calls', runs⟩ :=
        reads plenty (hostFor []) 0 0 plenty_ample (hostFor_roomy [])
      exact ((text_never t.valid wide (Nat.not_lt.mp few) 0).returned trivial runs).elim
  · intro fits memory host scratch calls ample roomy
    obtain ⟨⟨read, capacity⟩, calls', runs, same⟩ :=
      returns_ok (text_ends t.valid fits scratch) ample roomy calls
    change read = t.value.text at same
    subst same
    exact ⟨capacity, calls', runs⟩

theorem survives_iff {value : Text} (short : (value.length : Int) ≤ lenMax) :
    Survives value ↔ Fits value := by
  constructor
  · intro survives
    by_contra large
    obtain ⟨capacity, calls', runs⟩ :=
      survives plenty (hostFor value) 0 0 plenty_ample (hostFor_roomy value) (hostFor_admits value)
    exact (roundTrip_never short large 0).returned trivial runs
  · intro fits memory host scratch calls ample roomy admits
    obtain ⟨⟨read, capacity⟩, calls', runs, same⟩ :=
      returns_ok (roundTrip_ends short fits scratch) ample ⟨roomy, admits⟩ calls
    change read = value at same
    subst same
    exact ⟨capacity, calls', runs⟩

-- No other text is read, whatever the engine and the host have.
theorem text_exact (t : GuestString) {memory : Memory} {host : Host} {scratch calls calls' : Nat}
    {read : Text × Nat} (runs : (text memory host scratch t.value).run calls = (.ok read, calls')) :
    read.1 = t.value.text := by
  by_cases fits : t.value.isWideChar = true → 3 * t.value.text.length < 2 ^ 31
  · exact (text_ends t.valid fits scratch).returned trivial runs
  · obtain ⟨wide, large⟩ := Classical.not_imp.mp fits
    exact ((text_never t.valid wide (Nat.not_lt.mp large) scratch).returned trivial runs).elim

theorem roundTrip_exact {value : Text} (short : (value.length : Int) ≤ lenMax) {memory : Memory}
    {host : Host} {scratch calls calls' : Nat} {read : Text × Nat}
    (runs : (roundTrip memory host scratch value).run calls = (.ok read, calls')) :
    read.1 = value := by
  by_cases fits : Fits value
  · exact (roundTrip_ends short fits scratch).returned trivial runs
  · exact ((roundTrip_never short fits scratch).returned trivial runs).elim

/-- Strings survive both directions exactly where the lengths that the engine multiplies fit an
`int`, no other text ever comes out, and `utf8` is the inverse of the engine's encoding. -/
theorem texts_survive (t : GuestString) (value : Text) (short : (value.length : Int) ≤ lenMax) :
    (Reads t.value ↔ (t.value.isWideChar = true → 3 * t.value.text.length < 2 ^ 31)) ∧
    (Survives value ↔ Fits value) ∧
    (∀ (memory : Memory) (host : Host) (scratch calls calls' : Nat) (read : Text × Nat),
      (text memory host scratch t.value).run calls = (.ok read, calls') → read.1 = t.value.text) ∧
    (∀ (memory : Memory) (host : Host) (scratch calls calls' : Nat) (read : Text × Nat),
      (roundTrip memory host scratch value).run calls = (.ok read, calls') → read.1 = value) ∧
    ∀ (buffer : Buffer) (start : Nat), buffer.Holds start (encodeAll value) →
      Keys.utf8 buffer start (start + (encodeAll value).length) = .ok value := by
  refine ⟨reads_iff t, survives_iff short, ?_, ?_, ?_⟩
  · intro memory host scratch calls calls' read runs
    exact text_exact t runs
  · intro memory host scratch calls calls' read runs
    exact roundTrip_exact short runs
  · intro buffer start holds
    exact Keys.utf8_holds holds

-- A rope whose halves make a pair.
def pairRope : GuestString where
  value := .rope 2 true (.string (.str16 [0xD83D])) (.string (.str16 [0xDE00]))
  valid := by
    have high : JSString.len (.str16 [0xD83D]) ≤ lenMax := by decide
    have low : JSString.len (.str16 [0xDE00]) ≤ lenMax := by decide
    exact ⟨high, low, rfl, by decide, by decide, rfl, fun empty => absurd empty (by decide)⟩

/-- That rope, and a text of a lone surrogate, a replacement character and an astral one, through a
buffer that is too small. -/
theorem texts_survive_mixed :
    (∃ capacity calls', (text plenty (hostFor []) 2 pairRope.value).run 0 =
      (.ok ([0xD83D, 0xDE00], capacity), calls')) ∧
    ∃ capacity calls', (roundTrip plenty (hostFor [0xD800, 0xFFFD, 0xD83D, 0xDE00]) 3
      [0xD800, 0xFFFD, 0xD83D, 0xDE00]).run 0 =
      (.ok ([0xD800, 0xFFFD, 0xD83D, 0xDE00], capacity), calls') := by
  obtain ⟨reads, survives, -⟩ := texts_survive pairRope [0xD800, 0xFFFD, 0xD83D, 0xDE00] (by decide)
  constructor
  · exact reads.mpr (fun _ => by decide) plenty (hostFor []) 2 0 plenty_ample (hostFor_roomy [])
  · exact survives.mpr (fun _ => ⟨by decide, fun wellFormed => absurd wellFormed (by decide)⟩)
      plenty (hostFor _) 3 0 plenty_ample (hostFor_roomy _) (hostFor_admits _)

-- Two gigabytes of euro signs, in UTF-8.
def euros : Text := List.replicate 715827883 0x20AC

theorem length_euros : euros.length = 715827883 := List.length_replicate

def euroString : GuestString where
  value := .string (.str16 euros)
  valid := by
    show (euros.length : Int) ≤ lenMax
    rw [length_euros]
    decide

theorem euroString_text : euroString.value.text = euros := rfl

theorem euros_wide : isWide euros = true := by
  apply List.any_eq_true.mpr
  refine ⟨0x20AC, ?_, by decide⟩
  apply List.mem_replicate.mpr
  constructor
  · omega
  · rfl

/-- The guest can have such a string; the host can neither read it nor make it. -/
theorem euros_lost : ¬Reads euroString.value ∧ ¬Survives euros := by
  constructor
  · intro reads
    have few := (reads_iff euroString).mp reads rfl
    rw [euroString_text, length_euros] at few
    exact absurd few (by decide)
  · intro survives
    have short : (euros.length : Int) ≤ lenMax := by
      rw [length_euros]
      decide
    have few := ((survives_iff short).mp survives euros_wide).1
    rw [length_euros] at few
    exact absurd few (by decide)

end QuickJSBun.Bridge.Texts
