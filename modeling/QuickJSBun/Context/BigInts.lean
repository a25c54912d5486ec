import QuickJSBun.Bridge.Keys
import QuickJSBun.Context.Scripted
import QuickJSBun.Context.Thrown
import QuickJSBun.Engine.BigInts

/-! Bigints between host and guest: `newBigInt` in one of its three encodings, and `toBigInt` of what it
has made. The natives that take part are the engine's own; what they may lack is memory and, for
a text, time.
-/

set_option autoImplicit false

namespace QuickJSBun.Context.BigInts

open Library QuickJSBun.Engine

variable {width : LimbBits} {σ V : Type}

/-- The limbs in the bigint cells of the guest, and the rest of its state. -/
structure Heap (width : LimbBits) (σ : Type) where
  bigInts : Nat → Option (JSBigInt width)
  guest : σ

structure Supply (width : LimbBits) (σ : Type) where
  memory : World (Heap width σ) → Bool
  /-- Whether there is memory for a text, and time to give it. -/
  text : World (Heap width σ) → Bool

def Supply.Ample (supply : Supply width σ) : Prop :=
  ∀ w, supply.memory w = true ∧ supply.text w = true

-- A new cell with the limbs, at an address above all others.
def allocate (w : World (Heap width σ)) (p : JSBigInt width) : World (Heap width σ) :=
  { w with
    cells := w.cells ++ [w.cells.foldr max 0 + 16]
    references := w.references ++ [1]
    engine := w.engine ++ [1]
    guest :=
      { w.guest with bigInts := fun cell =>
        if cell = w.cells.length then some p else w.guest.bigInts cell } }

def value (w : World (Heap width σ)) : Value → Option (BigInt width)
  | .shortBigInt value => some (.short value)
  | .heap .bigInt cell => (w.guest.bigInts cell).map .heap
  | _ => none

section
variable (supply : Supply width σ) (other : Engine (Heap width σ))

def made (w : World (Heap width σ)) : Allocated (BigInt width) → Value × World (Heap width σ)
  | .ok (.short value) => (.shortBigInt value, w)
  | .ok (.heap p) => (.heap .bigInt w.cells.length, allocate w p)
  | .outOfMemory => (.exception, (other.call .throwOutOfMemory w).2)
  | .tooLarge =>
    (.exception, (other.call (.throwError 3 (encode (text "BigInt is too large to allocate"))) w).2)

/-- A decimal, as `JS_StringToBigIntErr` is given it. -/
def readBytes (bytes : Bytes) : Option (Text × Int) := do
  let str ← utf8 bytes
  let n ← readDecimal str
  pure (str, n)

/-- The natives of bigints. That the text of a bigint is its decimal is assumed. -/
def bridge : Engine (Heap width σ) where
  call native w :=
    match native with
    | .newBigInt64 v => made other w (jsNewBigInt64 (supply.memory w) v width)
    | .newBigInt128 low high =>
      made other w (jsNewBigInt128 width (supply.memory w) (Fin.ofNat (2 ^ 64) low)
        (Fin.ofNat (2 ^ 64) high))
    | .newBigIntString bytes =>
      match readBytes bytes with
      | some (str, n) => made other w (jsStringToBigInt width (supply.memory w) str n)
      | none => other.call (.newBigIntString bytes) w
    | .toBigInt128 v =>
      match value w v with
      | some bigInt => (jsToBigInt128SatFree bigInt, w)
      | none => other.call (.toBigInt128 v) w
    | .toCString v =>
      match value w v with
      | some bigInt =>
        if supply.text w then (some (encode (decimal bigInt.toInt)), w)
          else (none, (other.call (.toCString v) w).2)
      | none => other.call (.toCString v) w
    | native => other.call native w

end

/-! ### There and back -/

-- The handle has a bigint value of the integer.
def Has (n : Int) (h : JSValue) (w : World (Heap width σ)) : Prop :=
  ∃ v bigInt, w.handles[h]? = some ⟨false, v, true, false, false⟩ ∧
    value w v = some bigInt ∧ bigInt.Is n

theorem readBytes_decimal (n : Int) : readBytes (encode (decimal n)) = some (decimal n, n) := by
  have decoded : utf8 (encode (decimal n)) = some (decimal n) := by
    rw [encode_wellFormed (wellFormed_ascii (decimal_ascii n)), utf8_encodeAll]
  simp only [readBytes, decoded, readDecimal_decimal, Option.bind_eq_bind, Option.bind_some]
  rfl

section
variable (supply : Supply width σ) (other : Engine (Heap width σ)) (host : Host V (Heap width σ))

/-- What `newBigInt` is given for its cell. -/
def Given (n : Int) (cell : Value) (w : World (Heap width σ)) : Prop :=
  (∃ bigInt, value w cell = some bigInt ∧ bigInt.Is n) ∧ n.natAbs < 10 ^ maxDigits ∨
    cell = .exception ∧ (¬supply.Ample ∨ 10 ^ maxDigits ≤ n.natAbs)

theorem given_made {n : Int} {memory : Bool} {allocated : Allocated (BigInt width)}
    (w : World (Heap width σ)) (supplied : memory = false → ¬supply.Ample)
    (few : n.natAbs < 10 ^ maxDigits) (is : allocated.Is n memory) :
    Given supply n (made other w allocated).1 (made other w allocated).2 := by
  rcases is with ⟨bigInt, rfl, is⟩ | ⟨none, rfl⟩
  · refine .inl ⟨⟨bigInt, ?_, is⟩, few⟩
    cases bigInt with
    | short value => rfl
    | heap p => simp [made, value, allocate]
  · exact .inr ⟨rfl, .inl (supplied none)⟩

theorem small_few {n : Int} (least : -2 ^ 127 ≤ n) (most : n < 2 ^ 127) :
    n.natAbs < 10 ^ maxDigits := by
  have small : n.natAbs < 10 ^ 39 := by omega
  exact Nat.lt_of_lt_of_le small (Nat.pow_le_pow_right (by decide) (by unfold maxDigits; decide))

theorem bigIntCell_gives (n : Int) (w : World (Heap width σ)) :
    ∃ cell w', (bigIntCell (bridge supply other) n : Run (Heap width σ) V Value).run w =
      (.ok cell, w') ∧ Given supply n cell w' := by
  have supplied : supply.memory w = false → ¬supply.Ample := by
    intro none ample
    rw [(ample w).1] at none
    cases none
  unfold bigIntCell
  split
  · next fits =>
      have few := small_few (show -2 ^ 127 ≤ n by omega) (by omega)
      exact ⟨_, _, rfl,
        given_made supply other w supplied few (jsNewBigInt64_is width _ fits.1 (by omega))⟩
  · split
    · next fits =>
        have few := small_few fits.1 (by omega)
        refine ⟨_, _, rfl,
          given_made supply other w supplied few
            (jsNewBigInt128_is width _ fits.1 (by omega) ?_ ?_)⟩
        · exact Nat.mod_eq_of_lt (by omega)
        · exact Nat.mod_eq_of_lt (by omega)
    · next large =>
        have positive : n ≠ 0 := by
          rintro rfl
          exact large (by decide)
        have native : (bridge supply other).call (.newBigIntString (encode (decimal n))) w =
            made other w (jsStringToBigInt width (supply.memory w) (decimal n) n) := by
          simp only [bridge, readBytes_decimal]
        refine ⟨_, _, rfl, ?_⟩
        rw [native]
        by_cases few : n.natAbs < 10 ^ maxDigits
        · have bounded : n.natAbs < 10 ^ (significant (decimal n)).length :=
            (few_digits_iff positive _).mp (Nat.le_refl _)
          exact given_made supply other w supplied few
            (jsStringToBigInt_is width _ ((few_digits_iff positive maxDigits).mpr few) bounded)
        · have many : maxDigits < (significant (decimal n)).length :=
            Nat.not_le.mp fun less => few ((few_digits_iff positive maxDigits).mp less)
          rw [jsStringToBigInt_tooLarge width _ n many]
          exact .inr ⟨rfl, .inr (Nat.not_lt.mp few)⟩

-- The handle of the bigint, unless something is missing or there are too many digits.
theorem newBigInt_has (n : Int) :
    Effect.Triple (fun _ => True) (newBigInt (bridge supply other) host n)
      (fun h w => Has n h w ∧ n.natAbs < 10 ^ maxDigits) fun _ _ => ¬supply.Ample ∨
      10 ^ maxDigits ≤ n.natAbs := by
  refine Effect.Triple.bind (Q := Given supply n) ?_ fun cell => ?_
  · intro w _
    obtain ⟨cell, w', runs, given⟩ := bigIntCell_gives (V := V) supply other n w
    rw [runs]
    exact given
  · refine Effect.Triple.bind
      (Q := fun h w => w.handles[h]? = some ⟨false, cell, true, false, false⟩ ∧
        Given supply n cell w) ?_ fun h => ?_
    · refine Effect.Triple.lift fun w given => ⟨?_, given⟩
      exact List.getElem?_concat_length
    · split
      · next isException =>
          refine Effect.Triple.thenThrow fun w ⟨_, given⟩ _ _ => ?_
          rcases given with ⟨⟨bigInt, is, _⟩, _⟩ | ⟨_, failed⟩
          · rw [isException] at is
            cases is
          · exact failed
      · next isValue =>
          refine Effect.Triple.pure h fun w ⟨held, given⟩ => ?_
          rcases given with ⟨⟨bigInt, is, value⟩, few⟩ | ⟨isException, _⟩
          · exact ⟨⟨cell, bigInt, held, is, value⟩, few⟩
          · exact absurd isException isValue

theorem decode_reads (n : Int) (w : World (Heap width σ)) :
    (decode (encode (decimal n)) : Run (Heap width σ) V Text).run w = (.ok (decimal n), w) := by
  rw [decode, encode_wellFormed (wellFormed_ascii (decimal_ascii n)), utf8_encodeAll]
  rfl

-- The decimal of the bigint, unless there is no text of it.
theorem readText_reads (getException : Run (Heap width σ) V (HostValue V)) (n : Int) (h : JSValue) :
    Effect.Triple (Has n h) (readText (bridge supply other) getException h)
      (fun str _ => str = decimal n)
      fun _ _ => ¬supply.Ample := by
  rintro w ⟨v, bigInt, held, is, isN⟩
  have told : ∀ scratch, (bridge supply other).call (.toCString v) { w with scratch } =
      if supply.text { w with scratch } then (some (encode (decimal n)), { w with scratch })
      else (none, (other.call (.toCString v) { w with scratch }).2) := by
    intro scratch
    have still : value { w with scratch } v = some bigInt := is
    simp only [bridge, still, isN.toInt_eq]
  have missing : ∀ scratch, supply.text { w with scratch } = false → ¬supply.Ample := by
    intro scratch none ample
    rw [(ample _).2] at none
    cases none
  have throws : ¬supply.Ample →
      Effect.Triple (fun _ => True) (throwException getException : Run (Heap width σ) V Text)
      (fun str _ => str = decimal n) fun _ _ => ¬supply.Ample :=
    fun failed => Effect.Triple.thenThrow fun _ _ _ _ => failed
  have first := told w.scratch
  unfold readText
  rw [Effect.bind_ok (x := Effect.get) rfl, Effect.bind_ok (ptr_run held rfl),
    Effect.bind_ok (x := call _ _) rfl]
  by_cases enough : supply.text w = true
  · rw [if_pos enough] at first
    simp only [first]
    by_cases room : (encode (decimal n)).length ≤ w.scratch
    · rw [if_pos room, decode_reads]
    · rw [if_neg room, Effect.bind_ok (x := Effect.modify _) rfl,
        Effect.bind_ok (x := call _ _) rfl]
      by_cases again : supply.text { w with scratch := (encode (decimal n)).length * 2 } = true
      · have second := told ((encode (decimal n)).length * 2)
        rw [if_pos again] at second
        simp only [second]
        rw [decode_reads]
      · have second := told ((encode (decimal n)).length * 2)
        rw [if_neg again] at second
        simp only [second]
        exact throws (missing _ (Bool.eq_false_iff.mpr again)) _ trivial
  · rw [if_neg enough] at first
    simp only [first]
    exact throws (missing w.scratch (Bool.eq_false_iff.mpr enough)) _ trivial

-- The number of the bigint, unless there is no text of it.
theorem toBigInt_reads (getException : Run (Heap width σ) V (HostValue V)) (n : Int) (h : JSValue) :
    Effect.Triple (Has n h) (toBigInt (bridge supply other) getException h)
      (fun m _ => m = n) fun _ _ => ¬supply.Ample := by
  intro w has
  obtain ⟨v, bigInt, held, is, isN⟩ := has
  have isBigInt : ¬(v.tag ≠ -9 ∧ v.tag ≠ 7) := by
    unfold value at is
    split at is
    · exact fun apart => apart.2 rfl
    · exact fun apart => apart.1 rfl
    · cases is
  obtain ⟨status, low, high, reads, least, small⟩ := jsToBigInt128SatFree_reads isN
  have native : (bridge supply other).call (.toBigInt128 v) w = ((status, low, high), w) := by
    simp only [bridge, is, reads]
  have answered :
      (call (bridge supply other) (.toBigInt128 v) : Run (Heap width σ) V (Int × Nat × Nat)).run w =
      (.ok (status, low, high), w) := by
    show (Except.ok ((bridge supply other).call (.toBigInt128 v) w).1,
        ((bridge supply other).call (.toBigInt128 v) w).2) = _
    rw [native]
  unfold toBigInt
  rw [Effect.bind_ok (ptr_run held rfl), if_neg isBigInt, Effect.bind_ok answered]
  dsimp only
  rw [if_neg (Int.not_lt.mpr least)]
  by_cases fits : status = 0
  · obtain ⟨lowFits, highFits, value⟩ := small fits
    rw [if_pos fits]
    have word : high % 2 ^ 64 * 2 ^ 64 + low % 2 ^ 64 = low + 2 ^ 64 * high := by omega
    rw [asIntN_word (by omega)] at value
    rw [← value, word]
    rfl
  · rw [if_neg fits]
    refine (Effect.Triple.bind (readText_reads supply other getException n h) fun str => ?_) w
      ⟨v, bigInt, held, is, isN⟩
    refine Effect.Triple.each fun w' isDecimal => ?_
    rw [isDecimal, readDecimal_decimal]
    exact Effect.Triple.pure n fun _ _ => rfl

-- The engine refuses to make room for more digits.
theorem bigIntCell_tooLarge {n : Int} (many : 10 ^ maxDigits ≤ n.natAbs)
    (w : World (Heap width σ)) :
    (bigIntCell (bridge supply other) n : Run (Heap width σ) V Value).run w =
      (.ok .exception,
        (other.call (.throwError 3 (encode (text "BigInt is too large to allocate"))) w).2) := by
  have large : ¬(-2 ^ 127 ≤ n ∧ n ≤ 2 ^ 127 - 1) := fun fits =>
    Nat.not_lt.mpr many (small_few fits.1 (by omega))
  have larger : ¬(-2 ^ 63 ≤ n ∧ n ≤ 2 ^ 63 - 1) := fun fits => large ⟨by omega, by omega⟩
  have positive : n ≠ 0 := by
    rintro rfl
    exact large (by decide)
  have counted : maxDigits < (significant (decimal n)).length :=
    Nat.not_le.mp fun less => Nat.not_lt.mpr many ((few_digits_iff positive maxDigits).mp less)
  unfold bigIntCell
  rw [if_neg larger, if_neg large]
  show (Except.ok ((bridge supply other).call (.newBigIntString (encode (decimal n))) w).1,
    ((bridge supply other).call (.newBigIntString (encode (decimal n))) w).2) = _
  simp only [bridge, readBytes_decimal, jsStringToBigInt_tooLarge width (supply.memory w) n counted]
  rfl

theorem round_trip (n : Int) :
    Effect.Triple (fun _ => True)
      (newBigInt (bridge supply other) host n >>= toBigInt (bridge supply other)
        (getException (bridge supply other) host))
      (fun m _ => m = n ∧ n.natAbs < 10 ^ maxDigits) fun _ _ => ¬supply.Ample ∨
      10 ^ maxDigits ≤ n.natAbs := by
  refine Effect.Triple.bind (newBigInt_has supply other host n) fun h => ?_
  intro w ⟨has, few⟩
  have reads := toBigInt_reads supply other (getException (bridge supply other) host) n h w has
  split at reads
  · exact ⟨reads, few⟩
  · exact .inl reads

/-- An integer of the host survives the way to the guest and back, in any of its encodings, unless
it has more digits than the engine makes room for. If it does not come back, something was missing
or there were too many digits; for those the engine throws a `RangeError`. -/
theorem bigints_round_trip (n : Int) (w : World (Heap width σ)) :
    (match ((newBigInt (bridge supply other) host n >>=
          toBigInt (bridge supply other) (getException (bridge supply other) host)).run w).1 with
      | .ok m => m = n ∧ n.natAbs < 10 ^ maxDigits
      | .error _ => ¬supply.Ample ∨ 10 ^ maxDigits ≤ n.natAbs) ∧
    (n.natAbs < 10 ^ maxDigits ∨
      (bigIntCell (bridge supply other) n : Run (Heap width σ) V Value).run w =
        (.ok .exception,
          (other.call (.throwError 3 (encode (text "BigInt is too large to allocate"))) w).2)) := by
  constructor
  · have ends := round_trip supply other host n w trivial
    split at ends
    · next runs => simpa only [runs] using ends
    · next runs => simpa only [runs] using ends
  · rcases Nat.lt_or_ge n.natAbs (10 ^ maxDigits) with few | many
    · exact .inl few
    · exact .inr (bigIntCell_tooLarge supply other many w)

end

def plenty : Supply .sixtyFour Unit := ⟨fun _ => true, fun _ => true⟩

def quiet : Engine (Heap .sixtyFour Unit) := ⟨fun native w => (native.idle, w)⟩

def plainHost : Host Unit (Heap .sixtyFour Unit) :=
  (answering (fun _ => false) (fun _ => []) HostOp.idle).toHost

def emptyWorld : World (Heap .sixtyFour Unit) where
  disposed := false
  cells := []
  references := []
  engine := []
  handles := constants
  atoms := []
  pending := .uninitialized
  inOutOfMemory := false
  hostDepth := 0
  scratch := 4096
  undescribed := []
  guest := ⟨fun _ => none, ()⟩

theorem natAbs_pow_ten (count : Nat) : 10 ^ count ≤ ((10 : Int) ^ count).natAbs :=
  Nat.le_of_eq (Int.natAbs_pow 10 count).symm

/-- The least integer with 310,689 digits does not come back. -/
theorem round_trip_fails_large :
    ¬∃ m w', (newBigInt (bridge plenty quiet) plainHost (10 ^ maxDigits) >>=
        toBigInt (bridge plenty quiet) (getException (bridge plenty quiet) plainHost)).run
          emptyWorld = (.ok m, w') := by
  rintro ⟨m, w', returned⟩
  have ends := (round_trip plenty quiet plainHost (10 ^ maxDigits)).returned trivial returned
  exact Nat.not_lt.mpr (natAbs_pow_ten maxDigits) ends.2

end QuickJSBun.Context.BigInts
