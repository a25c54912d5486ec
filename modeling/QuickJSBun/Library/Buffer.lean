import QuickJSBun.Library.Utf8

/-! Buffers of bytes some of which are unknown, what is known of a part of them, and
numbers of four bytes, the lowest first.
-/

set_option autoImplicit false

namespace QuickJSBun.Library

-- A byte is unknown until somebody writes it.
abbrev Buffer := List (Option UInt8)

namespace Buffer

def unknown (capacity : Nat) : Buffer := List.replicate capacity none

def memcpy (buffer : Buffer) (offset : Nat) (bytes : Bytes) : Buffer :=
  buffer.take offset ++ bytes.map some ++ buffer.drop (offset + bytes.length)

/-- A known byte; neither one outside the buffer nor an unknown one. -/
def read (buffer : Buffer) (i : Nat) : Option UInt8 := buffer[i]?.join

/-- The bytes between two places, which must all be known; places outside are left out. -/
def slice (buffer : Buffer) (start stop : Nat) : Option Bytes :=
  ((buffer.take stop).drop start).mapM id

/-- The bytes stand in the buffer from `offset` on. -/
def Holds (buffer : Buffer) (offset : Nat) (bytes : Bytes) : Prop :=
  ∀ k byte, bytes[k]? = some byte → buffer[offset + k]? = some (some byte)

@[simp] theorem length_unknown (capacity : Nat) : (unknown capacity).length = capacity :=
  List.length_replicate

theorem length_memcpy {buffer : Buffer} {offset : Nat} {bytes : Bytes}
    (fits : offset + bytes.length ≤ buffer.length) :
    (buffer.memcpy offset bytes).length = buffer.length := by
  simp only [memcpy, List.length_append, List.length_take, List.length_map, List.length_drop]
  omega

theorem holds_memcpy {buffer : Buffer} {offset : Nat} {bytes : Bytes}
    (fits : offset + bytes.length ≤ buffer.length) :
    (buffer.memcpy offset bytes).Holds offset bytes := by
  intro k byte found
  have below : k < bytes.length := (List.getElem?_eq_some_iff.mp found).1
  have front : (buffer.take offset).length = offset := List.length_take_of_le (by omega)
  rw [memcpy, List.append_assoc, List.getElem?_append_right (by omega), front,
    Nat.add_sub_cancel_left, List.getElem?_append_left (by simpa using below),
    List.getElem?_map, found]
  rfl

-- What stands before the place of writing stays.
theorem Holds.memcpy {buffer : Buffer} {place offset : Nat} {held bytes : Bytes}
    (holds : buffer.Holds place held) (before : place + held.length ≤ offset)
    (fits : offset ≤ buffer.length) : (buffer.memcpy offset bytes).Holds place held := by
  intro k byte found
  have below : k < held.length := (List.getElem?_eq_some_iff.mp found).1
  rw [Buffer.memcpy, List.append_assoc, List.getElem?_append_left (by rw [List.length_take]; omega),
    List.getElem?_take_of_lt (by omega)]
  exact holds k byte found

@[simp] theorem holds_nil (buffer : Buffer) (offset : Nat) : buffer.Holds offset [] := by
  intro k byte found
  cases found

theorem holds_append {buffer : Buffer} {offset : Nat} {front back : Bytes} :
    buffer.Holds offset (front ++ back) ↔ buffer.Holds offset front ∧
    buffer.Holds (offset + front.length) back := by
  constructor
  · intro holds
    constructor
    · intro k byte found
      have below : k < front.length := (List.getElem?_eq_some_iff.mp found).1
      exact holds k byte (by rwa [List.getElem?_append_left below])
    · intro k byte found
      rw [Nat.add_assoc]
      exact holds _ byte
        (by rwa [List.getElem?_append_right (Nat.le_add_right _ _), Nat.add_sub_cancel_left])
  · rintro ⟨first, second⟩ k byte found
    rcases Nat.lt_or_ge k front.length with below | above
    · exact first k byte (by rwa [List.getElem?_append_left below] at found)
    · rw [List.getElem?_append_right above] at found
      have moved := second (k - front.length) byte found
      rwa [Nat.add_assoc, Nat.add_sub_cancel' above] at moved

theorem holds_cons {buffer : Buffer} {offset : Nat} {byte : UInt8} {bytes : Bytes} :
    buffer.Holds offset (byte :: bytes) ↔ buffer.Holds offset [byte] ∧
    buffer.Holds (offset + 1) bytes :=
  @holds_append buffer offset [byte] bytes

theorem Holds.read {buffer : Buffer} {offset : Nat} {bytes : Bytes}
    (holds : buffer.Holds offset bytes) {k : Nat} {byte : UInt8} (found : bytes[k]? = some byte) :
    buffer.read (offset + k) = some byte := by
  rw [Buffer.read, holds k byte found]
  rfl

theorem mapM_known (bytes : Bytes) : (bytes.map some).mapM id = some bytes := by
  induction bytes with
  | nil => rfl
  | cons byte rest ih => simp [ih]

theorem Holds.slice {buffer : Buffer} {offset : Nat} {bytes : Bytes}
    (holds : buffer.Holds offset bytes) :
    buffer.slice offset (offset + bytes.length) = some bytes := by
  have known : (buffer.take (offset + bytes.length)).drop offset = bytes.map some := by
    apply List.ext_getElem?
    intro k
    rw [List.getElem?_drop, List.getElem?_map]
    rcases Nat.lt_or_ge k bytes.length with below | above
    · rw [List.getElem?_take_of_lt (by omega), List.getElem?_eq_getElem below]
      exact holds k _ (List.getElem?_eq_getElem below)
    · rw [List.getElem?_eq_none (by rw [List.length_take]; omega), List.getElem?_eq_none above]
      rfl
  rw [Buffer.slice, known]
  exact mapM_known bytes

end Buffer

/-! ### Numbers of four bytes -/

def encodeUInt32LE (n : Nat) : Bytes :=
  [.ofNat n, .ofNat (n / 0x100), .ofNat (n / 0x10000), .ofNat (n / 0x1000000)]

def decodeUInt32LE (a b c d : UInt8) : Nat :=
  a.toNat + b.toNat * 0x100 + c.toNat * 0x10000 + d.toNat * 0x1000000

@[simp] theorem length_encodeUInt32LE (n : Nat) : (encodeUInt32LE n).length = 4 := rfl

theorem decodeUInt32LE_encode {n : Nat} (bounded : n < 2 ^ 32) :
    decodeUInt32LE (.ofNat n) (.ofNat (n / 0x100)) (.ofNat (n / 0x10000))
      (.ofNat (n / 0x1000000)) = n := by
  simp only [decodeUInt32LE, UInt8.toNat_ofNat']
  omega

end QuickJSBun.Library
