import QuickJSBun.Context.Noting

/-! Engines that answer by a script. They share and drop references by the rules, so any script
makes a lawful engine; hosts whose answers have no effect.
-/

set_option autoImplicit false

namespace QuickJSBun.Context

open Library Effect

variable {σ V : Type}

/-- What is answered, and what the engine keeps: the pending exception and the state of the
guest. -/
structure Script (σ : Type) where
  reply : (native : Native) → World σ → native.Reply
  pending : Native → World σ → Value
  guest : Native → World σ → σ
  typed : ∀ value w, (7 : Int) ≤ reply (.type value) w → ∃ cell, value = .heap .object cell

def Native.idle : (native : Native) → native.Reply
  | .newAtomLen _ | .valueToAtom _ => (0 : Nat)
  | .freeAtom _ | .throw _ | .throwError _ _ | .throwOutOfMemory | .freeValue _ | .enterScope => ()
  | .leaveScope => false
  | .type _ | .definePropertyValue _ _ _ | .definePropertyValueUint32 _ _ _
  | .setModuleExport _ _ _ => (0 : Int)
  | .toCString _ => none
  | .toBigInt128 _ => ((0 : Int), (0 : Nat), (0 : Nat))
  | .ownKeys _ => none
  | .compileModule _ _ | .malloc _ => none
  | .newStringLen _ | .newBigInt64 _ | .newBigInt128 _ _ | .newBigIntString _ | .newObject
  | .newArray | .newError | .parseJson _ | .getProperty _ _ | .getPropertyUint32 _ _
  | .getDataProperty _ _ | .getException | .dupValue _ | .timeoutError => Value.undefined

theorem given_idle (native : Native) : native.given native.idle = [] := by
  cases native <;> rfl

theorem given_le_one (native : Native) (reply : native.Reply) :
    native.given reply = [] ∨ ∃ cell, native.given reply = [cell] := by
  cases native with
  | newStringLen | newBigInt64 | newBigInt128 | newBigIntString | newObject | newArray | newError | parseJson
  | getProperty | getPropertyUint32 | getDataProperty | getException | dupValue | timeoutError =>
    exact Value.cells_le_one reply
  | _ => exact .inl rfl

namespace Script
variable (script : Script σ)

-- The script's answer, if what it gives is there to be given.
def answer (native : Native) (w : World σ) : native.Reply × World σ :=
  let reply := script.reply native w
  if (native.given reply).all fun cell => decide (counter w.references cell ≠ 0) then
    (reply, { w with
      references := raise w.references (native.given reply)
      pending := script.pending native w
      guest := script.guest native w })
  else (native.idle, w)

def call (native : Native) (w : World σ) : native.Reply × World σ :=
  match native with
  | .freeValue value => ((), { w with references := lower w.references value.cells })
  | native => script.answer native w

theorem answer_acts {flight : List Nat} {native : Native} {w : World σ} (sound : Sound flight w) :
    Acts [] w (native.given (script.answer native w).1) (script.answer native w).2 := by
  unfold answer
  dsimp only
  split
  · next there =>
      rcases given_le_one native (script.reply native w) with none | ⟨cell, one⟩
      · rw [none]
        exact .move (.other w.atoms (script.pending native w) w.scratch (script.guest native w))
          .nothing
      · rw [one] at there ⊢
        have counted : counter w.references cell ≠ 0 := by simpa using there
        have known : cell < w.engine.length := by
          rw [sound.engine_length]
          exact sound.lt counted
        have shared : counter (raise w.engine [cell]) cell ≠ 0 := by
          rw [counter_raise_one known, if_pos rfl]
          omega
        refine .move (.take cell counted) (.move (.give cell shared) ?_)
        rw [lower_raise_one]
        exact .move (.other w.atoms (script.pending native w) w.scratch (script.guest native w))
          .nothing
  · rw [given_idle]
    exact .nothing

theorem free_acts {flight : List Nat} {value : Value} {w : World σ}
    (sound : Sound (value.cells ++ flight) w) :
    Acts value.cells w [] { w with references := lower w.references value.cells } := by
  rcases value.cells_le_one with none | ⟨cell, one⟩
  · rw [none]
    exact .nothing
  · rw [one] at sound ⊢
    have counted : counter w.references cell ≠ 0 := sound.counted (.inr (.inr (by simp)))
    have known : cell < w.engine.length := by
      rw [sound.engine_length]
      exact sound.lt counted
    have shared : counter (raise w.engine [cell]) cell ≠ 0 := by
      rw [counter_raise_one known, if_pos rfl]
      omega
    refine .move (.receive cell) (.move (.drop cell shared) ?_)
    rw [lower_raise_one]
    exact .nothing

-- Any script makes a lawful engine.
def engine : LawfulEngine σ where
  call := script.call
  acts native flight w sound := by
    cases native with
    | freeValue value => exact free_acts sound
    | _ => exact script.answer_acts sound
  typed value w above := by
    simp only [call, answer] at above
    split at above
    · exact script.typed value w above
    · cases above

end Script

def HostOp.idle : (op : HostOp V) → op.Reply V
  | .instanceOf _ _ | .isArray _ => false
  | .getPrototypeOf _ => Prototype.objectPrototype
  | .keys _ => []
  | .entries _ => []
  | .getOwnPropertyDescriptor _ _ => none
  | .length _ => (0 : Nat)
  | .iterate _ => []
  | .toString _ => ([] : Text)
  | .dispose _ => ()
  | .module _ => (false, (0 : Nat))
  | .bytes _ => ([] : Bytes)
  | .getIndex _ _ | .getKey _ _ | .toJSON _ _ | .unbox _ => HostValue.undefined

-- A host whose answers have no effect.
def answering (callable : V → Bool) (numeral : Number → Text)
    (answer : (op : HostOp V) → op.Reply V) : LawfulHost V σ where
  callable := callable
  numeral := numeral
  ask op := pure (answer op)
  acts _ _ _ _ := .nothing
  known _ _ _ _ throws := nomatch throws

theorem Script.untouched (script : Script σ) (native : Native) (w : World σ) :
    Untouched w (script.engine.call native w).2 := by
  have answers (native : Native) : Untouched w (script.answer native w).2 := by
    unfold Script.answer
    dsimp only
    split
    · exact ⟨rfl, Valued.refl w⟩
    · exact ⟨rfl, Valued.refl w⟩
  cases native with
  | freeValue value => exact ⟨rfl, Valued.refl w⟩
  | _ => exact answers _

theorem unaware_answering (script : Script σ) (callable : V → Bool) (numeral : Number → Text)
    (answer : (op : HostOp V) → op.Reply V) :
    Unaware script.engine.toEngine (answering (σ := σ) callable numeral answer).toHost where
  native := script.untouched
  asked _ w := ⟨rfl, Valued.refl w⟩

end QuickJSBun.Context
