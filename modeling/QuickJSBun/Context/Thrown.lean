import QuickJSBun.Bridge.Keys
import QuickJSBun.Context.Guest
import QuickJSBun.Context.Lawful

/-! What becomes of a value that guest code throws out of a call: the wrapper of the native takes it and
makes a `JSException`, whose constructor reads the value. All that it reads is there without
guest code, but the type of some proxies, whose failure is thrown in the place of the value.
-/

set_option autoImplicit false

namespace QuickJSBun.Context

open Library

variable {V α β : Type}

/-! ### Calls that fail -/

/-- The ways in which the wrappers learn that their native has failed: from the cell it has written,
from a negative status, or from a null pointer. -/
inductive Wrapper (V : Type) where
  | result (native : Run Guest V Value)
  | status (native : Run Guest V Int)
  | pointer (native : Run Guest V (Option Nat))

def Wrapper.call (engine : Engine Guest) (host : Host V Guest) : Wrapper V → Run Guest V Unit
  | .result native => do
    let out ← native
    let _ ← resultValue (getException engine host) out
  | .status native => do
    let ok ← native
    if ok < 0 then throwException (getException engine host) else pure ()
  | .pointer native => do
    let data ← native
    if data.isNone then throwException (getException engine host) else pure ()

/-- The native ends with the world `w'`, in which guest code has thrown the value. -/
def Wrapper.Throws (wrapper : Wrapper V) (w : World Guest) (v : GuestValue) (w' : World Guest) :
    Prop :=
  w'.pending = v.1 ∧
    match wrapper with
    | .result native => native.run w = (.ok .exception, w')
    | .status native => ∃ ok < 0, native.run w = (.ok ok, w')
    | .pointer native => native.run w = (.ok none, w')

-- A handle that the library has made.
def World.Has (w : World Guest) (h : JSValue) (v : Value) : Prop :=
  w.handles[h]? = some ⟨false, v, true, false, false⟩

/-- No guest code has run, nothing is pending that was not, and of the new handles `left` alone is
in `vm.handles`. -/
structure Reads (w w' : World Guest) (left : JSValue → Prop) : Prop where
  kept : ∀ (h : JSValue) (handle : Handle), w.handles[h]? = some handle →
    w'.handles[h]? = some handle
  made : ∀ (h : JSValue) (handle : Handle), w.handles.length ≤ h → w'.handles[h]? = some handle →
    handle.listed = true → left h
  pending : w'.pending = w.pending
  contents : w'.guest.contents = w.guest.contents
  runs : w'.guest.runs = w.guest.runs

/-- The host has caught a `JSException` with the value that was thrown in `w`, and nothing else has
changed. -/
def TakenItself (v : Value) (w : World Guest) (outcome : Except (HostValue V) Unit)
    (w' : World Guest) : Prop :=
  ∃ h name message, outcome = .error (.exception h name message) ∧ w.handles.length ≤ h ∧
    w'.Has h v ∧ Reads { w with pending := .uninitialized } w' (· = h)

/-- A number of proxies, none of them revoked, each the target of the one before. -/
inductive LiveProxies (w : World Guest) : Nat → Nat → Nat → Prop where
  | none {cell : Nat} : LiveProxies w 0 cell cell
  | next {n cell target last : Nat} {isFunc : Bool} :
      (w.object cell).classId = .proxy isFunc false target → LiveProxies w n target last →
      LiveProxies w (n + 1) cell last

def JSClass.isProxy : JSClass → Bool
  | .proxy _ _ _ => true
  | _ => false

/-- An object that can be called, or that no more than 1001 proxies, none of them revoked, stand
before. -/
def World.Describable (w : World Guest) : Value → Prop
  | .heap .object cell =>
    jsIsFunction w cell = true ∨
      ∃ n last, n ≤ 1001 ∧ LiveProxies w n cell last ∧ (w.object last).classId.isProxy = false
  | _ => True

theorem LiveProxies.congr {w w' : World Guest} {n cell last : Nat}
    (live : LiveProxies w n cell last) (contents : w'.guest.contents = w.guest.contents) :
    LiveProxies w' n cell last := by
  induction live with
  | none => exact .none
  | next class_ _ ih => exact .next (by rwa [World.object, contents]) ih

-- Whether a value can be described depends on the guest's heap alone.
theorem World.Describable.congr {w w' : World Guest} {v : Value} (describable : w.Describable v)
    (contents : w'.guest.contents = w.guest.contents) : w'.Describable v := by
  unfold World.Describable at describable ⊢
  split
  · next cell =>
      refine describable.imp (fun callable => ?_) fun ⟨n, last, few, live, plain⟩ =>
        ⟨n, last, few, live.congr contents, ?_⟩
      · rwa [jsIsFunction, World.object, contents]
      · rwa [World.object, contents]
  · trivial

/-! ### Reading -/

-- The computation returns, whatever it is run for.
def Finds (w : World Guest) (x : Run Guest V α) (post : α → World Guest → Prop) : Prop :=
  ∃ a w', x.run w = (.ok a, w') ∧ post a w'

section
variable {w : World Guest} {x : Run Guest V α} {f : α → Run Guest V β}

theorem Finds.pure {post : α → World Guest → Prop} (a : α) (ends : post a w) :
    Finds w (Pure.pure a : Run Guest V α) post :=
  ⟨a, w, rfl, ends⟩

theorem Finds.bind {found : α → World Guest → Prop} {post : β → World Guest → Prop}
    (first : Finds w x found) (next : ∀ a w', found a w' → Finds w' (f a) post) :
    Finds w (x >>= f) post := by
  obtain ⟨a, w', runs, ends⟩ := first
  obtain ⟨b, w'', continues, ends'⟩ := next a w' ends
  exact ⟨b, w'', (Effect.bind_ok runs).trans continues, ends'⟩

theorem Finds.step {post : β → World Guest → Prop} {a : α} {w' : World Guest}
    (runs : x.run w = (.ok a, w')) (next : Finds w' (f a) post) : Finds w (x >>= f) post := by
  obtain ⟨b, w'', continues, ends⟩ := next
  exact ⟨b, w'', (Effect.bind_ok runs).trans continues, ends⟩

theorem Finds.weaken {post post' : α → World Guest → Prop} (finds : Finds w x post)
    (weaker : ∀ a w', post a w' → post' a w') : Finds w x post' := by
  obtain ⟨a, w', runs, ends⟩ := finds
  exact ⟨a, w', runs, weaker a w' ends⟩

theorem Finds.tryFinally {cleanup : Run Guest V Unit} {found post : α → World Guest → Prop}
    (body : Finds w x found) (cleans : ∀ a w', found a w' → Finds w' cleanup fun _ => post a) :
    Finds w (Effect.tryFinally x cleanup) post := by
  obtain ⟨a, w', runs, ends⟩ := body
  obtain ⟨_, w'', cleaned, ends'⟩ := cleans a w' ends
  exact ⟨a, w'', by simp only [Effect.tryFinally, runs, cleaned], ends'⟩

end

theorem Reads.refl (w : World Guest) (left : JSValue → Prop) : Reads w w left := by
  refine ⟨fun _ _ found => found, fun h handle above found _ => ?_, rfl, rfl, rfl⟩
  have := (List.getElem?_eq_some_iff.mp found).1
  omega

theorem Reads.length_le {w w' : World Guest} {left : JSValue → Prop} (reads : Reads w w' left) :
    w.handles.length ≤ w'.handles.length := by
  by_contra less
  have inside : w'.handles.length < w.handles.length := by omega
  have := reads.kept _ _ (List.getElem?_eq_getElem inside)
  have := (List.getElem?_eq_some_iff.mp this).1
  omega

theorem Reads.trans {w w' w'' : World Guest} {left left' : JSValue → Prop} (first : Reads w w' left)
    (second : Reads w' w'' left') : Reads w w'' fun h => left h ∨ left' h := by
  refine ⟨fun h handle found => second.kept h handle (first.kept h handle found),
    fun h handle above found listed => ?_,
    second.pending.trans first.pending, second.contents.trans first.contents,
    second.runs.trans first.runs⟩
  rcases Nat.lt_or_ge h w'.handles.length with inside | outside
  · have known := List.getElem?_eq_getElem inside
    have same := second.kept h _ known
    obtain rfl := Option.some.inj (same.symm.trans found)
    exact .inl (first.made h _ above known listed)
  · exact .inr (second.made h handle outside found listed)

theorem Reads.then {w w' w'' : World Guest} {left : JSValue → Prop} (first : Reads w w' nobody)
    (second : Reads w' w'' left) : Reads w w'' left := by
  have both := first.trans second
  exact { both with made := fun h handle above found listed =>
    (both.made h handle above found listed).resolve_left id }

theorem Reads.has {w w' : World Guest} {left : JSValue → Prop} (reads : Reads w w' left)
    {h : JSValue} {v : Value} (has : w.Has h v) : w'.Has h v := reads.kept h _ has

/-- What `new JSValue(vm, cell, true)` leaves. -/
def World.withHandle (w : World Guest) (v : Value) : World Guest :=
  { w with handles := w.handles ++ [⟨false, v, true, false, false⟩] }

theorem newHandle_run (w : World Guest) (v : Value) :
    (newHandle v true : Run Guest V JSValue).run w = (.ok w.handles.length, w.withHandle v) := rfl

theorem reads_withHandle (w : World Guest) (v : Value) :
    Reads w (w.withHandle v) (· = w.handles.length) := by
  refine ⟨fun h handle found => ?_, fun h handle above found _ => ?_, rfl, rfl, rfl⟩
  · exact (List.getElem?_append_left (List.getElem?_eq_some_iff.mp found).1).trans found
  · have := (List.getElem?_eq_some_iff.mp found).1
    rw [World.withHandle, List.length_append, List.length_singleton] at this
    exact Nat.le_antisymm (Nat.le_of_lt_succ this) above

-- A step of the bridge that touches no handle.
theorem Reads.same {w w' : World Guest} (handles : w'.handles = w.handles)
    (pending : w'.pending = w.pending) (contents : w'.guest.contents = w.guest.contents)
    (runs : w'.guest.runs = w.guest.runs) : Reads w w' nobody := by
  refine ⟨fun h handle found => handles ▸ found, fun h handle above found _ =>
    ?_, pending, contents, runs⟩
  rw [handles] at found
  have := (List.getElem?_eq_some_iff.mp found).1
  omega

section
variable {w : World Guest} {h : JSValue} {v : Value}

theorem has_withHandle (w : World Guest) (v : Value) : (w.withHandle v).Has w.handles.length v := by
  simp [World.Has, World.withHandle]

theorem ptr_has (has : w.Has h v) : (ptr h : Run Guest V Value).run w = (.ok v, w) :=
  ptr_run has rfl

variable (other : Engine Guest) (host : Host V Guest)

theorem finds_dispose {w₀ : World Guest} (reads : Reads w₀ w (· = h)) (has : w.Has h v)
    (new : w₀.handles.length ≤ h) :
    Finds (V := V) w (dispose (bridge other) h) fun _ w' => Reads w₀ w' nobody := by
  have handle : w.handle h = ⟨false, v, true, false, false⟩ := by
    rw [World.handle, has, Option.getD_some]
  have marked : Reads w₀
      { w with handles := w.handles.set h ⟨false, v, true, false, true⟩ } nobody := by
    refine ⟨fun k other found => ?_, fun k other above found listed => ?_, reads.pending,
      reads.contents, reads.runs⟩
    · have apart : h ≠ k := by
        rintro rfl
        have := (List.getElem?_eq_some_iff.mp found).1
        omega
      exact (List.getElem?_set_ne apart).trans (reads.kept k other found)
    · by_cases same : h = k
      · subst same
        have := List.getElem?_set_self (a := (⟨false, v, true, false, true⟩ : Handle))
          (List.getElem?_eq_some_iff.mp has).1
        obtain rfl := Option.some.inj (this.symm.trans found)
        cases listed
      · exact absurd
          (reads.made k other above ((List.getElem?_set_ne same).symm.trans found) listed)
            (Ne.symm same)
  have owned : (w.handle h).owned = true := by rw [handle]
  have alive : (w.handle h).disposed = false := by rw [handle]
  have value : (w.handle h).value = v := by rw [handle]
  by_cases counted : (w.handle h).value.tag < 0
  · refine ⟨(), jsFreeValue
      (w.handle h).value { w with handles := w.handles.set h { w.handle h with disposed := true } },
      (Effect.bind_ok (x := Effect.get) rfl).trans ?_, ?_⟩
    · simp only [owned, alive, Bool.not_true, Bool.or_self, Bool.false_eq_true, if_false,
        counted, if_true]
      rfl
    · rw [handle]
      exact ⟨marked.kept, marked.made, marked.pending, marked.contents, marked.runs⟩
  · refine ⟨(), { w with handles := w.handles.set h { w.handle h with disposed := true } },
      (Effect.bind_ok (x := Effect.get) rfl).trans ?_, ?_⟩
    · simp only [owned, alive, Bool.not_true, Bool.or_self, Bool.false_eq_true, if_false, counted]
      rfl
    · rw [handle]
      exact marked

/-! ### Texts -/

theorem utf8Loop_encodePoint {c : Nat} (bounded : c < 0x110000) (rounds : Nat) (rest : Bytes) :
    utf8Loop (rounds + 1) (encodePoint c ++ rest) = (utf8Loop rounds rest).map
      (fromCodePoint c ++ ·) := by
  obtain ⟨first, follow, encoded, length, folded⟩ := Bridge.Keys.tail_encodePoint bounded
  have width :
      (if 0xF0 ≤ first.toNat then 4 else if 0xE0 ≤ first.toNat then 3
        else if 0xC0 ≤ first.toNat then 2 else 1) = follow.length + 1 := by
    rw [length, Bridge.Keys.tail]
    split_ifs <;> rfl
  have lead : (if follow.length + 1 = 1 then first.toNat else first.toNat % 2 ^
      (7 - (follow.length + 1))) = Bridge.Keys.lead first := by
    have less : 7 - (Bridge.Keys.tail first + 1) = 6 - Bridge.Keys.tail first := by omega
    simp only [length, Bridge.Keys.lead, less, Nat.add_eq_right]
  rw [encoded, List.cons_append, utf8Loop]
  simp only [width, lead, Nat.add_sub_cancel, List.take_left, List.drop_left, folded]
  rw [if_neg (by omega)]

theorem utf8Loop_flatMap {points : List Nat} (bounded : ∀ c ∈ points, c < 0x110000) (rounds : Nat)
    (enough : points.length ≤ rounds) :
    utf8Loop rounds (points.flatMap encodePoint) = some (points.flatMap fromCodePoint) := by
  induction points generalizing rounds with
  | nil => cases rounds <;> rfl
  | cons c rest ih =>
    cases rounds with
    | zero => cases enough
    | succ rounds =>
      have later := ih (fun d member => bounded d (List.mem_cons_of_mem c member)) rounds
        (Nat.le_of_succ_le_succ enough)
      rw [List.flatMap_cons, utf8Loop_encodePoint (bounded c List.mem_cons_self), later]
      rfl

theorem length_le_flatMap (points : List Nat) :
    points.length ≤ (points.flatMap encodePoint).length := by
  induction points with
  | nil => exact Nat.le_refl 0
  | cons c rest ih =>
    have positive : 1 ≤ (encodePoint c).length := by
      unfold encodePoint
      split_ifs <;> simp
    simp only [List.flatMap_cons, List.length_append, List.length_cons]
    omega

theorem utf8_encodeAll (text : Text) : utf8 (encodeAll text) = some text := by
  have loop := utf8Loop_flatMap (codePoints_lt text) (encodeAll text).length (length_le_flatMap _)
  rw [flatMap_fromCodePoint] at loop
  simp only [utf8]
  split
  · exact loop
  · next clean =>
      refine congrArg some (decodeReplacing_encodeAll fun replaced => clean ?_)
      exact List.contains_iff_mem.mpr replaced

theorem finds_decode (text : Text) :
    Finds (V := V) w (decode (encodeAll text)) fun a w' => a = text ∧ w' = w := by
  rw [decode, utf8_encodeAll]
  exact .pure text ⟨rfl, rfl⟩

-- What a reading would throw is never asked for.
variable (getException : Run Guest V (HostValue V))

theorem call_run {native : Native} {reply : native.Reply} {w' : World Guest}
    (answers : (bridge other).call native w = (reply, w')) :
    (call (bridge other) native : Run Guest V native.Reply).run w = (.ok reply, w') := by
  show (Except.ok ((bridge other).call native w).1, ((bridge other).call native w).2) = _
  rw [answers]

theorem finds_readText {text : Text} (has : w.Has h v)
    (told : ∀ w' : World Guest, w'.guest = w.guest →
      (bridge other).call (.toCString v) w' = (some (encodeAll text), w')) :
    Finds (V := V) w (readText (bridge other) getException h) fun a w' => a = text ∧
    Reads w w' nobody := by
  refine Finds.step (x := Effect.get) rfl
    (Finds.step (ptr_has has) (Finds.step (call_run other (told w rfl)) ?_))
  dsimp only
  split
  · exact (finds_decode text).weaken fun _ w' same => ⟨same.1, same.2 ▸ Reads.refl w nobody⟩
  · refine Finds.step (x := Effect.modify _) rfl (Finds.step (call_run other (told _ rfl)) ?_)
    exact (finds_decode text).weaken fun _ w' same => ⟨same.1, same.2 ▸ Reads.same rfl rfl rfl rfl⟩

def World.bigIntOf (w : World Guest) : Value → Option Int
  | .shortBigInt value => some value
  | .heap .bigInt cell => some (w.bigInt cell)
  | _ => none

theorem finds_toBigInt {value : Int} (has : w.Has h v) (is : w.bigIntOf v = some value) :
    Finds (V := V) w (toBigInt (bridge other) getException h) fun _ w' => Reads w w' nobody := by
  have tag : v.tag = -9 ∨ v.tag = 7 := by
    unfold World.bigIntOf at is
    split at is
    · exact .inr rfl
    · exact .inl rfl
    · cases is
  have answers : (bridge other).call (.toBigInt128 v) w = (jsToBigInt128Sat value, w) := by
    unfold World.bigIntOf at is
    split at is
    · cases is
      rfl
    · cases is
      rfl
    · cases is
  have told (w' : World Guest) (same : w'.guest = w.guest) :
      (bridge other).call (.toCString v) w' = (some (encodeAll (decimal value)), w') := by
    unfold World.bigIntOf at is
    split at is
    · cases is
      rfl
    · cases is
      rw [World.bigInt, ← same]
      rfl
    · cases is
  refine Finds.step (ptr_has has) ?_
  rw [if_neg (by omega)]
  have status : (jsToBigInt128Sat value).1 = 0 ∨ (jsToBigInt128Sat value).1 = 1 := by
    unfold jsToBigInt128Sat
    split_ifs <;> simp
  refine Finds.step (call_run other answers) ?_
  generalize jsToBigInt128Sat value = parts at status
  obtain ⟨status_, low, high⟩ := parts
  dsimp only at status ⊢
  rcases status with rfl | rfl
  · exact .pure _ (Reads.refl w nobody)
  · refine (finds_readText other getException has told).bind fun digits w' ends => ?_
    obtain ⟨rfl, reads⟩ := ends
    rw [readDecimal_decimal]
    exact .pure value reads

-- Only internal values and objects have no text of their own, and none of them is asked for one.
theorem finds_primitive (has : w.Has h v) :
    Finds (V := V) w (primitive (bridge other) host getException h) fun _ w' =>
      Reads w w' nobody := by
  refine Finds.step (ptr_has has) ?_
  split
  · exact .pure _ (Reads.refl w nobody)
  · exact .pure _ (Reads.refl w nobody)
  · exact .pure _ (Reads.refl w nobody)
  · exact .pure _ (Reads.refl w nobody)
  · exact .pure _ (Reads.refl w nobody)
  · exact (finds_toBigInt other getException has rfl).bind fun value w' reads => .pure _ reads
  · exact (finds_toBigInt other getException has rfl).bind fun value w' reads => .pure _ reads
  · next cell =>
      have told (w' : World Guest) (same : w'.guest = w.guest) :
          (bridge other).call (.toCString (.heap .string cell)) w' =
            (some (encodeAll (w.text cell)), w') := by
        rw [World.text, ← same]
        rfl
      exact (finds_readText other getException has told).bind fun value w' ends => .pure _ ends.2
  · next cell =>
      have told (w' : World Guest) (same : w'.guest = w.guest) :
          (bridge other).call (.toCString (.heap .stringRope cell)) w' =
            (some (encodeAll (w.text cell)), w') := by
        rw [World.text, ← same]
        rfl
      exact (finds_readText other getException has told).bind fun value w' ends => .pure _ ends.2
  · exact .pure _ (Reads.refl w nobody)

/-! ### Properties -/

theorem finds_freeAtoms (entries : List (Text × Nat)) :
    Finds (V := V) w (Effect.forEach (fun entry => call (bridge other) (.freeAtom entry.2)) entries)
      fun _ w' => w' = w := by
  induction entries with
  | nil => exact .pure () rfl
  | cons entry rest ih => exact .step (call_run other rfl) ih

theorem finds_evictAtoms :
    Finds (V := V) w (evictAtoms (bridge other)) fun _ w' => Reads w w' nobody := by
  refine Finds.step (x := Effect.get) rfl ?_
  split
  · refine (finds_freeAtoms other w.atoms).bind fun _ w' same =>
      ⟨(), { w' with atoms := [] }, rfl, ?_⟩
    exact same ▸ Reads.same rfl rfl rfl rfl
  · exact .pure () (Reads.refl w nobody)

theorem jsNewAtomLen_spec (text : Bytes) (w : World Guest) :
    (jsNewAtomLen text w).1 ≠ 0 ∧ Reads w (jsNewAtomLen text w).2 nobody := by
  unfold jsNewAtomLen
  split
  · exact ⟨Nat.succ_ne_zero _, Reads.refl w nobody⟩
  · exact ⟨Nat.succ_ne_zero _, Reads.same rfl rfl rfl rfl⟩

theorem finds_atom {key : Text} (wellFormed : isWellFormed key = true) :
    Finds (V := V) w (atom (bridge other) getException key) fun _ w' => Reads w w' nobody := by
  refine Finds.step (x := Effect.get) rfl ?_
  split
  · exact .pure _ (Reads.refl w nobody)
  · refine (finds_evictAtoms other).bind fun _ w₁ evicted => ?_
    rw [internAtom, if_pos wellFormed]
    obtain ⟨made, interned⟩ := jsNewAtomLen_spec (encode key) w₁
    have answers : (bridge other).call (.newAtomLen (encode key)) w₁ =
        ((jsNewAtomLen (encode key) w₁).1, (jsNewAtomLen (encode key) w₁).2) := rfl
    refine Finds.step (call_run other answers) ?_
    rw [if_neg made]
    refine Finds.step (x := Effect.modify _) rfl (.pure _ (evicted.then (interned.then ?_)))
    exact Reads.same rfl rfl rfl rfl

theorem dataProperty_guest (w : World Guest) (name : Bytes) (rounds current : Nat) :
    (dataProperty w name rounds current).isInternal = false := by
  induction rounds generalizing current with
  | zero => rfl
  | succ rounds ih =>
    rw [dataProperty]
    split
    · next value _ => exact value.2
    · rfl
    · split
      · rfl
      · split
        · exact ih _
        · rfl

theorem finds_getDataProp {cell : Nat} {key : Text} (has : w.Has h (.heap .object cell))
    (wellFormed : isWellFormed key = true) :
    Finds (V := V) w (getDataProp (bridge other) getException h key) fun k w' =>
      w.handles.length ≤ k ∧ Reads w w' (· = k) ∧ ∃ value, w'.Has k value ∧
      value.isInternal = false := by
  refine Finds.step (ptr_has has)
    ((finds_atom other getException wellFormed).bind fun atom w₁ found => ?_)
  have guest :=
    dataProperty_guest w₁ ((w₁.guest.atoms[atom - 1]?).getD []) w₁.guest.contents.length cell
  generalize read :
    dataProperty w₁ ((w₁.guest.atoms[atom - 1]?).getD []) w₁.guest.contents.length cell =
      value at guest
  have answers : (bridge other).call (.getDataProperty (.heap .object cell) atom) w₁ =
      (value, w₁.dupValue value) := by
    rw [← read]
    rfl
  have reads : Reads w (w₁.dupValue value) nobody := found.then (Reads.same rfl rfl rfl rfl)
  generalize w₁.dupValue value = w₂ at answers reads
  refine Finds.step (call_run other answers) (Finds.step (newHandle_run w₂ value) ?_)
  have notException : value ≠ .exception := by
    rintro rfl
    cases guest
  rw [if_neg notException]
  refine .pure _ ⟨reads.length_le, ?_, value, has_withHandle w₂ value, guest⟩
  exact reads.then (reads_withHandle w₂ value)

theorem finds_errorProperty {cell : Nat} (has : w.Has h (.heap .object cell)) {name : String}
    (wellFormed : isWellFormed (text name) = true) :
    Finds (V := V) w (errorProperty (bridge other) host getException h name) fun _ w' =>
      Reads w w' nobody := by
  refine (finds_getDataProp other getException has wellFormed).bind fun k w₁ ends => ?_
  obtain ⟨new, reads, value, has', guest⟩ := ends
  refine Finds.tryFinally (?_ : Finds w₁ _ fun _ w' => Reads w₁ w' nobody) fun a w₂ reads' => ?_
  · refine Finds.step (ptr_has has') ?_
    split
    · exact .pure _ (Reads.refl w₁ nobody)
    · exact finds_primitive other host getException has'
  · have both : Reads w w₂ (· = k) := by
      have both := reads.trans reads'
      exact { both with made := fun h handle above found listed =>
        (both.made h handle above found listed).resolve_right id }
    exact finds_dispose other both (reads'.has has') new

/-! ### Types -/

theorem not_isProxy {classId : JSClass}
    (plain : ∀ isFunc isRevoked target, classId = .proxy isFunc isRevoked target → False) :
    classId.isProxy = false := by
  cases classId with
  | proxy isFunc isRevoked target => exact (plain _ _ _ rfl).elim
  | _ => rfl

theorem resolveProxy_ok {left cell last : Nat} (resolves : jsResolveProxy w left cell = .ok last) :
    ∃ n ≤ left, LiveProxies w n cell last ∧ (w.object last).classId.isProxy = false := by
  fun_induction jsResolveProxy w left cell with
  | case1 => cases resolves
  | case2 => cases resolves
  | case3 cell isFunc isRevoked target class_ left live ih =>
    obtain ⟨n, few, chain, plain⟩ := ih resolves
    rw [Bool.not_eq_true] at live
    exact ⟨n + 1, Nat.succ_le_succ few, .next (live ▸ class_) chain, plain⟩
  | case4 left cell plain =>
    obtain rfl := Except.ok.inj resolves
    exact ⟨0, Nat.zero_le _, .none, not_isProxy plain⟩

theorem resolveProxy_live {n left cell last : Nat} (live : LiveProxies w n cell last)
    (few : n ≤ left) (plain : (w.object last).classId.isProxy = false) :
    jsResolveProxy w left cell = .ok last := by
  induction live generalizing left with
  | @none cell =>
    cases class_ : (w.object cell).classId with
    | proxy isFunc isRevoked target =>
      rw [class_] at plain
      cases plain
    | _ => cases left <;> simp [jsResolveProxy, class_]
  | next class_ live ih =>
    cases left with
    | zero => cases few
    | succ left =>
      rw [jsResolveProxy.eq_def]
      simp only [class_, Bool.false_eq_true, if_false]
      exact ih (Nat.le_of_succ_le_succ few) plain

-- What `qjs_bun_type` tells of a value of the guest.
theorem qjsBunType_spec (w : World Guest) (guest : v.isInternal = false) :
    (w.Describable v ∧ ∃ code : Nat, code < types.length ∧ qjsBunType v w = ((code : Int), w) ∧
      (code = 10 → ∃ cell, v = .heap .object cell)) ∨
      (¬w.Describable v ∧ ∃ kind message, qjsBunType v w = (-1, jsThrowError kind message w)) := by
  cases v with
  | heap tag cell =>
    cases tag with
    | object =>
      by_cases callable : jsIsFunction w cell = true
      · refine .inl ⟨.inl callable, 8, by decide, ?_, nofun⟩
        simp [qjsBunType, callable]
      · cases resolved : jsResolveProxy w 1001 cell with
        | ok last =>
          refine .inl ⟨.inr ?_, ?_⟩
          · obtain ⟨n, few, live, plain⟩ := resolveProxy_ok resolved
            exact ⟨n, last, few, live, plain⟩
          · by_cases isArray : (w.object last).classId = .array
            · exact ⟨9, by decide,
                by simp [qjsBunType, callable, jsIsArray, resolved, Except.map, isArray], nofun⟩
            · by_cases isError : jsIsError w cell = true
              · exact ⟨10, by decide,
                  by simp [qjsBunType, callable, jsIsArray, resolved, Except.map, isArray, isError],
                  fun _ => ⟨cell, rfl⟩⟩
              · exact ⟨7, by decide,
                  by simp [qjsBunType, callable, jsIsArray, resolved, Except.map, isArray, isError],
                  nofun⟩
        | error failure =>
          refine .inr ⟨?_, failure.1, text failure.2,
            by simp [qjsBunType, callable, jsIsArray, resolved, Except.map]⟩
          rintro (isFunction | ⟨n, last, few, live, plain⟩)
          · exact callable isFunction
          · cases resolved.symm.trans (resolveProxy_live live few plain)
    | bigInt => exact .inl ⟨trivial, 4, by decide, rfl, nofun⟩
    | symbol => exact .inl ⟨trivial, 6, by decide, rfl, nofun⟩
    | string => exact .inl ⟨trivial, 5, by decide, rfl, nofun⟩
    | stringRope => exact .inl ⟨trivial, 5, by decide, rfl, nofun⟩
    | module => cases guest
    | functionBytecode => cases guest
  | undefined => exact .inl ⟨trivial, 0, by decide, rfl, nofun⟩
  | null => exact .inl ⟨trivial, 1, by decide, rfl, nofun⟩
  | bool _ => exact .inl ⟨trivial, 2, by decide, rfl, nofun⟩
  | int _ => exact .inl ⟨trivial, 3, by decide, rfl, nofun⟩
  | float64 _ => exact .inl ⟨trivial, 3, by decide, rfl, nofun⟩
  | shortBigInt _ => exact .inl ⟨trivial, 4, by decide, rfl, nofun⟩
  | uninitialized => cases guest
  | exception => cases guest

theorem finds_type (has : w.Has h v) (guest : v.isInternal = false)
    (describable : w.Describable v) :
    Finds (V := V) w (type (bridge other) getException h) fun t w' =>
      w' = w ∧ (t = .error → ∃ cell, v = .heap .object cell) := by
  obtain ⟨-, code, known, answers, isObject⟩ | ⟨not_, -⟩ := qjsBunType_spec w guest
  · refine Finds.step (ptr_has has) (Finds.step (call_run other answers) ?_)
    rw [if_neg (by omega), if_pos (Int.natCast_nonneg code), Int.toNat_natCast,
      List.getElem?_eq_getElem known]
    refine .pure _ ⟨rfl, fun isError => isObject ?_⟩
    have : ∀ code (known : code < types.length), types[code] = .error → code = 10 := by decide
    exact this code known isError
  · exact absurd describable not_

/-! ### Exceptions -/

theorem finds_thrownMessage (has : w.Has h v) (guest : v.isInternal = false)
    (describable : w.Describable v) :
    Finds (V := V) w (thrownMessage (bridge other) host getException h) fun _ w' =>
      Reads w w' nobody := by
  refine (finds_type other getException has guest describable).bind fun type w' ends => ?_
  obtain ⟨rfl, isObject⟩ := ends
  split
  · obtain ⟨cell, rfl⟩ := isObject rfl
    exact (finds_errorProperty other host getException has (by decide)).bind fun message w' reads =>
      .pure _ reads
  · exact .pure _ (Reads.refl w' nobody)
  · exact .pure _ (Reads.refl w' nobody)
  · exact .pure _ (Reads.refl w' nobody)
  · exact .pure _ (Reads.refl w' nobody)
  · exact (finds_primitive other host getException has).bind fun message w' reads => .pure _ reads

theorem finds_describe (has : w.Has h v) (guest : v.isInternal = false)
    (describable : w.Describable v) :
    Finds (V := V) w (describe (bridge other) host getException h) fun e w' =>
      (∃ name message, e = .exception h name message) ∧ Reads w w' nobody := by
  refine (finds_type other getException has guest describable).bind fun type w' ends => ?_
  obtain ⟨rfl, isObject⟩ := ends
  split
  · next isError =>
      obtain ⟨cell, rfl⟩ := isObject isError
      refine (finds_errorProperty other host getException has (by decide)).bind fun name w₁ first =>
        ?_
      refine (finds_errorProperty other host getException (first.has has) (by decide)).bind
        fun message w₂ second => ?_
      refine (finds_errorProperty other host getException ((first.then second).has has)
        (by decide)).bind fun _ w₃ third => ?_
      exact .pure _ ⟨⟨_, _, rfl⟩, (first.then second).then third⟩
  · refine (finds_thrownMessage other host getException has guest describable).bind
      fun message w₁ reads => ?_
    exact .pure _ ⟨⟨_, _, rfl⟩, reads⟩

-- The exception that is pending in a world is taken.
def World.taken (w : World Guest) : World Guest := { w with pending := .uninitialized }

theorem finds_getException (pending : w.pending = v) (guest : v.isInternal = false)
    (describable : w.Describable v) (stack : Nat) :
    Finds w (getExceptionWithin (bridge other) host (stack + 1)) fun e w' =>
      ∃ k name message, e = .exception k name message ∧ w.handles.length ≤ k ∧ w'.Has k v ∧
      Reads w.taken w' (· = k) := by
  have answers : (bridge other).call .getException w = (v, w.taken) := by
    rw [← pending]
    rfl
  refine Finds.step (call_run other answers) (Finds.step (newHandle_run w.taken v) ?_)
  have has := has_withHandle w.taken v
  have describable' : (w.taken.withHandle v).Describable v := describable.congr rfl
  obtain ⟨e, w', describes, ⟨name, message, rfl⟩, reads⟩ :=
    finds_describe other host (getExceptionWithin (bridge other) host stack) has guest describable'
  refine ⟨_, w', ?_, w.handles.length, name, message, rfl, Nat.le_refl _, reads.has has, ?_⟩
  · show (Effect.tryCatch _ _).run _ = _
    simp only [Effect.tryCatch]
    rw [describes]
    rfl
  · have both := (reads_withHandle w.taken v).trans reads
    exact { both with made := fun h handle above found listed =>
      (both.made h handle above found listed).resolve_right id }

-- The error that `JS_ThrowError` makes is described like any other.
theorem thrown_error (kind : Kind) (message : Text) (w : World Guest) :
    ∃ cell, (jsThrowError kind message w).pending = .heap .object cell ∧
    w.guest.contents.length ≤ cell ∧
      (jsThrowError kind message w).Describable (.heap .object cell) := by
  refine ⟨_, rfl, by simp [World.allocate], .inr ⟨0, _, Nat.zero_le _, .none, ?_⟩⟩
  simp [World.object, jsThrowError, World.allocate, JSClass.isProxy]

-- An error that is thrown in the place of the value is described, and thrown.
theorem getException_replaced (pending : w.pending = v) (guest : v.isInternal = false)
    (undescribable : ¬w.Describable v) (stack : Nat) : ∃ k name message cell w',
      (getExceptionWithin (bridge other) host (stack + 2)).run w =
        (.error (.exception k name message), w') ∧
        w'.Has k (.heap .object cell) ∧ w.guest.contents.length ≤ cell := by
  have answers : (bridge other).call .getException w = (v, w.taken) := by
    rw [← pending]
    rfl
  have undescribable' : ¬(w.taken.withHandle v).Describable v :=
    fun describable => undescribable (describable.congr rfl)
  obtain ⟨describable, -⟩ | ⟨-, kind, message, fails⟩ :=
    qjsBunType_spec (w.taken.withHandle v) guest
  · exact absurd describable undescribable'
  obtain ⟨cell, thrown, new, describable⟩ := thrown_error kind message (w.taken.withHandle v)
  obtain ⟨_, w', taken, k, name, text, rfl, -, has, -⟩ :=
    finds_getException other host thrown rfl describable stack
  have asks : (bridge other).call (.type v) (w.taken.withHandle v) =
      (-1, jsThrowError kind message (w.taken.withHandle v)) :=
    fails
  have typed :
      (type (bridge other)
        (getExceptionWithin (bridge other) host (stack + 1)) w.taken.handles.length).run
      (w.taken.withHandle v) = (.error (.exception k name text), w') := by
    refine (Effect.bind_ok (ptr_has (has_withHandle w.taken v))).trans
      ((Effect.bind_ok (call_run other asks)).trans ?_)
    exact Effect.bind_ok taken
  refine ⟨k, name, text, cell, { w' with undescribed := w.handles.length :: w'.undescribed },
    ?_, has, new⟩
  refine (Effect.bind_ok (call_run other answers)).trans
    ((Effect.bind_ok (newHandle_run w.taken v)).trans ?_)
  show (Effect.tryCatch _ _).run _ = _
  have described :
      (describe (bridge other) host (getExceptionWithin (bridge other) host (stack + 1))
        w.taken.handles.length).run (w.taken.withHandle v) =
          (.error (.exception k name text), w') := Effect.bind_error typed
  simp only [Effect.tryCatch]
  rw [described]
  rfl

end

/-! ### The wrappers -/

-- A wrapper whose native has failed throws what `getException` returns or throws.
theorem throws_run {wrapper : Wrapper V} {w w' : World Guest} {v : GuestValue}
    (throws : wrapper.Throws w v w') (other : Engine Guest) (host : Host V Guest) :
    ∃ w₁, w₁.pending = v.1 ∧ Reads w' w₁ nobody ∧ ∀ e w₂,
      (getException (bridge other) host).run w₁ = (.ok e, w₂) ∨
      (getException (bridge other) host).run w₁ = (.error e, w₂) →
        (wrapper.call (bridge other) host).run w = (.error e, w₂) := by
  obtain ⟨pending, failed⟩ := throws
  have thrown {α : Type} {w₁ w₂ : World Guest} {e : HostValue V}
      (taken : (getException (bridge other) host).run w₁ = (.ok e, w₂) ∨
        (getException (bridge other) host).run w₁ = (.error e, w₂)) :
      (throwException (getException (bridge other) host) : Run Guest V α).run w₁ =
        (.error e, w₂) := by
    rcases taken with returned | threw
    · exact Effect.bind_ok returned
    · exact Effect.bind_error threw
  cases wrapper with
  | result native =>
    refine ⟨w'.withHandle .exception, pending, ?_, fun e w₂ taken => ?_⟩
    · have reads := reads_withHandle w' .exception
      refine { reads with made := fun h handle above found listed => ?_ }
      obtain rfl := reads.made h handle above found listed
      obtain rfl := Option.some.inj ((has_withHandle w' .exception).symm.trans found)
      cases listed
    · refine (Effect.bind_ok failed).trans
        (Effect.bind_error ((Effect.bind_ok (newHandle_run w' .exception)).trans ?_))
      rw [if_pos rfl]
      exact thrown taken
  | status native =>
    obtain ⟨ok, negative, runs⟩ := failed
    refine ⟨w', pending, Reads.refl w' nobody, fun e w₂ taken => (Effect.bind_ok runs).trans ?_⟩
    rw [if_pos negative]
    exact thrown taken
  | pointer native =>
    refine ⟨w', pending, Reads.refl w' nobody, fun e w₂ taken => (Effect.bind_ok failed).trans ?_⟩
    exact thrown taken

theorem describable_new {w : World Guest} {cell : Nat} (new : w.guest.contents.length ≤ cell) :
    w.Describable (.heap .object cell) := by
  refine .inr ⟨0, cell, Nat.zero_le _, .none, ?_⟩
  rw [World.object, List.getElem?_eq_none new]
  rfl

theorem getException_eq (engine : Engine Guest) (host : Host V Guest) :
    getException engine host = getExceptionWithin engine host (2 ^ 53 - 2 + 2) := rfl

variable {other : Engine Guest} {host : Host V Guest} {wrapper : Wrapper V} {w w' w'' : World Guest}
    {v : GuestValue}
  {outcome : Except (HostValue V) Unit}

theorem taken_itself (throws : wrapper.Throws w v w')
    (calls : (wrapper.call (bridge other) host).run w = (outcome, w''))
    (describable : w'.Describable v.1) : TakenItself v.1 w' outcome w'' := by
  obtain ⟨w₁, pending, before, leaves⟩ := throws_run throws other host
  rw [getException_eq] at leaves
  obtain ⟨_, w₂, taken, k, name, message, rfl, new, has, reads⟩ :=
    finds_getException other host pending v.2 (describable.congr before.contents) (2 ^ 53 - 2 + 1)
  obtain ⟨rfl, rfl⟩ := Prod.mk.inj (calls.symm.trans (leaves _ _ (.inl taken)))
  refine ⟨k, name, message, rfl, before.length_le.trans new, has, ?_⟩
  have start : Reads w'.taken w₁.taken nobody :=
    ⟨before.kept, before.made, rfl, before.contents, before.runs⟩
  exact start.then reads

-- The host has a new error in the place of the value.
theorem not_taken_itself (throws : wrapper.Throws w v w')
    (calls : (wrapper.call (bridge other) host).run w = (outcome, w''))
    (undescribable : ¬w'.Describable v.1) : ¬TakenItself v.1 w' outcome w'' := by
  obtain ⟨w₁, pending, before, leaves⟩ := throws_run throws other host
  rw [getException_eq] at leaves
  have undescribable' : ¬w₁.Describable v.1 :=
    fun describable => undescribable (describable.congr before.contents.symm)
  rintro ⟨h, name, message, rfl, -, has, -⟩
  obtain ⟨k, name', message', cell, w₂, replaced, has', new⟩ :=
    getException_replaced other host pending v.2 undescribable' (2 ^ 53 - 2)
  obtain ⟨same, rfl⟩ := Prod.mk.inj (calls.symm.trans (leaves _ _ (.inr replaced)))
  obtain ⟨rfl, -, -⟩ := HostValue.exception.inj (Except.error.inj same)
  have value : v.1 = .heap .object cell := by simpa using Option.some.inj (has.symm.trans has')
  exact undescribable' (value ▸ describable_new new)

instance : Inhabited Value := ⟨.undefined⟩

/-- An engine without guest code, and a host without objects of its own. -/
def idleEngine : Engine Guest := ⟨fun native w => by cases native <;> exact (default, w)⟩

def idleHost : Host Unit Guest := ⟨fun _ => false, fun _ => [], fun _ => .throw .undefined⟩

def proxied (isRevoked : Bool) (pending : Value) : World Guest where
  disposed := false
  cells := [16, 32]
  references := [1, 1]
  engine := [1, 1]
  handles := []
  atoms := []
  pending := pending
  inOutOfMemory := false
  hostDepth := 0
  scratch := 4096
  undescribed := []
  guest :=
    ⟨[.object ⟨.object, [], none⟩, .object ⟨.proxy false isRevoked 0, [], none⟩], [], 0, 0, 0⟩

-- A call out of which guest code throws the proxy.
def thrower (isRevoked : Bool) : Wrapper Unit :=
  .result (.lift fun _ => (.exception, proxied isRevoked (.heap .object 1)))

theorem thrower_throws (isRevoked : Bool) :
    (thrower isRevoked).Throws (proxied isRevoked .uninitialized)
    ⟨.heap .object 1, rfl⟩ (proxied isRevoked (.heap .object 1)) :=
  ⟨rfl, rfl⟩

theorem thrower_ends (isRevoked : Bool) : ∃ outcome w'',
    ((thrower isRevoked).call (bridge idleEngine) idleHost).run (proxied isRevoked .uninitialized) =
      (outcome, w'') :=
  ⟨_, _, Prod.mk.eta.symm⟩

end QuickJSBun.Context
