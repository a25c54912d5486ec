import QuickJSBun.Engine.AtomsStart
import QuickJSBun.Engine.CStrings

/-! The atoms of property keys: `is_num_string`, which gives a number below 2^31 its tag
instead of a place, the constructors from a string, from UTF-8 and from a `uint32_t`, and
the text of an atom.

Whatever the constructor, what it gives denotes the text, and two atoms that denote texts are
the same number exactly when the texts are the same.
-/

set_option autoImplicit false

namespace QuickJSBun.Engine.Atoms

open Library Library.Chained Library.Chained.Table Engine.Strings

/-! ### Constructors -/

def atomMaxInt : Nat := atomTagInt - 1

def atomFromUInt32 (v : Nat) : Nat := v ||| atomTagInt

def atomIsTaggedInt (v : Nat) : Bool := v &&& atomTagInt != 0

/-- `__JS_AtomToUInt32`, of 32 bits -/
def atomToUInt32 (atom : Nat) : Nat := atom &&& atomMaxInt

def numLoop : Nat → Text → Option Nat
  | n, [] => some n
  | n, u :: rest =>
    if !isDigit u then none
    else
      let n64 := n * 10 + (u.toNat - 0x30)
      if n64 >>> 32 ≠ 0 then none else numLoop n64 rest

def isNumString (p : JSString) : Option Nat :=
  match p.text with
  | [] => none
  | c :: rest =>
    if 10 < p.len then none
    else if isDigit c then
      if c = 0x30 then if p.len ≠ 1 then none else some 0
      else numLoop (c.toNat - 0x30) rest
    else none

section
variable (memory : Memory)

def jsNewAtomStr (p : JSString) : Running Nat :=
  match isNumString p with
  | some n => if n ≤ atomMaxInt then pure (atomFromUInt32 n) else newAtom memory p .string
  | none => newAtom memory p .string

-- The string, when the shortcut has not found it.
def newAtomFrom (buf : Bytes) : Running Nat := do
  match ← attempt (jsNewStringLen memory buf) with
  | none => pure 0
  | some val => jsNewAtomStr memory val

/-- `count_ascii(buf, len) == len` -/
def allAscii (buf : Bytes) : Bool := buf.all fun b => decide (b.toNat < 128)

def jsNewAtomLen (buf : Bytes) : Running Nat :=
  if buf.isEmpty || (!buf.head?.any (fun b => isDigit b.toUInt16) && allAscii buf) then do
    let atom ← findAscii buf
    if atom ≠ 0 then pure atom else newAtomFrom memory buf
  else newAtomFrom memory buf

def u32toa (n : Nat) : Bytes := (digits n).map UInt16.toUInt8

def jsNewAtomUInt32 (n : Nat) : Running Nat :=
  if n ≤ atomMaxInt then pure (atomFromUInt32 n)
  else do
    match ← attempt (jsNewString8Len memory (u32toa n)) with
    | none => pure 0
    | some val => newAtom memory val .string

/-- `JS_ValueToAtom` for strings. The atom shares the string, and the value gives its reference back
later. -/
def jsValueToAtom (val : StringValue) : Running Nat := do
  match ← attempt (jsToString memory val) with
  | none => pure 0
  | some (str, _) => jsNewAtomStr memory str

/-- `JS_AtomToString`; the empty wide string stands for no description. -/
def jsAtomToString (atom : Nat) : Running (Option JSString) :=
  if atomIsTaggedInt atom then attempt (jsNewString8Len memory (u32toa (atomToUInt32 atom)))
  else do
    let rt ← Effect.get
    let (p, _) ← walk (rt.table.read atom)
    pure (some (if p.atomType ≠ .string ∧ p.str = .str16 [] then .str8 [] else p.str))

def jsAtomToCStringLen (atom : Nat) : Running (Option CString) := do
  match ← jsAtomToString memory atom with
  | none => pure none
  | some str =>
    let made ← attempt (jsToCStringLen2 memory (.string str))
    pure (made.map Prod.fst)

end

/-! ### Numbers -/

theorem numLoop_iff {rest : Text} {n m : Nat} (positive : 0 < n) (small : n < 2 ^ 32) :
    numLoop n rest = some m ↔ m < 2 ^ 32 ∧ digits m = digits n ++ rest := by
  induction rest generalizing n with
  | nil =>
    rw [numLoop, Option.some.injEq, List.append_nil]
    constructor
    · rintro rfl
      exact ⟨small, rfl⟩
    · rintro ⟨-, same⟩
      exact (digits_injective same).symm
  | cons u rest ih =>
    cases digit : isDigit u with
    | false =>
      rw [numLoop, digit]
      refine iff_of_false (Option.some_ne_none _).symm ?_
      rintro ⟨-, written⟩
      have all :=
        isDigit_digits m u (by rw [written]; exact List.mem_append_right _ List.mem_cons_self)
      rw [digit] at all
      cases all
    | true =>
      obtain ⟨low, same⟩ := digit_of_unit digit
      have shifted : digits n ++ u :: rest = digits (n * 10 + (u.toNat - 0x30)) ++ rest := by
        rw [digits_concat positive low, same, List.append_assoc, List.singleton_append]
      rw [numLoop, digit, shifted]
      simp only [Bool.not_true, Bool.false_eq_true, if_false, Nat.shiftRight_eq_div_pow]
      by_cases fits : n * 10 + (u.toNat - 0x30) < 2 ^ 32
      · rw [if_neg (by omega)]
        exact ih (by omega) fits
      · rw [if_pos (by omega)]
        refine iff_of_false (Option.some_ne_none _).symm ?_
        rintro ⟨bounded, written⟩
        have := le_of_digits_append written
        omega

-- `is_num_string` reads exactly the texts of the numbers below 2^32.
theorem isNumString_iff {p : JSString} {n : Nat} :
    isNumString p = some n ↔ n < 2 ^ 32 ∧ p.text = digits n := by
  have length := p.len_eq
  unfold isNumString
  cases shape : p.text with
  | nil =>
    refine iff_of_false (Option.some_ne_none _).symm ?_
    rintro ⟨-, written⟩
    exact digits_ne_nil n written.symm
  | cons c rest =>
    rw [shape] at length
    dsimp only
    by_cases long : 10 < p.len
    · rw [if_pos long]
      refine iff_of_false (Option.some_ne_none _).symm ?_
      rintro ⟨bounded, written⟩
      have few : (digits n).length ≤ 10 := length_digits_le (by omega) (by omega)
      rw [← written] at few
      omega
    rw [if_neg long]
    cases digit : isDigit c with
    | false =>
      rw [if_neg Bool.false_ne_true]
      refine iff_of_false (Option.some_ne_none _).symm ?_
      rintro ⟨-, written⟩
      have all := isDigit_digits n c (by rw [← written]; exact List.mem_cons_self)
      rw [digit] at all
      cases all
    | true =>
      rw [if_pos rfl]
      by_cases zero : c = 0x30
      · subst zero
        rw [if_pos rfl]
        have noOther : 0x30 :: rest = digits n → n = 0 := by
          intro written
          by_contra some
          have head := digits_head (Nat.pos_of_ne_zero some)
          rw [← written] at head
          exact head rfl
        by_cases alone : p.len = 1
        · rw [if_neg (not_not.mpr alone)]
          have none : rest = [] := by
            rw [alone, List.length_cons] at length
            exact List.length_eq_zero_iff.mp (by omega)
          subst none
          constructor
          · intro same
            obtain rfl := Option.some.inj same
            exact ⟨by omega, rfl⟩
          · rintro ⟨-, written⟩
            rw [noOther written]
        · rw [if_pos alone]
          refine iff_of_false (Option.some_ne_none _).symm ?_
          rintro ⟨-, written⟩
          rw [noOther written] at written
          rw [written] at length
          exact absurd length alone
      · rw [if_neg zero]
        obtain ⟨low, same⟩ := digit_of_unit digit
        have positive : 0 < c.toNat - 0x30 := by
          refine Nat.pos_of_ne_zero fun none => zero ?_
          rw [← same, none]
          rfl
        rw [numLoop_iff positive (by omega), digits_small low, same, List.singleton_append]
        exact and_congr_right fun _ => eq_comm

/-! ### Tags -/

theorem atomFromUInt32_eq {n : Nat} (small : n < atomTagInt) :
    atomFromUInt32 n = n + atomTagInt := by
  unfold atomFromUInt32 atomTagInt
  rw [Nat.lor_comm, Nat.add_comm]
  exact (Nat.two_pow_add_eq_or_of_lt small 1).symm

theorem isConst_tagged (n : Nat) : atomIsConst (n + atomTagInt) = true := by
  unfold atomIsConst
  rw [decide_eq_true (Nat.le_add_left atomTagInt n), Bool.or_true]

theorem atomToUInt32_tagged {n : Nat} (small : n < atomTagInt) :
    atomToUInt32 (n + atomTagInt) = n := by
  unfold atomToUInt32 atomMaxInt
  have mod := Nat.and_two_pow_sub_one_eq_mod (n + atomTagInt) 31
  unfold atomTagInt at *
  rw [mod]
  omega

theorem isTagged_tagged {n : Nat} (small : n < atomTagInt) :
    atomIsTaggedInt (n + atomTagInt) = true := by
  unfold atomIsTaggedInt
  rw [bne_iff_ne]
  intro none
  have bit := congrArg (fun k => k.testBit 31) none
  unfold atomTagInt at bit small
  rw [Nat.testBit_and, Nat.testBit_two_pow_self, Bool.and_true, Nat.add_comm,
    Nat.testBit_two_pow_add_eq, Nat.testBit_lt_two_pow small, Nat.zero_testBit] at bit
  cases bit

theorem isTagged_place {i : Nat} (small : i < atomTagInt) : atomIsTaggedInt i = false := by
  unfold atomIsTaggedInt
  rw [bne_eq_false_iff_eq]
  unfold atomTagInt at *
  apply Nat.eq_of_testBit_eq
  intro k
  rw [Nat.testBit_and, Nat.testBit_two_pow, Nat.zero_testBit]
  by_cases isIt : 31 = k
  · subst isIt
    rw [Nat.testBit_lt_two_pow small, Bool.false_and]
  · rw [decide_eq_false isIt, Bool.and_false]

/-! ### What atoms denote -/

variable {rt rt' : JSRuntime} {memory : Memory} {i j : Nat} {text other : Text}

-- An atom of a text: its number with the tag, or its place.
def JSRuntime.Denotes (rt : JSRuntime) (i : Nat) (text : Text) : Prop :=
  (∃ n < atomTagInt, i = n + atomTagInt ∧ text = digits n) ∨ (¬IsIndex text ∧ rt.Is i .string text)

theorem JSRuntime.Denotes.kept (denotes : rt.Denotes i text) (kept : Kept rt rt') :
    rt'.Denotes i text := by
  rcases denotes with tagged | ⟨plain, known⟩
  · exact .inl tagged
  · exact .inr ⟨plain, known.kept kept⟩

-- Two atoms are the same number exactly when their texts are the same.
theorem denotes_iff (valid : rt.Valid) (one : rt.Denotes i text) (two : rt.Denotes j other) :
    i = j ↔ text = other := by
  rcases one with ⟨n, small, rfl, rfl⟩ | ⟨plain, some, p, stored, isString, rfl⟩
  · rcases two with ⟨m, -, rfl, rfl⟩ | ⟨plain', -, q, stored', -, rfl⟩
    · constructor
      · intro same
        rw [Nat.add_right_cancel same]
      · intro same
        rw [digits_injective same]
    · constructor
      · rintro rfl
        have := valid.untagged stored'
        omega
      · intro same
        exact absurd ⟨n, small, same.symm⟩ plain'
  · rcases two with ⟨m, small, rfl, rfl⟩ | ⟨-, -, q, stored', isString', rfl⟩
    · constructor
      · rintro rfl
        have := valid.untagged stored
        omega
      · intro same
        exact absurd ⟨m, small, same⟩ plain
    · constructor
      · rintro rfl
        rw [Option.some.inj (stored.symm.trans stored')]
      · intro same
        refine valid.once i j p q stored stored' ?_ (isString'.trans isString.symm) same.symm
        rw [isString]
        rfl

/-- There is one more reference of the atom of a text, or there is none for want of memory. -/
def Named (memory : Memory) (rt : JSRuntime) (text : Text) (i : Nat) (rt' : JSRuntime) : Prop :=
  (i = 0 ∧ Idle rt rt' ∧ rt.Starved memory) ∨ (i ≠ 0 ∧ Gains rt i rt' ∧ rt'.Denotes i text)

theorem Gained.named (gained : Gained memory rt .string text i rt') (plain : ¬IsIndex text) :
    Named memory rt text i rt' :=
  gained.imp_right fun both => ⟨both.2.1, both.1, .inr ⟨plain, both.2⟩⟩

-- A number with a tag needs no reference.
theorem tagged_named (valid : rt.Valid) {n : Nat} (small : n < atomTagInt) :
    Named memory rt (digits n) (n + atomTagInt) rt := by
  have some : n + atomTagInt ≠ 0 := by
    unfold atomTagInt
    omega
  refine .inr ⟨some, ⟨valid, valid.idle.kept, fun refs counts i counted => ?_⟩,
    .inl ⟨n, small, rfl, rfl⟩⟩
  have apart : n + atomTagInt ≠ i := by
    rintro rfl
    rw [isConst_tagged] at counted
    cases counted
  rw [List.count_cons_of_ne apart]
  exact counts i counted

theorem Named.of_calls {calls : Nat} (valid : rt.Valid)
    (named : Named memory { rt with calls } text i rt') : Named memory rt text i rt' := by
  have idle : Idle rt { rt with calls } := .of_table valid rfl
  rcases named with ⟨none, later, starved⟩ | ⟨some, gains, denotes⟩
  · exact .inl ⟨none, idle.trans later, starved⟩
  · exact .inr ⟨some, idle.gains gains, denotes⟩

theorem named_none {calls : Nat} (valid : rt.Valid) (starved : ¬memory.Ample) :
    Named memory rt text 0 { rt with calls } :=
  .inl ⟨rfl, .of_table valid rfl, .inl starved⟩

/-! ### What the constructors give -/

theorem newAtom_names {str : JSString} (valid : rt.Valid) (short : str.len ≤ lenMax)
    (plain : ¬IsIndex str.text) :
    Effect.Triple (· = rt) (newAtom memory str .string) (Named memory rt str.text)
      fun e _ => e = .undefined ∧ rt.Crowded :=
  (newAtom_ends valid short fun _ => plain).weaken (fun _ start => start)
    (fun _ _ obtained => (obtained.gained valid).named plain) fun _ _ fails => fails

theorem jsNewAtomStr_names {p : JSString} (valid : rt.Valid) (short : p.len ≤ lenMax) :
    Effect.Triple (· = rt) (jsNewAtomStr memory p) (Named memory rt p.text) fun e _ =>
      e = .undefined ∧ rt.Crowded := by
  -- a text that is no number, or that of one with no tag
  have others : (∀ n < atomTagInt, isNumString p ≠ some n) → ¬IsIndex p.text := by
    rintro none ⟨n, small, written⟩
    refine none n small (isNumString_iff.mpr ⟨?_, written⟩)
    unfold atomTagInt at small
    omega
  unfold jsNewAtomStr
  cases read : isNumString p with
  | none =>
    refine newAtom_names valid short (others fun n _ => ?_)
    rw [read]
    exact (Option.some_ne_none _).symm
  | some n =>
    dsimp only
    obtain ⟨-, written⟩ := isNumString_iff.mp read
    by_cases small : n ≤ atomMaxInt
    · have tags : n < atomTagInt := by
        unfold atomMaxInt atomTagInt at *
        omega
      rw [if_pos small, atomFromUInt32_eq tags, written]
      refine Effect.Triple.pure _ ?_
      rintro _ rfl
      exact tagged_named valid tags
    · rw [if_neg small]
      refine newAtom_names valid short (others fun m low => ?_)
      rw [read]
      rintro same
      obtain rfl := Option.some.inj same
      unfold atomMaxInt at small
      omega

theorem text_ascii {text : Text} (ascii : ∀ b ∈ encodeAll text, b.toNat < 128) :
    (JSString.str8 (encodeAll text)).text = text := by
  obtain ⟨front, back, split⟩ := split_ascii text
  have all : (encodeAll text).takeWhile (fun b => decide (b.toNat < 128)) = encodeAll text :=
    List.takeWhile_eq_self_iff.mpr fun b member => decide_eq_true (ascii b member)
  have bytes : encodeAll text = front.flatMap encodePoint := all.symm.trans split.counted
  have none : back = [] := by
    cases back with
    | nil => rfl
    | cons c rest =>
      have some := List.length_pos_of_ne_nil (encodePoint_ne_nil c)
      have total := congrArg List.length (bytes.symm.trans split.bytes)
      rw [List.flatMap_cons, List.length_append, List.length_append] at total
      omega
  subst none
  rw [JSString.text, bytes, map_ascii split.ascii, split.joined]
  simp [units]

-- The texts whose UTF-8 the engine reads.
def Readable (text : Text) : Prop := isWide text = true → (encodeAll text).length < 0x40000000

theorem newAtomFrom_names (valid : rt.Valid) (short : (text.length : Int) ≤ lenMax) :
    Effect.Triple (· = rt) (newAtomFrom memory (encodeAll text))
      (fun i rt' => Named memory rt text i rt' ∨ (i = 0 ∧ Idle rt rt' ∧ ¬Readable text))
      fun e _ => e = .undefined ∧ (rt.Crowded ∨ ¬Readable text) := by
  unfold newAtomFrom
  by_cases fits : Readable text
  · refine Effect.Triple.bind (attempt_ends (jsNewStringLen_makes short fits) rt).throwless
      fun result =>
      Effect.Triple.each fun _ ends => ?_
    obtain ⟨⟨calls, rfl⟩, ⟨str, rfl, rfl, -⟩ | ⟨rfl, starved⟩⟩ := ends
    · have valid' : JSRuntime.Valid { rt with calls } := valid.of_table rfl
      have shortStr : str.len ≤ lenMax := by
        rw [str.len_eq]
        exact short
      refine (jsNewAtomStr_names valid' shortStr).weaken (fun _ start => start)
        (fun _ _ named => .inl (named.of_calls valid)) fun _ _ ⟨same, crowded⟩ =>
          ⟨same, .inl crowded⟩
    · refine Effect.Triple.pure 0 ?_
      rintro _ rfl
      exact .inl (named_none valid starved)
  · obtain ⟨wide, large⟩ := Classical.not_imp.mp fits
    have never : Never (jsNewStringLen memory (encodeAll text)) :=
      jsNewStringLen_never short wide (Nat.not_lt.mp large)
    refine Effect.Triple.bind
      ((attempt_never never rt).weaken (fun _ start => start) (fun _ _ ends => ends) fun _ _ same =>
      ⟨same, .inr fits⟩) fun result => Effect.Triple.each fun _ ends => ?_
    obtain ⟨⟨calls, rfl⟩, rfl⟩ := ends
    refine Effect.Triple.pure 0 ?_
    rintro _ rfl
    exact .inr ⟨rfl, .of_table valid rfl, fits⟩

/-- What an atom of a text, asked for by its bytes, may come to. -/
def Asked (memory : Memory) (rt : JSRuntime) (text : Text) (i : Nat) (rt' : JSRuntime) : Prop :=
  Named memory rt text i rt' ∨ (i = 0 ∧ Idle rt rt' ∧ ¬Readable text)

-- The shortcut is taken for no text that is an index.
theorem not_index_of_shortcut
    (shortcut :
      ((encodeAll text).isEmpty ||
        (!(encodeAll text).head?.any (fun b => isDigit b.toUInt16) && allAscii (encodeAll text))) =
          true) :
    (JSString.str8 (encodeAll text)).text = text ∧ ¬IsIndex text := by
  have ascii : ∀ b ∈ encodeAll text, b.toNat < 128 := by
    rcases Bool.or_eq_true_iff.mp shortcut with empty | plain
    · rw [List.isEmpty_iff.mp empty]
      exact fun _ member => absurd member List.not_mem_nil
    · have all := ((Bool.and_eq_true _ _).mp plain).2
      intro b member
      simpa using List.all_eq_true.mp all b member
  have units := text_ascii ascii
  refine ⟨units, ?_⟩
  intro index
  obtain ⟨u, rest, shape, digit⟩ := isIndex_head index
  cases bytes : encodeAll text with
  | nil =>
    rw [bytes] at units
    rw [← units] at shape
    cases shape
  | cons b later =>
    rw [bytes] at units shortcut
    rw [← units] at shape
    obtain ⟨rfl, -⟩ := List.cons.inj shape
    simp only [List.isEmpty_cons, Bool.false_or, List.head?_cons, Option.any_some, digit,
      Bool.not_true, Bool.false_and] at shortcut
    cases shortcut

theorem jsNewAtomLen_names (valid : rt.Valid) (short : (text.length : Int) ≤ lenMax) :
    Effect.Triple (· = rt) (jsNewAtomLen memory (encodeAll text)) (Asked memory rt text)
      fun e _ => e = .undefined ∧ (rt.Crowded ∨ ¬Readable text) := by
  unfold jsNewAtomLen
  by_cases shortcut :
    ((encodeAll text).isEmpty || (!(encodeAll text).head?.any (fun b => isDigit b.toUInt16) &&
      allAscii (encodeAll text))) = true
  · rw [if_pos shortcut]
    obtain ⟨units, plain⟩ := not_index_of_shortcut shortcut
    refine Effect.Triple.bind (findAscii_ends valid _).throwless fun i =>
      Effect.Triple.each fun rt' ends => ?_
    rcases ends with ⟨rfl, rfl⟩ | ⟨gains, known⟩
    · rw [if_neg (not_not.mpr rfl)]
      exact newAtomFrom_names valid short
    · rw [if_pos known.1]
      refine Effect.Triple.pure i ?_
      rintro _ rfl
      exact .inl (.inr ⟨known.1, gains, .inr ⟨plain, units ▸ known⟩⟩)
  · rw [if_neg shortcut]
    exact newAtomFrom_names valid short

-- An index has its tag, and needs no place in the table.
theorem jsNewAtomLen_index (ample : memory.Ample) {n : Nat} (small : n < atomTagInt) :
    Effect.Triple (· = rt) (jsNewAtomLen memory (encodeAll (digits n)))
      (fun i rt' => i = n + atomTagInt ∧ ∃ calls, rt' = { rt with calls }) fun _ _ => False := by
  have bound : n < 2 ^ 32 := by
    unfold atomTagInt at small
    omega
  have narrow : isWide (digits n) = false := by
    cases wide : isWide (digits n) with
    | false => rfl
    | true =>
      obtain ⟨u, member, large⟩ := List.any_eq_true.mp wide
      have digit := isDigit_digits n u member
      simp only [isDigit, Bool.and_eq_true, decide_eq_true_eq] at digit large
      omega
  have short : ((digits n).length : Int) ≤ lenMax := by
    have few := length_digits_le (k := 10) (Nat.lt_trans bound (by decide)) (by decide)
    unfold lenMax
    omega
  unfold jsNewAtomLen
  rw [if_neg fun shortcut => (not_index_of_shortcut shortcut).2 ⟨n, small, rfl⟩]
  unfold newAtomFrom
  have fits : Readable (digits n) := fun wide => absurd (narrow.symm.trans wide) Bool.false_ne_true
  refine Effect.Triple.bind (attempt_ends (jsNewStringLen_makes short fits) rt) fun result =>
    Effect.Triple.each fun _ ends => ?_
  obtain ⟨⟨calls, rfl⟩, ⟨str, rfl, written, -⟩ | ⟨rfl, starved⟩⟩ := ends
  · dsimp only
    unfold jsNewAtomStr
    rw [isNumString_iff.mpr ⟨bound, written⟩]
    dsimp only
    have tags : n ≤ atomMaxInt := by
      unfold atomMaxInt atomTagInt at *
      omega
    rw [if_pos tags, atomFromUInt32_eq small]
    refine Effect.Triple.pure _ ?_
    rintro _ rfl
    exact ⟨rfl, calls, rfl⟩
  · exact absurd ample starved

/-! ### Digits as bytes -/

theorem text_u32toa (n : Nat) : (JSString.str8 (u32toa n)).text = digits n := by
  have same : ∀ u ∈ digits n, UInt8.toUInt16 u.toUInt8 = u := by
    intro u member
    have digit := isDigit_digits n u member
    simp only [isDigit, Bool.and_eq_true, decide_eq_true_eq] at digit
    apply UInt16.toNat_inj.mp
    rw [UInt8.toNat_toUInt16, UInt16.toNat_toUInt8]
    omega
  rw [JSString.text, u32toa, List.map_map]
  exact (List.map_congr_left same).trans (List.map_id _)

theorem length_u32toa {n : Nat} (small : n < 2 ^ 32) : (u32toa n).length ≤ 10 := by
  rw [u32toa, List.length_map]
  exact length_digits_le (by omega) (by omega)

theorem jsNewString8Len_makes {buf : Bytes} (short : buf.length < 64) :
    Makes memory (jsNewString8Len memory buf) fun str => str = .str8 buf := by
  unfold jsNewString8Len
  split
  · next empty => exact Makes.pure (by rw [empty])
  · exact Makes.bind (jsAllocString_narrow (by omega) (by omega)) fun _ _ => Makes.pure rfl

theorem jsNewAtomUInt32_names (valid : rt.Valid) {n : Nat} (small : n < 2 ^ 32) :
    Effect.Triple (· = rt) (jsNewAtomUInt32 memory n) (Named memory rt (digits n)) fun e _ =>
      e = .undefined ∧ rt.Crowded := by
  have few := length_u32toa small
  unfold jsNewAtomUInt32
  by_cases tagged : n ≤ atomMaxInt
  · have tags : n < atomTagInt := by
      unfold atomMaxInt atomTagInt at *
      omega
    rw [if_pos tagged, atomFromUInt32_eq tags]
    refine Effect.Triple.pure _ ?_
    rintro _ rfl
    exact tagged_named valid tags
  · rw [if_neg tagged]
    have plain : ¬IsIndex (JSString.str8 (u32toa n)).text := by
      rw [text_u32toa]
      rintro ⟨m, low, same⟩
      obtain rfl := digits_injective same
      unfold atomMaxInt at tagged
      omega
    refine Effect.Triple.bind (attempt_ends (jsNewString8Len_makes (by omega)) rt).throwless
      fun result =>
      Effect.Triple.each fun _ ends => ?_
    obtain ⟨⟨calls, rfl⟩, ⟨str, rfl, rfl⟩ | ⟨rfl, starved⟩⟩ := ends
    · have valid' : JSRuntime.Valid { rt with calls } := valid.of_table rfl
      have short : (JSString.str8 (u32toa n)).len ≤ lenMax := by
        show ((u32toa n).length : Int) ≤ lenMax
        unfold lenMax
        omega
      refine (newAtom_names valid' short plain).weaken (fun _ start => start)
        (fun i rt' named => ?_) fun _ _ fails => fails
      rw [text_u32toa] at named
      exact named.of_calls valid
    · refine Effect.Triple.pure 0 ?_
      rintro _ rfl
      exact named_none valid starved

theorem jsValueToAtom_names {val : StringValue} (valid : rt.Valid) (sound : val.Valid) :
    Effect.Triple (· = rt) (jsValueToAtom memory val) (Named memory rt val.text) fun e _ =>
      e = .undefined ∧ rt.Crowded := by
  unfold jsValueToAtom
  refine Effect.Triple.bind (attempt_ends (jsToString_makes sound) rt).throwless fun result =>
    Effect.Triple.each fun _ ends => ?_
  obtain ⟨⟨calls, rfl⟩, ⟨⟨str, val'⟩, rfl, linear⟩ | ⟨rfl, starved⟩⟩ := ends
  · have valid' : JSRuntime.Valid { rt with calls } := valid.of_table rfl
    have same : str.text = val.text := linear.text
    have short : str.len ≤ lenMax := by
      rw [str.len_eq, same, ← StringValue.len_eq sound]
      exact StringValue.len_le sound
    refine (jsNewAtomStr_names valid' short).weaken (fun _ start => start) (fun i rt' named => ?_)
      fun _ _ fails => fails
    rw [same] at named
    exact named.of_calls valid
  · refine Effect.Triple.pure 0 ?_
    rintro _ rfl
    exact named_none valid starved

/-! ### The text of an atom -/

-- An atom reads as its text, where that can be encoded.
def Reads (memory : Memory) (rt : JSRuntime) (text : Text) (result : Option CString)
    (rt' : JSRuntime) : Prop :=
  (∃ calls, rt' = { rt with calls }) ∧
    ((∃ c, result = some c ∧ c.bytes = encodeAll text ∧ c.len = (encodeAll text).length) ∨
      (result = none ∧ (¬memory.Ample ∨ 0x80000000 ≤ 3 * text.length)))

theorem encode_string (str : JSString) (short : str.len ≤ lenMax) (rt : JSRuntime) :
    Effect.Triple (· = rt) (attempt (jsToCStringLen2 memory (.string str)))
      (fun made rt' => Reads memory rt str.text (made.map Prod.fst) rt') fun e _ => e = .undefined ∧
      0x80000000 ≤ 3 * str.text.length := by
  have sound : (StringValue.string str).Valid := short
  by_cases fits : str.isWideChar = true → 3 * str.text.length < 0x80000000
  · refine (attempt_ends (jsToCStringLen2_makes sound fits) rt).throwless.weaken
      (fun _ start => start) ?_
      fun _ _ fails => fails
    rintro made rt' ⟨calls, ⟨c, rfl, encoded⟩ | ⟨rfl, starved⟩⟩
    · exact ⟨calls, .inl ⟨c.1, rfl, encoded.bytes, encoded.len⟩⟩
    · exact ⟨calls, .inr ⟨rfl, .inl starved⟩⟩
  · obtain ⟨wide, large⟩ := Classical.not_imp.mp fits
    have tripled : 0x80000000 ≤ 3 * str.text.length := Nat.not_lt.mp large
    have never : Never (jsToCStringLen2 memory (.string str)) :=
      jsToCStringLen2_never sound wide tripled
    refine (attempt_never never rt).weaken (fun _ start => start) ?_
      fun _ _ same => ⟨same, tripled⟩
    rintro made rt' ⟨calls, rfl⟩
    exact ⟨calls, .inr ⟨rfl, .inr tripled⟩⟩

theorem Reads.of_calls {calls : Nat} {result : Option CString}
    (reads : Reads memory { rt with calls } text result rt') : Reads memory rt text result rt' := by
  obtain ⟨⟨later, rfl⟩, ends⟩ := reads
  exact ⟨⟨later, rfl⟩, ends⟩

theorem jsAtomToCStringLen_reads (valid : rt.Valid) (denotes : rt.Denotes i text) :
    Effect.Triple (· = rt) (jsAtomToCStringLen memory i) (Reads memory rt text)
      fun e _ => e = .undefined ∧ 0x80000000 ≤ 3 * text.length := by
  -- the string first, then its bytes
  have encodes : ∀ (str : JSString) (calls : Nat), str.text = text → str.len ≤ lenMax →
      Effect.Triple (· = { rt with calls })
        (attempt (jsToCStringLen2 memory (.string str)) >>= fun made =>
          (pure (made.map Prod.fst) : Running _))
        (Reads memory rt text) fun e _ => e = .undefined ∧ 0x80000000 ≤ 3 * text.length := by
    rintro str calls rfl short
    refine Effect.Triple.bind (encode_string str short _) fun made =>
      Effect.Triple.pure _ fun _ reads => reads.of_calls
  unfold jsAtomToCStringLen jsAtomToString
  rcases denotes with ⟨n, small, rfl, rfl⟩ | ⟨-, some, p, stored, isString, rfl⟩
  · rw [isTagged_tagged small, if_pos rfl, atomToUInt32_tagged small]
    have below : n < 2 ^ 32 := by
      unfold atomTagInt at small
      omega
    have few := length_u32toa below
    refine Effect.Triple.bind (attempt_ends (jsNewString8Len_makes (by omega)) rt).throwless
      fun result =>
      Effect.Triple.each fun _ ends => ?_
    obtain ⟨⟨calls, rfl⟩, ⟨str, rfl, rfl⟩ | ⟨rfl, starved⟩⟩ := ends
    · refine encodes _ calls (text_u32toa n) ?_
      show ((u32toa n).length : Int) ≤ lenMax
      unfold lenMax
      omega
    · refine Effect.Triple.pure none ?_
      rintro _ rfl
      exact ⟨⟨calls, rfl⟩, .inr ⟨rfl, .inl starved⟩⟩
  · rw [isTagged_place (valid.untagged stored), if_neg Bool.false_ne_true]
    obtain ⟨next, reads⟩ := read_of_value stored
    rw [bind_assoc]
    refine Effect.Triple.get_bind ?_
    rw [bind_assoc]
    refine triple_walk reads ?_
    dsimp only
    rw [pure_bind, if_neg fun both => both.1 isString]
    exact encodes p.str rt.calls rfl (valid.sound i p stored).short

end QuickJSBun.Engine.Atoms
