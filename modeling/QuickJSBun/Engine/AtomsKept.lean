import QuickJSBun.Engine.AtomTable
import QuickJSBun.Library.Decimal

/-! What the functions of the atom table keep: every atom of a text stands in it once, in the
chain of its hash, and its count is the number of references that are held. A new atom goes
to a free place; it is refused only where the engine lacks memory or has too many atoms.
-/

set_option autoImplicit false

namespace QuickJSBun.Engine.Atoms

open Library Library.Chained Library.Chained.Table Engine.Strings

/-! ### Valid tables -/

def bucketOf (size : Nat) (p : JSAtomStruct) : Option Nat :=
  if p.atomType.isHashed then some (p.hash &&& (size - 1)) else none

-- The text of a number that has the tag instead of a place.
def IsIndex (text : Text) : Prop := ∃ n < atomTagInt, text = digits n

structure JSAtomStruct.Sound (p : JSAtomStruct) : Prop where
  hash : p.atomType.isHashed = true → p.hash = atomHash p.str p.atomType
  plain : p.atomType = .string → ¬IsIndex p.str.text
  short : p.str.len ≤ lenMax

namespace JSRuntime
variable (rt : JSRuntime)

structure Valid : Prop where
  holds : rt.table.Holds (bucketOf rt.table.heads.length)
  sized : 512 ≤ rt.table.heads.length
  sound : ∀ i p, rt.table.value i = some p → p.Sound
  once : ∀ i j p q, rt.table.value i = some p → rt.table.value j = some q →
    p.atomType.isHashed = true → q.atomType = p.atomType → q.str.text = p.str.text → i = j
  small : rt.table.slots.length ≤ atomMax

def references (i : Nat) : Nat := ((rt.table.value i).map JSAtomStruct.refCount).getD 0

-- These are the references that are held.
def Counts (refs : List Nat) : Prop :=
  ∀ i, atomIsConst i = false → rt.references i = refs.count i ∧ ∀ p, rt.table.value i = some p →
    0 < p.refCount

-- A place has an atom of this type and text.
def Is (i : Nat) (atomType : AtomType) (text : Text) : Prop :=
  i ≠ 0 ∧ ∃ p, rt.table.value i = some p ∧ p.atomType = atomType ∧ p.str.text = text

-- No place is free, and the array may be too large to grow.
def Crowded : Prop := rt.table.freeHead = 0 ∧ 2 ^ 28 ≤ rt.table.slots.length

-- Why an atom may be refused.
def Starved (memory : Memory) : Prop := ¬memory.Ample ∨ rt.Crowded

end JSRuntime

variable {rt rt' rt'' : JSRuntime} {i j : Nat}

def Kept (rt rt' : JSRuntime) : Prop :=
  ∀ i p, rt.table.value i = some p → ∃ q, rt'.table.value i = some q ∧ q.str = p.str ∧
    q.atomType = p.atomType

theorem Kept.trans (first : Kept rt rt') (second : Kept rt' rt'') : Kept rt rt'' := by
  intro i p stored
  obtain ⟨q, stored', str, atomType⟩ := first i p stored
  obtain ⟨r, stored'', str', atomType'⟩ := second i q stored'
  exact ⟨r, stored'', str'.trans str, atomType'.trans atomType⟩

/-- Nothing has changed but the places that are free, and the entry of 0. -/
structure Idle (rt rt' : JSRuntime) : Prop where
  valid : rt'.Valid
  value : ∀ i, i ≠ 0 → rt'.table.value i = rt.table.value i
  null : ∀ p, rt.table.value 0 = some p → rt'.table.value 0 = some p

-- There is one more reference of an atom.
structure Gains (rt : JSRuntime) (i : Nat) (rt' : JSRuntime) : Prop where
  valid : rt'.Valid
  kept : Kept rt rt'
  counts : ∀ refs, rt.Counts refs → rt'.Counts (i :: refs)

theorem isConst_zero : atomIsConst 0 = true := by decide

theorem ne_zero_of_const {i : Nat} (counted : atomIsConst i = false) : i ≠ 0 := by
  rintro rfl
  rw [isConst_zero] at counted
  cases counted

theorem Idle.kept (idle : Idle rt rt') : Kept rt rt' := by
  intro i p stored
  by_cases null : i = 0
  · exact ⟨p, null ▸ idle.null p (null ▸ stored), rfl, rfl⟩
  · exact ⟨p, (idle.value i null).trans stored, rfl, rfl⟩

theorem Idle.counts (idle : Idle rt rt') {refs : List Nat} (counts : rt.Counts refs) :
    rt'.Counts refs := by
  intro i counted
  have same := idle.value i (ne_zero_of_const counted)
  rw [JSRuntime.references, same]
  exact counts i counted

theorem Idle.trans (first : Idle rt rt') (second : Idle rt' rt'') : Idle rt rt'' where
  valid := second.valid
  value i some := (second.value i some).trans (first.value i some)
  null p stored := second.null p (first.null p stored)

theorem Idle.gains (idle : Idle rt rt') (gains : Gains rt' i rt'') : Gains rt i rt'' where
  valid := gains.valid
  kept := idle.kept.trans gains.kept
  counts _ counts := gains.counts _ (idle.counts counts)

theorem JSRuntime.Valid.isIn (valid : rt.Valid) {p : JSAtomStruct}
    (stored : rt.table.value i = some p) (hashed : p.atomType.isHashed = true) :
    p.hash &&& (rt.table.heads.length - 1) < rt.table.heads.length ∧ i ≠ 0 :=
  valid.holds.inside stored (if_pos hashed)

theorem mask_lt {h size : Nat} (sized : 0 < size) : h &&& (size - 1) < size :=
  Nat.lt_of_le_of_lt Nat.and_le_right (Nat.sub_lt sized Nat.one_pos)

theorem JSRuntime.Valid.idle (valid : rt.Valid) : Idle rt rt :=
  ⟨valid, fun _ _ => rfl, fun _ stored => stored⟩

-- Nothing but the table matters.
theorem JSRuntime.Valid.of_table (valid : rt.Valid) (same : rt'.table = rt.table) : rt'.Valid := by
  constructor
  · rw [same]
    exact valid.holds
  · rw [same]
    exact valid.sized
  · rw [same]
    exact valid.sound
  · rw [same]
    exact valid.once
  · rw [same]
    exact valid.small

theorem Idle.of_table (valid : rt.Valid) (same : rt'.table = rt.table) : Idle rt rt' :=
  ⟨valid.of_table same, fun i _ => by rw [same], fun p stored => by rwa [same]⟩

/-! ### Calls of the allocator, and walks -/

section
variable {α β : Type}

theorem triple_walk {found : Option β} {b : β} (finds : found = some b) {f : β → Running α}
    {post : α → JSRuntime → Prop} {fails : StringFailure → JSRuntime → Prop}
    (continues : Effect.Triple (· = rt) (f b) post fails) :
    Effect.Triple (· = rt) (walk found >>= f) post fails := by
  subst finds
  exact continues

theorem attempt_ends {memory : Memory} {x : Making α} {made : α → Prop}
    (makes : Makes memory x made) (rt : JSRuntime) :
    Effect.Triple (· = rt) (attempt x)
      (fun result rt' => (∃ calls, rt' = { rt with calls }) ∧
        ((∃ a, result = some a ∧ made a) ∨ (result = none ∧ ¬memory.Ample))) fun _ _ => False := by
  rintro rt rfl
  have ends := makes.triple rt.calls trivial
  unfold attempt
  split at ends
  · next a calls runs =>
      simp only [runs]
      exact ⟨⟨calls, rfl⟩, .inl ⟨a, rfl, ends⟩⟩
  · next failure calls runs =>
      obtain ⟨rfl, starved⟩ := ends
      simp only [runs]
      exact ⟨⟨calls, rfl⟩, .inr ⟨trivial, starved⟩⟩

theorem attempt_never {x : Making α} (never : Never x) (rt : JSRuntime) :
    Effect.Triple (· = rt) (attempt x)
      (fun result rt' => (∃ calls, rt' = { rt with calls }) ∧ result = none)
      fun e _ => e = .undefined := by
  rintro rt rfl
  have ends := never.triple rt.calls trivial
  unfold attempt
  split at ends
  · exact ends.elim
  · next failure calls runs =>
      cases failure <;> simp only [runs]
      all_goals exact ⟨⟨calls, rfl⟩, trivial⟩

theorem attempt_malloc {memory : Memory} {bytes : Nat} (header : headerBytes ≤ bytes)
    (rt : JSRuntime) :
    Effect.Triple (· = rt) (attempt (jsMalloc memory bytes))
      (fun result rt' => (∃ calls, rt' = { rt with calls }) ∧
        (result = none → ¬memory.Ample ∨ 2 ^ 32 ≤ bytes))
      fun _ _ => False := by
  rintro rt rfl
  unfold attempt
  simp only [jsMalloc, if_neg (Nat.not_lt.mpr header)]
  cases given : memory.malloc rt.calls bytes with
  | some n => exact ⟨⟨_, rfl⟩, nofun⟩
  | none =>
    refine ⟨⟨_, rfl⟩, fun _ => ?_⟩
    by_cases large : 2 ^ 32 ≤ bytes
    · exact .inr large
    · exact .inl fun ample => ample rt.calls bytes (Nat.not_le.mp large) given

end

/-! ### References -/

/-- What of an atom does not change while it is in the table. -/
structure SameKey (p q : JSAtomStruct) : Prop where
  str : q.str = p.str
  hash : q.hash = p.hash
  atomType : q.atomType = p.atomType

structure Recounted (rt : JSRuntime) (i : Nat) (q : JSAtomStruct) (rt' : JSRuntime) : Prop where
  valid : rt'.Valid
  value : ∀ j, rt'.table.value j = if j = i then some q else rt.table.value j
  freeNext : ∀ j, rt'.table.freeNext j = rt.table.freeNext j
  freeHead : rt'.table.freeHead = rt.table.freeHead
  slots : rt'.table.slots.length = rt.table.slots.length

theorem Recounted.kept {p q : JSAtomStruct} (recounted : Recounted rt i q rt')
    (stored : rt.table.value i = some p) (same : SameKey p q) : Kept rt rt' := by
  intro j r stored'
  rw [recounted.value]
  by_cases isIt : j = i
  · subst isIt
    obtain rfl : p = r := Option.some.inj (stored.symm.trans stored')
    exact ⟨q, if_pos rfl, same.str, same.atomType⟩
  · exact ⟨r, (if_neg isIt).trans stored', rfl, rfl⟩

theorem Recounted.references {q : JSAtomStruct} (recounted : Recounted rt i q rt') (j : Nat) :
    rt'.references j = if j = i then q.refCount else rt.references j := by
  unfold JSRuntime.references
  rw [recounted.value]
  by_cases isIt : j = i
  · rw [if_pos isIt, if_pos isIt]
    rfl
  · rw [if_neg isIt, if_neg isIt]

theorem SameKey.sound {p q : JSAtomStruct} (same : SameKey p q) (sound : p.Sound) : q.Sound where
  hash hashed := by
    rw [same.hash, same.str, same.atomType]
    exact sound.hash (same.atomType ▸ hashed)
  plain isString := same.str ▸ sound.plain (same.atomType ▸ isString)
  short := same.str ▸ sound.short

theorem modify_ends (valid : rt.Valid) {p : JSAtomStruct} (stored : rt.table.value i = some p)
    {f : JSAtomStruct → JSAtomStruct} (same : SameKey p (f p)) :
    ∃ table, rt.table.modify i f = some table ∧ Recounted rt i (f p) { rt with table } := by
  have bucket : ∀ size, bucketOf size (f p) = bucketOf size p := fun size => by
    unfold bucketOf
    rw [same.hash, same.atomType]
  obtain ⟨table, modifies, holds, value, freeNext, freeHead, heads, slots⟩ :=
    valid.holds.modify stored (bucket _)
  -- every entry has the key of one that was there
  have before : ∀ j r, table.value j = some r → ∃ q, rt.table.value j = some q ∧ SameKey q r := by
    intro j r found
    rw [value] at found
    by_cases isIt : j = i
    · rw [if_pos isIt] at found
      exact ⟨p, isIt ▸ stored, Option.some.inj found ▸ same⟩
    · rw [if_neg isIt] at found
      exact ⟨r, found, rfl, rfl, rfl⟩
  refine ⟨table, modifies,
    ⟨?_, ?_, fun j r found => ?_, fun j k q r found found' hashed sameType sameText => ?_, ?_⟩,
    value, freeNext, freeHead, slots⟩
  · show table.Holds (bucketOf table.heads.length)
    rwa [heads]
  · show 512 ≤ table.heads.length
    rw [heads]
    exact valid.sized
  · obtain ⟨q, was, key⟩ := before j r found
    exact key.sound (valid.sound j q was)
  · obtain ⟨q', wasQ, keyQ⟩ := before j q found
    obtain ⟨r', wasR, keyR⟩ := before k r found'
    refine valid.once j k q' r' wasQ wasR (keyQ.atomType ▸ hashed) ?_ ?_
    · rw [← keyR.atomType, ← keyQ.atomType, sameType]
    · rw [← keyR.str, ← keyQ.str, sameText]
  · show table.slots.length ≤ atomMax
    rw [slots]
    exact valid.small

/-- One more reference of an atom that is there. -/
structure Shared (rt : JSRuntime) (i : Nat) (rt' : JSRuntime) : Prop where
  gains : Gains rt i rt'
  freeNext : ∀ j, rt'.table.freeNext j = rt.table.freeNext j
  freeHead : rt'.table.freeHead = rt.table.freeHead
  same : ∀ j q, rt'.table.value j = some q → rt.table.value j ≠ none

theorem jsDupAtom_ends (valid : rt.Valid) {p : JSAtomStruct}
    (stored : atomIsConst i = false → rt.table.value i = some p) :
    Effect.Triple (· = rt) (jsDupAtom i) (fun v rt' => v = i ∧ Shared rt i rt') fun _ _ =>
      False := by
  unfold jsDupAtom
  cases counted : atomIsConst i with
  | true =>
    rw [if_pos rfl]
    refine Effect.Triple.pure i ?_
    rintro _ rfl
    refine ⟨rfl, ⟨valid, valid.idle.kept, fun refs counts j other => ?_⟩, fun _ =>
      rfl, rfl, fun j q found => ?_⟩
    · have apart : i ≠ j := by
        rintro rfl
        rw [counted] at other
        cases other
      rw [List.count_cons_of_ne apart]
      exact counts j other
    · rw [found]
      exact Option.some_ne_none q
  | false =>
    rw [if_neg Bool.false_ne_true]
    have stored := stored counted
    obtain ⟨table, modifies, recounted⟩ :=
      modify_ends valid stored (f := fun p => { p with refCount := p.refCount + 1 })
      ⟨rfl, rfl, rfl⟩
    refine Effect.Triple.get_bind
      (triple_walk modifies (Effect.Triple.modify_bind (Effect.Triple.pure i ?_)))
    rintro _ rfl
    refine ⟨rfl, ⟨recounted.valid, recounted.kept stored ⟨rfl, rfl, rfl⟩,
      fun refs counts j other => ?_⟩, recounted.freeNext, recounted.freeHead, fun j q found => ?_⟩
    · rw [recounted.references, recounted.value]
      by_cases isIt : j = i
      · subst isIt
        have before := (counts j other).1
        rw [JSRuntime.references, stored] at before
        rw [if_pos rfl, if_pos rfl, List.count_cons_self, ← before]
        refine ⟨rfl, fun q found => ?_⟩
        obtain rfl := Option.some.inj found
        exact Nat.succ_pos _
      · rw [if_neg isIt, if_neg isIt, List.count_cons_of_ne (Ne.symm isIt)]
        exact counts j other
    · rw [recounted.value] at found
      by_cases isIt : j = i
      · rw [isIt, stored]
        exact Option.some_ne_none p
      · rw [if_neg isIt] at found
        rw [found]
        exact Option.some_ne_none q

/-! ### Resizing -/

-- A table with the same values is as valid, where its chains hold.
theorem JSRuntime.Valid.of_same (valid : rt.Valid) (same : Same rt.table rt'.table)
    (holds : rt'.table.Holds (bucketOf rt'.table.heads.length))
    (sized : 512 ≤ rt'.table.heads.length) : rt'.Valid where
  holds := holds
  sized := sized
  sound i p stored := valid.sound i p ((same.value i).symm.trans stored)
  once i j p q stored stored' :=
    valid.once i j p q ((same.value i).symm.trans stored) ((same.value j).symm.trans stored')
  small := by
    rw [same.slots]
    exact valid.small

theorem bucketOf_rehashed (size newSize : Nat) :
    (fun p => (bucketOf size p).map fun _ => p.hash &&& (newSize - 1)) = bucketOf newSize := by
  funext p
  unfold bucketOf
  by_cases hashed : p.atomType.isHashed = true
  · rw [if_pos hashed, if_pos hashed, Option.map_some]
  · rw [if_neg hashed, if_neg hashed, Option.map_none]

-- What a resize leaves: the table as it was, or one with more chains.
theorem jsResizeAtomHash_ends {memory : Memory} {newSize : Nat}
    (holds : rt.table.Holds (bucketOf rt.table.heads.length)) (large : 512 ≤ newSize) :
    Effect.Triple (· = rt) (jsResizeAtomHash memory newSize)
      (fun done rt' => Same rt.table rt'.table ∧ rt'.table.Holds (bucketOf rt'.table.heads.length) ∧
        rt'.table.heads.length = (if done then newSize else rt.table.heads.length) ∧
        (done = false → ¬memory.Ample ∨ 2 ^ 32 ≤ 4 * newSize)) fun _ _ => False := by
  unfold jsResizeAtomHash
  have header : headerBytes ≤ 4 * newSize := by
    unfold headerBytes
    omega
  refine Effect.Triple.bind (attempt_malloc header rt) fun result =>
    Effect.Triple.each fun rt' ends => ?_
  obtain ⟨⟨calls, rfl⟩, starved⟩ := ends
  cases result with
  | none =>
    refine Effect.Triple.pure false ?_
    rintro _ rfl
    exact ⟨⟨fun _ => rfl, fun _ => rfl, rfl, rfl⟩, holds, rfl, fun _ => starved rfl⟩
  | some slack =>
    have inside : ∀ j p, rt.table.value j = some p → (bucketOf rt.table.heads.length p).isSome →
        p.hash &&& (newSize - 1) < newSize := fun _ _ _ _ => mask_lt (by omega)
    obtain ⟨table, rehashes, kept, same, heads⟩ := holds.rehash inside
    refine Effect.Triple.get_bind
      (triple_walk rehashes (Effect.Triple.modify_bind (Effect.Triple.pure true ?_)))
    rintro _ rfl
    refine ⟨same, ?_, heads, nofun⟩
    show table.Holds (bucketOf table.heads.length)
    rwa [heads, ← bucketOf_rehashed rt.table.heads.length]

/-! ### New entries -/

/-- A fresh place has been given to an entry. -/
structure Placed (rt : JSRuntime) (p : JSAtomStruct) (rt' : JSRuntime) : Prop where
  valid : rt'.Valid
  fresh : rt.table.value rt.table.freeHead = none
  value : ∀ i, rt'.table.value i = if i = rt.table.freeHead then some p else rt.table.value i
  leads : rt.table.freeNext rt.table.freeHead = some rt'.table.freeHead
  freeNext : ∀ i, i ≠ rt.table.freeHead → rt'.table.freeNext i = rt.table.freeNext i

theorem Placed.kept {p : JSAtomStruct} (placed : Placed rt p rt') : Kept rt rt' := by
  intro i q stored
  have apart : i ≠ rt.table.freeHead := by
    rintro rfl
    rw [placed.fresh] at stored
    cases stored
  exact ⟨q, (placed.value i).trans ((if_neg apart).trans stored), rfl, rfl⟩

theorem Placed.gains {p : JSAtomStruct} (placed : Placed rt p rt') (once : p.refCount = 1) :
    Gains rt rt.table.freeHead rt' := by
  refine ⟨placed.valid, placed.kept, fun refs counts i counted => ?_⟩
  have before := counts i counted
  rw [JSRuntime.references, placed.value]
  by_cases isIt : i = rt.table.freeHead
  · subst isIt
    rw [JSRuntime.references, placed.fresh] at before
    rw [if_pos rfl, List.count_cons_self, ← before.1]
    refine ⟨once, fun q found => ?_⟩
    obtain rfl := Option.some.inj found
    omega
  · rw [if_neg isIt, List.count_cons_of_ne (Ne.symm isIt)]
    exact before

-- Values of one more entry, which no other has the key of.
theorem valid_added (valid : rt.Valid) {p : JSAtomStruct} (sound : p.Sound)
    (new : p.atomType.isHashed = true → ∀ i q, rt.table.value i = some q → q.atomType = p.atomType →
      q.str.text ≠ p.str.text)
    (holds : rt'.table.Holds (bucketOf rt'.table.heads.length))
    (added : Added rt.table p rt'.table) : rt'.Valid := by
  have cases : ∀ i q, rt'.table.value i = some q → (i = rt.table.freeHead ∧ q = p) ∨
      rt.table.value i = some q := by
    intro i q found
    rw [added.value] at found
    by_cases isIt : i = rt.table.freeHead
    · rw [if_pos isIt] at found
      exact .inl ⟨isIt, (Option.some.inj found).symm⟩
    · rw [if_neg isIt] at found
      exact .inr found
  refine ⟨holds, ?_, fun i q found =>
    ?_, fun i j q r found found' hashed sameType sameText => ?_, ?_⟩
  · rw [added.heads]
    exact valid.sized
  · rcases cases i q found with ⟨-, rfl⟩ | was
    · exact sound
    · exact valid.sound i q was
  · rcases cases i q found with ⟨rfl, rfl⟩ | wasQ
    · rcases cases j r found' with ⟨rfl, -⟩ | wasR
      · rfl
      · exact absurd sameText (new hashed j r wasR sameType)
    · rcases cases j r found' with ⟨rfl, rfl⟩ | wasR
      · exact absurd sameText.symm (new (sameType ▸ hashed) i q wasQ sameType.symm)
      · exact valid.once i j q r wasQ wasR hashed sameType sameText
  · rw [added.slots]
    exact valid.small

theorem useEntry_ends {memory : Memory} (valid : rt.Valid) (room : rt.table.freeHead ≠ 0)
    {p : JSAtomStruct} (sound : p.Sound)
    (new : p.atomType.isHashed = true → ∀ i q, rt.table.value i = some q → q.atomType = p.atomType →
      q.str.text ≠ p.str.text) :
    Effect.Triple (· = rt) (useEntry memory p)
      (fun i rt' => i = rt.table.freeHead ∧ Placed rt p rt') fun _ _ => False := by
  unfold useEntry
  cases hashed : p.atomType.isHashed with
  | false =>
    have alone : bucketOf rt.table.heads.length p = none := if_neg (Bool.eq_false_iff.mp hashed)
    obtain ⟨table, takes, holds, added⟩ := valid.holds.addAlone room alone
    refine Effect.Triple.get_bind (triple_walk takes ?_)
    dsimp only
    rw [if_neg Bool.false_ne_true]
    refine Effect.Triple.modify_bind (Effect.Triple.pure _ ?_)
    rintro _ rfl
    have holds' : table.Holds (bucketOf table.heads.length) := by rwa [added.heads]
    have valid' : JSRuntime.Valid { rt with table, atomCount := rt.atomCount + 1 } :=
      valid_added valid sound
        (fun isHashed => absurd isHashed (by rw [hashed]; exact Bool.false_ne_true)) holds' added
    exact ⟨rfl, valid', added.fresh, added.value, added.leads, added.freeNext⟩
  | true =>
    have known : bucketOf rt.table.heads.length p = some (p.hash &&& (rt.table.heads.length - 1)) :=
      if_pos hashed
    obtain ⟨taken, table, takes, links, heads, holds, added⟩ :=
      valid.holds.add room known (mask_lt (Nat.lt_of_lt_of_le (by decide) valid.sized))
    have holds' : table.Holds (bucketOf table.heads.length) := by rwa [added.heads]
    have valid' : JSRuntime.Valid { rt with table, atomCount := rt.atomCount + 1 } :=
      valid_added valid sound new holds' added
    refine Effect.Triple.get_bind (triple_walk takes ?_)
    dsimp only
    rw [if_pos rfl, heads]
    refine triple_walk links (Effect.Triple.modify_bind ?_)
    by_cases full : rt.atomCountResize ≤ rt.atomCount + 1
    · rw [if_pos full]
      have larger : 512 ≤ table.heads.length * 2 := by
        have := valid.sized
        rw [added.heads]
        omega
      refine Effect.Triple.bind (jsResizeAtomHash_ends holds' larger) fun done =>
        Effect.Triple.pure _ fun rt' ends => ?_
      obtain ⟨same, holds'', size, -⟩ := ends
      refine ⟨rfl, valid'.of_same same holds'' ?_, added.fresh, fun i =>
        (same.value i).trans (added.value i), ?_,
        fun i apart => (same.freeNext i).trans (added.freeNext i apart)⟩
      · rw [size]
        have := valid'.sized
        split
        · exact larger
        · exact this
      · rw [same.freeHead]
        exact added.leads
    · rw [if_neg full]
      refine Effect.Triple.pure _ ?_
      rintro _ rfl
      exact ⟨rfl, valid', added.fresh, added.value, added.leads, added.freeNext⟩

/-! ### More places -/

theorem nullEntry_sound : nullEntry.Sound := ⟨nofun, nofun, by decide⟩

theorem grow_idle (valid : rt.Valid) (some : rt.table.slots.length ≠ 0) {size : Nat}
    (more : rt.table.slots.length < size) (small : size ≤ atomMax) :
    Idle rt { rt with table := rt.table.grow size } := by
  obtain ⟨holds, value, -, heads, slots⟩ := valid.holds.grow some more
  refine ⟨⟨holds, valid.sized, fun i p found => valid.sound i p ((value i).symm.trans found), ?_,
    ?_⟩, fun i _ => value i, fun p found => (value 0).trans found⟩
  · intro i j p q found found'
    exact valid.once i j p q ((value i).symm.trans found) ((value j).symm.trans found')
  · rw [slots]
    exact small

theorem first_idle (valid : rt.Valid) (empty : rt.table.slots = []) :
    Idle rt { rt with table := { rt.table with slots := [.used nullEntry 0] } } := by
  obtain ⟨holds, value⟩ := valid.holds.first empty (v := nullEntry) rfl
  have unused : ∀ i, rt.table.value i = none := by
    intro i
    rw [Table.value, Table.read, empty]
    rfl
  have null : ∀ i p, Table.value { rt.table with slots := [.used nullEntry 0] } i = some p →
      p = nullEntry := by
    intro i p found
    rw [value, unused] at found
    split at found
    · exact (Option.some.inj found).symm
    · cases found
  refine ⟨⟨holds, valid.sized, fun i p found => null i p found ▸ nullEntry_sound,
    fun i j p q found _ hashed => ?_, ?_⟩,
    fun i some => (value i).trans (if_neg some), fun p found => ?_⟩
  · rw [null i p found] at hashed
    cases hashed
  · show 1 ≤ atomMax
    decide
  · rw [unused] at found
    cases found

def Ordered (t : Table JSAtomStruct) : Prop :=
  ∀ j, t.freeHead ≤ j → j < 710 → t.freeNext j = some (j + 1)

theorem ordered_grow {t : Table JSAtomStruct} (one : t.slots.length = 1) {size : Nat}
    (large : 711 ≤ size) : Ordered (t.grow size) := by
  intro j after before
  have from_one : 1 ≤ j := one ▸ after
  rw [freeNext_grow, if_neg (by omega), if_pos (by omega), if_neg (by omega)]

theorem progression_least (start : Nat) : 711 ≤ progression start := by
  unfold progression
  omega

theorem progression_small {start : Nat} (few : start < 2 ^ 28) :
    progression start = max 711 (start * 3 / 2) := by
  unfold progression
  rw [toInt_small (by omega) (by omega), Int.tdiv_eq_ediv_of_nonneg (by omega)]
  omega

theorem moreAtoms_ends {memory : Memory} (valid : rt.Valid) (full : rt.table.freeHead = 0) :
    Effect.Triple (· = rt) (moreAtoms memory)
      (fun done rt' => Idle rt rt' ∧ (done = false → rt.Starved memory) ∧
        (done = true → rt'.table.freeHead ≠ 0 ∧
          (rt.table.slots = [] → rt'.table.freeHead = 1 ∧ Ordered rt'.table)))
      fun e _ => e = .undefined ∧ rt.Crowded := by
  have small := valid.small
  unfold moreAtoms
  refine Effect.Triple.get_bind ?_
  dsimp only
  have least := progression_least rt.table.slots.length
  have steps : rt.table.slots.length < 2 ^ 28 →
      progression rt.table.slots.length = max 711 (rt.table.slots.length * 3 / 2) :=
    progression_small
  generalize progression rt.table.slots.length = newSize at least steps
  have few : rt.table.slots.length < 2 ^ 28 → newSize < 2 ^ 29 := by
    intro few
    have := steps few
    omega
  have crowded : atomMax < newSize ∨ 2 ^ 32 ≤ 8 * newSize → 2 ^ 28 ≤ rt.table.slots.length := by
    intro large
    by_contra below
    have := few (Nat.not_le.mp below)
    unfold atomMax at large
    omega
  by_cases beyond : atomMax < newSize
  · rw [if_pos beyond]
    refine Effect.Triple.pure _ ?_
    rintro _ rfl
    exact ⟨valid.idle, fun _ => .inr ⟨full, crowded (.inl beyond)⟩, nofun⟩
  · rw [if_neg beyond]
    have fits := Nat.not_lt.mp beyond
    have header : headerBytes ≤ 8 * newSize := by
      unfold headerBytes
      omega
    refine Effect.Triple.bind (attempt_malloc header rt).throwless fun result =>
      Effect.Triple.each fun rt' ends => ?_
    obtain ⟨⟨calls, rfl⟩, starved⟩ := ends
    cases result with
    | none =>
      refine Effect.Triple.pure _ ?_
      rintro _ rfl
      exact ⟨.of_table valid rfl, fun _ => (starved rfl).imp_right fun large =>
        ⟨full, crowded (.inr large)⟩, nofun⟩
    | some slack =>
      dsimp only
      by_cases first : rt.table.slots.length = 0
      · rw [if_pos first]
        have empty := List.length_eq_zero_iff.mp first
        refine Effect.Triple.bind (attempt_malloc (Nat.le_refl _) _).throwless fun result =>
          Effect.Triple.each fun rt' ends => ?_
        obtain ⟨⟨calls', rfl⟩, starved'⟩ := ends
        cases result with
        | none =>
          refine Effect.Triple.pure _ ?_
          rintro _ rfl
          refine ⟨.of_table valid rfl, fun _ => .inl ?_, nofun⟩
          exact (starved' rfl).resolve_right (by decide)
        | some slack' =>
          refine Effect.Triple.modify_bind (Effect.Triple.pure _ ?_)
          rintro _ rfl
          have null := first_idle valid empty
          have grown := grow_idle null.valid Nat.one_ne_zero (show 1 < newSize by omega) fits
          have idle := null.trans grown
          exact ⟨idle.trans (.of_table idle.valid rfl), nofun, fun _ =>
            ⟨Nat.one_ne_zero, fun _ => ⟨rfl, ordered_grow rfl least⟩⟩⟩
      · rw [if_neg first]
        by_cases shrinks : newSize ≤ rt.table.slots.length
        · rw [if_pos shrinks]
          refine Effect.Triple.throw _ fun _ _ => ⟨rfl, full, ?_⟩
          by_contra below
          have := steps (Nat.not_le.mp below)
          omega
        · rw [if_neg shrinks]
          refine Effect.Triple.modify_bind (Effect.Triple.pure _ ?_)
          rintro _ rfl
          have grown := grow_idle valid first (Nat.not_le.mp shrinks) fits
          refine ⟨grown.trans (.of_table grown.valid rfl), nofun, fun _ => ⟨first, fun empty => ?_⟩⟩
          exact absurd (congrArg List.length empty) first

/-! ### `__JS_NewAtom` -/

theorem isAtom_iff {str : JSString} {atomType : AtomType} {p : JSAtomStruct} :
    isAtom str atomType p = true ↔ p.hash = atomHash str atomType ∧ p.atomType = atomType ∧
    p.str.text = str.text := by
  simp only [isAtom, Bool.and_eq_true, beq_iff_eq, and_assoc]
  constructor
  · rintro ⟨hash, atomType, -, text⟩
    exact ⟨hash, atomType, text⟩
  · rintro ⟨hash, atomType, text⟩
    exact ⟨hash, atomType, by rw [p.str.len_eq, str.len_eq, text], text⟩

theorem atomHash_congr {str other : JSString} (same : str.text = other.text) (atomType : AtomType) :
    atomHash str atomType = atomHash other atomType := by
  cases atomType <;> simp only [atomHash, hashString, same]

theorem findAtom_ends (valid : rt.Valid) (h : Nat) (wanted : JSAtomStruct → Bool) :
    Effect.Triple (· = rt) (findAtom h wanted)
      (fun i rt' => rt' = rt ∧
        ((i = 0 ∧ ∀ j p, rt.table.value j = some p → p.atomType.isHashed = true → p.hash = h →
          wanted p = false) ∨
          (i ≠ 0 ∧ ∃ p, rt.table.value i = some p ∧ wanted p = true))) fun _ _ => False := by
  unfold findAtom
  refine Effect.Triple.get_bind ?_
  rcases valid.holds.find (fun _ p => wanted p) (h &&& (rt.table.heads.length - 1)) with
    ⟨finds, none⟩ | ⟨i, p, finds, some, stored, -, isWanted⟩
  · rw [finds]
    refine Effect.Triple.pure 0 ?_
    rintro _ rfl
    refine ⟨rfl, .inl ⟨rfl, fun j p stored hashed same => none j p stored ?_⟩⟩
    rw [bucketOf, if_pos hashed, same]
  · rw [finds]
    refine Effect.Triple.pure i ?_
    rintro _ rfl
    exact ⟨rfl, .inr ⟨some, p, stored, isWanted⟩⟩

-- The free places are there already, or they are new.
def Readied (rt grown : JSRuntime) : Prop :=
  (rt.table.freeHead ≠ 0 ∧ grown = rt) ∨
    (rt.table.freeHead = 0 ∧ Idle rt grown ∧ grown.table.freeHead ≠ 0 ∧
      (rt.table.slots = [] → grown.table.freeHead = 1 ∧ Ordered grown.table))

/-- What `__JS_NewAtom` does: nothing, or it shares an atom that is there, or it makes one. -/
inductive Obtained (memory : Memory) (rt : JSRuntime) (str : JSString) (atomType : AtomType) : Nat →
    JSRuntime → Prop
  | refused {rt' : JSRuntime} (idle : Idle rt rt') (starved : rt.Starved memory) :
    Obtained memory rt str atomType 0 rt'
  | found {i : Nat} {rt' : JSRuntime} (known : rt.Is i atomType.stored str.text)
    (shared : Shared rt i rt') :
      Obtained memory rt str atomType i rt'
  | placed {grown rt' : JSRuntime} (readied : Readied rt grown)
      (placed : Placed grown ⟨str, atomHash str atomType, atomType.stored, 1⟩ rt') :
      Obtained memory rt str atomType grown.table.freeHead rt'

theorem AtomType.stored_hashed {atomType : AtomType} (hashed : atomType.isHashed = true) :
    atomType.stored = atomType := by
  cases atomType <;> first | rfl | cases hashed

theorem AtomType.isHashed_stored (atomType : AtomType) :
    atomType.stored.isHashed = atomType.isHashed := by
  cases atomType <;> rfl

/-- No atom of the type has the text, if atoms of the type are shared. -/
def Missing (rt : JSRuntime) (atomType : AtomType) (text : Text) : Prop :=
  atomType.isHashed = true → ∀ j p, rt.table.value j = some p → p.atomType = atomType →
    p.str.text ≠ text

theorem locateAtom_ends (valid : rt.Valid) (str : JSString) (atomType : AtomType) :
    Effect.Triple (· = rt) (locateAtom str atomType)
      (fun i rt' => rt' = rt ∧
        ((i = 0 ∧ Missing rt atomType str.text) ∨ rt.Is i atomType.stored str.text))
      fun _ _ => False := by
  unfold locateAtom
  cases hashed : atomType.isHashed with
  | false =>
    rw [if_neg Bool.false_ne_true]
    exact Effect.Triple.pure 0 fun _ same =>
      ⟨same, .inl ⟨rfl, fun isHashed => absurd isHashed (by simp [hashed])⟩⟩
  | true =>
    rw [if_pos rfl]
    refine (findAtom_ends valid _ _).weaken (fun _ start => start) ?_ fun _ _ never => never
    rintro i _ ⟨rfl, ⟨rfl, none⟩ | ⟨some, p, stored, isWanted⟩⟩
    · refine ⟨rfl, .inl ⟨rfl, fun _ j p stored sameType sameText => ?_⟩⟩
      have isHashed : p.atomType.isHashed = true := sameType ▸ hashed
      have sameHash : p.hash = atomHash str atomType := by
        rw [(valid.sound j p stored).hash isHashed, sameType, atomHash_congr sameText]
      have wanted := isAtom_iff.mpr ⟨sameHash, sameType, sameText⟩
      rw [none j p stored isHashed sameHash] at wanted
      cases wanted
    · have same := isAtom_iff.mp isWanted
      exact ⟨rfl, .inr ⟨some, p, stored, by rw [same.2.1, AtomType.stored_hashed hashed], same.2.2⟩⟩

theorem readyEntry_ends {memory : Memory} (valid : rt.Valid) :
    Effect.Triple (· = rt) (readyEntry memory)
      (fun room grown => (room = true ∧ Readied rt grown) ∨
        (room = false ∧ Idle rt grown ∧ rt.Starved memory))
      fun e _ => e = .undefined ∧ rt.Crowded := by
  unfold readyEntry
  refine Effect.Triple.get_bind ?_
  split
  · next full =>
      refine (moreAtoms_ends valid full).weaken (fun _ start => start) ?_ fun _ _ fails => fails
      rintro done grown ⟨idle, starved, room⟩
      cases done with
      | true => exact .inl ⟨rfl, .inr ⟨full, idle, (room rfl).1, (room rfl).2⟩⟩
      | false => exact .inr ⟨rfl, idle, starved rfl⟩
  · next some => exact Effect.Triple.pure true fun _ same => .inl ⟨rfl, .inl ⟨some, same⟩⟩

theorem Readied.idle {grown : JSRuntime} (readied : Readied rt grown) (valid : rt.Valid) :
    Idle rt grown := by
  rcases readied with ⟨-, rfl⟩ | ⟨-, idle, -⟩
  · exact valid.idle
  · exact idle

theorem Readied.room {grown : JSRuntime} (readied : Readied rt grown) :
    grown.table.freeHead ≠ 0 := by
  rcases readied with ⟨some, rfl⟩ | ⟨-, -, some, -⟩
  · exact some
  · exact some

theorem newAtom_ends {memory : Memory} {str : JSString} {atomType : AtomType} (valid : rt.Valid)
    (short : str.len ≤ lenMax) (plain : atomType = .string → ¬IsIndex str.text) :
    Effect.Triple (· = rt) (newAtom memory str atomType) (Obtained memory rt str atomType)
      fun e _ => e = .undefined ∧ rt.Crowded := by
  unfold newAtom
  refine Effect.Triple.bind (locateAtom_ends valid str atomType).throwless fun i =>
    Effect.Triple.each fun _ ends => ?_
  obtain ⟨rfl, ⟨rfl, missing⟩ | known⟩ := ends
  · rw [if_neg (not_not.mpr rfl)]
    refine Effect.Triple.bind (readyEntry_ends valid) fun room =>
      Effect.Triple.each fun grown ends => ?_
    rcases ends with ⟨rfl, readied⟩ | ⟨rfl, idle, starved⟩
    · rw [if_pos rfl]
      have idle := readied.idle valid
      have sound : JSAtomStruct.Sound ⟨str, atomHash str atomType, atomType.stored, 1⟩ := by
        refine ⟨fun hashed => ?_, fun isString => plain ?_, short⟩
        · rw [AtomType.isHashed_stored] at hashed
          show atomHash str atomType = atomHash str atomType.stored
          rw [AtomType.stored_hashed hashed]
        · cases atomType <;> first | rfl | cases isString
      have new : atomType.stored.isHashed = true → ∀ i q, grown.table.value i = some q →
          q.atomType = atomType.stored → q.str.text ≠ str.text := by
        intro hashed i q found sameType
        rw [AtomType.isHashed_stored] at hashed
        rw [AtomType.stored_hashed hashed] at sameType
        have some : i ≠ 0 := (idle.valid.isIn found (sameType ▸ hashed)).2
        exact missing hashed i q ((idle.value i some).symm.trans found) sameType
      refine ((useEntry_ends idle.valid readied.room sound new).throwless).weaken
        (fun _ start => start) ?_
        fun _ _ fails => fails
      rintro i rt' ⟨rfl, placed⟩
      exact .placed readied placed
    · rw [if_neg Bool.false_ne_true]
      refine Effect.Triple.pure 0 ?_
      rintro _ rfl
      exact .refused idle starved
  · obtain ⟨some, p, stored, -, -⟩ := id known
    rw [if_pos some]
    refine (jsDupAtom_ends valid fun _ => stored).throwless.weaken (fun _ start => start) ?_
      fun _ _ fails => fails
    rintro v rt' ⟨rfl, shared⟩
    exact .found known shared

theorem JSRuntime.Valid.untagged (valid : rt.Valid) {p : JSAtomStruct}
    (stored : rt.table.value i = some p) : i < atomTagInt := by
  obtain ⟨next, reads⟩ := read_of_value stored
  have inside := lt_of_read reads
  have small := valid.small
  unfold atomMax at small
  unfold atomTagInt
  omega

theorem JSRuntime.Is.kept {atomType : AtomType} {text : Text} (known : rt.Is i atomType text)
    (kept : Kept rt rt') : rt'.Is i atomType text := by
  obtain ⟨some, p, stored, rfl, rfl⟩ := known
  obtain ⟨q, stored', str, sameType⟩ := kept i p stored
  exact ⟨some, q, stored', sameType, by rw [str]⟩

/-- There is one more reference of an atom of the text, or there is none for want of memory. -/
def Gained (memory : Memory) (rt : JSRuntime) (atomType : AtomType) (text : Text) (i : Nat)
    (rt' : JSRuntime) : Prop :=
  (i = 0 ∧ Idle rt rt' ∧ rt.Starved memory) ∨ (Gains rt i rt' ∧ rt'.Is i atomType text)

theorem Obtained.gained {memory : Memory} {str : JSString} {atomType : AtomType} (valid : rt.Valid)
    (obtained : Obtained memory rt str atomType i rt') :
    Gained memory rt atomType.stored str.text i rt' := by
  cases obtained with
  | refused idle starved => exact .inl ⟨rfl, idle, starved⟩
  | found known shared => exact .inr ⟨shared.gains, known.kept shared.gains.kept⟩
  | @placed grown _ readied placed =>
    have here := placed.value grown.table.freeHead
    rw [if_pos rfl] at here
    exact .inr ⟨(readied.idle valid).gains (placed.gains rfl), readied.room, _, here, rfl, rfl⟩

theorem findAscii_ends (valid : rt.Valid) (buf : Bytes) :
    Effect.Triple (· = rt) (findAscii buf)
      (fun i rt' => (i = 0 ∧ rt' = rt) ∨
        (Gains rt i rt' ∧ rt'.Is i .string (JSString.str8 buf).text)) fun _ _ => False := by
  unfold findAscii
  refine Effect.Triple.bind (findAtom_ends valid _ _) fun i => Effect.Triple.each fun _ ends => ?_
  obtain ⟨rfl, ⟨rfl, -⟩ | ⟨some, p, stored, isWanted⟩⟩ := ends
  · rw [if_neg (not_not.mpr rfl)]
    exact Effect.Triple.pure 0 fun _ same => .inl ⟨rfl, same⟩
  · rw [if_pos some]
    have same := isAtom_iff.mp ((Bool.and_eq_true _ _).mp isWanted).1
    refine (jsDupAtom_ends valid fun _ => stored).weaken (fun _ start => start) ?_ fun _ _ never =>
      never
    rintro v rt' ⟨rfl, shared⟩
    exact .inr ⟨shared.gains,
      JSRuntime.Is.kept ⟨some, p, stored, same.2.1, same.2.2⟩ shared.gains.kept⟩

/-! ### `JS_FreeAtom` -/

/-- What one reference less leaves; `refs` are the others. -/
structure Loses (rt : JSRuntime) (i : Nat) (refs : List Nat) (rt' : JSRuntime) : Prop where
  valid : rt'.Valid
  counts : rt'.Counts refs
  kept : ∀ j p, rt.table.value j = some p → atomIsConst j = true ∨ j ∈ refs →
    ∃ q, rt'.table.value j = some q ∧ q.str = p.str ∧ q.atomType = p.atomType
  back : ∀ j q, rt'.table.value j = some q → ∃ p, rt.table.value j = some p ∧ q.str = p.str ∧
    q.atomType = p.atomType
  crowded : rt'.Crowded → rt.Crowded

theorem valid_removed (valid : rt.Valid) (removed : Removed rt.table i rt'.table)
    (holds : rt'.table.Holds (bucketOf rt'.table.heads.length)) : rt'.Valid := by
  have before : ∀ j p, rt'.table.value j = some p → rt.table.value j = some p := by
    intro j p found
    rw [removed.value] at found
    split at found
    · cases found
    · exact found
  refine ⟨holds, ?_, fun j p found => valid.sound j p (before j p found),
    fun j k p q found found' =>
    valid.once j k p q (before j p found) (before k q found'), ?_⟩
  · rw [removed.heads]
    exact valid.sized
  · rw [removed.slots]
    exact valid.small

theorem jsFreeAtomStruct_ends (valid : rt.Valid) {p : JSAtomStruct}
    (stored : rt.table.value i = some p) (some : i ≠ 0) :
    Effect.Triple (· = rt) (jsFreeAtomStruct i)
      (fun _ rt' => rt'.Valid ∧ Removed rt.table i rt'.table) fun _ _ => False := by
  obtain ⟨next, reads⟩ := read_of_value stored
  unfold jsFreeAtomStruct
  refine Effect.Triple.get_bind (triple_walk reads ?_)
  dsimp only
  cases hashed : p.atomType.isHashed with
  | true =>
    rw [if_pos rfl]
    have known : bucketOf rt.table.heads.length p =
        Option.some (p.hash &&& (rt.table.heads.length - 1)) := if_pos hashed
    obtain ⟨table, unlinks, holds, removed⟩ := valid.holds.remove stored known
    refine triple_walk unlinks (Effect.Triple.modify ?_)
    rintro rt rfl
    have holds' : (table.give i).Holds (bucketOf (table.give i).heads.length) := by
      rwa [removed.heads]
    have kept : JSRuntime.Valid { rt with table := table.give i, atomCount := rt.atomCount - 1 } :=
      valid_removed valid removed holds'
    exact ⟨kept, removed⟩
  | false =>
    rw [if_neg Bool.false_ne_true]
    have alone : bucketOf rt.table.heads.length p = none := if_neg (Bool.eq_false_iff.mp hashed)
    obtain ⟨own, holds, removed⟩ := valid.holds.removeAlone stored some alone
    obtain rfl : next = i := Option.some.inj ((next_of_read reads).symm.trans own)
    refine Effect.Triple.modify ?_
    rintro rt rfl
    have holds' : (rt.table.give next).Holds (bucketOf (rt.table.give next).heads.length) := by
      rwa [removed.heads]
    have kept : JSRuntime.Valid
        { rt with table := rt.table.give next, atomCount := rt.atomCount - 1 } :=
      valid_removed valid removed holds'
    exact ⟨kept, removed⟩

theorem jsFreeAtom_ends (valid : rt.Valid) {refs : List Nat} (counts : rt.Counts (i :: refs)) :
    Effect.Triple (· = rt) (jsFreeAtom i) (fun _ => Loses rt i refs) fun _ _ => False := by
  unfold jsFreeAtom
  cases counted : atomIsConst i with
  | true =>
    rw [if_pos rfl]
    refine Effect.Triple.pure () ?_
    rintro _ rfl
    refine ⟨valid, fun j other => ?_, fun j p found _ => ⟨p, found, rfl, rfl⟩, fun j q found =>
      ⟨q, found, rfl, rfl⟩, id⟩
    have apart : i ≠ j := by
      rintro rfl
      rw [counted] at other
      cases other
    have before := counts j other
    rwa [List.count_cons_of_ne apart] at before
  | false =>
    rw [if_neg Bool.false_ne_true]
    have before := (counts i counted).1
    rw [List.count_cons_self, JSRuntime.references] at before
    cases stored : rt.table.value i with
    | none =>
      rw [stored] at before
      cases before
    | some p =>
      rw [stored] at before
      have count : p.refCount = refs.count i + 1 := before
      obtain ⟨next, reads⟩ := read_of_value stored
      obtain ⟨table, modifies, recounted⟩ :=
        modify_ends valid stored (f := fun p => { p with refCount := p.refCount - 1 })
        ⟨rfl, rfl, rfl⟩
      have kept := recounted.kept stored ⟨rfl, rfl, rfl⟩
      have here := recounted.value i
      rw [if_pos rfl] at here
      have others : ∀ j, atomIsConst j = false → j ≠ i → rt.references j = refs.count j ∧
          ∀ q, rt.table.value j = some q → 0 < q.refCount := by
        intro j other apart
        have same := counts j other
        rwa [List.count_cons_of_ne (Ne.symm apart)] at same
      have back : ∀ j q, table.value j = some q → ∃ r, rt.table.value j = some r ∧ q.str = r.str ∧
          q.atomType = r.atomType := by
        intro j q found
        rw [recounted.value] at found
        by_cases isIt : j = i
        · rw [if_pos isIt] at found
          exact ⟨p, isIt ▸ stored, Option.some.inj found ▸ ⟨rfl, rfl⟩⟩
        · rw [if_neg isIt] at found
          exact ⟨q, found, rfl, rfl⟩
      refine Effect.Triple.get_bind
        (triple_walk reads (triple_walk modifies (Effect.Triple.modify_bind ?_)))
      by_cases held : 0 < p.refCount - 1
      · rw [if_pos held]
        refine Effect.Triple.pure () ?_
        rintro _ rfl
        refine ⟨recounted.valid, fun j other => ?_, fun j q found _ => kept j q found, back,
          fun ⟨full, many⟩ => ?_⟩
        · rw [recounted.references, recounted.value]
          by_cases isIt : j = i
          · subst isIt
            rw [if_pos rfl, if_pos rfl]
            refine ⟨by dsimp only; omega, fun q found => ?_⟩
            obtain rfl := Option.some.inj found
            exact held
          · rw [if_neg isIt, if_neg isIt]
            exact others j other isIt
        · exact ⟨recounted.freeHead ▸ full, recounted.slots ▸ many⟩
      · rw [if_neg held]
        have none : refs.count i = 0 := by omega
        refine (jsFreeAtomStruct_ends recounted.valid here (ne_zero_of_const counted)).weaken
          (fun _ start => start) ?_
          fun _ _ never => never
        rintro _ rt' ⟨valid', removed⟩
        refine ⟨valid', fun j other => ?_, fun j q found isHeld => ?_, fun j q found => ?_,
          fun ⟨full, _⟩ => absurd (removed.freeHead.symm.trans full) (ne_zero_of_const counted)⟩
        · rw [JSRuntime.references, removed.value]
          by_cases isIt : j = i
          · subst isIt
            rw [if_pos rfl]
            exact ⟨none.symm, nofun⟩
          · have same := others j other isIt
            rw [JSRuntime.references] at same
            rw [if_neg isIt, recounted.value, if_neg isIt]
            exact same
        · have apart : j ≠ i := by
            rintro rfl
            rcases isHeld with const | member
            · exact absurd (counted.symm.trans const) (by decide)
            · exact List.count_eq_zero.mp none member
          obtain ⟨r, found', same⟩ := kept j q found
          refine ⟨r, ?_, same⟩
          rw [removed.value, if_neg apart]
          exact found'
        · rw [removed.value] at found
          split at found
          · cases found
          · exact back j q found

theorem JSRuntime.Counts.perm {refs other : List Nat} (counts : rt.Counts refs)
    (perm : refs.Perm other) : rt.Counts other := by
  intro i counted
  rw [← perm.count_eq]
  exact counts i counted

/-- What is kept of the atoms that are held or predefined. -/
structure KeptFor (refs : List Nat) (rt rt' : JSRuntime) : Prop where
  valid : rt'.Valid
  counts : rt'.Counts refs
  kept : ∀ j p, rt.table.value j = some p → atomIsConst j = true ∨ j ∈ refs →
    ∃ q, rt'.table.value j = some q ∧ q.str = p.str ∧ q.atomType = p.atomType
  crowded : rt'.Crowded → rt.Crowded

-- All references of a list are given back, and no other.
theorem freeAll_ends {atoms refs : List Nat} (valid : rt.Valid)
    (counts : rt.Counts (atoms ++ refs)) :
    Effect.Triple (· = rt) (Effect.forEach jsFreeAtom atoms)
      (fun _ => KeptFor refs rt) fun _ _ => False := by
  induction atoms generalizing rt with
  | nil =>
    refine Effect.Triple.pure () ?_
    rintro _ rfl
    exact ⟨valid, counts, fun j p found _ => ⟨p, found, rfl, rfl⟩, id⟩
  | cons i rest ih =>
    refine Effect.Triple.bind (jsFreeAtom_ends valid counts) fun _ =>
      Effect.Triple.each fun rt' loses => ?_
    refine (ih loses.valid loses.counts).weaken (fun _ start => start) ?_ fun _ _ never => never
    rintro _ rt'' ends
    refine ⟨ends.valid, ends.counts, fun j p found isHeld => ?_, fun crowded =>
      loses.crowded (ends.crowded crowded)⟩
    obtain ⟨q, found', str, sameType⟩ :=
      loses.kept j p found (isHeld.imp_right fun member => List.mem_append_right rest member)
    obtain ⟨r, found'', str', sameType'⟩ := ends.kept j q found' isHeld
    exact ⟨r, found'', str'.trans str, sameType'.trans sameType⟩

end QuickJSBun.Engine.Atoms
