import QuickJSBun.Bridge.Lifecycle

/-! The invariant of the lifecycle: how frames may lie on each other, what the stack tells about a
runtime, and how the map of a runtime agrees with its contexts.

Host code runs on a frame of a runtime only while its `hostDepth` is raised, so a dispose that
gets past its assertion finds no frame of its runtime below it.
-/

set_option autoImplicit false

namespace QuickJSBun.Bridge.Lifecycle

open Library

-- No frame is of the runtime.
def Clear (r : Nat) (stack : List Frame) : Prop := ∀ frame ∈ stack, frame.runtime ≠ r

def Frame.On (frame : Frame) (rest : List Frame) : Prop :=
  match frame with
  | .callback r => ∃ below under, rest = below :: under ∧ below.isNative = true ∧ below.runtime = r
  | .native r => hostRuns rest = true ∨ ∃ c under, rest = .disposingContext r c :: under
  | .newContext _ => hostRuns rest = true
  | .disposingContext r _ | .freeContext r _ =>
    (hostRuns rest = true ∧ Clear r rest) ∨ ∃ under, rest = .disposingRuntime r :: under
  | .disposingRuntime r | .freeRuntime r => hostRuns rest = true ∧ Clear r rest

def Ordered : List Frame → Prop
  | [] => True
  | frame :: rest => frame.On rest ∧ Ordered rest

-- Below a frame is host code or a frame of the same runtime.
theorem Frame.On.below {frame below : Frame} {rest : List Frame} (on : frame.On (below :: rest)) :
    (∃ r, below = .callback r) ∨ below.runtime = frame.runtime := by
  have host (runs : hostRuns (below :: rest) = true) : ∃ r, below = .callback r := by
    cases below with
    | callback r => exact ⟨r, rfl⟩
    | _ => cases runs
  cases frame with
  | callback r =>
    obtain ⟨_, _, same, -, runtime⟩ := on
    exact .inr ((List.cons.inj same).1 ▸ runtime)
  | native r =>
    rcases on with runs | ⟨c, under, same⟩
    · exact .inl (host runs)
    · exact .inr ((List.cons.inj same).1 ▸ rfl)
  | newContext r => exact .inl (host on)
  | disposingContext r c | freeContext r c =>
    rcases on with ⟨runs, -⟩ | ⟨under, same⟩
    · exact .inl (host runs)
    · exact .inr ((List.cons.inj same).1 ▸ rfl)
  | disposingRuntime r | freeRuntime r => exact .inl (host on.1)

-- Without host code on it, a runtime has frames on the stack only below one of its own.
theorem Ordered.clear {r : Nat} {frame : Frame} {rest : List Frame}
    (ordered : Ordered (frame :: rest)) (apart : frame.runtime ≠ r)
    (absent : .callback r ∉ frame :: rest) : Clear r (frame :: rest) := by
  induction rest generalizing frame with
  | nil => simpa [Clear] using apart
  | cons below rest ih =>
    have absent' : .callback r ∉ below :: rest :=
      fun member => absent (List.mem_cons_of_mem frame member)
    have apart' : below.runtime ≠ r := by
      rcases ordered.1.below with ⟨q, rfl⟩ | same
      · rintro rfl
        exact absent' List.mem_cons_self
      · exact same ▸ apart
    intro other member
    rcases List.mem_cons.mp member with rfl | deeper
    · exact apart
    · exact ih ordered.2 apart' absent' other deeper

theorem Ordered.clear_of_host {r : Nat} {stack : List Frame} (ordered : Ordered stack)
    (runs : hostRuns stack = true) (absent : .callback r ∉ stack) : Clear r stack := by
  cases stack with
  | nil => exact nofun
  | cons frame rest =>
    refine ordered.clear ?_ absent
    rintro rfl
    cases frame with
    | callback q => exact absent List.mem_cons_self
    | _ => cases runs

-- The stack below a dispose or a free has no other frame of its runtime but its own loop.
theorem Frame.On.clear {r c : Nat} {rest : List Frame} (on : Frame.On (.disposingContext r c) rest)
    (ordered : Ordered rest) {frame : Frame} (member : frame ∈ rest) (same : frame.runtime = r) :
    frame = .disposingRuntime r := by
  rcases on with ⟨-, clear⟩ | ⟨under, rfl⟩
  · exact absurd same (clear frame member)
  · rcases List.mem_cons.mp member with rfl | deeper
    · rfl
    · exact absurd same (ordered.1.2 frame deeper)

/-! ### A runtime and the stack -/

structure JSRuntime.Agrees (rt : JSRuntime) (r : Nat) (stack : List Frame) : Prop where
  depth : rt.hostDepth = stack.count (.callback r)
  disposing : stack.count (.disposingRuntime r) = if rt.disposed = true ∧ rt.frees = 0 then 1 else 0
  freeing : stack.count (.freeRuntime r) = if rt.frees = 1 ∧ rt.alive = true then 1 else 0
  once : rt.frees ≤ 1
  freed : rt.frees = 1 → rt.disposed = true ∧ rt.contexts = []
  gone : rt.alive = false → rt.frees = 1
  creating : .newContext r ∈ stack → rt.disposed = false

/-- The frames that say something about a runtime besides that it has its native one. -/
def marks (r : Nat) : List Frame :=
  [.callback r, .disposingRuntime r, .freeRuntime r, .newContext r]

variable {rt : JSRuntime} {r : Nat} {stack : List Frame}

theorem not_mem_marks {frame : Frame} (apart : frame.runtime ≠ r) : frame ∉ marks r := by
  rintro member
  have same : ∀ mark ∈ marks r, mark.runtime = r := by simp [marks, Frame.runtime]
  exact apart (same frame member)

theorem agrees_cons {frame : Frame} (apart : frame ∉ marks r) :
    rt.Agrees r (frame :: stack) ↔ rt.Agrees r stack := by
  have ne {mark : Frame} (member : mark ∈ marks r) : frame ≠ mark :=
    fun same => apart (same ▸ member)
  have callback : frame ≠ .callback r := ne (by simp [marks])
  have disposing : frame ≠ .disposingRuntime r := ne (by simp [marks])
  have freeing : frame ≠ .freeRuntime r := ne (by simp [marks])
  have creating : frame ≠ .newContext r := ne (by simp [marks])
  have mem : Frame.newContext r ∈ frame :: stack ↔ .newContext r ∈ stack := by
    rw [List.mem_cons, or_iff_right creating.symm]
  constructor
  · intro ⟨depth, disposing', freeing', once, freed, gone, creating'⟩
    rw [List.count_cons_of_ne callback] at depth
    rw [List.count_cons_of_ne disposing] at disposing'
    rw [List.count_cons_of_ne freeing] at freeing'
    exact ⟨depth, disposing', freeing', once, freed, gone, fun member => creating' (mem.mpr member)⟩
  · intro ⟨depth, disposing', freeing', once, freed, gone, creating'⟩
    rw [← List.count_cons_of_ne callback] at depth
    rw [← List.count_cons_of_ne disposing] at disposing'
    rw [← List.count_cons_of_ne freeing] at freeing'
    exact ⟨depth, disposing', freeing', once, freed, gone, fun member => creating' (mem.mp member)⟩

/-! ### The invariant -/

structure State.Valid (s : State) : Prop where
  counts : ∀ (l : Nat) (lib : QuickJS), s.libraries[l]? = some lib →
    lib.runtimes = tally (undisposedOf l) s.runtimes
  early : ∀ lib ∈ s.libraries, lib.closed = false → lib.lateCalls = 0
  placed : ∀ rt ∈ s.runtimes, rt.library < s.libraries.length
  ordered : Ordered s.stack
  alive : ∀ frame ∈ s.stack, ∃ rt, s.runtimes[frame.runtime]? = some rt ∧ rt.alive = true
  agrees : ∀ (r : Nat) (rt : JSRuntime), s.runtimes[r]? = some rt → rt.Agrees r s.stack
  contexts : ∀ ctx ∈ s.contexts, (ctx.frees = if ctx.disposed then 1 else 0) ∧
    (ctx.disposed = false → ctx.allocated = true) ∧ ctx.runtime < s.runtimes.length
  disposing : ∀ r c, .disposingContext r c ∈ s.stack →
    ∃ ctx, s.contexts[c]? = some ctx ∧ ctx.runtime = r ∧ ctx.disposed = false
  distinct : ∀ (c d : Nat) (x y : JSContext), s.contexts[c]? = some x → s.contexts[d]? = some y →
    x.allocated = true → y.allocated = true → x.context = y.context → c = d
  maps : ∀ (r : Nat) (rt : JSRuntime), s.runtimes[r]? = some rt → s.Maps r rt

-- No dispose of a runtime lies below host code.
def Quiet : List Frame → Prop
  | [] => True
  | .callback _ :: rest => (∀ r, .disposingRuntime r ∉ rest ∧ .freeRuntime r ∉ rest) ∧ Quiet rest
  | _ :: rest => Quiet rest

structure State.Safe (s : State) : Prop where
  quiet : Quiet s.stack
  clean : s.Clean

structure Kept (s : State) (e : Event) (s' : State) : Prop where
  valid : s'.Valid
  safe : s.Safe → Meets s e → s'.Safe

variable {s : State}

-- A runtime that has been disposed of and still has its native one is on the stack.
theorem State.Valid.on_stack (valid : s.Valid) (found : s.runtimes[r]? = some rt)
    (disposed : rt.disposed = true) (alive : rt.alive = true) :
    .disposingRuntime r ∈ s.stack ∨ .freeRuntime r ∈ s.stack := by
  have agrees := valid.agrees r rt found
  by_cases freed : rt.frees = 0
  · have counted := agrees.disposing
    rw [if_pos ⟨disposed, freed⟩] at counted
    exact .inl (List.count_pos_iff.mp (by omega))
  · have counted := agrees.freeing
    have := agrees.once
    rw [if_pos ⟨by omega, alive⟩] at counted
    exact .inr (List.count_pos_iff.mp (by omega))

theorem State.Valid.alive_of_undisposed (valid : s.Valid) (found : s.runtimes[r]? = some rt)
    (disposed : rt.disposed = false) : rt.alive = true := by
  cases is : rt.alive with
  | true => rfl
  | false =>
    have agrees := valid.agrees r rt found
    have := (agrees.freed (agrees.gone is)).1
    rw [disposed] at this
    cases this

theorem State.Valid.undisposed_le (valid : s.Valid) (l : Nat) :
    ∀ rt ∈ s.runtimes, undisposedOf l rt ≤ aliveOf l rt := by
  intro rt member
  obtain ⟨r, found⟩ := List.getElem?_of_mem member
  by_cases counted : rt.library = l ∧ rt.disposed = false
  · have alive := valid.alive_of_undisposed found counted.2
    rw [aliveOf, if_pos ⟨counted.1, alive⟩, undisposedOf, if_pos counted]
  · rw [undisposedOf, if_neg counted]
    exact Nat.zero_le _

-- A stack without a dispose below host code shows no runtime between its dispose and its end.
theorem Quiet.absent {stack : List Frame} (quiet : Quiet stack) (runs : hostRuns stack = true)
    (r : Nat) : .disposingRuntime r ∉ stack ∧ .freeRuntime r ∉ stack := by
  cases stack with
  | nil => exact ⟨nofun, nofun⟩
  | cons frame rest =>
    cases frame with
    | callback q =>
      obtain ⟨disposing, freeing⟩ := quiet.1 r
      exact ⟨by simpa using disposing, by simpa using freeing⟩
    | _ => cases runs

theorem State.Safe.honest (valid : s.Valid) (safe : s.Safe) : s.Honest := by
  refine ⟨fun runs l lib found => ?_, safe.clean⟩
  rw [valid.counts l lib found]
  refine congrArg List.sum (List.map_congr_left fun rt member => ?_)
  obtain ⟨r, at_⟩ := List.getElem?_of_mem member
  have same : rt.disposed = false ↔ rt.alive = true := by
    refine ⟨valid.alive_of_undisposed at_, fun alive => ?_⟩
    cases is : rt.disposed with
    | false => rfl
    | true =>
      obtain ⟨disposing, freeing⟩ := safe.quiet.absent runs r
      rcases valid.on_stack at_ is alive with member | member
      · exact absurd member disposing
      · exact absurd member freeing
  simp only [undisposedOf, aliveOf, same]

-- A change of a runtime that no library counts.
theorem State.Valid.recounts (valid : s.Valid) {r : Nat} {rt changed : JSRuntime}
    (found : s.runtimes[r]? = some rt)
    (same : (changed.library, changed.disposed) = (rt.library, rt.disposed)) (l : Nat)
    (lib : QuickJS) (at_ : s.libraries[l]? = some lib) :
    lib.runtimes = tally (undisposedOf l) (s.runtimes.set r changed) := by
  have counted : undisposedOf l changed = undisposedOf l rt := by
    simp only [undisposedOf, (Prod.mk.inj same).1, (Prod.mk.inj same).2]
  exact (valid.counts l lib at_).trans (tally_set_same found counted).symm

-- Where the counts are right, no runtime is between its dispose and its end.
theorem State.Valid.ended (valid : s.Valid)
    (counts : ∀ (l : Nat) (lib : QuickJS), s.libraries[l]? = some lib →
      lib.runtimes = s.nativeRuntimes l) :
    ∀ rt ∈ s.runtimes, rt.disposed = true → rt.alive = false := by
  intro rt member disposed
  cases is : rt.alive with
  | false => rfl
  | true =>
    have found := List.getElem?_eq_getElem (valid.placed rt member)
    have less : undisposedOf rt.library rt < aliveOf rt.library rt := by
      simp [undisposedOf, aliveOf, disposed, is]
    have fewer := tally_lt (valid.undisposed_le rt.library) member less
    have := valid.counts rt.library _ found
    have := counts rt.library _ found
    rw [State.nativeRuntimes] at this
    omega

/-! ### Libraries -/

theorem call_eq {l : Nat} (opened : ∀ lib, s.libraries[l]? = some lib → lib.closed = false) :
    s.call l = s := by
  have same : s.libraries.modify l QuickJS.call = s.libraries := by
    apply List.ext_getElem?
    intro i
    rw [List.getElem?_modify]
    cases found : s.libraries[i]? with
    | none => rfl
    | some lib =>
      by_cases at_ : l = i
      · subst at_
        simp [QuickJS.call, opened lib found]
      · simp [at_]
  rw [State.call, State.modifyLibrary, same]

-- A library with a native runtime is not closed.
theorem State.Safe.opened (safe : s.Safe) (found : s.runtimes[r]? = some rt)
    (alive : rt.alive = true) :
    ∀ lib, s.libraries[rt.library]? = some lib → lib.closed = false := by
  intro lib known
  cases is : lib.closed with
  | false => rfl
  | true =>
    have none_ := (safe.clean rt.library lib known is).1
    have := tally_eq_zero.mp none_ rt (List.mem_of_getElem? found)
    simp [aliveOf, alive] at this

theorem State.Valid.modifyLibrary {l : Nat} {change : QuickJS → QuickJS} (valid : s.Valid)
    (runtimes : ∀ lib, (change lib).runtimes = lib.runtimes)
    (early : ∀ lib, (lib.closed = false → lib.lateCalls = 0) → (change lib).closed = false →
      (change lib).lateCalls = 0) :
    (s.modifyLibrary l change).Valid where
  counts i lib found := by
    simp only [State.modifyLibrary, List.getElem?_modify, Option.map_eq_map,
      Option.map_eq_some_iff] at found
    obtain ⟨old, known, rfl⟩ := found
    rw [apply_ite QuickJS.runtimes, runtimes, ite_self]
    exact valid.counts i old known
  early lib member := by
    obtain ⟨i, found⟩ := List.getElem?_of_mem member
    simp only [State.modifyLibrary, List.getElem?_modify, Option.map_eq_map,
      Option.map_eq_some_iff] at found
    obtain ⟨old, known, rfl⟩ := found
    have before := valid.early old (List.mem_of_getElem? known)
    split
    · exact early old before
    · exact before
  placed rt member := by
    have := valid.placed rt member
    simpa [State.modifyLibrary] using this
  ordered := valid.ordered
  alive := valid.alive
  agrees := valid.agrees
  contexts := valid.contexts
  disposing := valid.disposing
  distinct := valid.distinct
  maps r rt found := ⟨(valid.maps r rt found).keys, (valid.maps r rt found).entries⟩

theorem State.Valid.call (valid : s.Valid) (l : Nat) : (s.call l).Valid := by
  refine valid.modifyLibrary (fun lib => ?_) (fun lib early => ?_)
  · rw [QuickJS.call, apply_ite QuickJS.runtimes, ite_self]
  · rw [QuickJS.call]
    split
    · next closed =>
        intro opened
        rw [closed] at opened
        cases opened
    · exact early

/-! ### Frames -/

theorem agrees_append {front base : List Frame} (apart : ∀ frame ∈ front, frame.runtime ≠ r) :
    rt.Agrees r (front ++ base) ↔ rt.Agrees r base := by
  induction front with
  | nil => rfl
  | cons frame front ih =>
    rw [List.cons_append, agrees_cons (not_mem_marks (apart frame List.mem_cons_self))]
    exact ih fun other member => apart other (List.mem_cons_of_mem frame member)

-- A step that changes one runtime and, on the top of the stack, frames of it.
theorem State.Valid.change {rt' : JSRuntime} {libraries : List QuickJS} (valid : s.Valid)
    (old new base : List Frame) (found : s.runtimes[r]? = some rt) (was : s.stack = old ++ base)
    (own : ∀ frame ∈ old ++ new, frame.runtime = r) (length : libraries.length = s.libraries.length)
    (counts : ∀ (l : Nat) (lib : QuickJS), libraries[l]? = some lib →
      lib.runtimes = tally (undisposedOf l) (s.runtimes.set r rt'))
    (early : ∀ lib ∈ libraries, lib.closed = false → lib.lateCalls = 0)
    (library : rt'.library = rt.library) (maps : rt'.contexts = rt.contexts)
    (ordered : Ordered (new ++ base)) (alive : Clear r (new ++ base) ∨ rt'.alive = true)
    (agrees : rt'.Agrees r (new ++ base))
    (disposing : ∀ c, .disposingContext r c ∈ new → ∃ ctx, s.contexts[c]? = some ctx ∧
      ctx.runtime = r ∧ ctx.disposed = false) :
    State.Valid ⟨libraries, s.runtimes.set r rt', s.contexts, new ++ base⟩ := by
  have below : r < s.runtimes.length := (List.getElem?_eq_some_iff.mp found).1
  have self : (s.runtimes.set r rt')[r]? = some rt' := List.getElem?_set_self below
  have other {q : Nat} (apart : r ≠ q) : (s.runtimes.set r rt')[q]? = s.runtimes[q]? :=
    List.getElem?_set_ne apart
  have deeper {frame : Frame} (member : frame ∈ base) : frame ∈ s.stack :=
    was ▸ List.mem_append_right old member
  constructor
  · exact counts
  · exact early
  · intro x member
    rw [length]
    rcases List.mem_or_eq_of_mem_set member with before | rfl
    · exact valid.placed x before
    · exact library ▸ valid.placed rt (List.mem_of_getElem? found)
  · exact ordered
  · intro frame member
    by_cases same : frame.runtime = r
    · rcases alive with clear | alive
      · exact absurd same (clear frame member)
      · exact ⟨rt', same ▸ self, alive⟩
    · rcases List.mem_append.mp member with top | under
      · exact absurd (own frame (List.mem_append_right old top)) same
      · obtain ⟨x, known, alive⟩ := valid.alive frame (deeper under)
        exact ⟨x, (other (Ne.symm same)).trans known, alive⟩
  · intro q x known
    by_cases same : r = q
    · subst same
      exact Option.some.inj (self.symm.trans known) ▸ agrees
    · have before := valid.agrees q x ((other same).symm.trans known)
      rw [was, agrees_append fun frame member =>
        own frame (List.mem_append_left new member) ▸ same] at before
      exact (agrees_append fun frame member =>
        own frame (List.mem_append_right old member) ▸ same).mpr before
  · intro ctx member
    simpa using valid.contexts ctx member
  · intro q c member
    rcases List.mem_append.mp member with top | under
    · have same : q = r := own _ (List.mem_append_right old top)
      subst same
      exact disposing c top
    · exact valid.disposing q c (deeper under)
  · exact valid.distinct
  · intro q x known
    by_cases same : r = q
    · subst same
      obtain rfl := Option.some.inj (self.symm.trans known)
      exact ⟨maps ▸ (valid.maps r rt found).keys, maps ▸ (valid.maps r rt found).entries⟩
    · have before := valid.maps q x ((other same).symm.trans known)
      exact ⟨before.keys, before.entries⟩

theorem set_self (found : s.runtimes[r]? = some rt) : s.runtimes.set r rt = s.runtimes := by
  obtain ⟨below, rfl⟩ := List.getElem?_eq_some_iff.mp found
  exact List.set_getElem_self below

theorem State.Valid.push (valid : s.Valid) (frame : Frame)
    (found : s.runtimes[frame.runtime]? = some rt) (alive : rt.alive = true) (on : frame.On s.stack)
    (agrees : rt.Agrees frame.runtime (frame :: s.stack))
    (disposing : ∀ c, .disposingContext frame.runtime c = frame → ∃ ctx, s.contexts[c]? = some ctx ∧
      ctx.runtime = frame.runtime ∧ ctx.disposed = false) :
    (s.push frame).Valid := by
  have changed := valid.change [] [frame] s.stack found rfl (by simp) rfl
    (by rw [set_self found]; exact valid.counts) valid.early rfl rfl ⟨on, valid.ordered⟩
      (.inr alive) agrees
    (fun c member => disposing c (List.mem_singleton.mp member))
  rwa [set_self found] at changed

theorem State.Valid.pop {frame : Frame} {rest : List Frame} (valid : s.Valid)
    (top : s.stack = frame :: rest) (plain : frame ∉ marks frame.runtime) :
    State.Valid { s with stack := rest } := by
  obtain ⟨rt, found, alive⟩ := valid.alive frame (top ▸ List.mem_cons_self)
  have agrees := valid.agrees frame.runtime rt found
  have ordered := valid.ordered
  rw [top] at agrees ordered
  have changed := valid.change [frame] [] rest found top (by simp) rfl
    (by rw [set_self found]; exact valid.counts) valid.early rfl rfl ordered.2 (.inr alive)
    ((agrees_cons plain).mp agrees) nofun
  rwa [set_self found] at changed

/-! ### Contexts -/

theorem mapSet_new {entries : List (Nat × Nat)} {key value : Nat}
    (absent : key ∉ entries.map Prod.fst) :
    mapSet entries key value = entries ++ [(key, value)] := by
  have missing : entries.any (·.1 == key) = false := by
    rw [List.any_eq_false]
    intro entry member same
    exact absent (List.mem_map.mpr ⟨entry, member, eq_of_beq same⟩)
  rw [mapSet, missing, if_neg Bool.false_ne_true]

-- A step that changes the map of one runtime, and contexts of it alone.
theorem State.Valid.remap {entries : List (Nat × Nat)} {contexts : List JSContext} (valid : s.Valid)
    (found : s.runtimes[r]? = some rt) (freed : rt.frees = 1 → entries = [])
    (each : ∀ ctx ∈ contexts, (ctx.frees = if ctx.disposed then 1 else 0) ∧
      (ctx.disposed = false → ctx.allocated = true) ∧ ctx.runtime < s.runtimes.length)
    (disposing : ∀ r c, .disposingContext r c ∈ s.stack → ∃ ctx, contexts[c]? = some ctx ∧
      ctx.runtime = r ∧ ctx.disposed = false)
    (distinct : ∀ (c d : Nat) (x y : JSContext), contexts[c]? = some x → contexts[d]? = some y →
      x.allocated = true → y.allocated = true → x.context = y.context → c = d)
    (keys : (entries.map Prod.fst).Nodup)
    (maps : ∀ context c, (context, c) ∈ entries ↔ ∃ ctx, contexts[c]? = some ctx ∧ ctx.runtime = r ∧
      ctx.context = context ∧ ctx.disposed = false)
    (others : ∀ (c : Nat) (ctx : JSContext), ctx.runtime ≠ r →
      (contexts[c]? = some ctx ↔ s.contexts[c]? = some ctx)) :
    State.Valid { s.setRuntime r { rt with contexts := entries } with contexts } := by
  have below : r < s.runtimes.length := (List.getElem?_eq_some_iff.mp found).1
  have self : (s.runtimes.set r { rt with contexts := entries })[r]? =
      some { rt with contexts := entries } :=
    List.getElem?_set_self below
  have other {q : Nat} (apart : r ≠ q) : (s.runtimes.set r { rt with contexts := entries })[q]? =
      s.runtimes[q]? :=
    List.getElem?_set_ne apart
  constructor
  · intro l lib known
    exact valid.recounts found (by rfl) l lib known
  · exact valid.early
  · intro x member
    rcases List.mem_or_eq_of_mem_set member with before | rfl
    · exact valid.placed x before
    · exact valid.placed rt (List.mem_of_getElem? found)
  · exact valid.ordered
  · intro frame member
    obtain ⟨x, known, alive⟩ := valid.alive frame member
    by_cases same : r = frame.runtime
    · subst same
      exact ⟨_, self, Option.some.inj (found.symm.trans known) ▸ alive⟩
    · exact ⟨x, (other same).trans known, alive⟩
  · intro q x known
    by_cases same : r = q
    · subst same
      obtain rfl := Option.some.inj (self.symm.trans known)
      have before := valid.agrees r rt found
      exact ⟨before.depth, before.disposing, before.freeing, before.once,
        fun once => ⟨(before.freed once).1, freed once⟩, before.gone, before.creating⟩
    · exact valid.agrees q x ((other same).symm.trans known)
  · intro ctx member
    simpa [State.setRuntime] using each ctx member
  · exact disposing
  · exact distinct
  · intro q x known
    by_cases same : r = q
    · subst same
      obtain rfl := Option.some.inj (self.symm.trans known)
      exact ⟨keys, maps⟩
    · have before := valid.maps q x ((other same).symm.trans known)
      refine ⟨before.keys, fun context c =>
        (before.entries context c).trans (exists_congr fun ctx => ?_)⟩
      refine and_congr_left fun rest => (others c ctx ?_).symm
      exact fun is => same (is.symm.trans rest.1)

-- A native context at an address that the engine does not use.
theorem State.Valid.addContext {address : Nat} (valid : s.Valid) (found : s.runtimes[r]? = some rt)
    (undisposed : rt.disposed = false)
    (fresh : ∀ ctx ∈ s.contexts, ctx.allocated = true → ctx.context ≠ address) :
    (s.addContext r rt address).Valid := by
  have before := valid.maps r rt found
  have absent : address ∉ rt.contexts.map Prod.fst := by
    intro member
    obtain ⟨⟨key, c⟩, entry, rfl⟩ := List.mem_map.mp member
    obtain ⟨ctx, known, -, context, live⟩ := (before.entries key c).mp entry
    have member' := List.mem_of_getElem? known
    exact fresh ctx member' ((valid.contexts ctx member').2.1 live) context
  have old {c : Nat} {ctx : JSContext} (known : s.contexts[c]? = some ctx) :
      (s.contexts ++ [⟨r, address, false, true, 0⟩])[c]? = some ctx :=
    (List.getElem?_append_left (List.getElem?_eq_some_iff.mp known).1).trans known
  have known_or {c : Nat} {ctx : JSContext}
      (known : (s.contexts ++ [⟨r, address, false, true, 0⟩])[c]? = some ctx) :
      s.contexts[c]? = some ctx ∨ c = s.contexts.length ∧ ctx = ⟨r, address, false, true, 0⟩ := by
    grind
  have new : (s.contexts ++ [⟨r, address, false, true, 0⟩])[s.contexts.length]? =
      some ⟨r, address, false, true, 0⟩ := by
    simp
  rw [State.addContext, mapSet_new absent]
  refine valid.remap found ?_ ?_ ?_ ?_ ?_ ?_ ?_
  · intro once
    have := ((valid.agrees r rt found).freed once).1
    rw [undisposed] at this
    cases this
  · intro ctx member
    rcases List.mem_append.mp member with before | added
    · exact valid.contexts ctx before
    · obtain rfl := List.mem_singleton.mp added
      exact ⟨rfl, fun _ => rfl, (List.getElem?_eq_some_iff.mp found).1⟩
  · intro q c member
    obtain ⟨ctx, known, live⟩ := valid.disposing q c member
    exact ⟨ctx, old known, live⟩
  · intro c d x y first second usedX usedY same
    rcases known_or first with first | ⟨rfl, rfl⟩ <;> rcases known_or
      second with second | ⟨rfl, rfl⟩
    · exact valid.distinct c d x y first second usedX usedY same
    · exact absurd same (fresh x (List.mem_of_getElem? first) usedX)
    · exact absurd same.symm (fresh y (List.mem_of_getElem? second) usedY)
    · rfl
  · rw [List.map_append]
    refine List.nodup_append.mpr
      ⟨before.keys, List.pairwise_singleton _ _, fun key member other added same => ?_⟩
    have : key = address := same.trans (List.mem_singleton.mp added)
    exact absent (this ▸ member)
  · intro context c
    rw [List.mem_append, before.entries]
    constructor
    · rintro (⟨ctx, known, rest⟩ | added)
      · exact ⟨ctx, old known, rest⟩
      · obtain ⟨rfl, rfl⟩ := Prod.mk.inj (List.mem_singleton.mp added)
        exact ⟨_, new, rfl, rfl, rfl⟩
    · rintro ⟨ctx, known, runtime, rfl, live⟩
      rcases known_or known with known | ⟨rfl, rfl⟩
      · exact .inl ⟨ctx, known, runtime, rfl, live⟩
      · exact .inr List.mem_cons_self
  · intro c ctx apart
    refine ⟨fun known => ?_, old⟩
    rcases known_or known with known | ⟨-, rfl⟩
    · exact known
    · exact absurd rfl apart

-- The native context of a context that has not been disposed of is freed.
theorem State.Valid.freeContext {c : Nat} {ctx : JSContext} (valid : s.Valid)
    (known : s.contexts[c]? = some ctx) (found : s.runtimes[ctx.runtime]? = some rt)
    (live : ctx.disposed = false) (absent : .disposingContext ctx.runtime c ∉ s.stack) :
    (s.freeContext c ctx rt).Valid := by
  have below : c < s.contexts.length := (List.getElem?_eq_some_iff.mp known).1
  have before := valid.maps ctx.runtime rt found
  have sound := valid.contexts ctx (List.mem_of_getElem? known)
  have frees : ctx.frees = 0 := by simpa [live] using sound.1
  have self : (s.contexts.set c { ctx with disposed := true, frees := ctx.frees + 1 })[c]? =
      some { ctx with disposed := true, frees := ctx.frees + 1 } := List.getElem?_set_self below
  have other {d : Nat} (apart : c ≠ d) :
      (s.contexts.set c { ctx with disposed := true, frees := ctx.frees + 1 })[d]? =
        s.contexts[d]? :=
    List.getElem?_set_ne apart
  have old {d : Nat} {y : JSContext}
      (after : (s.contexts.set c { ctx with disposed := true, frees := ctx.frees + 1 })[d]? =
        some y) :
      ∃ x, s.contexts[d]? = some x ∧ x.allocated = y.allocated ∧ x.context = y.context := by
    by_cases same : c = d
    · subst same
      obtain rfl := Option.some.inj (self.symm.trans after)
      exact ⟨ctx, known, rfl, rfl⟩
    · exact ⟨y, (other same).symm.trans after, rfl, rfl⟩
  refine valid.remap found ?_ ?_ ?_ ?_ ?_ ?_ ?_
  · intro once
    rw [mapDelete, ((valid.agrees _ rt found).freed once).2, List.filter_nil]
  · intro y member
    rcases List.mem_or_eq_of_mem_set member with before | rfl
    · exact valid.contexts y before
    · exact ⟨by simp [frees], nofun, sound.2.2⟩
  · intro q d member
    obtain ⟨x, known', runtime, live'⟩ := valid.disposing q d member
    have apart : c ≠ d := by
      rintro rfl
      obtain rfl := Option.some.inj (known.symm.trans known')
      exact absent (runtime ▸ member)
    exact ⟨x, (other apart).trans known', runtime, live'⟩
  · intro d e x y first second usedX usedY same
    obtain ⟨x', first', allocatedX, contextX⟩ := old first
    obtain ⟨y', second', allocatedY, contextY⟩ := old second
    refine valid.distinct d e x' y' first' second' (allocatedX.trans usedX)
      (allocatedY.trans usedY) ?_
    exact contextX.trans (same.trans contextY.symm)
  · exact before.keys.sublist (List.filter_sublist.map Prod.fst)
  · intro context d
    rw [mapDelete, List.mem_filter, before.entries]
    constructor
    · rintro ⟨⟨x, known', runtime, rfl, live'⟩, kept⟩
      have apart : c ≠ d := by
        rintro rfl
        obtain rfl := Option.some.inj (known.symm.trans known')
        simp at kept
      exact ⟨x, (other apart).trans known', runtime, rfl, live'⟩
    · rintro ⟨x, after, runtime, rfl, live'⟩
      have apart : c ≠ d := by
        rintro rfl
        obtain rfl := Option.some.inj (self.symm.trans after)
        cases live'
      have known' := (other apart).symm.trans after
      refine ⟨⟨x, known', runtime, rfl, live'⟩, decide_eq_true fun same => apart ?_⟩
      have sound' := valid.contexts x (List.mem_of_getElem? known')
      exact valid.distinct c d ctx x known known' (sound.2.1 live) (sound'.2.1 live') same.symm
  · intro d x apart
    by_cases same : c = d
    · subst same
      rw [self, known]
      exact ⟨fun is => absurd (Option.some.inj is ▸ rfl) apart, fun is =>
        absurd (Option.some.inj is ▸ rfl) apart⟩
    · rw [other same]

theorem State.Valid.reclaim {c : Nat} {ctx : JSContext} (valid : s.Valid)
    (known : s.contexts[c]? = some ctx) (freed : 0 < ctx.frees) :
    State.Valid { s with contexts := s.contexts.set c { ctx with allocated := false } } := by
  have below : c < s.contexts.length := (List.getElem?_eq_some_iff.mp known).1
  have sound := valid.contexts ctx (List.mem_of_getElem? known)
  have disposed : ctx.disposed = true := by
    cases is : ctx.disposed with
    | true => rfl
    | false =>
      rw [is] at sound
      have : ctx.frees = 0 := sound.1
      omega
  have self : (s.contexts.set c { ctx with allocated := false })[c]? =
      some { ctx with allocated := false } :=
    List.getElem?_set_self below
  have other {d : Nat} (apart : c ≠ d) : (s.contexts.set c { ctx with allocated := false })[d]? =
      s.contexts[d]? :=
    List.getElem?_set_ne apart
  -- a context that is not disposed, or still has its memory, is another one
  have live_iff {d : Nat} {x : JSContext} (undisposed : x.disposed = false) :
      (s.contexts.set c { ctx with allocated := false })[d]? = some x ↔
      s.contexts[d]? = some x := by
    by_cases same : c = d
    · subst same
      rw [self, known]
      constructor <;> intro is <;> obtain rfl :=
        Option.some.inj is <;> rw [disposed] at undisposed <;> cases undisposed
    · rw [other same]
  have used {d : Nat} {x : JSContext}
      (after : (s.contexts.set c { ctx with allocated := false })[d]? = some x)
      (allocated : x.allocated = true) : s.contexts[d]? = some x := by
    by_cases same : c = d
    · subst same
      obtain rfl := Option.some.inj (self.symm.trans after)
      cases allocated
    · exact (other same).symm.trans after
  refine { valid with contexts := ?_, disposing := ?_, distinct := ?_, maps := ?_ }
  · intro x member
    rcases List.mem_or_eq_of_mem_set member with before | rfl
    · exact valid.contexts x before
    · exact ⟨sound.1, fun live => absurd (disposed.symm.trans live) nofun, sound.2.2⟩
  · intro q d member
    obtain ⟨x, known', runtime, live⟩ := valid.disposing q d member
    exact ⟨x, (live_iff live).mpr known', runtime, live⟩
  · intro d e x y first second usedX usedY same
    exact valid.distinct d e x y (used first usedX) (used second usedY) usedX usedY same
  · intro q x found
    have before := valid.maps q x found
    refine ⟨before.keys, fun context d =>
      (before.entries context d).trans (exists_congr fun y => ?_)⟩
    exact and_congr_left fun rest => (live_iff rest.2.2).symm

/-! ### New libraries and runtimes -/

theorem State.Valid.newLibrary (valid : s.Valid) :
    State.Valid { s with libraries := s.libraries ++ [⟨0, false, 0⟩] } := by
  refine { valid with counts := ?_, early := ?_, placed := ?_, maps := ?_ }
  · intro l lib found
    rcases Nat.lt_or_ge l s.libraries.length with below | above
    · exact valid.counts l lib ((List.getElem?_append_left below).symm.trans found)
    · obtain rfl : l = s.libraries.length := by
        have := (List.getElem?_eq_some_iff.mp found).1
        simp only [List.length_append, List.length_singleton] at this
        omega
      obtain rfl : (⟨0, false, 0⟩ : QuickJS) = lib := by simpa using found
      refine (tally_eq_zero.mpr fun rt member => ?_).symm
      have := valid.placed rt member
      simp only [undisposedOf, ite_eq_right_iff]
      omega
  · intro lib member
    rcases List.mem_append.mp member with before | added
    · exact valid.early lib before
    · obtain rfl := List.mem_singleton.mp added
      exact fun _ => rfl
  · intro rt member
    have := valid.placed rt member
    simp only [List.length_append, List.length_singleton]
    omega
  · intro r rt found
    exact ⟨(valid.maps r rt found).keys, (valid.maps r rt found).entries⟩

theorem State.Valid.clear_length (valid : s.Valid) : Clear s.runtimes.length s.stack := by
  intro frame member same
  obtain ⟨rt, found, -⟩ := valid.alive frame member
  have := (List.getElem?_eq_some_iff.mp found).1
  omega

theorem State.Valid.addRuntime {l : Nat} (valid : s.Valid) (known : l < s.libraries.length) :
    (s.addRuntime l).Valid := by
  have old {r : Nat} {rt : JSRuntime} (found : s.runtimes[r]? = some rt) :
      (s.runtimes ++ [⟨l, false, 0, [], true, 0⟩])[r]? = some rt :=
    (List.getElem?_append_left (List.getElem?_eq_some_iff.mp found).1).trans found
  have found_or {r : Nat} {rt : JSRuntime}
      (found : (s.runtimes ++ [⟨l, false, 0, [], true, 0⟩])[r]? = some rt) :
      s.runtimes[r]? = some rt ∨ r = s.runtimes.length ∧ rt = ⟨l, false, 0, [], true, 0⟩ := by
    grind
  constructor
  · intro i lib found
    simp only [State.addRuntime, State.modifyLibrary, List.getElem?_modify, Option.map_eq_map,
      Option.map_eq_some_iff] at found ⊢
    obtain ⟨before, at_, rfl⟩ := found
    have counted := valid.counts i before at_
    by_cases same : l = i
    · subst same
      simp [undisposedOf, ← counted]
    · simp [undisposedOf, same, ← counted]
  · intro lib member
    obtain ⟨i, found⟩ := List.getElem?_of_mem member
    simp only [State.addRuntime, State.modifyLibrary, List.getElem?_modify, Option.map_eq_map,
      Option.map_eq_some_iff] at found
    obtain ⟨before, at_, rfl⟩ := found
    have early := valid.early before (List.mem_of_getElem? at_)
    split <;> exact early
  · intro rt member
    simp only [State.addRuntime, State.modifyLibrary, List.length_modify]
    rcases List.mem_append.mp member with before | added
    · exact valid.placed rt before
    · obtain rfl := List.mem_singleton.mp added
      exact known
  · exact valid.ordered
  · intro frame member
    obtain ⟨rt, found, alive⟩ := valid.alive frame member
    exact ⟨rt, old found, alive⟩
  · intro r rt found
    rcases found_or found with before | ⟨rfl, rfl⟩
    · exact valid.agrees r rt before
    · have fresh : JSRuntime.Agrees ⟨l, false, 0, [], true, 0⟩ s.runtimes.length [] :=
        ⟨rfl, rfl, rfl, Nat.zero_le 1, nofun, nofun, nofun⟩
      have := (agrees_append valid.clear_length).mpr fresh
      rwa [List.append_nil] at this
  · intro ctx member
    obtain ⟨counted, allocated, placed⟩ := valid.contexts ctx member
    refine ⟨counted, allocated, ?_⟩
    simp only [State.addRuntime, State.modifyLibrary, List.length_append, List.length_singleton]
    omega
  · exact valid.disposing
  · exact valid.distinct
  · intro r rt found
    rcases found_or found with before | ⟨rfl, rfl⟩
    · exact ⟨(valid.maps r rt before).keys, (valid.maps r rt before).entries⟩
    · refine ⟨List.nodup_nil, fun context c => ⟨nofun, ?_⟩⟩
      rintro ⟨ctx, at_, runtime, -, -⟩
      have := (valid.contexts ctx (List.mem_of_getElem? at_)).2.2
      omega

/-! ### Disposing of a runtime -/

theorem State.Valid.startDispose (valid : s.Valid) (found : s.runtimes[r]? = some rt)
    (undisposed : rt.disposed = false) (runs : hostRuns s.stack = true) (clear : Clear r s.stack) :
    (s.startDispose r rt).Valid := by
  have agrees := valid.agrees r rt found
  have alive := valid.alive_of_undisposed found undisposed
  have frees : rt.frees = 0 := by
    have := agrees.once
    have : rt.frees ≠ 1 := fun once => absurd (agrees.freed once).1 (by simp [undisposed])
    omega
  have absent (frame : Frame) (own : frame.runtime = r) : s.stack.count frame = 0 :=
    List.count_eq_zero.mpr fun member => clear frame member own
  refine valid.change [] [.disposingRuntime r] s.stack found rfl ?_ ?_ ?_ ?_ rfl rfl ?_ ?_ ?_ ?_
  · simp [Frame.runtime]
  · exact List.length_modify ..
  · intro l lib at_
    simp only [State.modifyLibrary, State.setRuntime, List.getElem?_modify, Option.map_eq_map,
      Option.map_eq_some_iff] at at_
    obtain ⟨before, known, rfl⟩ := at_
    have counted := valid.counts l before known
    have moved := tally_set (f := undisposedOf l) found { rt with disposed := true }
    by_cases same : rt.library = l
    · simp only [undisposedOf, same, undisposed, and_self, if_true, Bool.true_eq_false, and_false,
        if_false] at moved
      simp only [same, if_true]
      omega
    · simp only [undisposedOf, same, false_and, if_false] at moved
      simp only [same, if_false]
      omega
  · intro lib member
    obtain ⟨i, at_⟩ := List.getElem?_of_mem member
    simp only [State.modifyLibrary, State.setRuntime, List.getElem?_modify, Option.map_eq_map,
      Option.map_eq_some_iff] at at_
    obtain ⟨before, known, rfl⟩ := at_
    have early := valid.early before (List.mem_of_getElem? known)
    split <;> exact early
  · exact ⟨⟨runs, clear⟩, valid.ordered⟩
  · exact .inr alive
  · refine ⟨?_, ?_, ?_, agrees.once, fun once => ⟨rfl, (agrees.freed once).2⟩, agrees.gone,
      fun member => ?_⟩
    · simpa using agrees.depth
    · simp [absent (.disposingRuntime r) rfl, frees]
    · simp [absent (.freeRuntime r) rfl, frees]
    · have deeper : Frame.newContext r ∈ s.stack := by simpa using member
      exact absurd rfl (clear _ deeper)
  · simp

-- The loop is over and the native runtime is about to be freed.
theorem State.Valid.freeRuntime {rest : List Frame} (valid : s.Valid)
    (found : s.runtimes[r]? = some rt) (top : s.stack = .disposingRuntime r :: rest)
    (empty : rt.contexts = []) :
    State.Valid { s.setRuntime r { rt with frees := rt.frees + 1 } with stack := .freeRuntime r ::
      rest } := by
  have agrees := valid.agrees r rt found
  have ordered := valid.ordered
  rw [top] at agrees ordered
  obtain ⟨x, found', alive⟩ := valid.alive (.disposingRuntime r) (top ▸ List.mem_cons_self)
  obtain rfl := Option.some.inj (found.symm.trans found')
  have absent (frame : Frame) (own : frame.runtime = r) : rest.count frame = 0 :=
    List.count_eq_zero.mpr fun member => ordered.1.2 frame member own
  have phase : rt.disposed = true ∧ rt.frees = 0 := by
    have counted := agrees.disposing
    rw [List.count_cons_self] at counted
    split at counted
    · next phase => exact phase
    · omega
  refine valid.change [.disposingRuntime r] [.freeRuntime r] rest found top ?_ rfl ?_
    valid.early rfl rfl ?_ ?_ ?_ ?_
  · simp [Frame.runtime]
  · intro l lib at_
    exact valid.recounts found (by rfl) l lib at_
  · exact ordered
  · exact .inr alive
  · refine ⟨?_, ?_, ?_, ?_, fun _ => ⟨phase.1, empty⟩, ?_, fun member => ?_⟩
    · simpa using agrees.depth
    · simp [absent (.disposingRuntime r) rfl]
    · simp [absent (.freeRuntime r) rfl, phase.2, alive]
    · exact Nat.le_of_eq (congrArg (· + 1) phase.2)
    · exact fun gone => absurd (alive.symm.trans gone) nofun
    · have deeper : Frame.newContext r ∈ rest := by simpa using member
      exact absurd rfl (ordered.1.2 _ deeper)
  · simp

theorem State.Valid.freedRuntime {rest : List Frame} (valid : s.Valid)
    (found : s.runtimes[r]? = some rt) (top : s.stack = .freeRuntime r :: rest) :
    State.Valid { s.setRuntime r { rt with alive := false } with stack := rest } := by
  have agrees := valid.agrees r rt found
  have ordered := valid.ordered
  rw [top] at agrees ordered
  have absent (frame : Frame) (own : frame.runtime = r) : rest.count frame = 0 :=
    List.count_eq_zero.mpr fun member => ordered.1.2 frame member own
  have frees : rt.frees = 1 := by
    have counted := agrees.freeing
    rw [List.count_cons_self] at counted
    split at counted
    · next phase => exact phase.1
    · omega
  refine valid.change [.freeRuntime r] [] rest found top ?_ rfl ?_ valid.early rfl rfl ?_ ?_ ?_ ?_
  · simp [Frame.runtime]
  · intro l lib at_
    exact valid.recounts found (by rfl) l lib at_
  · exact ordered.2
  · exact .inl ordered.1.2
  · refine ⟨?_, ?_, ?_, agrees.once, agrees.freed, fun _ => frees, fun member => ?_⟩
    · simpa using agrees.depth
    · simp [absent (.disposingRuntime r) rfl, frees]
    · simp [absent (.freeRuntime r) rfl]
    · exact absurd rfl (ordered.1.2 _ member)
  · simp

/-! ### Host code -/

theorem State.Valid.callback {frame : Frame} {rest : List Frame} (valid : s.Valid)
    (top : s.stack = frame :: rest) (native : frame.isNative = true)
    (found : s.runtimes[frame.runtime]? = some rt) :
    State.Valid ((s.setRuntime frame.runtime { rt with hostDepth := rt.hostDepth + 1 }).push
      (.callback frame.runtime)) := by
  have agrees := valid.agrees frame.runtime rt found
  obtain ⟨x, found', alive⟩ := valid.alive frame (top ▸ List.mem_cons_self)
  obtain rfl := Option.some.inj (found.symm.trans found')
  refine valid.change [] [.callback frame.runtime] s.stack found rfl ?_ rfl ?_ valid.early rfl
    rfl ?_ ?_ ?_ ?_
  · simp [Frame.runtime]
  · intro l lib at_
    exact valid.recounts found (by rfl) l lib at_
  · exact ⟨⟨frame, rest, top, native, rfl⟩, valid.ordered⟩
  · exact .inr alive
  · refine ⟨?_, ?_, ?_, agrees.once, agrees.freed, agrees.gone, fun member => ?_⟩
    · simp [agrees.depth]
    · simpa using agrees.disposing
    · simpa using agrees.freeing
    · exact agrees.creating (by simpa using member)
  · simp

theorem State.Valid.callbackReturns {rest : List Frame} (valid : s.Valid)
    (found : s.runtimes[r]? = some rt) (top : s.stack = .callback r :: rest) :
    State.Valid { s.setRuntime r
      { rt with hostDepth := rt.hostDepth - 1 } with stack := rest } := by
  have agrees := valid.agrees r rt found
  have ordered := valid.ordered
  obtain ⟨x, found', alive⟩ := valid.alive (.callback r) (top ▸ List.mem_cons_self)
  obtain rfl := Option.some.inj (found.symm.trans found')
  rw [top] at agrees ordered
  refine valid.change [.callback r] [] rest found top ?_ rfl ?_ valid.early rfl rfl ?_ ?_ ?_ ?_
  · simp [Frame.runtime]
  · intro l lib at_
    exact valid.recounts found (by rfl) l lib at_
  · exact ordered.2
  · exact .inr alive
  · refine ⟨?_, ?_, ?_, agrees.once, agrees.freed, agrees.gone, fun member => ?_⟩
    · simp [agrees.depth]
    · simpa using agrees.disposing
    · simpa using agrees.freeing
    · exact agrees.creating (List.mem_cons_of_mem _ member)
  · simp

end QuickJSBun.Bridge.Lifecycle
