import QuickJSBun.Bridge.LifecycleValid

/-! What the host may rely on about the life of its libraries, runtimes and contexts: which part of it
every run keeps, and which part is kept exactly while no host code runs during the dispose of a
runtime and nothing calls a closed library.
-/

set_option autoImplicit false

namespace QuickJSBun.Bridge.Lifecycle

open Library

variable {s s' : State} {r : Nat} {rt : JSRuntime}

/-! ### What is kept under the condition -/

-- Libraries keep what tells whether they are clean, and no native runtime is added.
theorem State.Clean.mono (clean : s.Clean)
    (libraries : ∀ (l : Nat) (lib' : QuickJS), s'.libraries[l]? = some lib' →
      ∃ lib, s.libraries[l]? = some lib ∧ lib.closed = lib'.closed ∧ lib.lateCalls = lib'.lateCalls)
    (natives : ∀ l, s'.nativeRuntimes l ≤ s.nativeRuntimes l) : s'.Clean := by
  intro l lib' found closed
  obtain ⟨lib, known, sameClosed, sameCalls⟩ := libraries l lib' found
  obtain ⟨none_, quiet⟩ := clean l lib known (sameClosed.trans closed)
  have := natives l
  exact ⟨by omega, sameCalls ▸ quiet⟩

-- A runtime is changed that keeps its library, and gets no native runtime.
theorem nativeRuntimes_set_le {rt' : JSRuntime} (found : s.runtimes[r]? = some rt)
    (library : rt'.library = rt.library) (alive : rt'.alive = true → rt.alive = true) (l : Nat) :
    tally (aliveOf l) (s.runtimes.set r rt') ≤ s.nativeRuntimes l := by
  have moved := tally_set (f := aliveOf l) found rt'
  have less : aliveOf l rt' ≤ aliveOf l rt := by
    by_cases counted : rt'.library = l ∧ rt'.alive = true
    · rw [aliveOf, if_pos counted, aliveOf, if_pos ⟨library.symm.trans counted.1, alive counted.2⟩]
    · rw [aliveOf, if_neg counted]
      exact Nat.zero_le _
  rw [State.nativeRuntimes]
  omega

theorem State.Clean.setRuntime {rt' : JSRuntime} {contexts : List JSContext} {stack : List Frame}
    (clean : s.Clean) (found : s.runtimes[r]? = some rt) (library : rt'.library = rt.library)
    (alive : rt'.alive = true → rt.alive = true) :
    State.Clean ⟨s.libraries, s.runtimes.set r rt', contexts, stack⟩ :=
  clean.mono (fun _ lib' known => ⟨lib', known, rfl, rfl⟩)
    (nativeRuntimes_set_le found library alive)

theorem quiet_cons {frame : Frame} {rest : List Frame} (other : ∀ r, frame ≠ .callback r) :
    Quiet (frame :: rest) ↔ Quiet rest := by
  cases frame with
  | callback r => exact absurd rfl (other r)
  | _ => rfl

theorem Quiet.pop {frame : Frame} {rest : List Frame} (quiet : Quiet (frame :: rest)) :
    Quiet rest := by
  cases frame with
  | callback r => exact quiet.2
  | _ => exact quiet

-- A dispose on the stack is of a runtime that still has its native one.
theorem State.Valid.of_stack (valid : s.Valid)
    (member : .disposingRuntime r ∈ s.stack ∨ .freeRuntime r ∈ s.stack) :
    ∃ rt ∈ s.runtimes, rt.disposed = true ∧ rt.alive = true := by
  have present : ∃ frame ∈ s.stack, frame.runtime = r := by
    rcases member with disposing | freeing
    · exact ⟨_, disposing, rfl⟩
    · exact ⟨_, freeing, rfl⟩
  obtain ⟨frame, on, rfl⟩ := present
  obtain ⟨rt, found, alive⟩ := valid.alive frame on
  have agrees := valid.agrees frame.runtime rt found
  refine ⟨rt, List.mem_of_getElem? found, ?_, alive⟩
  rcases member with disposing | freeing
  · have counted := agrees.disposing
    have := List.count_pos_iff.mpr disposing
    split at counted
    · next phase => exact phase.1
    · omega
  · have counted := agrees.freeing
    have := List.count_pos_iff.mpr freeing
    split at counted
    · next phase => exact (agrees.freed phase.1).1
    · omega

theorem State.Valid.absent (valid : s.Valid)
    (ended : ∀ rt ∈ s.runtimes, rt.disposed = true → rt.alive = false) (r : Nat) :
    .disposingRuntime r ∉ s.stack ∧ .freeRuntime r ∉ s.stack := by
  have not (member : .disposingRuntime r ∈ s.stack ∨ .freeRuntime r ∈ s.stack) : False := by
    obtain ⟨rt, known, disposed, alive⟩ := valid.of_stack member
    exact absurd (alive.symm.trans (ended rt known disposed)) nofun
  exact ⟨fun member => not (.inl member), fun member => not (.inr member)⟩

/-! ### One step -/

theorem Kept.enter {e : Event} {frame : Frame} (valid : s.Valid)
    (found : s.runtimes[frame.runtime]? = some rt) (alive : rt.alive = true) (on : frame.On s.stack)
    (agrees : rt.Agrees frame.runtime (frame :: s.stack)) (native : frame.isNative = true) :
    Kept s e (s.enter rt frame s.stack) := by
  refine ⟨?_, fun safe _ => ?_⟩
  · have called := valid.call rt.library
    refine called.push frame found alive on agrees fun c same => ?_
    rw [← same] at native
    cases native
  · rw [State.enter, call_eq (safe.opened found alive)]
    have other : ∀ q, frame ≠ .callback q := by
      rintro q rfl
      cases native
    exact ⟨(quiet_cons other).mpr safe.quiet, safe.clean⟩

-- A frame that says nothing more about its runtime returns.
theorem Kept.pop {e : Event} {frame : Frame} {rest : List Frame} (valid : s.Valid)
    (top : s.stack = frame :: rest) (plain : frame ∉ marks frame.runtime) :
    Kept s e { s with stack := rest } where
  valid := valid.pop top plain
  safe safe _ := by
    have quiet := safe.quiet
    rw [top] at quiet
    exact ⟨quiet.pop, safe.clean⟩

theorem State.Valid.close {l : Nat} {lib : QuickJS} (valid : s.Valid)
    (found : s.libraries[l]? = some lib) (opened : lib.closed = false) (unused : lib.runtimes = 0)
    (runs : hostRuns s.stack = true) :
    Kept s (.close l) (s.modifyLibrary l fun lib => { lib with closed := true }) := by
  refine ⟨valid.modifyLibrary (fun _ => rfl) fun _ _ => nofun, fun safe _ => ⟨safe.quiet, ?_⟩⟩
  intro i lib' found' closed
  simp only [State.modifyLibrary, List.getElem?_modify, Option.map_eq_map,
    Option.map_eq_some_iff] at found'
  obtain ⟨before, known, rfl⟩ := found'
  by_cases same : l = i
  · subst same
    obtain rfl := Option.some.inj (found.symm.trans known)
    have counts := (safe.honest valid).counts runs l lib found
    simp only [if_true]
    exact ⟨counts.symm.trans unused, valid.early lib (List.mem_of_getElem? found) opened⟩
  · rw [if_neg same] at closed ⊢
    exact safe.clean i before known closed

theorem State.Valid.newRuntime {l : Nat} {made : Bool} (valid : s.Valid)
    (known : l < s.libraries.length) :
    Kept s (.newRuntime l made) (if made then (s.call l).addRuntime l else s.call l) := by
  have called := valid.call l
  have known' : l < (s.call l).libraries.length := by
    simpa [State.call, State.modifyLibrary] using known
  refine ⟨?_, fun safe meets => ?_⟩
  · split
    · exact called.addRuntime known'
    · exact called
  · rw [call_eq meets]
    split
    · refine ⟨safe.quiet, fun i lib' found closed => ?_⟩
      simp only [State.addRuntime, State.modifyLibrary, List.getElem?_modify, Option.map_eq_map,
        Option.map_eq_some_iff] at found
      obtain ⟨before, at_, rfl⟩ := found
      by_cases same : l = i
      · subst same
        rw [if_pos rfl] at closed
        exact absurd ((meets before at_).symm.trans closed) Bool.false_ne_true
      · rw [if_neg same] at closed ⊢
        obtain ⟨none_, quiet⟩ := safe.clean i before at_ closed
        refine ⟨?_, quiet⟩
        simpa [State.nativeRuntimes, State.addRuntime, aliveOf, same] using none_
    · exact safe

theorem State.Valid.newContextReturns {rest : List Frame} (valid : s.Valid)
    (top : s.stack = .newContext r :: rest) :
    State.Valid { s with stack := rest } ∧ ∀ rt, s.runtimes[r]? = some rt →
    rt.disposed = false := by
  obtain ⟨rt, found, alive⟩ := valid.alive (.newContext r) (top ▸ List.mem_cons_self)
  have agrees := valid.agrees r rt found
  have ordered := valid.ordered
  rw [top] at agrees ordered
  refine ⟨?_, fun x found' => ?_⟩
  · have agrees' : rt.Agrees r rest :=
      ⟨by simpa using agrees.depth, by simpa using agrees.disposing, by simpa using agrees.freeing,
        agrees.once,
        agrees.freed, agrees.gone, fun member => agrees.creating (List.mem_cons_of_mem _ member)⟩
    have changed := valid.change [.newContext r] [] rest found top
      (by simp [Frame.runtime]) rfl (by rw [set_self found]; exact valid.counts) valid.early rfl
        rfl ordered.2
      (.inr alive) agrees' nofun
    rwa [set_self found] at changed
  · obtain rfl := Option.some.inj (found.symm.trans found')
    exact agrees.creating List.mem_cons_self

-- A runtime that has been freed has no context left.
theorem State.Valid.alive_of_context {c : Nat} {ctx : JSContext} (valid : s.Valid)
    (known : s.contexts[c]? = some ctx) (found : s.runtimes[ctx.runtime]? = some rt)
    (undisposed : ctx.disposed = false) : rt.alive = true := by
  cases is : rt.alive with
  | true => rfl
  | false =>
    have agrees := valid.agrees _ rt found
    have entry :=
      ((valid.maps _ rt found).entries ctx.context c).mpr ⟨ctx, known, rfl, rfl, undisposed⟩
    rw [(agrees.freed (agrees.gone is)).2] at entry
    cases entry

-- A dispose that gets past its assertion finds no frame of its runtime.
theorem State.Valid.clear_of_idle (valid : s.Valid) (found : s.runtimes[r]? = some rt)
    (idle : rt.hostDepth = 0) (runs : hostRuns s.stack = true) : Clear r s.stack := by
  have depth := (valid.agrees r rt found).depth
  exact valid.ordered.clear_of_host runs (List.count_eq_zero.mp (depth.symm.trans idle))

theorem State.Valid.disposeContext {c : Nat} {ctx : JSContext} (valid : s.Valid)
    (known : s.contexts[c]? = some ctx) (found : s.runtimes[ctx.runtime]? = some rt)
    (undisposed : ctx.disposed = false) (on : (Frame.disposingContext ctx.runtime c).On s.stack) :
    (s.push (.disposingContext ctx.runtime c)).Valid := by
  refine valid.push (.disposingContext ctx.runtime c) found
    (valid.alive_of_context known found undisposed) on
    ((agrees_cons (by simp [marks, Frame.runtime])).mpr (valid.agrees _ rt found)) fun d same => ?_
  obtain ⟨-, rfl⟩ := Frame.disposingContext.inj same
  exact ⟨ctx, known, rfl, undisposed⟩

-- The context that the loop of `JSRuntime.dispose` comes to.
theorem State.Valid.next {rest : List Frame} (valid : s.Valid)
    (top : s.stack = .disposingRuntime r :: rest) (found : s.runtimes[r]? = some rt) :
    rt.hostDepth = 0 ∧ ∀ context c, (context, c) ∈ rt.contexts →
      ∃ ctx, s.contexts[c]? = some ctx ∧ ctx.runtime = r ∧ ctx.disposed = false := by
  have ordered := valid.ordered
  have depth := (valid.agrees r rt found).depth
  rw [top] at ordered depth
  constructor
  · refine depth.trans (List.count_eq_zero.mpr fun member => ?_)
    have deeper : Frame.callback r ∈ rest := by simpa using member
    exact ordered.1.2 _ deeper rfl
  · intro context c entry
    obtain ⟨ctx, known, runtime, -, undisposed⟩ :=
      ((valid.maps r rt found).entries context c).mp entry
    exact ⟨ctx, known, runtime, undisposed⟩

theorem State.Valid.freesContext {c : Nat} {ctx : JSContext} {rest : List Frame} (valid : s.Valid)
    (top : s.stack = .disposingContext r c :: rest) (known : s.contexts[c]? = some ctx)
    (found : s.runtimes[r]? = some rt) :
    Kept s .freeContext ((s.freeContext c ctx rt).enter rt (.freeContext r c) rest) := by
  have ordered := valid.ordered
  obtain ⟨x, found', alive⟩ := valid.alive (.disposingContext r c) (top ▸ List.mem_cons_self)
  obtain rfl := Option.some.inj (found.symm.trans found')
  obtain ⟨y, known', runtime, undisposed⟩ := valid.disposing r c (top ▸ List.mem_cons_self)
  obtain rfl := Option.some.inj (known.symm.trans known')
  subst runtime
  rw [top] at ordered
  have absent : .disposingContext ctx.runtime c ∉ rest := fun member =>
    nomatch ordered.1.clear ordered.2 member rfl
  have popped : State.Valid { s with stack := rest } :=
    valid.pop top (by simp [marks, Frame.runtime])
  have freed := popped.freeContext known found undisposed absent
  have found_ : (s.freeContext c ctx rt).runtimes[ctx.runtime]? =
      some { rt with contexts := mapDelete rt.contexts ctx.context } :=
    List.getElem?_set_self (List.getElem?_eq_some_iff.mp found).1
  have agrees : JSRuntime.Agrees _ ctx.runtime (.freeContext ctx.runtime c :: rest) :=
    (agrees_cons (by simp [marks])).mpr (freed.agrees _ _ found_)
  have kept : Kept _ .freeContext (State.enter _ _ (.freeContext ctx.runtime c) rest) :=
    .enter freed found_ alive ordered.1 agrees rfl
  refine ⟨kept.valid, fun safe meets => kept.safe ⟨?_, ?_⟩ trivial⟩
  · have quiet := safe.quiet
    rw [top] at quiet
    exact quiet
  · exact safe.clean.setRuntime found rfl id

theorem State.Valid.disposesRuntime (valid : s.Valid) (found : s.runtimes[r]? = some rt)
    (undisposed : rt.disposed = false) (idle : rt.hostDepth = 0) (runs : hostRuns s.stack = true) :
    Kept s (.disposeRuntime r) (s.startDispose r rt) := by
  have clear := valid.clear_of_idle found idle runs
  refine ⟨valid.startDispose found undisposed runs clear, fun safe _ => ⟨safe.quiet, ?_⟩⟩
  refine safe.clean.mono (fun l lib' known => ?_) (nativeRuntimes_set_le found rfl id)
  simp only [State.startDispose, State.push, State.modifyLibrary, State.setRuntime,
    List.getElem?_modify, Option.map_eq_map, Option.map_eq_some_iff] at known
  obtain ⟨lib, known, rfl⟩ := known
  refine ⟨lib, known, ?_, ?_⟩ <;> split <;> rfl

theorem State.Valid.freesRuntime {rest : List Frame} (valid : s.Valid)
    (found : s.runtimes[r]? = some rt) (top : s.stack = .disposingRuntime r :: rest)
    (empty : rt.contexts = []) :
    Kept s .disposeNext
      ((s.setRuntime r { rt with frees := rt.frees + 1 }).enter rt (.freeRuntime r) rest) := by
  obtain ⟨x, found', alive⟩ := valid.alive (.disposingRuntime r) (top ▸ List.mem_cons_self)
  obtain rfl := Option.some.inj (found.symm.trans found')
  refine ⟨(valid.freeRuntime found top empty).call rt.library, fun safe _ => ?_⟩
  have quiet := safe.quiet
  rw [top] at quiet
  rw [State.enter, call_eq (s := s.setRuntime r _) (safe.opened found alive)]
  exact ⟨quiet, safe.clean.setRuntime found rfl id⟩

theorem Kept.returns {e : Event} (frame : Frame) {rest : List Frame} {rt' : JSRuntime}
    (found : s.runtimes[frame.runtime]? = some rt) (top : s.stack = frame :: rest)
    (library : rt'.library = rt.library) (alive : rt'.alive = true → rt.alive = true)
    (after : State.Valid { s.setRuntime frame.runtime rt' with stack := rest }) :
    Kept s e { s.setRuntime frame.runtime rt' with stack := rest } := by
  refine ⟨after, fun safe _ => ?_⟩
  have quiet := safe.quiet
  rw [top] at quiet
  exact ⟨quiet.pop, safe.clean.setRuntime found library alive⟩

theorem step_callUnchecked (steps : step s (.callUnchecked r) = some s') :
    ∃ rt, s.runtimes[r]? = some rt ∧ s' = s.call rt.library := by
  simp only [Lifecycle.step] at steps
  split at steps
  · next rt found =>
      obtain ⟨-, same⟩ := Option.ite_none_right_eq_some.mp steps
      exact ⟨rt, found, (Option.some.inj same).symm⟩
  · cases steps

theorem step_callHandle {c : Nat} (steps : step s (.callHandle c) = some s') :
    ∃ ctx rt, s.contexts[c]? = some ctx ∧ s.runtimes[ctx.runtime]? = some rt ∧
      s' = s.call rt.library := by
  simp only [Lifecycle.step] at steps
  split at steps
  · next ctx known =>
      split at steps
      · next rt found =>
          obtain ⟨-, same⟩ := Option.ite_none_right_eq_some.mp steps
          exact ⟨ctx, rt, known, found, (Option.some.inj same).symm⟩
      · cases steps
  · cases steps

theorem step_callback (steps : step s .callback = some s') :
    ∃ frame rest rt, s.stack = frame :: rest ∧ s.runtimes[frame.runtime]? = some rt ∧
      frame.isNative = true ∧
      s' = (s.setRuntime frame.runtime { rt with hostDepth := rt.hostDepth + 1 }).push
        (.callback frame.runtime) := by
  simp only [Lifecycle.step] at steps
  split at steps
  · next frame rest top =>
      split at steps
      · next rt found =>
          obtain ⟨native, same⟩ := Option.ite_none_right_eq_some.mp steps
          exact ⟨frame, rest, rt, top, found, native, (Option.some.inj same).symm⟩
      · cases steps
  · cases steps

theorem State.Valid.step {e : Event} (valid : s.Valid) (steps : step s e = some s') :
    Kept s e s' := by
  cases e with
  | newLibrary =>
    simp only [Lifecycle.step, Option.ite_none_right_eq_some, Option.some.injEq] at steps
    obtain ⟨-, rfl⟩ := steps
    refine ⟨valid.newLibrary, fun safe _ => ⟨safe.quiet, fun l lib found closed => ?_⟩⟩
    rcases Nat.lt_or_ge l s.libraries.length with below | above
    · exact safe.clean l lib ((List.getElem?_append_left below).symm.trans found) closed
    · rw [List.getElem?_append_right above] at found
      obtain rfl := List.mem_singleton.mp (List.mem_of_getElem? found)
      cases closed
  | close l =>
    simp only [Lifecycle.step, Option.ite_none_right_eq_some, Option.map_eq_some_iff] at steps
    obtain ⟨runs, lib, found, rfl⟩ := steps
    split
    · exact ⟨valid, fun safe _ => safe⟩
    · next opened =>
        obtain ⟨opened, unused⟩ := not_or.mp opened
        exact valid.close found (by simpa using opened) (not_not.mp unused) runs
  | newRuntime l made =>
    simp only [Lifecycle.step, Option.ite_none_right_eq_some, Option.some.injEq] at steps
    obtain ⟨⟨-, known⟩, rfl⟩ := steps
    exact valid.newRuntime known
  | callRuntime r =>
    simp only [Lifecycle.step] at steps
    split at steps
    · next rt found =>
        obtain ⟨⟨runs, undisposed⟩, same⟩ := Option.ite_none_right_eq_some.mp steps
        obtain rfl := Option.some.inj same
        exact .enter valid found (valid.alive_of_undisposed found undisposed) (.inl runs)
          ((agrees_cons (by simp [marks])).mpr (valid.agrees r rt found)) rfl
    · cases steps
  | callContext c =>
    simp only [Lifecycle.step] at steps
    split at steps
    · next ctx known =>
        split at steps
        · next rt found =>
            obtain ⟨⟨runs, undisposed⟩, same⟩ := Option.ite_none_right_eq_some.mp steps
            obtain rfl := Option.some.inj same
            exact .enter valid found (valid.alive_of_context known found undisposed) (.inl runs)
              ((agrees_cons (by simp [marks, Frame.runtime])).mpr (valid.agrees _ rt found)) rfl
        · cases steps
    · cases steps
  | callUnchecked r =>
    obtain ⟨rt, found, rfl⟩ := step_callUnchecked steps
    refine ⟨valid.call _, fun safe meets => ?_⟩
    rw [call_eq (meets rt found)]
    exact safe
  | callHandle c =>
    obtain ⟨ctx, rt, known, found, rfl⟩ := step_callHandle steps
    refine ⟨valid.call _, fun safe meets => ?_⟩
    rw [call_eq (meets ctx known rt found)]
    exact safe
  | newContext r =>
    simp only [Lifecycle.step] at steps
    split at steps
    · next rt found =>
        obtain ⟨⟨runs, undisposed⟩, same⟩ := Option.ite_none_right_eq_some.mp steps
        obtain rfl := Option.some.inj same
        have agrees := valid.agrees r rt found
        refine .enter valid found (valid.alive_of_undisposed found undisposed) runs ?_ rfl
        exact ⟨by simpa [Frame.runtime] using agrees.depth,
          by simpa [Frame.runtime] using agrees.disposing,
          by simpa [Frame.runtime] using agrees.freeing, agrees.once, agrees.freed, agrees.gone,
          fun _ => undisposed⟩
    · cases steps
  | created context =>
    simp only [Lifecycle.step] at steps
    split at steps
    · next r rest top =>
        obtain ⟨popped, undisposed⟩ := valid.newContextReturns top
        have quiet (safe : s.Safe) : Quiet rest := by
          have quiet := safe.quiet
          rw [top] at quiet
          exact quiet
        split at steps
        · next address rt found =>
            obtain ⟨fresh, same⟩ := Option.ite_none_right_eq_some.mp steps
            obtain rfl := Option.some.inj same
            refine ⟨popped.addContext found (undisposed rt found) fresh, fun safe _ =>
              ⟨quiet safe, ?_⟩⟩
            exact safe.clean.setRuntime found rfl id
        · obtain rfl := Option.some.inj steps
          exact ⟨popped, fun safe _ => ⟨quiet safe, safe.clean⟩⟩
        · cases steps
    · cases steps
  | disposeContext c =>
    simp only [Lifecycle.step] at steps
    split at steps
    · next ctx known =>
        split at steps
        · next rt found =>
            obtain ⟨runs, same⟩ := Option.ite_none_right_eq_some.mp steps
            obtain rfl := Option.some.inj same
            split
            · exact ⟨valid, fun safe _ => safe⟩
            · next opened =>
                obtain ⟨undisposed, idle⟩ := not_or.mp opened
                have clear := valid.clear_of_idle found (not_not.mp idle) runs
                exact ⟨valid.disposeContext known found (by simpa using undisposed)
                  (.inl ⟨runs, clear⟩), fun safe _ => ⟨safe.quiet, safe.clean⟩⟩
        · cases steps
    · cases steps
  | freeHandle =>
    simp only [Lifecycle.step] at steps
    split at steps
    · next r c rest top =>
        obtain ⟨rt, found, rfl⟩ := Option.map_eq_some_iff.mp steps
        obtain ⟨x, found', alive⟩ := valid.alive (.disposingContext r c) (top ▸ List.mem_cons_self)
        obtain rfl := Option.some.inj (found.symm.trans found')
        rw [← top]
        exact .enter valid found alive (.inr ⟨c, rest, top⟩)
          ((agrees_cons (by simp [marks])).mpr (valid.agrees r rt found)) rfl
    · cases steps
  | freeContext =>
    simp only [Lifecycle.step] at steps
    split at steps
    · next r c rest top =>
        split at steps
        · next ctx rt known found =>
            obtain rfl := Option.some.inj steps
            exact valid.freesContext top known found
        · cases steps
    · cases steps
  | reclaim c =>
    simp only [Lifecycle.step] at steps
    split at steps
    · next ctx known =>
        obtain ⟨freed, same⟩ := Option.ite_none_right_eq_some.mp steps
        obtain rfl := Option.some.inj same
        exact ⟨valid.reclaim known freed, fun safe _ => ⟨safe.quiet, safe.clean⟩⟩
    · cases steps
  | disposeRuntime r =>
    simp only [Lifecycle.step] at steps
    split at steps
    · next rt found =>
        obtain ⟨runs, same⟩ := Option.ite_none_right_eq_some.mp steps
        obtain rfl := Option.some.inj same
        split
        · exact ⟨valid, fun safe _ => safe⟩
        · next opened =>
            obtain ⟨undisposed, idle⟩ := not_or.mp opened
            exact valid.disposesRuntime found (by simpa using undisposed) (not_not.mp idle) runs
    · cases steps
  | disposeNext =>
    simp only [Lifecycle.step] at steps
    split at steps
    · next r rest top =>
        split at steps
        · next rt found =>
            split at steps
            · next empty =>
                obtain rfl := Option.some.inj steps
                exact valid.freesRuntime found top empty
            · next context c others entries =>
                obtain ⟨-, each⟩ := valid.next top found
                obtain ⟨ctx, known, rfl, undisposed⟩ :=
                  each context c (entries ▸ List.mem_cons_self)
                rw [known] at steps
                simp only [Option.ite_none_left_eq_some, Option.some.injEq] at steps
                obtain ⟨-, rfl⟩ := steps
                exact ⟨valid.disposeContext known found undisposed (.inr ⟨rest, top⟩),
                  fun safe _ => ⟨safe.quiet, safe.clean⟩⟩
        · cases steps
    · cases steps
  | callback =>
    obtain ⟨frame, rest, rt, top, found, native, rfl⟩ := step_callback steps
    refine ⟨valid.callback top native found, fun safe meets =>
      ⟨⟨valid.absent meets, safe.quiet⟩, ?_⟩⟩
    exact safe.clean.setRuntime found rfl id
  | returns =>
    simp only [Lifecycle.step] at steps
    split at steps
    · next r rest top =>
        obtain rfl := Option.some.inj steps
        exact .pop valid top (by simp [marks])
    · next r c rest top =>
        obtain rfl := Option.some.inj steps
        exact .pop valid top (by simp [marks])
    · next r rest top =>
        obtain ⟨rt, found, rfl⟩ := Option.map_eq_some_iff.mp steps
        exact .returns (.callback r) found top rfl id (valid.callbackReturns found top)
    · next r rest top =>
        obtain ⟨rt, found, rfl⟩ := Option.map_eq_some_iff.mp steps
        exact .returns (.freeRuntime r) found top rfl (fun same => by cases same)
          (valid.freedRuntime found top)
    · cases steps

/-! ### Runs -/

theorem machine_valid : machine.Invariant (fun _ _ => True) State.Valid where
  init := ⟨nofun, nofun, nofun, trivial, nofun, nofun, nofun, nofun, nofun, nofun⟩
  step valid _ steps := (valid.step steps).valid

-- A step after which the host still sees the truth meets the condition.
theorem State.Valid.meets {e : Event} (valid : s.Valid) (steps : Lifecycle.step s e = some s')
    (honest : s'.Honest) : Meets s e := by
  have valid' := (valid.step steps).valid
  have opened {l : Nat} {lib : QuickJS} (known : s.libraries[l]? = some lib)
      (called : (s.call l).libraries[l]? = s'.libraries[l]? ∨
        (s.call l).libraries.modify l (fun lib => { lib with runtimes := lib.runtimes + 1 }) =
          s'.libraries) :
      lib.closed = false := by
    cases closed : lib.closed with
    | false => rfl
    | true =>
      have late : (s.call l).libraries[l]? = some { lib with lateCalls := lib.lateCalls + 1 } := by
        simp [State.call, State.modifyLibrary, known, QuickJS.call, closed]
      rcases called with same | same
      · have := (honest.clean l _ (same.symm.trans late) closed).2
        cases this
      · have found : s'.libraries[l]? = some ⟨lib.runtimes + 1, lib.closed, lib.lateCalls + 1⟩ := by
          rw [← same, List.getElem?_modify, late]
          simp
        have := (honest.clean l _ found closed).2
        cases this
  cases e with
  | callback =>
    obtain ⟨frame, rest, rt, -, found, -, rfl⟩ := step_callback steps
    have ended := valid'.ended (honest.counts rfl)
    intro x member disposed
    obtain ⟨q, known⟩ := List.getElem?_of_mem member
    by_cases same : frame.runtime = q
    · subst same
      obtain rfl := Option.some.inj (found.symm.trans known)
      have self := List.getElem?_set_self (a := { rt with hostDepth := rt.hostDepth + 1 })
        (List.getElem?_eq_some_iff.mp found).1
      exact ended { rt with hostDepth := rt.hostDepth + 1 } (List.mem_of_getElem? self) disposed
    · exact ended x (List.mem_of_getElem? ((List.getElem?_set_ne same).trans known)) disposed
  | newRuntime l made =>
    simp only [Lifecycle.step, Option.ite_none_right_eq_some, Option.some.injEq] at steps
    obtain ⟨-, rfl⟩ := steps
    intro lib known
    cases made with
    | false => exact opened known (.inl rfl)
    | true => exact opened known (.inr rfl)
  | callUnchecked r =>
    obtain ⟨rt, found, rfl⟩ := step_callUnchecked steps
    intro x found' lib known
    obtain rfl := Option.some.inj (found.symm.trans found')
    exact opened known (.inl rfl)
  | callHandle c =>
    obtain ⟨ctx, rt, known, found, rfl⟩ := step_callHandle steps
    intro y known' x found' lib at_
    obtain rfl := Option.some.inj (known.symm.trans known')
    obtain rfl := Option.some.inj (found.symm.trans found')
    exact opened at_ (.inl rfl)
  | _ => trivial

theorem State.Valid.sound (valid : s.Valid) : s.Sound := by
  refine ⟨valid.counts, fun ctx member => (valid.contexts ctx member).1, ?_, valid.maps, ?_, ?_⟩
  · intro r rt found
    have agrees := valid.agrees r rt found
    refine ⟨agrees.once, fun once => ⟨(agrees.freed once).1, ?_⟩, agrees.gone, ?_⟩
    · intro ctx member runtime
      obtain ⟨c, known⟩ := List.getElem?_of_mem member
      cases is : ctx.disposed with
      | true => rfl
      | false =>
        have entry :=
          ((valid.maps r rt found).entries ctx.context c).mpr ⟨ctx, known, runtime, rfl, is⟩
        rw [(agrees.freed once).2] at entry
        cases entry
    · intro idle disposed
      cases is : rt.alive with
      | false => rfl
      | true =>
        have member := valid.on_stack found disposed is
        simp [idle] at member
  · intro r rt found busy s'
    constructor
    · intro steps
      simp only [Lifecycle.step, found] at steps
      obtain ⟨-, same⟩ := Option.ite_none_right_eq_some.mp steps
      rw [if_pos (.inr (by omega))] at same
      exact (Option.some.inj same).symm
    · rintro c ctx known rfl steps
      simp only [Lifecycle.step, known, found] at steps
      obtain ⟨-, same⟩ := Option.ite_none_right_eq_some.mp steps
      rw [if_pos (.inr (by omega))] at same
      exact (Option.some.inj same).symm
  · intro r rest top
    obtain ⟨rt, found, -⟩ := valid.alive (.disposingRuntime r) (top ▸ List.mem_cons_self)
    obtain ⟨idle, each⟩ := valid.next top found
    have found' : s.runtimes[r]? = some rt := found
    simp only [Lifecycle.step, top, found']
    split
    · rfl
    · next context c others entries =>
        obtain ⟨ctx, known, -, undisposed⟩ := each context c (entries ▸ List.mem_cons_self)
        simp [known, undisposed, idle]

/-- Frees, maps and refusals are right in every run. The host sees the truth about its libraries in
exactly the runs in which no host code runs while a disposed runtime still has its native one, and
nothing asks a closed library for a runtime, a class id, the detection of a module or what a
handle's object belongs to. -/
theorem lifecycle_kept {s : State} :
    (machine.Reaches (fun _ _ => True) s → s.Sound) ∧ (machine.Reaches Meets s → s.Honest) ∧
      (machine.Reaches Meets s ↔ machine.Reaches (machine.Keeping State.Honest) s) := by
  refine ⟨fun reaches => (machine_valid.reached reaches).sound, ?_⟩
  have start : machine.init.Safe := ⟨trivial, nofun⟩
  exact Machine.reaches_iff_showing machine_valid start (fun valid safe => safe.honest valid)
    fun valid safe steps => ⟨valid.meets steps, (valid.step steps).safe safe⟩

/-- A finalizer of a handle's object tries every dispose while its context is disposed of, and asks
for a class id. Another context gets the same address. Then the runtime is disposed of and the
library closed. -/
theorem lifecycle_kept_closed : State.Honest
    ⟨[⟨0, true, 0⟩], [⟨0, true, 0, [], false, 1⟩],
      [⟨0, 4096, true, false, 1⟩, ⟨0, 4096, true, true, 1⟩], []⟩ := by
  have runs : machine.run Meets machine.init [.newLibrary, .newRuntime 0 true, .newContext 0,
      .created (some 4096), .disposeContext 0, .freeHandle, .callback, .disposeContext 0,
      .disposeRuntime 0, .close 0, .callUnchecked 0, .callHandle 0, .returns, .returns,
      .freeContext, .returns, .reclaim 0, .newContext 0, .created (some 4096), .disposeRuntime 0,
      .disposeNext, .freeContext, .returns, .disposeNext, .returns, .close 0, .disposeRuntime 0] =
      some ⟨[⟨0, true, 0⟩], [⟨0, true, 0, [], false, 1⟩],
        [⟨0, 4096, true, false, 1⟩, ⟨0, 4096, true, true, 1⟩], []⟩ := by decide
  exact lifecycle_kept.2.1 (Machine.Reaches.init.run _ runs)

/-- A finalizer that runs while the only runtime is disposed of closes the library. -/
theorem close_during_dispose : ¬∀ s, machine.Reaches (fun _ _ => True) s → s.Honest := by
  intro honest
  have runs : machine.run
      (fun _ _ => True) machine.init [.newLibrary, .newRuntime 0 true, .newContext 0,
      .created (some 4096), .disposeRuntime 0, .disposeNext, .freeHandle, .callback, .close 0] =
      some ⟨[⟨0, true, 0⟩], [⟨0, true, 1, [(4096, 0)], true, 0⟩], [⟨0, 4096, false, true, 0⟩],
        [.callback 0, .native 0, .disposingContext 0 0, .disposingRuntime 0]⟩ := by decide
  have counts := (honest _ (Machine.Reaches.init.run _ runs)).clean 0 _ rfl rfl
  exact absurd counts.1 (by decide)

end QuickJSBun.Bridge.Lifecycle
