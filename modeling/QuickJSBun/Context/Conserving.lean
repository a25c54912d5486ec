import QuickJSBun.Context.Balance

/-! Every function of the conversions keeps the books, one lemma each.
-/

set_option autoImplicit false

namespace QuickJSBun.Context

open Library Effect

variable {σ V α : Type} (engine : LawfulEngine σ) (host : LawfulHost V σ)
    {gE : Run σ V (HostValue V)}

/-- `getException` returns or throws an exception with its handle. -/
def Excepts (gE : Run σ V (HostValue V)) : Prop := Ends gE Throws

theorem throws_exception (excepts : Excepts gE) {flight : List Nat} {w : World σ}
    (sound : Sound flight w) :
    Triple (· = w) (throwException gE : Run σ V α) (fun _ _ => False) fun e w' => Sound flight w' ∧
    Throws e w w' :=
  Triple.bind (excepts flight w sound) fun e => Triple.throw e fun _ ends => ends

theorem ends_throwException {post : α → World σ → World σ → Prop} (excepts : Excepts gE) :
    Ends (throwException gE : Run σ V α) post := fun _ _ sound =>
  (throws_exception excepts sound).weaken (fun _ same => same) (fun _ _ never => never.elim)
    (fun _ _ ends => ends)

theorem quiet_ptr (h : JSValue) : Quiet (ptr h : Run σ V Value) :=
  Ends.get fun _ => Quiet.bind (Quiet.check _ rfl) fun _ => Quiet.pure _

theorem quiet_assertSameVM (h : JSValue) : Quiet (assertSameVM h : Run σ V Unit) :=
  Ends.get fun _ => Quiet.bind (Quiet.check _ rfl) fun _ => Quiet.bind (quiet_ptr h) fun _ =>
    Quiet.pure ()

theorem gives_lift {step : World σ → Value × World σ}
    (acts : ∀ flight w, Sound flight w → Acts [] w (step w).1.cells (step w).2) :
    Gives (Effect.lift step : Run σ V Value) := fun flight w sound => by
  refine Triple.lift fun s isW => ?_
  subst isW
  exact ((acts flight s sound).frame flight).kept sound

-- The cell of a native becomes a handle, or the pending exception is thrown.
theorem makesNew_result {x : Run σ V Value} (gives : Gives x) (excepts : Excepts gE) :
    MakesNew (x >>= fun out => resultValue gE out) := fun flight w sound => by
  refine Triple.bind (gives flight w sound) fun value => Triple.each fun w' ⟨given, step⟩ => ?_
  have handled := sound_handle given false
  refine Triple.bind (Q := fun h s => h = w'.handles.length ∧ s =
    { w' with handles := w'.handles ++ [⟨false, value, true, false, false⟩] })
      (Triple.lift fun s isW => ?_) fun h =>
      Triple.each fun s both => ?_
  · subst isW
    exact ⟨rfl, rfl⟩
  obtain ⟨rfl, rfl⟩ := both
  have made := step.trans_quiet (step_handle w' ⟨false, value, true, false, false⟩)
  split
  · next isException =>
      subst isException
      have unlisted := step.trans_quiet (step_exception w')
      exact (throws_exception excepts handled).weaken (fun _ same => same)
        (fun _ _ never => never.elim)
        fun _ _ ends => ⟨ends.1, ends.2.after unlisted⟩
  · refine Triple.pure _ fun s isS => ?_
    subst isS
    exact ⟨handled, made, step.length_le, new_not_lost given, value, by simp⟩

section
variable (excepts : Excepts gE)
include excepts

theorem quiet_type (h : JSValue) : Quiet (type engine.toEngine gE h) := by
  refine Quiet.bind (quiet_ptr h) fun value =>
    Quiet.bind (quiet_call engine rfl fun _ => rfl) fun code => ?_
  split
  · exact ends_throwException excepts
  · split
    · exact Quiet.pure _
    · exact Ends.throw rfl

omit excepts in
theorem quiet_decode (buffer : Bytes) : Quiet (decode buffer : Run σ V Text) := by
  unfold decode
  split
  · exact Quiet.pure _
  · exact Ends.throw rfl

theorem quiet_readText (h : JSValue) : Quiet (readText engine.toEngine gE h) := by
  refine Ends.get fun w => Quiet.bind (quiet_ptr h) fun value =>
    Quiet.bind (quiet_call engine rfl fun _ => rfl) fun bytes => ?_
  split
  · exact ends_throwException excepts
  · refine Quiet.ite (quiet_decode _)
      (Quiet.bind (Quiet.modify fun _ => ⟨rfl, rfl, rfl, rfl, rfl, rfl, rfl⟩) fun _ => ?_)
    refine Quiet.bind (quiet_call engine rfl fun _ => rfl) fun again => ?_
    split
    · exact ends_throwException excepts
    · exact quiet_decode _

omit excepts in
theorem quiet_ownKeys (capacity : Nat) (object : Value) :
    Quiet (V := V) (ownKeys engine.toEngine capacity object) := by
  refine Quiet.bind (quiet_call engine rfl fun _ => rfl) fun names => ?_
  split
  · exact Quiet.pure _
  · exact Quiet.ite (Quiet.pure _) (Quiet.pure _)

omit excepts in
theorem quiet_growKeys (object : Value) (attempts : Nat) (found : Int × Bytes) :
    Quiet (V := V) (growKeys engine.toEngine object attempts found) := by
  induction attempts generalizing found with
  | zero => exact Quiet.pure _
  | succ attempts ih =>
    refine Quiet.ite (Quiet.bind (Quiet.modify fun _ => ⟨rfl, rfl, rfl, rfl, rfl, rfl, rfl⟩)
      fun _ => ?_) (Quiet.pure _)
    exact Quiet.bind (quiet_ownKeys engine _ _) fun found => ih found

omit excepts in
theorem quiet_unpackKeys (count : Nat) (buffer : Bytes) : Quiet (unpackKeys count buffer : Run σ V (List Text)) := by
  induction count generalizing buffer with
  | zero => exact Quiet.pure _
  | succ count ih => exact Quiet.bind (quiet_decode _) fun _ => Quiet.bind (ih _) fun _ => Quiet.pure _

theorem quiet_keys (h : JSValue) : Quiet (keys engine.toEngine gE h) := by
  refine Ends.get fun w => Quiet.bind (quiet_ptr h) fun object =>
    Quiet.bind (quiet_ownKeys engine _ _) fun found => ?_
  refine Quiet.bind (quiet_growKeys engine _ _ _) fun grown => ?_
  obtain ⟨count, buffer⟩ := grown
  exact Quiet.ite (ends_throwException excepts) (Quiet.ite (Ends.throw rfl) (quiet_unpackKeys _ _))

theorem makesNew_parseJson (source : Text) : MakesNew (parseJson engine.toEngine gE source) :=
  makesNew_result (gives_lift (engine.acts (.parseJson (encode source)))) excepts

theorem makesNew_newString (value : Text) : MakesNew (newString engine.toEngine gE value) := by
  unfold newString
  split
  · exact makesNew_parseJson engine excepts _
  · exact makesNew_result (gives_lift (engine.acts (.newStringLen (encode value)))) excepts

theorem quiet_newAtom (value : Text) : Quiet (newAtom engine.toEngine gE value) := by
  refine Quiet.using engine (makesNew_newString engine excepts value).makes fun text => ?_
  refine Quiet.bind (quiet_ptr text) fun _ =>
    Quiet.bind (quiet_call engine rfl fun _ => rfl) fun atom => ?_
  exact Quiet.ite (ends_throwException excepts) (Quiet.pure _)

omit excepts in
theorem quiet_evictAtoms : Quiet (V := V) (evictAtoms engine.toEngine) := by
  refine Ends.get fun w =>
    Quiet.ite (Quiet.bind (Quiet.forEach fun entry => ?_) fun _ => ?_) (Quiet.pure _)
  · exact quiet_call engine rfl fun _ => rfl
  · exact Quiet.modify fun _ => ⟨rfl, rfl, rfl, rfl, rfl, rfl, rfl⟩

theorem quiet_internAtom (key : Text) : Quiet (internAtom engine.toEngine gE key) := by
  unfold internAtom
  split
  · exact quiet_call engine rfl fun _ => rfl
  · exact quiet_newAtom engine excepts key

theorem quiet_atom (key : Text) : Quiet (atom engine.toEngine gE key) := by
  refine Ends.get fun w => ?_
  split
  · exact Quiet.pure _
  · refine Quiet.bind (quiet_evictAtoms engine) fun _ => ?_
    refine Quiet.bind (quiet_internAtom engine excepts key) fun atom => ?_
    refine Quiet.ite (ends_throwException excepts)
      (Quiet.bind (Quiet.modify fun _ => ⟨rfl, rfl, rfl, rfl, rfl, rfl, rfl⟩) fun _ => ?_)
    exact Quiet.pure _

theorem makesNew_getProp (object : JSValue) (key : Text) :
    MakesNew (getProp engine.toEngine gE object key) :=
  MakesNew.bind (quiet_ptr object) fun value =>
    MakesNew.bind (quiet_atom engine excepts key) fun atom =>
    makesNew_result (gives_lift (engine.acts (.getProperty value atom))) excepts

theorem makesNew_getDataProp (object : JSValue) (key : Text) :
    MakesNew (getDataProp engine.toEngine gE object key) :=
  MakesNew.bind (quiet_ptr object) fun value =>
    MakesNew.bind (quiet_atom engine excepts key) fun atom =>
    makesNew_result (gives_lift (engine.acts (.getDataProperty value atom))) excepts

theorem makesNew_getIndex (object : JSValue) (index : Nat) :
    MakesNew (getIndex engine.toEngine gE object index) :=
  MakesNew.bind (quiet_ptr object) fun value =>
    makesNew_result (gives_lift (engine.acts (.getPropertyUint32 value index))) excepts

theorem quiet_defineProp (object : JSValue) (key : Text) (item : JSValue) :
    Quiet (defineProp engine.toEngine gE object key item) := by
  refine Quiet.bind (quiet_assertSameVM item) fun _ => Quiet.bind (quiet_ptr object) fun _ => ?_
  refine Quiet.bind (quiet_atom engine excepts key) fun _ => Quiet.bind (quiet_ptr item) fun _ => ?_
  refine Quiet.bind (quiet_call engine rfl fun _ => rfl) fun ok => ?_
  exact Quiet.ite (ends_throwException excepts) (Quiet.pure _)

theorem quiet_defineIndex (object : JSValue) (index : Nat) (item : JSValue) :
    Quiet (defineIndex engine.toEngine gE object index item) := by
  refine Quiet.bind (quiet_assertSameVM item) fun _ => Quiet.bind (quiet_ptr object) fun _ => ?_
  refine Quiet.bind (quiet_ptr item) fun _ =>
    Quiet.bind (quiet_call engine rfl fun _ => rfl) fun ok => ?_
  exact Quiet.ite (ends_throwException excepts) (Quiet.pure _)

theorem quiet_toBigInt (h : JSValue) : Quiet (toBigInt engine.toEngine gE h) := by
  refine Quiet.bind (quiet_ptr h) fun value =>
    Quiet.ite ?_ (Quiet.bind (quiet_call engine rfl fun _ => rfl) fun reply => ?_)
  · exact Quiet.bind (quiet_type engine excepts h) fun _ => Ends.throw rfl
  · obtain ⟨status, low, high⟩ := reply
    refine Quiet.ite (ends_throwException excepts) (Quiet.ite (Quiet.pure _) ?_)
    refine Quiet.bind (quiet_readText engine excepts h) fun digits => ?_
    split
    · exact Quiet.pure _
    · exact Ends.throw rfl

theorem quiet_valueToString (h : JSValue) : Quiet (valueToString engine.toEngine gE h) := by
  refine Quiet.bind (quiet_ptr h) fun value => Quiet.ite (quiet_readText engine excepts h) ?_
  exact Quiet.bind (quiet_type engine excepts h) fun _ => Ends.throw rfl

theorem quiet_primitive (h : JSValue) : Quiet (primitive engine.toEngine host.toHost gE h) := by
  refine Quiet.bind (quiet_ptr h) fun value => ?_
  split
  · exact Quiet.pure _
  · exact Quiet.pure _
  · exact Quiet.pure _
  · exact Quiet.pure _
  · exact Quiet.pure _
  · exact Quiet.bind (quiet_toBigInt engine excepts h) fun _ => Quiet.pure _
  · exact Quiet.bind (quiet_toBigInt engine excepts h) fun _ => Quiet.pure _
  · exact Quiet.bind (quiet_readText engine excepts h) fun _ => Quiet.pure _
  · exact Quiet.bind (quiet_readText engine excepts h) fun _ => Quiet.pure _
  · exact Quiet.pure _

theorem quiet_errorProperty (h : JSValue) (name : String) :
    Quiet (errorProperty engine.toEngine host.toHost gE h name) := by
  refine Quiet.using engine (makesNew_getDataProp engine excepts h (text name)).makes fun value =>
    ?_
  exact Quiet.bind (quiet_ptr value) fun cell =>
    Quiet.ite (Quiet.pure _) (quiet_primitive engine host excepts value)

theorem quiet_thrownMessage (h : JSValue) :
    Quiet (thrownMessage engine.toEngine host.toHost gE h) := by
  refine Quiet.bind (quiet_type engine excepts h) fun type => ?_
  split
  · exact Quiet.bind (quiet_errorProperty engine host excepts h _) fun _ => Quiet.pure _
  · exact Quiet.pure _
  · exact Quiet.pure _
  · exact Quiet.pure _
  · exact Quiet.pure _
  · exact Quiet.bind (quiet_primitive engine host excepts h) fun _ => Quiet.pure _

-- What `describe` returns is an exception with the handle it was given.
theorem ends_describe (h : JSValue) :
    Ends (describe engine.toEngine host.toHost gE h) fun e w w' =>
      (∃ name message, e = .exception h name message) ∧ Step w w' nobody nobody := by
  have closed : ∀ (e : HostValue V) (w w' w'' : World σ), Step w w' nobody nobody →
      ((∃ name message, e = .exception h name message) ∧ Step w' w'' nobody nobody) →
      (∃ name message, e = .exception h name message) ∧ Step w w'' nobody nobody :=
    fun e w w' w'' step ends => ⟨ends.1, step.trans_quiet ends.2⟩
  have done : ∀ name message,
      Ends (Pure.pure (.exception h name message) : Run σ V (HostValue V)) fun e w w' =>
      (∃ name message, e = .exception h name message) ∧ Step w w' nobody nobody :=
        fun name message flight w sound =>
    Triple.pure _ fun s isW => by
      subst isW
      exact ⟨sound, ⟨name, message, rfl⟩, Step.refl s⟩
  refine Ends.bind closed (quiet_type engine excepts h) fun type => ?_
  split
  · refine Ends.bind closed (quiet_errorProperty engine host excepts h _) fun name => ?_
    refine Ends.bind closed (quiet_errorProperty engine host excepts h _) fun message => ?_
    exact Ends.bind closed (quiet_errorProperty engine host excepts h _) fun stack => done _ _
  · exact Ends.bind closed (quiet_thrownMessage engine host excepts h) fun message => done _ _

-- An exception carries its handle; the handle of one that could not be described is noted.
theorem excepts_new {x : Run σ V JSValue} (makes : MakesNew x) :
    Excepts (x >>= fun h => newJSException engine.toEngine host.toHost gE h) :=
  fun flight w sound => by
  refine Triple.bind (makes flight w sound) fun h => Triple.each fun w' made => ?_
  obtain ⟨later, step, above, kept, value, found⟩ := made
  refine Triple.tryCatch
    ((ends_describe engine host excepts h flight w' later).weaken (fun _ same => same)
    (fun e w'' ends => ?_) fun _ _ ends => ends) fun e => Triple.each fun w'' ends => ?_
  · obtain ⟨sound'', ⟨name, message, rfl⟩, quiet⟩ := ends
    refine ⟨sound'', (step.trans quiet).weaken (fun _ _ freed => freed.elim id id)
      fun _ _ _ _ leftOver => leftOver.resolve_right id, fun k member => .inl ?_⟩
    rw [List.mem_singleton.mp member]
    have new : New w w' h := ⟨above, (List.getElem?_eq_some_iff.mp found).1, kept⟩
    exact new.step quiet
  · obtain ⟨sound'', throws⟩ := ends
    have both := step.trans throws.step
    refine Triple.bind (Q := fun _ s => s = { w'' with undescribed := h :: w''.undescribed })
      (Triple.modify fun s isS => by rw [isS]) fun _ => Triple.throw e fun s isS => ?_
    subst isS
    have still : w''.handles[h]? = some ⟨false, value, true, false, false⟩ := by
      obtain same | ⟨may, -⟩ := throws.step.handles h _ found
      · exact same
      · simp [nobody] at may
    refine ⟨⟨sound''.references_length, sound''.engine_length, sound''.accounts, sound''.distinct,
      sound''.nonzero, sound''.owned, sound''.constants, fun k member => ?_⟩,
      ⟨both.cells, fun k handle known => ?_,
      fun k handle new known listed => ?_, both.undescribed.trans (List.suffix_cons h _),
      fun k member => ?_, both.hostDepth, both.inOutOfMemory⟩, fun k member => ?_⟩
    · rcases List.mem_cons.mp member with rfl | earlier
      · exact ⟨value, still⟩
      · exact sound''.lost k earlier
    · exact (both.handles k handle known).imp id fun marked =>
        ⟨marked.1.imp id fun freed => freed.elim id id, marked.2⟩
    · rcases both.created k handle new known listed with exposed | leftOver | undescribed
      · exact .inl exposed
      · rcases leftOver with isNew | isCarried
        · exact .inr (.inr (List.mem_cons.mpr (.inl isNew)))
        · exact .inr (.inl isCarried)
      · exact .inr (.inr (List.mem_cons_of_mem _ undescribed))
    · rcases List.mem_cons.mp member with rfl | earlier
      · exact .inr above
      · exact both.lost k earlier
    · refine (throws.yields k member).imp (fun new => ?_) id
      refine ⟨Nat.le_trans step.length_le new.1, new.2.1, fun isLost => ?_⟩
      rcases List.mem_cons.mp isLost with rfl | earlier
      · exact absurd (List.getElem?_eq_some_iff.mp found).1 (Nat.not_lt.mpr new.1)
      · exact new.2.2 earlier

end

theorem excepts_getExceptionWithin (stack : Nat) :
    Excepts (getExceptionWithin engine.toEngine host.toHost stack) := by
  induction stack with
  | zero => exact Ends.throw rfl
  | succ stack ih =>
    have made : MakesNew (do
        let out : Value ← call engine.toEngine .getException
        newHandle out true : Run σ V JSValue) :=
      makesNew_newHandle (gives_lift (engine.acts .getException))
    have excepts := excepts_new engine host ih made
    intro flight w sound s isW
    have ends := excepts flight w sound s isW
    exact ends

theorem excepts_getException : Excepts (getException engine.toEngine host.toHost) :=
  excepts_getExceptionWithin engine host unbounded

/-! ### What is asked of the host -/

theorem quiet_ask (op : HostOp V) : Quiet (host.ask op) := fun flight w sound s isW => by
  subst isW
  have acts := (host.acts op flight s sound).frame flight
  have kept := acts.kept sound
  split
  · next a w' runs =>
      rw [runs] at kept
      exact kept
  · next e w' runs =>
      rw [runs] at kept
      exact ⟨kept.1, .known kept.2 (host.known op s e w' runs)⟩

theorem quiet_instanceOf (value : HostValue V) (constructor : HostClass) :
    Quiet (instanceOf host.toHost value constructor) := by
  cases value with
  | other v => exact quiet_ask host _
  | _ => exact Quiet.pure _

theorem quiet_stringOf (value : HostValue V) :
    Quiet (stringOf engine.toEngine host.toHost value) := by
  cases value with
  | handle h => exact quiet_valueToString engine (excepts_getException engine host) h
  | symbol | other => exact quiet_ask host _
  | _ => exact Quiet.pure _

theorem quiet_nameOf (error : HostValue V) : Quiet (nameOf host.toHost error) := by
  cases error with
  | exception | error => exact Quiet.pure _
  | _ => exact quiet_ask host _

theorem quiet_messageOf (error : HostValue V) : Quiet (messageOf host.toHost error) := by
  cases error with
  | exception | error => exact Quiet.pure _
  | _ => exact quiet_ask host _

-- A body that leaves nothing, for a handle that is then returned.
theorem ends_returning {x : Run σ V Unit} (quiet : Quiet x) (h : JSValue) :
    Ends (do x; Pure.pure h) fun r w w' => r = h ∧ Step w w' nobody nobody :=
  fun flight w sound => by
  refine Triple.bind (quiet flight w sound) fun _ => Triple.pure h fun s ends => ?_
  exact ⟨ends.1, rfl, ends.2⟩

theorem quiet_nameError (error : HostValue V) (handle : JSValue) :
    Quiet (nameError engine.toEngine host.toHost error handle) := by
  have excepts := excepts_getException engine host
  refine Quiet.bind (quiet_nameOf host error) fun name =>
    Quiet.bind (quiet_stringOf engine host name) fun nameText => ?_
  refine Quiet.using engine (makesNew_newString engine excepts nameText).makes fun name => ?_
  refine Quiet.bind (quiet_messageOf host error) fun message => ?_
  refine Quiet.bind (quiet_stringOf engine host message) fun messageText => ?_
  refine Quiet.using engine (makesNew_newString engine excepts messageText).makes fun message => ?_
  exact Quiet.bind (quiet_defineProp engine excepts _ _ _) fun _ =>
    quiet_defineProp engine excepts _ _ _

theorem makes_newError (error : HostValue V) : Makes (newError engine.toEngine host.toHost error) :=
  Makes.orDispose engine
    (makesNew_result (gives_lift (engine.acts .newError)) (excepts_getException engine host)).makes
    fun handle => ends_returning (quiet_nameError engine host error handle) handle

/-! ### `newValue` -/

theorem makesNew_dup (h : JSValue) : MakesNew (dup engine.toEngine h : Run σ V JSValue) := by
  refine MakesNew.bind (quiet_ptr h) fun value => ?_
  split
  · exact makesNew_newHandle (gives_lift (engine.acts (.dupValue value)))
  · next plain => exact makesNew_plain (Value.cells_of_tag plain)

theorem makes_newNumber (value : Number) : Makes (newNumber value : Run σ V JSValue) := by
  cases value with
  | int i => exact makes_unowned rfl
  | double bits => exact makes_unowned rfl

theorem gives_bigIntCell (value : Int) :
    Gives (bigIntCell engine.toEngine value : Run σ V Value) := by
  unfold bigIntCell
  split
  · exact gives_lift (engine.acts (.newBigInt64 value))
  · split
    · exact gives_lift (engine.acts (.newBigInt128 _ _))
    · exact gives_lift (engine.acts (.newBigIntString _))

theorem makes_newBigInt (value : Int) : Makes (newBigInt engine.toEngine host.toHost value) :=
  (makesNew_result (gives_bigIntCell engine value) (excepts_getException engine host)).makes

-- `vm.undefined` and its like are there from the start.
theorem makes_constant {h : JSValue} {handle : Handle} (isConstant : constants[h]? = some handle) :
    Makes (Pure.pure h : Run σ V JSValue) := fun flight w sound => by
  refine Triple.pure h fun s isW => ?_
  subst isW
  have found := sound.constants h handle isConstant
  refine ⟨sound, (Step.refl s).any, (List.getElem?_eq_some_iff.mp found).1,
    .inr fun other at_h => .inr ?_⟩
  obtain rfl := Option.some.inj (found.symm.trans at_h)
  exact constants_unowned isConstant

theorem quiet_allOf {β : Type} {test : β → Run σ V Bool} (quiet : ∀ item, Quiet (test item))
    (items : List β) : Quiet (allOf test items) := by
  induction items with
  | nil => exact Quiet.pure _
  | cons item rest ih => exact Quiet.bind (quiet item) fun _ => Quiet.ite ih (Quiet.pure _)

theorem quiet_isJsonWithin (levels : Nat) (value : HostValue V) :
    Quiet (isJsonWithin host.toHost levels value) := by
  induction levels generalizing value with
  | zero => exact Quiet.pure _
  | succ levels ih =>
    unfold isJsonWithin
    split
    · exact Quiet.pure _
    · refine Quiet.bind (quiet_ask host _) fun isArray => Quiet.ite ?_ ?_
      · refine Quiet.bind (quiet_ask host _) fun keys =>
          Quiet.bind (quiet_ask host _) fun length => ?_
        refine Quiet.ite (Quiet.pure _) (Quiet.bind (quiet_ask host _) fun items => ?_)
        exact quiet_allOf ih items
      · refine Quiet.bind (quiet_ask host _) fun prototype => Quiet.ite (Quiet.pure _) ?_
        refine Quiet.bind (quiet_ask host _) fun keys => quiet_allOf (fun key => ?_) keys
        refine Quiet.bind (quiet_ask host _) fun descriptor => ?_
        split
        · exact Ends.throw rfl
        · exact Quiet.pure _
        · exact ih _

section
variable {write : Text → HostValue V → Run σ V (Option Text)}
    (quiet : ∀ key value, Quiet (write key value))
include quiet

theorem quiet_serializeItems (value : HostValue V) (count index : Nat) :
    Quiet (serializeItems host.toHost write value count index) := by
  induction count generalizing index with
  | zero => exact Quiet.pure _
  | succ count ih =>
    refine Quiet.bind (quiet_ask host _) fun item => Quiet.bind (quiet _ _) fun written => ?_
    exact Quiet.bind (ih _) fun rest => Quiet.pure _

theorem quiet_serializeMembers (value : HostValue V) (keys : List Text) :
    Quiet (serializeMembers host.toHost write value keys) := by
  induction keys with
  | nil => exact Quiet.pure _
  | cons key keys ih =>
    refine Quiet.bind (quiet_ask host _) fun item => Quiet.bind (quiet _ _) fun written =>
      Quiet.bind ih fun rest => ?_
    split
    · exact Quiet.pure _
    · exact Quiet.pure _

end

theorem quiet_replaceJSON (key : Text) (value : HostValue V) :
    Quiet (replaceJSON host.toHost key value) := by
  unfold replaceJSON
  split
  · exact quiet_ask host _
  · exact Quiet.ite (quiet_ask host _) (Quiet.pure _)

theorem quiet_unboxJSON (value : HostValue V) : Quiet (unboxJSON host.toHost value) :=
  Quiet.ite (quiet_ask host _) (Quiet.pure _)

theorem quiet_serialize (stack : Nat) (key : Text) (value : HostValue V) :
    Quiet (serialize host.toHost stack key value) := by
  induction stack generalizing key value with
  | zero => exact Ends.throw rfl
  | succ stack ih =>
    refine Quiet.bind (quiet_replaceJSON host key value) fun replaced => ?_
    refine Quiet.bind (quiet_unboxJSON host replaced) fun value => ?_
    split
    · exact Quiet.pure _
    · exact Quiet.pure _
    · exact Quiet.pure _
    · exact Quiet.pure _
    · exact Ends.throw rfl
    · exact Quiet.pure _
    · exact Quiet.pure _
    · refine Quiet.ite (Quiet.pure _) (Quiet.bind (quiet_ask host _) fun isArray => Quiet.ite ?_ ?_)
      · refine Quiet.bind (quiet_ask host _) fun length => ?_
        exact Quiet.bind (quiet_serializeItems host ih _ _ _) fun items => Quiet.pure _
      · refine Quiet.bind (quiet_ask host _) fun keys => ?_
        exact Quiet.bind (quiet_serializeMembers host ih _ _) fun members => Quiet.pure _

section
variable {convert : HostValue V → Run σ V JSValue} (makes : ∀ value, Makes (convert value))
include makes

theorem quiet_defineItems (value : HostValue V) (array : JSValue) (rounds index : Nat) :
    Quiet (defineItems engine.toEngine host.toHost convert value array rounds index) := by
  induction rounds generalizing index with
  | zero => exact Ends.throw rfl
  | succ rounds ih =>
    refine Quiet.bind (quiet_ask host _) fun length => Quiet.ite ?_ (Quiet.pure _)
    refine Quiet.bind (quiet_ask host _) fun element => ?_
    have round := Quiet.using engine (makes element) fun item =>
      quiet_defineIndex engine (excepts_getException engine host) array index item
    have rounds := Quiet.bind round fun _ => ih (index + 1)
    rw [bind_assoc] at rounds
    exact rounds

theorem quiet_defineMembers (value : HostValue V) (object : JSValue) (keys : List Text) :
    Quiet (defineMembers engine.toEngine host.toHost convert value object keys) := by
  refine Quiet.forEach fun key => Quiet.bind (quiet_ask host _) fun descriptor => ?_
  split
  · exact Quiet.using engine (makes _) fun item =>
      quiet_defineProp engine (excepts_getException engine host) _ _ _
  · exact Ends.throw rfl

end

theorem makes_newContainer {convert : HostValue V → Run σ V JSValue}
    (makes : ∀ value, Makes (convert value)) (value : HostValue V) :
    Makes (newContainer engine.toEngine host.toHost convert value) := by
  have excepts := excepts_getException engine host
  refine Makes.bind (quiet_ask host _) fun isArray => ?_
  split
  · refine Makes.orDispose engine
      (makesNew_result (gives_lift (engine.acts .newArray)) excepts).makes
      fun array => ?_
    exact ends_returning (quiet_defineItems engine host makes _ _ _ _) array
  · refine Makes.bind (quiet_ask host _) fun prototype => Makes.bind (Quiet.check _ rfl) fun _ => ?_
    refine Makes.orDispose engine
      (makesNew_result (gives_lift (engine.acts .newObject)) excepts).makes
      fun object => ?_
    have fills : Quiet (do
        let keys : List Text ← host.ask (.keys value)
        defineMembers engine.toEngine host.toHost convert value object keys) :=
      Quiet.bind (quiet_ask host _) fun keys => quiet_defineMembers engine host makes _ _ _
    have returning := ends_returning fills object
    rw [bind_assoc] at returning
    exact returning

theorem makes_throw {e : HostValue V} (plain : e.handles = []) :
    Makes (Effect.throw e : Run σ V JSValue) := Ends.throw plain

theorem makes_newValueAround {container : HostValue V → Run σ V JSValue}
    (makes : ∀ value, Makes (container value)) (value : HostValue V) :
    Makes (newValueAround engine.toEngine host.toHost container value) := by
  have excepts := excepts_getException engine host
  refine Makes.bind (quiet_instanceOf host _ _) fun isHandle => ?_
  split
  · split
    · exact Makes.bind (quiet_assertSameVM _) fun _ => (makesNew_dup engine _).makes
    · exact makes_throw rfl
  · split
    · exact makes_constant (by rfl)
    · exact makes_constant (by rfl)
    · next b =>
        cases b with
        | true => exact makes_constant (by rfl)
        | false => exact makes_constant (by rfl)
    · exact makes_newNumber _
    · exact (makesNew_newString engine excepts _).makes
    · exact makes_newBigInt engine host _
    · refine Makes.bind (quiet_instanceOf host _ _) fun isError => ?_
      split
      · exact makes_newError engine host _
      · refine Makes.bind (quiet_instanceOf host _ _) fun isPromise => ?_
        split
        · exact makes_throw rfl
        · split
          · exact makes_throw rfl
          · exact makes _

theorem makes_newValueWithin (levels : Nat) (value : HostValue V) :
    Makes (newValueWithin engine.toEngine host.toHost levels value) := by
  induction levels generalizing value with
  | zero => exact makes_newValueAround engine host (fun _ => makes_throw rfl) value
  | succ levels ih =>
    exact makes_newValueAround engine host (makes_newContainer engine host ih) value

theorem quiet_takesJson (value : HostValue V) : Quiet (takesJson host.toHost value) := by
  refine Quiet.ite (Quiet.pure _) (Quiet.bind (quiet_instanceOf host _ _) fun isHandle => ?_)
  exact Quiet.ite (Quiet.pure _) (quiet_isJsonWithin host _ _)

theorem makes_newValue (value : HostValue V) :
    Makes (newValue engine.toEngine host.toHost value) := by
  refine Makes.bind (quiet_takesJson host value) fun fast => ?_
  split
  · refine Makes.bind (quiet_serialize host _ _ _) fun written => ?_
    exact (makesNew_parseJson engine (excepts_getException engine host) _).makes
  · exact makes_newValueWithin engine host _ _

/-! ### What `dump` reads -/

theorem quiet_toBoolean (h : JSValue) : Quiet (toBoolean engine.toEngine host.toHost h) := by
  refine Quiet.bind (quiet_ptr h) fun value => ?_
  split
  · exact Quiet.pure _
  · exact Quiet.bind (quiet_type engine (excepts_getException engine host) h) fun _ =>
      Ends.throw rfl

theorem quiet_toNumber (h : JSValue) : Quiet (toNumber engine.toEngine host.toHost h) := by
  refine Quiet.bind (quiet_ptr h) fun value => ?_
  split
  · exact Quiet.pure _
  · exact Quiet.pure _
  · exact Quiet.bind (quiet_type engine (excepts_getException engine host) h) fun _ =>
      Ends.throw rfl

theorem quiet_valueLength (h : JSValue) : Quiet (valueLength engine.toEngine host.toHost h) :=
  Quiet.using engine
    (makesNew_getProp engine (excepts_getException engine host) h (text "length")).makes
    fun length => quiet_toNumber engine host length

theorem quiet_toError (h : JSValue) : Quiet (toError engine.toEngine host.toHost h) := by
  have excepts := excepts_getException engine host
  refine Quiet.bind (quiet_type engine excepts h) fun found => Quiet.ite (Ends.throw rfl) ?_
  apply Quiet.bind (quiet_errorProperty engine host excepts h _)
  intro message
  apply Quiet.bind (quiet_errorProperty engine host excepts h _)
  intro name
  exact Quiet.bind (quiet_errorProperty engine host excepts h _) fun stack => Quiet.pure _

end QuickJSBun.Context
