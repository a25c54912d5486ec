import QuickJSBun.Context.Noting

/-! The conversions of host values, run on a noting engine.
-/

set_option autoImplicit false

namespace QuickJSBun.Context

open Library Effect

variable {σ V α β : Type} {engine : Engine σ} {host : Host V σ} (unaware : Unaware engine host)
include unaware

theorem notes_instanceOf (value : HostValue V) (constructor : HostClass) :
    Notes engine host (instanceOf host.noting value constructor)
      (instanceOf host value constructor) := by
  cases value with
  | other v => exact notes_ask unaware _
  | _ => exact Notes.pure _

/-! ### Errors -/

theorem notes_stringOf (value : HostValue V) :
    Notes engine host (stringOf engine.noting host.noting value) (stringOf engine host value) := by
  cases value with
  | symbol => exact notes_ask unaware _
  | handle h => exact notes_valueToString unaware (notes_getException unaware) h
  | other v => exact notes_ask unaware _
  | _ => exact Notes.pure _

theorem notes_nameOf (error : HostValue V) :
    Notes engine host (nameOf host.noting error) (nameOf host error) := by
  cases error with
  | exception => exact Notes.pure _
  | error => exact Notes.pure _
  | _ => exact notes_ask unaware _

theorem notes_messageOf (error : HostValue V) :
    Notes engine host (messageOf host.noting error) (messageOf host error) := by
  cases error with
  | exception => exact Notes.pure _
  | error => exact Notes.pure _
  | _ => exact notes_ask unaware _

theorem notes_withValue {y : Run (Noted σ) V α} {x : Run σ V α} (value : JSValue)
    (body : Notes engine host y x) :
    Notes engine host (withValue engine.noting value y) (withValue engine value x) :=
  Notes.tryFinally body (notes_dispose unaware value)

theorem notes_orDispose {y : Run (Noted σ) V α} {x : Run σ V α} (value : JSValue)
    (body : Notes engine host y x) :
    Notes engine host (orDispose engine.noting value y) (orDispose engine value x) := by
  apply Notes.tryCatch body
  intro e
  exact Notes.bind (notes_dispose unaware value) fun _ => Notes.throw e

theorem notes_nameError (error : HostValue V) (handle : JSValue) :
    Notes engine host (nameError engine.noting host.noting error handle)
      (nameError engine host error handle) := by
  have excepts := notes_getException unaware
  apply Notes.bind (notes_nameOf unaware error)
  intro itsName
  apply Notes.bind (notes_stringOf unaware itsName)
  intro nameText
  apply Notes.bind (notes_newString unaware excepts nameText)
  intro name
  apply notes_withValue unaware name
  apply Notes.bind (notes_messageOf unaware error)
  intro itsMessage
  apply Notes.bind (notes_stringOf unaware itsMessage)
  intro messageText
  apply Notes.bind (notes_newString unaware excepts messageText)
  intro message
  apply notes_withValue unaware message
  apply Notes.bind (notes_defineProp unaware excepts handle _ name)
  intro _
  exact notes_defineProp unaware excepts handle _ message

theorem notes_newError (error : HostValue V) :
    Notes engine host (newError engine.noting host.noting error) (newError engine host error) := by
  apply Notes.bind (notes_call unaware fun _ _ => rfl)
  intro out
  apply Notes.bind (notes_resultValue (notes_getException unaware) out)
  intro handle
  apply notes_orDispose unaware handle
  exact Notes.bind (notes_nameError unaware error handle) fun _ => Notes.pure handle

/-! ### `newValue` -/

theorem notes_dup (h : JSValue) : Notes engine host (dup engine.noting h) (dup engine h) := by
  apply Notes.bind (notes_ptr h)
  intro value
  apply Notes.ite
  · exact Notes.bind (notes_call unaware fun _ _ => rfl) fun cell => notes_newHandle cell true
  · exact notes_newHandle value true

omit unaware in
theorem notes_newNumber (value : Number) :
    Notes engine host (newNumber value) (newNumber value) := by
  cases value with
  | int => exact notes_newHandle _ _
  | double => exact notes_newHandle _ _

theorem notes_newBigInt (value : Int) :
    Notes engine host (newBigInt engine.noting host.noting value)
      (newBigInt engine host value) := by
  apply Notes.bind
  · apply Notes.ite (notes_call unaware fun _ _ => rfl)
    exact Notes.ite (notes_call unaware fun _ _ => rfl) (notes_call unaware fun _ _ => rfl)
  · exact fun out => notes_resultValue (notes_getException unaware) out

omit unaware in
theorem notes_allOf {test : β → Run σ V Bool} {other : β → Run (Noted σ) V Bool}
    (each : ∀ item, Notes engine host (other item) (test item)) (items : List β) :
    Notes engine host (allOf other items) (allOf test items) := by
  induction items with
  | nil => exact Notes.pure true
  | cons item rest ih =>
    apply Notes.bind (each item)
    intro accepted
    exact Notes.ite ih (Notes.pure false)

theorem notes_isJsonWithin (levels : Nat) (value : HostValue V) :
    Notes engine host (isJsonWithin host.noting levels value) (isJsonWithin host levels value) := by
  induction levels generalizing value with
  | zero => exact Notes.pure _
  | succ levels ih =>
    have same : isJsonLeaf host.noting value = isJsonLeaf host value := rfl
    unfold isJsonWithin
    rw [same]
    cases isJsonLeaf host value with
    | some answer => exact Notes.pure answer
    | none =>
      apply Notes.bind (notes_ask unaware _)
      intro isArray
      apply Notes.ite
      · apply Notes.bind (notes_ask unaware _)
        intro keys
        apply Notes.bind (notes_ask unaware _)
        intro length
        apply Notes.ite (Notes.pure false)
        apply Notes.bind (notes_ask unaware _)
        intro items
        exact notes_allOf ih items
      · apply Notes.bind (notes_ask unaware _)
        intro prototype
        apply Notes.ite (Notes.pure false)
        apply Notes.bind (notes_ask unaware _)
        intro keys
        refine notes_allOf (fun key => ?_) keys
        apply Notes.bind (notes_ask unaware _)
        intro descriptor
        cases descriptor with
        | none => exact Notes.throw _
        | some descriptor =>
          cases descriptor with
          | accessor => exact Notes.pure false
          | data item => exact ih item

theorem notes_serializeItems {serialize : Text → HostValue V → Run σ V (Option Text)}
    {other : Text → HostValue V → Run (Noted σ) V (Option Text)}
    (each : ∀ key item, Notes engine host (other key item) (serialize key item))
    (value : HostValue V) (count index : Nat) :
    Notes engine host (serializeItems host.noting other value count index)
      (serializeItems host serialize value count index) := by
  induction count generalizing index with
  | zero => exact Notes.pure []
  | succ count ih =>
    apply Notes.bind (notes_ask unaware _)
    intro item
    apply Notes.bind (each _ item)
    intro written
    exact Notes.bind (ih _) fun rest => Notes.pure _

theorem notes_serializeMembers {serialize : Text → HostValue V → Run σ V (Option Text)}
    {other : Text → HostValue V → Run (Noted σ) V (Option Text)}
    (each : ∀ key item, Notes engine host (other key item) (serialize key item))
    (value : HostValue V) (keys : List Text) :
    Notes engine host (serializeMembers host.noting other value keys)
      (serializeMembers host serialize value keys) := by
  induction keys with
  | nil => exact Notes.pure []
  | cons key keys ih =>
    apply Notes.bind (notes_ask unaware _)
    intro item
    apply Notes.bind (each key item)
    intro written
    apply Notes.bind ih
    intro rest
    cases written with
    | some written => exact Notes.pure _
    | none => exact Notes.pure _

theorem notes_replaceJSON (key : Text) (value : HostValue V) :
    Notes engine host (replaceJSON host.noting key value) (replaceJSON host key value) := by
  unfold replaceJSON
  cases value with
  | bigint => exact notes_ask unaware _
  | _ =>
    dsimp only
    exact Notes.ite (notes_ask unaware _) (Notes.pure _)

theorem notes_serialize (stack : Nat) (key : Text) (value : HostValue V) :
    Notes engine host (serialize host.noting stack key value) (serialize host stack key value) := by
  induction stack generalizing key value with
  | zero => exact Notes.throw _
  | succ stack ih =>
    apply Notes.bind (notes_replaceJSON unaware key value)
    intro replaced
    apply Notes.bind (Notes.ite (notes_ask unaware _) (Notes.pure replaced))
    intro value
    have walks : Notes engine host
        (if host.isCallable value then pure none
          else do
            let isArray : Bool ← host.noting.ask (.isArray value)
            if isArray then do
              let length : Nat ← host.noting.ask (.length value)
              let items ← serializeItems host.noting (serialize host.noting stack) value length 0
              pure (some (listText (unit '[') (unit ']') items))
            else do
              let keys : List Text ← host.noting.ask (.keys value)
              let members ← serializeMembers host.noting (serialize host.noting stack) value keys
              pure (some (listText (unit '{') (unit '}') members)) : Run (Noted σ) V (Option Text))
        (if host.isCallable value then pure none
          else do
            let isArray : Bool ← host.ask (.isArray value)
            if isArray then do
              let length : Nat ← host.ask (.length value)
              let items ← serializeItems host (serialize host stack) value length 0
              pure (some (listText (unit '[') (unit ']') items))
            else do
              let keys : List Text ← host.ask (.keys value)
              let members ← serializeMembers host (serialize host stack) value keys
              pure (some (listText (unit '{') (unit '}') members))) := by
      apply Notes.ite (Notes.pure none)
      apply Notes.bind (notes_ask unaware _)
      intro isArray
      apply Notes.ite
      · apply Notes.bind (notes_ask unaware _)
        intro length
        exact Notes.bind (notes_serializeItems unaware ih value length 0) fun _ => Notes.pure _
      · apply Notes.bind (notes_ask unaware _)
        intro keys
        exact Notes.bind (notes_serializeMembers unaware ih value keys) fun _ => Notes.pure _
    cases value with
    | handle => exact walks
    | exception => exact walks
    | error => exact walks
    | other => exact walks
    | bigint => exact Notes.throw _
    | _ => exact Notes.pure _

theorem notes_defineItems {convert : HostValue V → Run σ V JSValue}
    {other : HostValue V → Run (Noted σ) V JSValue}
    (each : ∀ item, Notes engine host (other item) (convert item)) (value : HostValue V)
    (array : JSValue) (rounds index : Nat) :
    Notes engine host (defineItems engine.noting host.noting other value array rounds index)
      (defineItems engine host convert value array rounds index) := by
  induction rounds generalizing index with
  | zero => exact Notes.throw _
  | succ rounds ih =>
    apply Notes.bind (notes_ask unaware _)
    intro length
    refine Notes.ite ?_ (Notes.pure ())
    apply Notes.bind (notes_ask unaware _)
    intro element
    apply Notes.bind (each element)
    intro item
    apply Notes.bind
      (notes_withValue unaware item (notes_defineIndex unaware (notes_getException unaware) _ _ _))
    intro _
    exact ih _

theorem notes_defineMembers {convert : HostValue V → Run σ V JSValue}
    {other : HostValue V → Run (Noted σ) V JSValue}
    (each : ∀ item, Notes engine host (other item) (convert item)) (value : HostValue V)
    (object : JSValue) (keys : List Text) :
    Notes engine host (defineMembers engine.noting host.noting other value object keys)
      (defineMembers engine host convert value object keys) := by
  refine Notes.forEach (fun key => ?_) keys
  apply Notes.bind (notes_ask unaware _)
  intro descriptor
  cases descriptor with
  | none => exact Notes.throw _
  | some descriptor =>
    cases descriptor with
    | accessor => exact Notes.throw _
    | data member =>
      apply Notes.bind (each member)
      intro item
      exact notes_withValue unaware item
        (notes_defineProp unaware (notes_getException unaware) _ _ _)

theorem notes_newContainer {convert : HostValue V → Run σ V JSValue}
    {other : HostValue V → Run (Noted σ) V JSValue}
    (each : ∀ item, Notes engine host (other item) (convert item)) (value : HostValue V) :
    Notes engine host (newContainer engine.noting host.noting other value)
      (newContainer engine host convert value) := by
  have excepts := notes_getException unaware
  apply Notes.bind (notes_ask unaware _)
  intro isArray
  apply Notes.ite
  · apply Notes.bind (notes_call unaware fun _ _ => rfl)
    intro out
    apply Notes.bind (notes_resultValue excepts out)
    intro array
    apply notes_orDispose unaware array
    exact Notes.bind (notes_defineItems unaware each value array _ 0) fun _ => Notes.pure array
  · apply Notes.bind (notes_ask unaware _)
    intro prototype
    apply Notes.bind (Notes.check _ _)
    intro _
    apply Notes.bind (notes_call unaware fun _ _ => rfl)
    intro out
    apply Notes.bind (notes_resultValue excepts out)
    intro object
    apply notes_orDispose unaware object
    apply Notes.bind (notes_ask unaware _)
    intro keys
    exact Notes.bind (notes_defineMembers unaware each value object keys) fun _ => Notes.pure object

theorem notes_newValueAround {container : HostValue V → Run σ V JSValue}
    {other : HostValue V → Run (Noted σ) V JSValue}
    (fills : ∀ value, Notes engine host (other value) (container value)) (value : HostValue V) :
    Notes engine host (newValueAround engine.noting host.noting other value)
      (newValueAround engine host container value) := by
  apply Notes.bind (notes_instanceOf unaware value .jsValue)
  intro isHandle
  apply Notes.ite
  · cases value with
    | handle h => exact Notes.bind (notes_assertSameVM h) fun _ => notes_dup unaware h
    | _ => exact Notes.throw _
  · cases value with
    | undefined => exact Notes.pure _
    | null => exact Notes.pure _
    | boolean => exact Notes.pure _
    | number n => exact notes_newNumber n
    | string s => exact notes_newString unaware (notes_getException unaware) s
    | bigint i => exact notes_newBigInt unaware i
    | _ =>
      dsimp only
      apply Notes.bind (notes_instanceOf unaware _ .error)
      intro isError
      apply Notes.ite (notes_newError unaware _)
      apply Notes.bind (notes_instanceOf unaware _ .promise)
      intro isPromise
      apply Notes.ite (Notes.throw _)
      exact Notes.ite (Notes.throw _) (fills _)

theorem notes_newValueWithin (levels : Nat) (value : HostValue V) :
    Notes engine host (newValueWithin engine.noting host.noting levels value)
      (newValueWithin engine host levels value) := by
  induction levels generalizing value with
  | zero => exact notes_newValueAround unaware (fun _ => Notes.throw _) value
  | succ levels ih => exact notes_newValueAround unaware (notes_newContainer unaware ih) value

theorem notes_takesJson (value : HostValue V) :
    Notes engine host (takesJson host.noting value) (takesJson host value) := by
  apply Notes.ite (Notes.pure false)
  apply Notes.bind (notes_instanceOf unaware value .jsValue)
  intro isHandle
  exact Notes.ite (Notes.pure false) (notes_isJsonWithin unaware 1024 value)

theorem notes_newValue (value : HostValue V) :
    Notes engine host (newValue engine.noting host.noting value) (newValue engine host value) := by
  apply Notes.bind (notes_takesJson unaware value)
  intro fast
  apply Notes.ite
  · apply Notes.bind (notes_serialize unaware unbounded [] value)
    intro written
    exact notes_parseJson unaware (notes_getException unaware) _
  · exact notes_newValueWithin unaware 1024 value

end QuickJSBun.Context
