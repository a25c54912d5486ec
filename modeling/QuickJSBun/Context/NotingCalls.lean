import QuickJSBun.Context.Callbacks
import QuickJSBun.Context.NotingValues

/-! A call of a host function, run on a noting engine.
-/

set_option autoImplicit false

namespace QuickJSBun.Context

open Library Effect

variable {σ V : Type}

section
variable {engine : Engine σ} {host : Host V σ} (unaware : Unaware engine host)
include unaware

theorem notes_borrow (value : Value) :
    Notes (V := V) engine host (borrow engine.noting value) (borrow engine value) := by
  have handles (cell : Value) : Notes (V := V) engine host
      (.lift fun w =>
        (w.handles.length, { w with handles := w.handles ++ [⟨false, cell, true, true, false⟩] }))
      (.lift fun w =>
        (w.handles.length,
          { w with handles := w.handles ++ [⟨false, cell, true, true, false⟩] })) :=
    Notes.lift (fun _ => ⟨rfl, rfl, rfl⟩) fun w => ⟨rfl, valued_append w _⟩
  exact Notes.ite (Notes.bind (notes_call unaware fun _ _ => rfl) handles) (handles value)

theorem notes_borrowAll (values : List Value) :
    Notes (V := V) engine host (borrowAll engine.noting values) (borrowAll engine values) := by
  induction values with
  | nil => exact Notes.pure []
  | cons value rest ih =>
    apply Notes.bind (notes_borrow unaware value)
    intro handle
    exact Notes.bind ih fun handles => Notes.pure _

omit unaware in
theorem notes_enterHost : Notes (V := V) engine host enterHost enterHost :=
  Notes.modify (fun _ => ⟨rfl, rfl⟩) fun w => ⟨rfl, Valued.refl w⟩

omit unaware in
theorem notes_leaveHost : Notes (V := V) engine host leaveHost leaveHost :=
  Notes.modify (fun _ => ⟨rfl, rfl⟩) fun w => ⟨rfl, Valued.refl w⟩

/-! ### What is returned -/

theorem notes_resultHandle (result : HostValue V) :
    Notes engine host (resultHandle engine.noting host.noting result)
      (resultHandle engine host result) := by
  cases result with
  | handle h => exact Notes.pure h
  | _ =>
    apply Notes.bind (notes_instanceOf unaware _ .jsValue)
    intro isHandle
    exact Notes.ite (Notes.throw _) (notes_newValue unaware _)

theorem notes_returnResult (result : HostValue V) :
    Notes engine host (returnResult engine.noting host.noting result)
      (returnResult engine host result) := by
  apply Notes.bind (notes_resultHandle unaware result)
  intro handle
  apply Notes.bind (notes_assertSameVM handle)
  intro _
  apply Notes.bind (notes_ptr handle)
  intro value
  apply Notes.bind (notes_call unaware fun _ _ => rfl)
  intro out
  exact Notes.bind (notes_dispose unaware handle) fun _ => Notes.pure out

/-! ### What is thrown -/

theorem notes_thrownValue (error : HostValue V) :
    Notes engine host (thrownValue host.noting error) (thrownValue host error) := by
  apply Notes.bind (notes_instanceOf unaware error .jsException)
  intro isException
  refine Notes.ite ?_ (Notes.pure error)
  cases error with
  | exception value => exact Notes.pure _
  | _ => exact notes_ask unaware _

theorem notes_asError (error : HostValue V) :
    Notes engine host (asError engine.noting host.noting error) (asError engine host error) := by
  apply Notes.bind (notes_instanceOf unaware error .error)
  intro isError
  apply Notes.ite (Notes.pure error)
  exact Notes.bind (notes_stringOf unaware error) fun message => Notes.pure _

theorem notes_thrownHandle (error value : HostValue V) :
    Notes engine host (thrownHandle engine.noting host.noting error value)
      (thrownHandle engine host error value) := by
  have makes : Notes engine host
      (do
        let error ← asError engine.noting host.noting error
        newError engine.noting host.noting error)
      (do
        let error ← asError engine host error
        newError engine host error) :=
    Notes.bind (notes_asError unaware error) fun error => notes_newError unaware error
  apply Notes.get_bind
  intro n
  cases value with
  | handle h =>
    have same : (n.plain.handle h).foreign = (n.handle h).foreign := rfl
    dsimp only
    rw [same]
    exact Notes.ite makes (Notes.pure h)
  | _ => exact makes

theorem notes_throwResult (error : HostValue V) :
    Notes engine host (throwResult engine.noting host.noting error)
      (throwResult engine host error) := by
  apply Notes.bind (notes_thrownValue unaware error)
  intro value
  apply Notes.bind (notes_thrownHandle unaware error value)
  intro thrown
  apply Notes.bind (notes_ptr thrown)
  intro cell
  apply Notes.bind (notes_call unaware fun _ _ => rfl)
  intro _
  exact Notes.bind (notes_dispose unaware thrown) fun _ => Notes.pure _

theorem notes_disposeFailure (failure : HostValue V) :
    Notes engine host (disposeFailure engine.noting host.noting failure)
      (disposeFailure engine host failure) := by
  apply Notes.bind (notes_instanceOf unaware failure .jsException)
  intro isException
  refine Notes.ite ?_ (Notes.pure ())
  cases failure with
  | exception value => exact notes_dispose unaware value
  | _ => exact notes_ask unaware _

theorem notes_throwFallback (failure : HostValue V) :
    Notes engine host (throwFallback engine.noting host.noting failure)
      (throwFallback engine host failure) := by
  apply Notes.bind (notes_disposeFailure unaware failure)
  intro _
  apply Notes.get_bind
  intro n
  apply Notes.ite
  · exact Notes.bind (notes_call unaware fun _ _ => rfl) fun _ => Notes.pure _
  · exact Notes.bind (notes_call unaware fun _ _ => rfl) fun _ => Notes.pure _

-- The host function is run as it is.
theorem notes_callHost {fn : JSValue → List JSValue → Run σ V (HostValue V)}
    (untouched : ∀ this argv w, Untouched w ((fn this argv).run w).2) (this : Value)
    (args : List Value) :
    Notes engine host
      (callHost engine.noting host.noting (fun this argv => noting (fn this argv)) this args)
      (callHost engine host fn this args) := by
  apply Notes.bind (notes_borrow unaware this)
  intro handle
  apply Notes.bind notes_enterHost
  intro _
  apply Notes.bind (notes_borrowAll unaware args)
  intro argv
  have tries : Notes engine host
      (do
        let result ← noting (fn handle argv)
        returnResult engine.noting host.noting result)
      (do
        let result ← fn handle argv
        returnResult engine host result) := by
    apply Notes.bind (notes_noting (untouched handle argv))
    intro result
    exact notes_returnResult unaware result
  have closes : Notes engine host
      (do
        leaveHost
        dispose engine.noting handle
        Effect.forEach (dispose engine.noting) argv)
      (do
        leaveHost
        dispose engine handle
        Effect.forEach (dispose engine) argv : Run σ V Unit) := by
    apply Notes.bind notes_leaveHost
    intro _
    apply Notes.bind (notes_dispose unaware handle)
    intro _
    exact Notes.forEach (fun entry => notes_dispose unaware entry) argv
  refine Notes.bind (Notes.tryFinally (Notes.tryCatch tries fun error => ?_) closes) fun out =>
    Notes.pure _
  exact Notes.tryCatch (notes_throwResult unaware error) fun failure =>
    notes_throwFallback unaware failure

end

end QuickJSBun.Context
