/-! # Errors of parser combinators

A parser fails softly, so that an alternative may be tried, or for good. Both
carry the context that was added on the way out.
-/

namespace Foundation.Winnow

inductive StrContext where
  | label (text : String)
  | expected (description : String)
  deriving DecidableEq, Repr

inductive ErrMode where
  | backtrack (context : List StrContext)
  | cut (context : List StrContext)
  deriving DecidableEq, Repr

def ErrMode.addContext (context : StrContext) : ErrMode → ErrMode
  | .backtrack found => .backtrack (found ++ [context])
  | .cut found => .cut (found ++ [context])

abbrev ModalResult (α : Type) := Except ErrMode α

/-- `.context(StrContext::Label(text))`. -/
def label {α : Type} (text : String) (result : ModalResult α) : ModalResult α :=
  result.mapError (ErrMode.addContext (.label text))

@[simp] theorem label_ok {α : Type} (text : String) (value : α) :
    label text (.ok value) = .ok value := rfl

end Foundation.Winnow
