import DynamicDispatch.Methods.Argument

/-!
# Methods of texts

A text is a sequence of characters under positions. What is joined to a text or put into it is
rendered, unless it is a text itself.
-/

namespace DynamicDispatch.Methods

variable {C S : Type}

/-- The characters with those of another text in the place of one of them. -/
def replaceAt (cs : List Char) (i : Nat) (replacement : List Char) : List Char :=
  if i < cs.length then cs.take i ++ replacement ++ cs.drop (i + 1) else cs

/-- A text followed by a text, or by the rendering of a value that is none. -/
def joinText (m : Method) : Implementation C S := fun args => do
  let cs ← textSubject m args
  return .text (String.ofList cs ++ (← Generic.textOf (argument args 0)))

/-- What texts do. -/
def text : Method → Implementation C S
  | .render => fun args => do
    return .text ("\"" ++ String.ofList (← textSubject .render args) ++ "\"")
  | .clone | .shallowClone => identity
  | .count => fun args => do return countValue (← textSubject .count args).length
  | .get => fun args => do
    let cs ← textSubject .get args
    let found := (position? (argument args 0)).bind (cs[·]?)
    return Maybe.of ((found.map charValue).getD .nil)
  | .first => fun args => do
    return Maybe.of (((← textSubject .first args).head?.map charValue).getD .nil)
  | .rest => fun args => do return .text (String.ofList ((← textSubject .rest args).drop 1))
  | .conj => joinText .conj
  | .iterator => fun args => do return .list ((← textSubject .iterator args).map charValue)
  | .keys => fun args => do return .list (positionKeys (← textSubject .keys args).length)
  | .assoc => fun args => do
    let cs ← textSubject .assoc args
    let replacement ← Generic.textOf (argument args 1)
    match position? (argument args 0) with
    | some i => return .text (String.ofList (replaceAt cs i replacement.toList))
    | none => return .text (String.ofList cs)
  | .dissoc => fun args => do
    let cs ← textSubject .dissoc args
    match position? (argument args 0) with
    | some i => return .text (String.ofList (cs.eraseIdx i))
    | none => return .text (String.ofList cs)
  | .empty => fun _ => return .text ""
  | .append => joinText .append
  | .foldl => fun args => do
    let f ← functionAt .foldl args 0
    fold f (argument args 1) ((← textSubject .foldl args).map charValue)
  | .foldr => fun args => do
    let f ← functionAt .foldr args 0
    fold f (argument args 1) ((← textSubject .foldr args).map charValue).reverse
  | .map => fun args => do
    let f ← functionAt .map args 0
    let cs ← textSubject .map args
    let parts ← cs.mapM fun c => do Generic.textOf (← call f [charValue c])
    return .text (String.join parts)
  | .of => fun args => do return .text (← Generic.textOf (argument args 0))
  | .flatten => identity
  | m => unprovided m

end DynamicDispatch.Methods
