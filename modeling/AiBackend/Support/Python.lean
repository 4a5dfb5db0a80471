import Mathlib.Data.Int.Notation
import Mathlib.Data.List.Basic

/-!
# Python calls and exceptions

The exceptions the modelled code raises or receives, with the text `str(exc)`
gives, and the binding of call arguments to a function's parameters.
-/

namespace AiBackend.Python

/-- An instance of a subclass of `Exception`. -/
inductive PyExc where
  | typeError (message : String)
  | valueError (message : String)
  | attributeError (message : String)
  /-- A pydantic `ValidationError`: the model and, for each rejected field,
  its location and the reason. -/
  | validationError (model : String) (errors : List (String × String))
  /-- Any other exception class, such as a driver's or a provider's. -/
  | other (className message : String)
  deriving DecidableEq, Repr

/-- `str(exc)`.  For a validation error pydantic adds the rejected input and
a link behind each reason; these are left out. -/
def PyExc.str : PyExc → String
  | .typeError message => message
  | .valueError message => message
  | .attributeError message => message
  | .other _ message => message
  | .validationError model errors =>
      let plural := if errors.length = 1 then "" else "s"
      errors.foldl (fun text e => text ++ "\n" ++ e.1 ++ "\n  " ++ e.2)
        (toString errors.length ++ " validation error" ++ plural ++ " for " ++
          model)

/-- `xs[start:stop]`; a negative bound counts from the end. -/
def slice {α : Type} (xs : List α) (start stop : ℤ) : List α :=
  let position (i : ℤ) : ℕ := (if i < 0 then i + xs.length else i).toNat
  (xs.take (position stop)).drop (position start)

theorem slice_of_nonneg {α : Type} (xs : List α) {start stop : ℤ} (hstart : 0 ≤ start)
    (hstop : 0 ≤ stop) :
    slice xs start stop = (xs.take stop.toNat).drop start.toNat := by
  simp only [slice, if_neg (Int.not_lt.mpr hstart), if_neg (Int.not_lt.mpr hstop)]

/-! ## Argument binding -/

/-- A function whose parameters may all be given by position or by keyword
and have no defaults; `self` is not listed. -/
structure Signature where
  qualname : String
  params : List String
  deriving DecidableEq, Repr

namespace Signature

variable {α : Type}

/-- The keyword arguments join the positional ones, in call order; a keyword
that names no parameter, or one already bound, is a `TypeError`. -/
def bindKeywords (sig : Signature) :
    List (String × α) → List (String × α) → Except PyExc (List (String × α))
  | bound, [] => .ok bound
  | bound, (name, value) :: rest =>
      if name ∉ sig.params then
        .error (.typeError (sig.qualname ++
          "() got an unexpected keyword argument '" ++ name ++ "'"))
      else if name ∈ bound.map Prod.fst then
        .error (.typeError (sig.qualname ++
          "() got multiple values for argument '" ++ name ++ "'"))
      else
        sig.bindKeywords (bound ++ [(name, value)]) rest

theorem bindKeywords_unexpected (sig : Signature) (bound : List (String × α))
    {name : String} (value : α) (rest : List (String × α)) (h : name ∉ sig.params) :
    sig.bindKeywords bound ((name, value) :: rest) =
      .error (.typeError (sig.qualname ++
        "() got an unexpected keyword argument '" ++ name ++ "'")) := by
  simp only [bindKeywords, if_pos h]

/-- Bind the arguments of a method call.  The interpreter looks at the
keywords first, then at a surplus of positional arguments, then at missing
parameters. -/
def bind (sig : Signature) (positional : List α)
    (keywords : List (String × α)) : Except PyExc (List (String × α)) := do
  let bound ← sig.bindKeywords (sig.params.zip positional) keywords
  if sig.params.length < positional.length then
    throw (.typeError (sig.qualname ++ "() takes " ++
      toString (sig.params.length + 1) ++ " positional arguments but " ++
      toString (positional.length + 1) ++ " were given"))
  let missing := sig.params.filter (· ∉ bound.map Prod.fst)
  if missing ≠ [] then
    throw (.typeError (sig.qualname ++ "() missing " ++
      toString missing.length ++ " required positional arguments: " ++
      String.intercalate ", " (missing.map fun p => "'" ++ p ++ "'")))
  pure bound

/-- A call that passes a keyword the function does not have never binds. -/
theorem bind_unexpected_keyword (sig : Signature) (positional : List α)
    {name : String} (value : α) (rest : List (String × α))
    (h : name ∉ sig.params) :
    sig.bind positional ((name, value) :: rest) =
      .error (.typeError (sig.qualname ++
        "() got an unexpected keyword argument '" ++ name ++ "'")) := by
  simp only [bind, bindKeywords_unexpected _ _ _ _ h]
  rfl

end Signature
end AiBackend.Python
