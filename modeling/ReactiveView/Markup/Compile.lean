/-
# Compiling templates

A template is parsed, its tree is lowered, and the code that the root carries in
the end is printed.  With other transforms than the standard ones the root may
end without code.
-/

import ReactiveView.Markup.Lowering
import ReactiveView.Markup.Parse

namespace ReactiveView
namespace Markup

/-- Why a template does not compile. -/
inductive CompileError where
  | parse (error : ParseError)
  | transform (error : TransformError)
  deriving DecidableEq, Repr

/-- The wording of the error. -/
def CompileError.message : CompileError → String
  | parse error => error.message
  | transform error => error.message

/-- Compiles a template with the given transforms, from a state: the source of
the code that the tree carries at the end. -/
def compileWith {σ : Type} (transforms : List (Transform σ)) (template : String) (state : σ) :
    Except CompileError String × σ :=
  match Node.parse template with
  | .error error => (.error (.parse error), state)
  | .ok tree =>
    match (Transform.run transforms tree).run.run state with
    | (.error error, state) => (.error (.transform error), state)
    | (.ok tree, state) =>
      match tree.needCode with
      | .error error => (.error (.transform error), state)
      | .ok code => (.ok code.print, state)

/-- Compiles a template with the standard transforms. -/
def compile (template : String) : Except CompileError String :=
  (compileWith Lowering.standard template ()).1

end Markup
end ReactiveView
