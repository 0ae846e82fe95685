/-
# Render-function code

The fragment of JavaScript that render functions are written in: function
declarations, `return`, calls, arrays, string literals and names.  `Code.print`
writes it as source text.
-/

namespace ReactiveView

/-- A node of render-function code. -/
inductive Code where
  /-- A function declaration: its name, its parameters, its statements. -/
  | function (name : Code) (params body : List Code)
  /-- A `return` statement. -/
  | ret (value : Code)
  /-- A call. -/
  | call (callee : Code) (arguments : List Code)
  /-- An array. -/
  | array (elements : List Code)
  /-- A string literal. -/
  | string (value : String)
  /-- A name. -/
  | identifier (name : String)
  deriving BEq, Repr, Inhabited

namespace Code

/-- How a character is written inside a string literal: the quote, the backslash
and the line feed are escaped. -/
def escapeChar (c : Char) : String :=
  if c = '\'' then "\\'"
  else if c = '\\' then "\\\\"
  else if c = '\n' then "\\n"
  else c.toString

/-- A string literal in single quotes. -/
def literal (s : String) : String :=
  "'" ++ String.join (s.toList.map escapeChar) ++ "'"

/-- A new line at a nesting level: two blanks for each level. -/
def newline (level : Nat) : String :=
  "\n" ++ String.join (List.replicate level "  ")

mutual

/-- The source text of a node that begins at nesting level `level`.  The
statements of a function stand one level deeper, one on a line. -/
def printAt (level : Nat) : Code → String
  | function id params body =>
    "function " ++ printAt level id ++ " (" ++ ", ".intercalate (printEach level params) ++ ") \x7b"
      ++ newline (level + 1) ++ (newline (level + 1)).intercalate (printEach (level + 1) body)
      ++ newline level ++ "\x7d"
  | ret value => "return " ++ printAt level value
  | call callee arguments =>
    printAt level callee ++ "(" ++ ", ".intercalate (printEach level arguments) ++ ")"
  | array elements => "[" ++ ", ".intercalate (printEach level elements) ++ "]"
  | string value => literal value
  | identifier name => name

/-- The source texts of several nodes at one level. -/
def printEach (level : Nat) : List Code → List String
  | [] => []
  | code :: rest => printAt level code :: printEach level rest

end

@[simp] theorem printAt_function (level : Nat) (id : Code) (params body : List Code) :
    printAt level (function id params body) =
      "function " ++ printAt level id ++ " (" ++ ", ".intercalate (printEach level params)
        ++ ") \x7b" ++ newline (level + 1)
        ++ (newline (level + 1)).intercalate (printEach (level + 1) body)
        ++ newline level ++ "\x7d" := rfl

@[simp] theorem printAt_ret (level : Nat) (value : Code) :
    printAt level (ret value) = "return " ++ printAt level value := rfl

@[simp] theorem printAt_call (level : Nat) (callee : Code) (arguments : List Code) :
    printAt level (call callee arguments) =
      printAt level callee ++ "(" ++ ", ".intercalate (printEach level arguments) ++ ")" := rfl

@[simp] theorem printAt_array (level : Nat) (elements : List Code) :
    printAt level (array elements) =
      "[" ++ ", ".intercalate (printEach level elements) ++ "]" := rfl

@[simp] theorem printAt_string (level : Nat) (value : String) :
    printAt level (string value) = literal value := rfl

@[simp] theorem printAt_identifier (level : Nat) (name : String) :
    printAt level (identifier name) = name := rfl

@[simp] theorem printEach_nil (level : Nat) : printEach level [] = [] := rfl

@[simp] theorem printEach_cons (level : Nat) (code : Code) (rest : List Code) :
    printEach level (code :: rest) = printAt level code :: printEach level rest := rfl

/-- The source text of a node. -/
def print (code : Code) : String :=
  printAt 0 code

end Code
end ReactiveView
