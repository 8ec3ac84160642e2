import MiddleEnd.Syntax.Tree

/-!
Listings of trees: one statement a line, four blanks of indentation a level, binary expressions
fully parenthesised.
-/

namespace MiddleEnd

def Expr.print : Expr → Text
  | .absent => "<nil>"
  | .int _ value => .ofInt value.toInt
  | .bool _ value => .ofBool value
  | .ident _ name => name
  | .unary _ _ operand => "!" ++ operand.print
  | .binary _ op left right => "(" ++ left.print ++ " " ++ op.name ++ " " ++ right.print ++ ")"
  | .unknown _ kind => "<" ++ (ExprKind.other kind).name ++ ">"

namespace Stmt

def indented (depth : Nat) (parts : List Text) : Text :=
  Text.repeated depth "    " ++ .concat parts

mutual
/-- A bare block shows its statements only: the braces are those of what is around it. -/
def lines (bare : Bool) (depth : Nat) : Stmt → List Text
  | .absent => []
  | .block _ none => if bare then [] else [indented depth ["\x7b"], indented depth ["\x7d"]]
  | .block _ (some stmts) =>
    if bare then linesOfList depth stmts
    else indented depth ["\x7b"] :: linesOfList (depth + 1) stmts ++ [indented depth ["\x7d"]]
  | .decl _ mutable name type value =>
    let head : Text := .concat [if mutable then "var " else "val ", name, ": ", type.name]
    match value with
    | .absent => [indented depth [head, ";"]]
    | value => [indented depth [head, " = ", value.print, ";"]]
  | .assign _ target value => [indented depth [target.print, " = ", value.print, ";"]]
  | .ret _ .absent => [indented depth ["return;"]]
  | .ret _ value => [indented depth ["return ", value.print, ";"]]
  | .cond _ test yes no =>
    indented depth ["if ", test.print, " \x7b"] :: lines true (depth + 1) yes ++
      (if no.isAbsent then [] else indented depth ["\x7d else \x7b"] :: lines true (depth + 1) no) ++
      [indented depth ["\x7d"]]
  | .loop _ test body =>
    indented depth ["while ", test.print, " \x7b"] :: lines true (depth + 1) body ++
      [indented depth ["\x7d"]]
  | .unknown _ kind => [indented depth ["<", (StmtKind.other kind).name, ">"]]
def linesOfList (depth : Nat) : List Stmt → List Text
  | [] => []
  | stmt :: stmts => lines false depth stmt ++ linesOfList depth stmts
end

end Stmt

def Func.lines (f : Func) : List Text :=
  [] :: .concat ["fn ", f.name, "() -> ", f.result.name, " \x7b"] ::
    (f.body.lines true 1 ++ [Text.ofString "\x7d"])

def Module.print (m : Module) : Text :=
  Text.lines <| ("module " ++ m.name) :: m.entries.flatMap fun
    | none => []
    | some f => f.lines

end MiddleEnd
