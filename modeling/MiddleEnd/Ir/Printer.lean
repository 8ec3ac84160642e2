import MiddleEnd.Ir.Basic

/-!
Listings of block code.
-/

namespace MiddleEnd.Ir

def Operand.print : Operand → Text
  | .const .i1 n => .ofBool (n ≠ 0)
  | .const type n => .concat [.ofInt n, ":", type.name]
  | .value id _ => "%" ++ .ofInt id
  | .undef type => "undef:" ++ type.name

def Instr.print : Instr → Text
  | .load dst src => .concat ["%", .ofInt dst, " = load L", .ofInt src]
  | .store dst value => .concat ["store L", .ofInt dst, ", ", value.print]
  | .binary dst op left right =>
    .concat ["%", .ofInt dst, " = ", op.name, " ", left.print, ", ", right.print]
  | .compare dst pred left right =>
    .concat ["%", .ofInt dst, " = icmp ", pred.name, " ", left.print, ", ", right.print]
  | .unary dst op operand => .concat ["%", .ofInt dst, " = ", op.name, " ", operand.print]
  | .unknown _ kind => .concat ["<instr ", .ofNat kind.toNat, ">"]

def Terminator.print : Terminator → Text
  | .ret none => "ret"
  | .ret (some value) => "ret " ++ value.print
  | .goto target => "goto bb" ++ .ofInt target
  | .branch cond yes no =>
    .concat ["if ", cond.print, " ? bb", .ofInt yes, " : bb", .ofInt no]
  | .unreachable => "unreachable"
  | .pending | .unknown _ => "<unterminated>"

def indented (t : Text) : Text := "    " ++ t

def Block.lines (b : Block) : List Text :=
  .concat ["  bb", .ofInt b.id, ":"] ::
    (b.instrs.map (fun i => indented i.print) ++ [indented b.term.print])

def Slot.line (position : Nat) (l : Slot) : Text :=
  .concat ["    L", .ofNat position, ": ", l.type.name, " name=",
    if l.name.isEmpty then "_" else l.name]

def Func.entryLines (f : Func) : List Text :=
  if f.entry > 0 then [.concat ["  entry: bb", .ofInt f.entry]] else []

def Func.localLines (f : Func) : List Text :=
  if f.locals.isEmpty then []
  else ("  locals:" : Text) :: f.locals.zipIdx.map fun (l, i) => l.line i

def Func.lines (f : Func) : List Text :=
  .concat ["fn ", f.name, "(", .join ", " (f.params.map Ty.name), ") -> ", f.result.name, ":"] ::
    (f.entryLines ++ f.localLines ++ f.blocks.flatMap Block.lines)

def Func.print (f : Func) : Text :=
  Text.lines f.lines

/-- A blank line stands before every function but the first. -/
def Module.print (m : Module) : Text :=
  m.funcs.zipIdx.flatMap fun
    | (none, _) => []
    | (some f, i) => (if i = 0 then [] else [Text.newline]) ++ f.print

end MiddleEnd.Ir
