import MiddleEnd.Ir.Basic

/-!
Validation reports every place where block code refers to something that does not exist or mixes
types.
-/

namespace MiddleEnd.Ir

/-- A fault inside one block. The `use` of an operand is the name of what takes it. -/
inductive BlockFault where
  | unknownValue (id : ValueId)
  | definedTwice (id : ValueId)
  | misnumbered (id : BlockId)
  | unknownLocal (id : LocalId)
  | constantType (use : Text) (type : Ty)
  | undefinedValue (use : Text) (id : ValueId)
  | typeClash (use : Text) (id : ValueId) (used defined : Ty)
  | undefOperand (use : Text)
  | resultType (id : ValueId) (type expected : Ty)
  | storeType (value : Ty) (dst : LocalId) (type : Ty)
  | operandsDisagree (use : Text) (left right : Ty)
  | unknownInstr (kind : UInt8)
  | unterminated
  | gotoTarget (id : BlockId)
  | conditionType (type : Ty)
  | thenTarget (id : BlockId)
  | elseTarget (id : BlockId)
  | voidReturnsValue
  | missingReturn (type : Ty)
  | returnType (type result : Ty)
  | unknownTerm (kind : UInt8)
  deriving DecidableEq, Repr, Inhabited

inductive Fault where
  | noBlocks
  | noEntry (id : BlockId)
  | inBlock (position : Nat) (fault : BlockFault)
  deriving DecidableEq, Repr, Inhabited

def BlockFault.message : BlockFault → Text
  | .unknownValue id => "instruction defines unknown value %" ++ .ofInt id
  | .definedTwice id => .concat ["value %", .ofInt id, " defined twice"]
  | .misnumbered id => .concat ["block id mismatch (stored ", .ofInt id, ")"]
  | .unknownLocal id => .concat ["local L", .ofInt id, " does not exist"]
  | .constantType use type => .concat [use, ": constant of type ", type.name]
  | .undefinedValue use id => .concat [use, ": use of undefined value %", .ofInt id]
  | .typeClash use id used defined =>
    .concat [use, ": %", .ofInt id, " used as ", used.name, ", defined as ", defined.name]
  | .undefOperand use => use ++ ": undef operand"
  | .resultType id type expected =>
    .concat ["%", .ofInt id, " has type ", type.name, ", expected ", expected.name]
  | .storeType value dst type =>
    .concat ["store of ", value.name, " into L", .ofInt dst, " of type ", type.name]
  | .operandsDisagree use left right =>
    .concat [use, " operands disagree: ", left.name, " vs ", right.name]
  | .unknownInstr kind => "unknown instruction kind " ++ .ofNat kind.toNat
  | .unterminated => "unterminated block"
  | .gotoTarget id => .concat ["goto target bb", .ofInt id, " does not exist"]
  | .conditionType type => "if condition has type " ++ type.name
  | .thenTarget id => .concat ["if then target bb", .ofInt id, " does not exist"]
  | .elseTarget id => .concat ["if else target bb", .ofInt id, " does not exist"]
  | .voidReturnsValue => "void function returns a value"
  | .missingReturn type => "missing return value of type " ++ type.name
  | .returnType type result =>
    .concat ["returns ", type.name, ", function result is ", result.name]
  | .unknownTerm kind => "unknown terminator kind " ++ .ofNat kind.toNat

def Fault.message : Fault → Text
  | .noBlocks => "function has no blocks"
  | .noEntry id => .concat ["entry bb", .ofInt id, " does not exist"]
  | .inBlock position fault => .concat ["bb", .ofNat position, ": ", fault.message]

namespace Func

def definitions (f : Func) : List ValueId :=
  f.blocks.flatMap fun b => b.instrs.filterMap Instr.defines

def isDefined (f : Func) (id : ValueId) : Bool :=
  (at? f.values id).isSome && f.definitions.contains id

def definitionFaults (f : Func) : (seen : List ValueId) → List Instr →
    List BlockFault × List ValueId
  | seen, [] => ([], seen)
  | seen, instr :: rest =>
    match instr.defines with
    | none => f.definitionFaults seen rest
    | some id =>
      match at? f.values id with
      | none =>
        let (faults, seen) := f.definitionFaults seen rest
        (.unknownValue id :: faults, seen)
      | some _ =>
        let (faults, seen') := f.definitionFaults (id :: seen) rest
        (if id ∈ seen then .definedTwice id :: faults else faults, seen')

def allDefinitionFaults (f : Func) : (seen : List ValueId) → (position : Nat) → List Block →
    List Fault
  | _, _, [] => []
  | seen, position, b :: rest =>
    let (faults, seen) := f.definitionFaults seen b.instrs
    faults.map (.inBlock position) ++ f.allDefinitionFaults seen (position + 1) rest

def operandFaults (f : Func) (use : Text) : Operand → List BlockFault
  | .const type _ => if type = .i1 || type = .i32 then [] else [.constantType use type]
  | .value id type =>
    if f.isDefined id then
      match at? f.values id with
      | some defined => if defined = type then [] else [.typeClash use id type defined]
      | none => []
    else [.undefinedValue use id]
  | .undef _ => [.undefOperand use]

def resultFaults (f : Func) (dst : ValueId) (expected : Ty) : List BlockFault :=
  match at? f.values dst with
  | some type => if type = expected then [] else [.resultType dst type expected]
  | none => []

def instrFaults (f : Func) : Instr → List BlockFault
  | .load dst src =>
    match at? f.locals src with
    | none => [.unknownLocal src]
    | some l => f.resultFaults dst l.type
  | .store dst value =>
    f.operandFaults "store" value ++
      match at? f.locals dst with
      | none => [.unknownLocal dst]
      | some l => if l.type = value.type then [] else [.storeType value.type dst l.type]
  | .binary dst op left right =>
    f.operandFaults op.name left ++ f.operandFaults op.name right ++
      (if left.type = right.type then []
        else [.operandsDisagree op.name left.type right.type]) ++
      f.resultFaults dst left.type
  | .compare dst _ left right =>
    f.operandFaults "icmp" left ++ f.operandFaults "icmp" right ++
      (if left.type = right.type then [] else [.operandsDisagree "icmp" left.type right.type]) ++
      f.resultFaults dst .i1
  | .unary dst op operand => f.operandFaults op.name operand ++ f.resultFaults dst operand.type
  | .unknown _ kind => [.unknownInstr kind]

def termFaults (f : Func) : Terminator → List BlockFault
  | .pending => [.unterminated]
  | .goto target => if (f.block? target).isSome then [] else [.gotoTarget target]
  | .branch cond yes no =>
    f.operandFaults "if" cond ++
      (if cond.type = .i1 then [] else [.conditionType cond.type]) ++
      (if (f.block? yes).isSome then [] else [.thenTarget yes]) ++
      (if (f.block? no).isSome then [] else [.elseTarget no])
  | .ret none => if f.result = .void then [] else [.missingReturn f.result]
  | .ret (some value) =>
    if f.result = .void then [.voidReturnsValue]
    else f.operandFaults "ret" value ++
      if value.type = f.result then [] else [.returnType value.type f.result]
  | .unreachable => []
  | .unknown kind => [.unknownTerm kind]

def blockFaults (f : Func) (position : Nat) (b : Block) : List BlockFault :=
  (if b.id = position then [] else [.misnumbered b.id]) ++
    b.instrs.flatMap f.instrFaults ++ f.termFaults b.term

def faults (f : Func) : List Fault :=
  if f.blocks.isEmpty then [.noBlocks]
  else if (f.block? f.entry).isNone then [.noEntry f.entry]
  else f.allDefinitionFaults [] 0 f.blocks ++
    f.blocks.zipIdx.flatMap fun (b, i) => (f.blockFaults i b).map (.inBlock i)

end Func

def Module.faults (m : Module) : List (Text × List Fault) :=
  m.funcs.filterMap fun
    | none => none
    | some f => if f.faults.isEmpty then none else some (f.name, f.faults)

end MiddleEnd.Ir
