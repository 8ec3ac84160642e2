import MiddleEnd.Proofs.Folding.Outcome
import MiddleEnd.Proofs.Semantics.Typing

/-!
What folding keeps for the stages behind it: supported trees stay supported and typed trees typed.
-/

namespace MiddleEnd

open List

variable {op : BinaryOp} {e : Expr} {folded s : Stmt} {stmts : List Stmt}

/-- Folding stopped at a division by zero. -/
def FoldError.IsDivision (e : FoldError) : Prop := ∃ division, e = .divisionByZero division

theorem BinaryOp.applyInts_ne_meaningless (known : op ∈ BinaryOp.known) (l r : Int32) :
    op.applyInts l r ≠ .meaningless := by
  intro applied
  cases op with
  | other code => simp [BinaryOp.known] at known
  | div | mod =>
    simp only [BinaryOp.applyInts] at applied
    split at applied <;> cases applied
  | _ => cases applied

namespace Expr

theorem supported_literal (id : NodeId) (v : Constant) : (literal id v).Supported := by
  cases v <;> exact supported_leaf rfl rfl rfl

theorem foldUnary_supported (id : NodeId) (supported : operand.Supported) :
    Delivers (foldUnary id .not operand) Supported FoldError.IsDivision := by
  cases operand with
  | absent => exact absurd supported supported_absent
  | int | bool => exact supported_literal _ _
  | _ => exact (supported_unary _ _ _).mpr ⟨supported, rfl⟩

theorem foldBinary_supported (id : NodeId) (onLeft : left.Supported) (onRight : right.Supported)
    (known : op ∈ BinaryOp.known) :
    Delivers (foldBinary id op left right) Supported FoldError.IsDivision := by
  unfold foldBinary
  split
  · exact absurd onLeft supported_absent
  · exact absurd onRight supported_absent
  · next l _ r =>
    cases applied : op.applyInts l r with
    | value v => exact supported_literal id v
    | zeroDivisor => exact ⟨_, rfl⟩
    | meaningless => exact absurd applied (BinaryOp.applyInts_ne_meaningless known l r)
  · exact (supported_binary _ _ _ _).mpr ⟨onLeft, onRight, known⟩

theorem fold_supported (supported : e.Supported) :
    Delivers e.fold Supported FoldError.IsDivision := by
  induction e with
  | absent => exact absurd supported supported_absent
  | int | bool | ident => exact supported
  | unary node op operand ih =>
    obtain ⟨onOperand, rfl⟩ := (supported_unary _ _ _).mp supported
    exact (ih onOperand).bind fun _ supported => foldUnary_supported node.id supported
  | binary node op left right leftIH rightIH =>
    obtain ⟨onLeft, onRight, known⟩ := (supported_binary _ _ _ _).mp supported
    exact (leftIH onLeft).bind fun _ onLeft => (rightIH onRight).bind fun _ onRight =>
      foldBinary_supported node.id onLeft onRight known
  | unknown node kind => exact absurd supported (supported_unknown node kind)

theorem fold_optional (supported : e.isAbsent ∨ e.Supported) :
    Delivers e.fold (fun folded => folded.isAbsent ∨ folded.Supported) FoldError.IsDivision := by
  cases e with
  | absent => exact .inl rfl
  | _ =>
    rw [← bind_pure (Expr.fold _)]
    exact (fold_supported (supported.resolve_left (by simp [isAbsent]))).bind
      fun _ supported => .inr supported

end Expr

namespace Stmt

theorem orEmpty_supported (source : Stmt) (supported : folded.Supported) :
    (orEmpty folded source).Supported := by
  rcases orEmpty_cases folded source with kept | ⟨-, -, empty⟩
  · rwa [kept]
  · rw [empty, emptyBlock, supported_block]
    simp

theorem foldList_supported
    (each : ∀ s ∈ stmts, s.Supported → Delivers (fold s) Supported FoldError.IsDivision)
    (supported : ∀ v ∈ nodesOfList stmts, v.isSupported) :
    Delivers (foldList stmts) (fun folded => ∀ v ∈ nodesOfList folded, v.isSupported)
      FoldError.IsDivision := by
  induction stmts with
  | nil =>
    simp only [foldList]
    exact supported
  | cons s rest ih =>
    rw [nodesOfList_cons, forall_mem_append] at supported
    simp only [foldList]
    refine (each s (by simp) supported.1).bind fun s' onHead => ?_
    refine (ih (fun s member => each s (by simp [member])) supported.2).bind fun rest' onRest => ?_
    change ∀ v ∈ nodesOfList (if s'.isAbsent then rest' else s' :: rest'), v.isSupported
    split
    · exact onRest
    · rw [nodesOfList_cons]
      exact forall_mem_append.mpr ⟨onHead, onRest⟩

theorem fold_supported (supported : s.Supported) :
    Delivers (fold s) Supported FoldError.IsDivision := by
  induction s using Stmt.induction with
  | absent =>
    simp only [fold]
    exact supported
  | bare node =>
    simp only [fold]
    exact (supported_block _ _).mpr (by simp)
  | block node stmts each =>
    rw [supported_block] at supported
    simp only [fold]
    exact (foldList_supported each supported).bind fun stmts' onStmts =>
      (supported_block _ _).mpr onStmts
  | decl node mutable name type value =>
    rw [supported_decl] at supported
    simp only [fold]
    exact (Expr.fold_optional supported.2).bind fun value' onValue =>
      (supported_decl _ _ _ _ _).mpr ⟨supported.1, onValue⟩
  | assign node target value =>
    rw [supported_assign] at supported
    simp only [fold]
    exact (Expr.fold_supported supported.1).bind fun target' onTarget =>
      (Expr.fold_supported supported.2).bind fun value' onValue =>
        (supported_assign _ _ _).mpr ⟨onTarget, onValue⟩
  | ret node value =>
    rw [supported_ret] at supported
    simp only [fold]
    exact (Expr.fold_optional supported).bind fun value' onValue =>
      (supported_ret _ _).mpr onValue
  | cond node test yes no yesIH noIH =>
    rw [supported_cond] at supported
    obtain ⟨onTest, onYes, onNo⟩ := supported
    simp only [fold]
    refine (Expr.fold_supported onTest).bind fun test' onTest => ?_
    split
    · exact yesIH onYes
    · exact noIH onNo
    · exact (yesIH onYes).bind fun yes' onYes => (noIH onNo).bind fun no' onNo =>
        (supported_cond _ _ _ _).mpr
          ⟨onTest, orEmpty_supported yes onYes, orEmpty_supported no onNo⟩
  | loop node test body bodyIH =>
    rw [supported_loop] at supported
    simp only [fold]
    exact (Expr.fold_supported supported.1).bind fun test' onTest =>
      (bodyIH supported.2).bind fun body' onBody =>
        (supported_loop _ _ _).mpr ⟨onTest, orEmpty_supported body onBody⟩
  | unknown node kind => exact absurd supported (supported_unknown node kind)

end Stmt

theorem Func.fold_supported {f : Func} (supported : f.Supported) :
    Delivers f.fold Func.Supported FoldError.IsDivision := by
  rw [Func.supported_iff] at supported
  exact (Stmt.fold_supported supported.2).bind fun body onBody =>
    (Func.supported_iff _).mpr ⟨supported.1, Stmt.orEmpty_supported f.body onBody⟩

theorem Module.foldEntries_supported {entries : List (Option Func)}
    (supported : ∀ f, some f ∈ entries → f.Supported) :
    Delivers (foldEntries entries) (fun folded => ∀ f, some f ∈ folded → f.Supported)
      fun e => e.cause.IsDivision := by
  induction entries with
  | nil =>
    simp only [foldEntries]
    exact supported
  | cons entry rest ih =>
    have onRest := ih fun f member => supported f (by simp [member])
    cases entry with
    | none =>
      simp only [foldEntries]
      refine onRest.bind fun rest' onRest => ?_
      intro f member
      exact onRest f (by simpa using member)
    | some first =>
      simp only [foldEntries]
      have onFirst : Delivers (first.fold.mapError (InFunction.mk first.name)) Func.Supported
          fun e => e.cause.IsDivision :=
        (Func.fold_supported (supported first (by simp))).mapError fun _ division => division
      refine onFirst.bind fun first' onFirst => onRest.bind fun rest' onRest => ?_
      intro f member
      rcases mem_cons.mp member with same | member
      · cases same
        exact onFirst
      · exact onRest f member

theorem Module.fold_supported {m : Module} (supported : m.Supported) :
    Delivers m.fold Module.Supported fun e => e.cause.IsDivision := by
  rw [Module.supported_iff] at supported
  exact (foldEntries_supported supported).bind fun funcs onFuncs =>
    (Module.supported_iff _).mpr onFuncs

variable {types : CellTypes} {result : Ir.Ty} {env : Env}

namespace Expr

theorem type_applied (applied : op.applyInts l r = .value v) (id : NodeId) :
    (literal id v).type types env = if (Lowering.comparison? op).isSome then .i1 else .i32 := by
  cases op with
  | div | mod =>
    simp only [BinaryOp.applyInts] at applied
    split at applied <;> cases applied
    rfl
  | other code => cases applied
  | _ =>
    cases applied
    rfl

theorem type_fold {folded : Expr} (equation : e.fold = .ok folded) :
    folded.type types env = e.type types env ∧ (e.Typed types env → folded.Typed types env) := by
  replace equation := folds_of_fold equation
  induction equation with
  | absent | int | bool | ident => exact ⟨rfl, fun typed => typed⟩
  | complement _ ih | negation _ ih => exact ⟨ih.1, fun _ => trivial⟩
  | unary _ _ _ ih => exact ih
  | @ints node _ _ _ _ _ v _ _ _ _ applied leftIH _ =>
    refine ⟨?_, fun _ => ?_⟩
    · rw [type, ← leftIH.1]
      exact type_applied applied node.id
    · cases v <;> trivial
  | binary _ _ _ _ _ leftIH rightIH =>
    obtain ⟨leftType, keepsLeft⟩ := leftIH
    obtain ⟨rightType, keepsRight⟩ := rightIH
    refine ⟨?_, fun typed => ⟨keepsLeft typed.1, keepsRight typed.2.1, ?_⟩⟩
    · rw [type, type, leftType]
    · rw [leftType, rightType, typed.2.2]

end Expr

namespace Stmt

theorem typed_orEmpty (folded source : Stmt) :
    (orEmpty folded source).Typed types result env ↔ folded.Typed types result env := by
  rcases orEmpty_cases folded source with kept | ⟨rfl, -, empty⟩
  · rw [kept]
  · simp [empty, emptyBlock, Typed, TypedList]

theorem closesAny_foldList {folded : List Stmt} (equation : foldList stmts = .ok folded)
    (each : ∀ s ∈ stmts, ∀ s', fold s = .ok s' → s.closes → s'.closes) (closed : closesAny stmts) :
    closesAny folded := by
  induction stmts generalizing folded with
  | nil => simp [closesAny] at closed
  | cons s rest ih =>
    obtain ⟨s', rest', headFolded, restFolded, shape⟩ := foldList_cons equation
    have head := each s (by simp) s' headFolded
    have tail := ih restFolded fun s member => each s (by simp [member])
    rw [closesAny, Bool.or_eq_true] at closed
    rcases shape with ⟨rfl, rfl⟩ | rfl
    · refine tail (closed.resolve_left fun closes => ?_)
      simpa [Stmt.closes] using head closes
    · rw [closesAny, Bool.or_eq_true]
      exact closed.imp head tail

theorem closes_fold (equation : fold s = .ok folded) (closed : s.closes) : folded.closes := by
  induction s using Stmt.induction generalizing folded with
  | block node stmts each =>
    obtain ⟨stmts', stmtsFolded, rfl⟩ := fold_block equation
    rw [closes] at closed ⊢
    exact closesAny_foldList stmtsFolded (fun s member s' => each s member) closed
  | ret node value =>
    obtain ⟨value', -, rfl⟩ := fold_ret equation
    simp [closes]
  | _ => simp [closes] at closed

theorem typedList_fold {folded : List Stmt} (braced : BracedList stmts)
    (equation : foldList stmts = .ok folded)
    (each : ∀ s ∈ stmts, ∀ s' env, s.Braced → fold s = .ok s' → s.Typed types result env →
      s'.Typed types result env) (typed : TypedList types result env stmts) :
    TypedList types result env folded := by
  induction stmts generalizing folded env with
  | nil =>
    cases equation
    exact typed
  | cons s rest ih =>
    simp only [BracedList] at braced
    obtain ⟨s', rest', headFolded, restFolded, shape⟩ := foldList_cons equation
    rw [TypedList] at typed
    have head := each s (by simp) s' env braced.1 headFolded typed.1
    -- Where control passes the folded statement, it passed the statement itself.
    have tail : s'.closes = false → TypedList types result (s'.declare env) rest' := by
      intro passes
      rw [declare_fold braced.1 headFolded]
      refine ih braced.2 restFolded (fun s member => each s (by simp [member]))
        (typed.2 (Bool.eq_false_iff.mpr fun closed => ?_))
      rw [closes_fold headFolded closed] at passes
      cases passes
    rcases shape with ⟨rfl, rfl⟩ | rfl
    · exact tail (by simp [closes])
    · rw [TypedList]
      exact ⟨head, tail⟩

theorem typed_fold (braced : s.Braced) (equation : fold s = .ok folded)
    (typed : s.Typed types result env) : folded.Typed types result env := by
  induction s using Stmt.induction generalizing folded env with
  | absent =>
    cases equation
    exact typed
  | bare node =>
    cases equation
    simp [emptyBlock, Typed, TypedList]
  | block node stmts each =>
    simp only [Braced] at braced
    obtain ⟨stmts', stmtsFolded, rfl⟩ := fold_block equation
    rw [Typed] at typed ⊢
    exact typedList_fold braced stmtsFolded
      (fun s member s' env braced equation typed => each s member braced equation typed) typed
  | decl node mutable name type value =>
    obtain ⟨value', valueFolded, rfl⟩ := fold_decl equation
    obtain ⟨sameType, keeps⟩ := Expr.type_fold valueFolded
    rw [Typed] at typed ⊢
    rw [(Expr.fold_shape valueFolded).1, sameType]
    exact typed.imp_right fun typed => ⟨keeps typed.1, typed.2⟩
  | assign node target value =>
    obtain ⟨target', value', targetFolded, valueFolded, rfl⟩ := fold_assign equation
    obtain ⟨sameType, keeps⟩ := Expr.type_fold valueFolded
    rw [Typed] at typed ⊢
    rw [(Expr.type_fold targetFolded).1, sameType]
    exact ⟨keeps typed.1, typed.2⟩
  | ret node value =>
    obtain ⟨value', valueFolded, rfl⟩ := fold_ret equation
    obtain ⟨sameType, keeps⟩ := Expr.type_fold valueFolded
    rw [Typed] at typed ⊢
    rw [(Expr.fold_shape valueFolded).1, sameType]
    split
    · next absent =>
      rw [if_pos absent] at typed
      exact typed
    · next present =>
      rw [if_neg present] at typed
      exact ⟨keeps typed.1, typed.2⟩
  | cond node test yes no yesIH noIH =>
    simp only [Braced] at braced
    obtain ⟨yesNoDecl, -, yesBraced, noBraced⟩ := braced
    have yesKeeps := declare_of_braced yesBraced yesNoDecl env
    rw [Typed, yesKeeps] at typed
    obtain ⟨onTest, truth, onYes, onNo⟩ := typed
    rcases fold_cond equation with ⟨n, -, taken⟩ | ⟨n, -, taken⟩ |
      ⟨test', yes', no', testFolded, yesFolded, noFolded, rfl⟩
    · exact yesIH yesBraced taken onYes
    · exact noIH noBraced taken onNo
    · obtain ⟨sameType, keeps⟩ := Expr.type_fold testFolded
      rw [Typed, typed_orEmpty, typed_orEmpty, declare_orEmpty, declare_fold yesBraced yesFolded,
        yesKeeps, sameType]
      exact ⟨keeps onTest, truth, yesIH yesBraced yesFolded onYes, noIH noBraced noFolded onNo⟩
  | loop node test body bodyIH =>
    simp only [Braced] at braced
    obtain ⟨test', body', testFolded, bodyFolded, rfl⟩ := fold_loop equation
    obtain ⟨sameType, keeps⟩ := Expr.type_fold testFolded
    rw [Typed] at typed ⊢
    rw [typed_orEmpty, sameType]
    exact ⟨keeps typed.1, typed.2.1, bodyIH braced.2 bodyFolded typed.2.2⟩
  | unknown node kind => cases equation

theorem cellTyped_orEmpty (source : Stmt) (cells : ∀ v ∈ folded.nodes, v.CellTyped types) :
    ∀ v ∈ (orEmpty folded source).nodes, v.CellTyped types := by
  rcases orEmpty_cases folded source with kept | ⟨-, -, empty⟩
  · rwa [kept]
  · rw [empty, emptyBlock, nodes_block, nodesOfList_nil]
    exact forall_mem_singleton.mpr trivial

theorem cellTyped_foldList {folded : List Stmt} (equation : foldList stmts = .ok folded)
    (each : ∀ s ∈ stmts, ∀ s', fold s = .ok s' → (∀ v ∈ s.nodes, v.CellTyped types) →
      ∀ v ∈ s'.nodes, v.CellTyped types) (cells : ∀ v ∈ nodesOfList stmts, v.CellTyped types) :
    ∀ v ∈ nodesOfList folded, v.CellTyped types := by
  induction stmts generalizing folded with
  | nil =>
    cases equation
    exact cells
  | cons s rest ih =>
    obtain ⟨s', rest', headFolded, restFolded, shape⟩ := foldList_cons equation
    rw [nodesOfList_cons, forall_mem_append] at cells
    have tail := ih restFolded (fun s member => each s (by simp [member])) cells.2
    rcases shape with ⟨rfl, rfl⟩ | rfl
    · exact tail
    · rw [nodesOfList_cons]
      exact forall_mem_append.mpr ⟨each s (by simp) s' headFolded cells.1, tail⟩

theorem cellTyped_fold (equation : fold s = .ok folded) (cells : ∀ v ∈ s.nodes, v.CellTyped types) :
    ∀ v ∈ folded.nodes, v.CellTyped types := by
  induction s using Stmt.induction generalizing folded with
  | absent =>
    cases equation
    exact cells
  | bare node =>
    cases equation
    rw [emptyBlock, nodes_block, nodesOfList_nil]
    exact forall_mem_singleton.mpr trivial
  | block node stmts each =>
    obtain ⟨stmts', stmtsFolded, rfl⟩ := fold_block equation
    rw [nodes_block, forall_mem_cons] at cells ⊢
    exact ⟨trivial, cellTyped_foldList stmtsFolded (fun s member s' => each s member) cells.2⟩
  | decl node mutable name type value =>
    obtain ⟨value', -, rfl⟩ := fold_decl equation
    rw [nodes_decl, forall_mem_cons] at cells ⊢
    exact ⟨cells.1, value'.cellTyped types⟩
  | assign node target value =>
    obtain ⟨target', value', -, -, rfl⟩ := fold_assign equation
    rw [nodes_assign, forall_mem_cons, forall_mem_append]
    exact ⟨trivial, target'.cellTyped types, value'.cellTyped types⟩
  | ret node value =>
    obtain ⟨value', -, rfl⟩ := fold_ret equation
    rw [nodes_ret, forall_mem_cons]
    exact ⟨trivial, value'.cellTyped types⟩
  | cond node test yes no yesIH noIH =>
    rw [nodes_cond, forall_mem_cons, forall_mem_append, forall_mem_append] at cells
    obtain ⟨-, ⟨-, inYes⟩, inNo⟩ := cells
    rcases fold_cond equation with ⟨n, -, taken⟩ | ⟨n, -, taken⟩ |
      ⟨test', yes', no', -, yesFolded, noFolded, rfl⟩
    · exact yesIH taken inYes
    · exact noIH taken inNo
    · rw [nodes_cond, forall_mem_cons, forall_mem_append, forall_mem_append]
      exact ⟨trivial, ⟨test'.cellTyped types, cellTyped_orEmpty yes (yesIH yesFolded inYes)⟩,
        cellTyped_orEmpty no (noIH noFolded inNo)⟩
  | loop node test body bodyIH =>
    obtain ⟨test', body', -, bodyFolded, rfl⟩ := fold_loop equation
    rw [nodes_loop, forall_mem_cons, forall_mem_append] at cells ⊢
    exact ⟨trivial, test'.cellTyped types, cellTyped_orEmpty body (bodyIH bodyFolded cells.2.2)⟩
  | unknown node kind => cases equation

end Stmt

theorem Func.Typed.fold {f folded : Func} (typed : f.Typed) (braced : f.body.Braced)
    (equation : f.fold = .ok folded) : folded.Typed := by
  obtain ⟨types, result, cells, known, onBody⟩ := typed
  obtain ⟨body, bodyFolded, rfl⟩ := Func.fold_eq_ok equation
  exact ⟨types, result, Stmt.cellTyped_orEmpty f.body (Stmt.cellTyped_fold bodyFolded cells), known,
    (Stmt.typed_orEmpty body f.body).mpr (Stmt.typed_fold braced bodyFolded onBody)⟩

end MiddleEnd
