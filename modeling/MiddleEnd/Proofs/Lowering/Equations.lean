import MiddleEnd.Proofs.Lowering.Steps

/-!
Lowering a statement as a sequence of lowerings of its parts, in live code and behind a terminator.
-/

namespace MiddleEnd.Lowering

open Option

variable {type : Ty}
variable {st : State} {p : Ir.Point}

theorem stmt_decl (node : Node) (mutable : Bool) (name : Text) (type : Ty) (value : Expr) :
    stmt (.decl node mutable name type value) = decl node.id mutable name type value := rfl

theorem decl_unstored (node : Node) (mutable : Bool) (name : Text) (value : Expr)
    (unstored : storageType? type = none) :
    stmt (.decl node mutable name type value) = fail (.storage type) node.id := by
  simp only [stmt_decl, decl, unstored]

theorem decl_dead (node : Node) (mutable : Bool) (name : Text) (value : Expr)
    (stored : storageType? type = some slotType) (dead : st.builder.place? = none) :
    stmt (.decl node mutable name type value) st =
      (if value.isAbsent then declare name mutable type Ir.noId
        else expr value >>= fun _ => declare name mutable type Ir.noId) st := by
  simp only [stmt_decl, decl, stored]
  rw [isLive_bind]
  simp only [dead, isSome_none, Bool.false_eq_true, if_false, pure_bind_run]
  cases value.isAbsent <;> rfl

theorem decl_live (node : Node) (mutable : Bool) (name : Text) (value : Expr)
    (stored : storageType? type = some slotType) (live : st.builder.place? = some p) :
    stmt (.decl node mutable name type value) st =
      (if value.isAbsent then declare name mutable type st.builder.func.locals.length
        else expr value >>= fun o =>
          build (fun builder => builder.store st.builder.func.locals.length o) >>= fun _ =>
            declare name mutable type st.builder.func.locals.length)
        { st with builder := (st.builder.alloc name slotType).1 } := by
  simp only [stmt_decl, decl, stored]
  rw [isLive_bind]
  simp only [live, isSome_some, if_true, produce_bind]
  have nonneg : (st.builder.alloc name slotType).2 ≥ 0 := Int.natCast_nonneg _
  simp only [if_pos nonneg]
  cases value.isAbsent <;> rfl

theorem ret_eq (node : Node) (present : value.isAbsent = false) :
    stmt (.ret node value) = expr value >>= fun o =>
      build fun builder => builder.terminate (.ret (some o)) := by
  cases value with
  | absent => cases present
  | _ => rfl

theorem cond_eq (node : Node) (test : Expr) (yes no : Stmt) :
    ∃ rest : Ir.Operand → LowerM Unit,
      stmt (.cond node test yes no) = (expr test >>= rest) ∧
      (∀ o st, st.builder.place? = none → rest o st = (stmt yes >>= fun _ => stmt no) st) ∧
      ∀ o st p f, st.builder.place? = some p → st.builder.fork no.isAbsent = f →
        rest o st =
          (stmt yes >>= fun _ =>
            build (fun builder => builder.leave (.goto f.third) f.second) >>= fun _ =>
              stmt no >>= fun _ =>
                if no.isAbsent then pure ()
                else build fun builder => builder.leave (.goto f.third) f.third)
            { st with builder := f.builder.leave (.branch o f.first f.second) f.first } := by
  refine ⟨_, by simp only [stmt]; rfl, ?_, ?_⟩
  · intro o st dead
    rw [isLive_bind]
    simp only [dead, isSome_none, Bool.false_eq_true, if_false]
  · rintro o st p f live rfl
    rw [isLive_bind]
    simp only [live, isSome_some, if_true, produce_bind]
    cases absent : no.isAbsent with
    | true =>
      have isAbsent : no = .absent := by cases no <;> first | rfl | cases absent
      subst isAbsent
      simp only [if_true, pure_bind_run, build_bind]
      rfl
    | false =>
      simp only [Bool.false_eq_true, if_false, produce_bind, build_bind]
      rfl

theorem loop_dead (node : Node) (test : Expr) (body : Stmt) (dead : st.builder.place? = none) :
    stmt (.loop node test body) st = (expr test >>= fun _ => stmt body) st := by
  simp only [stmt]
  rw [isLive_bind]
  simp only [dead, isSome_none, Bool.false_eq_true, if_false]

theorem loop_live (node : Node) (test : Expr) (body : Stmt) (live : st.builder.place? = some p)
    (forked : st.builder.fork false = f) :
    stmt (.loop node test body) st =
      (expr test >>= fun o =>
        build (fun builder => builder.leave (.branch o f.second f.third) f.second) >>= fun _ =>
          stmt body >>= fun _ => build fun builder => builder.leave (.goto f.first) f.third)
        { st with builder := f.builder.leave (.goto f.first) f.first } := by
  subst forked
  simp only [stmt]
  rw [isLive_bind]
  simp only [live, isSome_some, if_true, produce_bind, build_bind]
  rfl

end MiddleEnd.Lowering
