import MiddleEnd.Proofs.Control
import MiddleEnd.Proofs.Ir.Validity
import MiddleEnd.Proofs.Lowering.Code

/-!
Code runs as the statement it belongs to. Each round of a loop enters a block, so loops are matched
round by round.
-/

namespace MiddleEnd

open Ir

variable {fewer : Nat} {p : Point}

namespace Ir.Func

variable {ops : TruthOperators} {g : Func}

/-- Carries on with at most `fuel` blocks. -/
def proceed (ops : TruthOperators) (g : Func) (fuel : Nat) : Step → Option Exit
  | .out exit => some exit
  | .into target m => g.runFrom ops fuel target m

def stepFrom (ops : TruthOperators) (g : Func) (p : Point) (m : Machine) : Step :=
  match g.block? p.block with
  | some b => finish ops g.locals m (b.instrs.drop p.index) b.term
  | none => .out (.halted .stuck)

theorem proceed_enter (fuel : Nat) (id : BlockId) (m : Machine) :
    g.proceed ops (fuel + 1) (.into id m) = g.proceed ops fuel (g.stepFrom ops ⟨id, 0⟩ m) := by
  cases found : g.block? id with
  | none => simp only [proceed, runFrom, step, stepFrom, found]
  | some b =>
    cases stepped : finish ops g.locals m b.instrs b.term with
    | out exit => simp only [proceed, runFrom, step, stepFrom, found, List.drop_zero, stepped]
    | into target m' =>
      simp only [proceed, runFrom, step, stepFrom, found, List.drop_zero, stepped]

theorem proceed_add (ends : g.proceed ops fuel start = some exit) (more : Nat) :
    g.proceed ops (fuel + more) start = some exit := by
  cases start with
  | out _ => exact ends
  | into target m => exact runFrom_add ends more

theorem proceed_fewer (le : fewer ≤ fuel) (unfinished : g.proceed ops fuel start = none) :
    g.proceed ops fewer start = none := by
  cases ended : g.proceed ops fewer start with
  | none => rfl
  | some exit =>
    have later := proceed_add ended (fuel - fewer)
    rw [Nat.add_sub_cancel' le, unfinished] at later
    cases later

theorem HasCode.stepFrom (hasCode : g.HasCode p code) (m : Machine) :
    g.stepFrom ops p m =
      match execAll ops g.locals m code with
      | .ok m => g.stepFrom ops (p.skip code.length) m
      | .error why => .out (.halted why) := by
  obtain ⟨b, found, rest, split⟩ := hasCode
  have behind : b.instrs.drop (p.index + code.length) = rest := by
    rw [← List.drop_drop, ← split, List.drop_left]
  cases ran : execAll ops g.locals m code with
  | ok m' => simp only [Func.stepFrom, Point.skip, found, behind, ← split, finish_append, ran]
  | error why => simp only [Func.stepFrom, found, ← split, finish_append, ran]

theorem HasTerm.stepFrom (hasTerm : g.HasTerm p term) (m : Machine) :
    g.stepFrom ops p m = term.exec m := by
  obtain ⟨b, found, length, rfl⟩ := hasTerm
  simp only [Func.stepFrom, found, ← length, List.drop_length, finish, execAll]

end Ir.Func

/-- The slots hold what the cells hold. -/
def Ir.Machine.Mirrors (m : Machine) (slots : List NodeId) (cells : Cells) : Prop :=
  ∀ (slot : Nat) cell, slots[slot]? = some cell → m.locals slot = cells cell

theorem Ir.Machine.Mirrors.congr {m m' : Machine} (mirrors : m.Mirrors slots cells)
    (same : m'.locals = m.locals) : m'.Mirrors slots cells :=
  fun slot cell stored => by rw [same, mirrors slot cell stored]

theorem Ir.Machine.Mirrors.write {m : Machine} (mirrors : m.Mirrors slots cells)
    (nodup : slots.Nodup) {slot : Nat} (stored : slots[slot]? = some cell) (v : Constant) :
    (m.write slot v).Mirrors slots (cells.set cell v) := by
  intro other otherCell otherStored
  by_cases same : other = slot
  · subst same
    cases stored.symm.trans otherStored
    simp
  · have distinct : otherCell ≠ cell := by
      rintro rfl
      obtain ⟨bound, -⟩ := List.getElem?_eq_some_iff.mp otherStored
      exact same ((List.getElem?_inj bound nodup).mp (otherStored.trans stored.symm))
    have distinctSlots : (other : Int) ≠ slot := by omega
    rw [Cells.set_other _ _ distinct, Machine.write_other _ _ distinctSlots]
    exact mirrors other otherCell otherStored

namespace Expr.Code

variable {slots : List NodeId} {env : Env} {e : Expr} {first last : Nat} {code : List Instr}
  {o : Operand}

theorem le (computes : e.Code slots env first code o last) : first ≤ last := by
  induction computes with
  | int | bool => exact Nat.le_refl _
  | ident | not | compare | arithmetic => omega

theorem read_congr (computes : e.Code slots env first code o last) {m m' : Machine}
    (kept : ∀ id : Nat, id < last → m'.values id = m.values id) : m'.read o = m.read o := by
  cases computes with
  | int | bool => rfl
  | ident | not | compare | arithmetic =>
    simp only [Machine.read, Operand.eval, kept _ (Nat.lt_succ_self _)]

theorem comparison?_meaning (lowers : Lowering.comparison? op = some pred) : pred.meaning = op := by
  cases op <;> cases lowers <;> rfl

theorem arithmeticOp?_meaning (lowers : Lowering.arithmeticOp? op = some operation) :
    operation.meaning = op := by
  cases op <;> cases lowers <;> rfl

/-- What running the code of an expression comes to. -/
def Runs (ops : TruthOperators) (locals : List Slot) (m : Machine) (first : Nat)
    (code : List Instr) (o : Operand) : Except Halt Constant → Prop
  | .ok v => ∃ m', execAll ops locals m code = .ok m' ∧ m'.read o = .ok v ∧
      m'.locals = m.locals ∧ ∀ id : Nat, id < first → m'.values id = m.values id
  | .error why => execAll ops locals m code = .error why

theorem Runs.assign {ops : TruthOperators} {locals : List Slot} {m m₁ : Machine}
    {instr : Instr} {type : Ir.Ty} {result : Except Halt Constant}
    (ran : execAll ops locals m code = .ok m₁) (sameLocals : m₁.locals = m.locals)
    (kept : ∀ id : Nat, id < first → m₁.values id = m.values id) (le : first ≤ last)
    (computed : instr.exec ops locals m₁ = m₁.assign last result) :
    Runs ops locals m first (code ++ [instr]) (.value last type) result := by
  cases result with
  | error why =>
    simp only [Runs, execAll_append, ran, ok_bind, execAll_singleton, computed]
    rfl
  | ok v =>
    refine ⟨m₁.define last v, ?_, ?_, sameLocals, fun id below => ?_⟩
    · rw [execAll_append, ran, ok_bind, execAll_singleton, computed]
      rfl
    · simp [Machine.read, Operand.eval]
    · have distinct : (id : Int) ≠ last := by omega
      rw [Machine.define_other _ _ distinct, kept id below]

theorem Runs.binary {left right : Expr} {middle : Nat} {code' : List Instr} {l r : Operand}
    {ops : TruthOperators} {locals : List Slot} {m : Machine} {instr : Instr}
    {type : Ir.Ty} {onLeft onRight : Except Halt Constant}
    {result : Constant → Constant → Except Halt Constant}
    (leftCode : left.Code slots env first code l middle)
    (rightCode : right.Code slots env middle code' r last)
    (leftRuns : Runs ops locals m first code l onLeft)
    (rightRuns : ∀ m', m'.locals = m.locals → Runs ops locals m' middle code' r onRight)
    (computed : ∀ m' : Machine, instr.exec ops locals m' =
      m'.assign last (m'.read l >>= fun lv => m'.read r >>= fun rv => result lv rv)) :
    Runs ops locals m first (code ++ code' ++ [instr]) (.value last type)
      (onLeft >>= fun lv => onRight >>= fun rv => result lv rv) := by
  cases onLeft with
  | error why =>
    simp only [Runs] at leftRuns
    simp only [error_bind, Runs, List.append_assoc, execAll_append, leftRuns]
  | ok lv =>
    obtain ⟨m₁, ranLeft, readLeft, sameLocals, kept⟩ := leftRuns
    have rightRan := rightRuns m₁ sameLocals
    cases onRight with
    | error why =>
      simp only [Runs] at rightRan
      simp only [ok_bind, error_bind, Runs, List.append_assoc, execAll_append, ranLeft, rightRan]
    | ok rv =>
      obtain ⟨m₂, ranRight, readRight, sameLocals', kept'⟩ := rightRan
      -- The left operand is read behind the code of the right one, which only adds values.
      have readLeft' : m₂.read l = .ok lv := by rw [leftCode.read_congr kept', readLeft]
      have ran : execAll ops locals m (code ++ code') = .ok m₂ := by
        rw [execAll_append, ranLeft, ok_bind, ranRight]
      have le := leftCode.le
      refine Runs.assign ran (sameLocals'.trans sameLocals) (fun id below => ?_)
        (Nat.le_trans le rightCode.le) ?_
      · rw [kept' id (by omega), kept id below]
      · simp only [computed, readLeft', readRight, ok_bind]

theorem runs (computes : e.Code slots env first code o last) (ops : TruthOperators)
    {locals : List Slot} (enough : slots.length ≤ locals.length)
    (mirrors : m.Mirrors slots cells) : Runs ops locals m first code o (e.eval ops env cells) := by
  induction computes generalizing m with
  | int => exact ⟨m, rfl, by simp [Machine.read, Operand.int, Operand.eval], rfl, by simp⟩
  | @bool node b first =>
    refine ⟨m, rfl, ?_, rfl, by simp⟩
    cases b <;> rfl
  | @ident node name d slot first type means stored =>
    have inside : (at? locals slot).isSome := by
      obtain ⟨bound, -⟩ := List.getElem?_eq_some_iff.mp stored
      exact at?_isSome_iff.mpr ⟨by omega, by omega⟩
    have loaded : (Instr.load first slot).exec ops locals m =
        m.assign first (.ok (cells d.node)) := by
      simp only [Instr.exec, inside, if_true, mirrors slot d.node stored, Machine.assign]
    simp only [eval, means]
    exact @Runs.assign _ _ [] ops locals m m _ type _ rfl rfl (fun _ _ => rfl) (Nat.le_refl _)
      loaded
  | @not node operand first last code o type inner ih =>
    have ranInner := ih mirrors
    simp only [eval]
    cases value : operand.eval ops env cells with
    | error why =>
      rw [value] at ranInner
      simp only [Runs] at ranInner
      simp only [Runs, error_bind, execAll_append, ranInner]
    | ok v =>
      rw [value] at ranInner
      obtain ⟨m₁, ran, read, sameLocals, kept⟩ := ranInner
      rw [ok_bind]
      refine Runs.assign ran sameLocals kept inner.le ?_
      simp only [Instr.exec, read, ok_bind, UnOp.meaning]
  | compare lowers onLeft onRight leftIH rightIH =>
    refine Runs.binary onLeft onRight (leftIH mirrors)
      (fun m' same => rightIH (mirrors.congr same)) fun m' => ?_
    simp only [Instr.exec, comparison?_meaning lowers]
  | arithmetic lowers onLeft onRight leftIH rightIH =>
    refine Runs.binary onLeft onRight (leftIH mirrors)
      (fun m' same => rightIH (mirrors.congr same)) fun m' => ?_
    simp only [Instr.exec, arithmeticOp?_meaning lowers]

end Expr.Code

namespace Ir.Func

variable {ops : TruthOperators} {g : Func} {slots : List NodeId} {env : Env} {m : Machine}
  {cells : Cells}

/-- The state of code whose statement, given so many rounds for its loops, comes to this. -/
def Simulates (ops : TruthOperators) (g : Func) (slots : List NodeId) (fuel : Nat) (start : Step)
    (q : Option Point) : Option Flow → Prop
  | none => g.proceed ops fuel start = none
  | some (.next cells) => ∃ place m, q = some place ∧ m.Mirrors slots cells ∧
      ∃ count, ∀ n, g.proceed ops (n + count) start = g.proceed ops n (g.stepFrom ops place m)
  | some (.returned value) => ∃ n, g.proceed ops n start = some (.returned value)
  | some (.halted why) => ∃ n, g.proceed ops n start = some (.halted why)

namespace Simulates

variable {fuel : Nat} {start : Step} {q : Option Point} {flow : Option Flow}

theorem next {place : Point} (mirrors : m.Mirrors slots cells) :
    Simulates ops g slots fuel (g.stepFrom ops place m) (some place) (some (.next cells)) :=
  ⟨place, m, rfl, mirrors, 0, fun _ => rfl⟩

theorem returned (value : Option Constant) :
    Simulates ops g slots fuel (.out (.returned value)) q (some (.returned value)) :=
  ⟨0, rfl⟩

theorem halted (why : Halt) :
    Simulates ops g slots fuel (.out (.halted why)) q (some (.halted why)) :=
  ⟨0, rfl⟩

theorem prepend (reaches : ∀ n, g.proceed ops (n + count) start = g.proceed ops n start')
    (le : fewer ≤ fuel + count) (later : Simulates ops g slots fuel start' q flow) :
    Simulates ops g slots fewer start q flow := by
  cases flow with
  | none =>
    simp only [Simulates, ← reaches] at later ⊢
    exact proceed_fewer le later
  | some flow =>
    cases flow with
    | next cells =>
      obtain ⟨place, m, same, mirrors, count', reaches'⟩ := later
      refine ⟨place, m, same, mirrors, count' + count, fun n => ?_⟩
      rw [← Nat.add_assoc, reaches, reaches']
    | returned value =>
      obtain ⟨n, ends⟩ := later
      exact ⟨n + count, by rw [reaches, ends]⟩
    | halted why =>
      obtain ⟨n, ends⟩ := later
      exact ⟨n + count, by rw [reaches, ends]⟩

theorem enter {id : BlockId} (inside : Simulates ops g slots fuel (g.stepFrom ops ⟨id, 0⟩ m) q flow)
    (le : fewer ≤ fuel + 1) : Simulates ops g slots fewer (.into id m) q flow :=
  prepend (fun n => proceed_enter n id m) le inside

theorem andThen {rest : Cells → Option Flow} (first : Simulates ops g slots fuel start middle flow)
    (second : ∀ place m cells, middle = some place → m.Mirrors slots cells →
      Simulates ops g slots fuel (g.stepFrom ops place m) q (rest cells)) :
    Simulates ops g slots fuel start q (Flow.andThen flow rest) := by
  cases flow with
  | none => exact first
  | some flow =>
    cases flow with
    | returned value => exact first
    | halted why => exact first
    | next cells =>
      obtain ⟨place, m, same, mirrors, count, reaches⟩ := first
      exact prepend reaches (Nat.le_add_right _ _) (second place m cells same mirrors)

theorem jump {target : BlockId} (inside : Simulates ops g slots fuel start q flow)
    (jumps : g.Jumps q target) : Simulates ops g slots fuel start (some ⟨target, 0⟩) flow := by
  cases flow with
  | none => exact inside
  | some flow =>
    cases flow with
    | returned value => exact inside
    | halted why => exact inside
    | next cells =>
      obtain ⟨place, m, same, mirrors, count, reaches⟩ := inside
      refine prepend reaches (Nat.le_add_right _ _) ?_
      rw [(jumps place same).stepFrom]
      exact enter (next mirrors) (Nat.le_succ fuel)

theorem compute {place : Point} (flow : Except Halt Constant → Option Flow)
    (computes : g.Computes slots env e p o place) (enough : slots.length ≤ g.locals.length)
    (mirrors : m.Mirrors slots cells) (fails : ∀ why, flow (.error why) = some (.halted why))
    (goes : ∀ v m', m'.read o = .ok v → m'.Mirrors slots cells →
      Simulates ops g slots fuel (g.stepFrom ops place m') q (flow (.ok v))) :
    Simulates ops g slots fuel (g.stepFrom ops p m) q (flow (e.eval ops env cells)) := by
  obtain ⟨first, code, last, exprCode, hasCode, rfl⟩ := computes
  have ran := exprCode.runs ops enough mirrors
  rw [hasCode.stepFrom]
  cases value : e.eval ops env cells with
  | ok v =>
    rw [value] at ran
    obtain ⟨m', ran, read, same, -⟩ := ran
    rw [ran]
    exact goes v m' read (mirrors.congr same)
  | error why =>
    rw [value] at ran
    simp only [Expr.Code.Runs] at ran
    rw [ran, fails]
    exact halted why

theorem choose (computes : g.Computes slots env test p o place)
    (branches : g.HasTerm place (.branch o yesBlock noBlock))
    (enough : slots.length ≤ g.locals.length) (mirrors : m.Mirrors slots cells)
    (onYes : ∀ m : Machine, m.Mirrors slots cells →
      Simulates ops g slots fuel (.into yesBlock m) q yes)
    (onNo : ∀ m : Machine, m.Mirrors slots cells →
      Simulates ops g slots fuel (.into noBlock m) q no) :
    Simulates ops g slots fuel (g.stepFrom ops p m) q
      (Flow.choose (test.eval ops env cells) yes no) := by
  refine compute (fun value => Flow.choose value yes no) computes enough mirrors (fun _ => rfl) ?_
  intro v m' read mirrors'
  rw [branches.stepFrom]
  simp only [Terminator.exec, read]
  cases v with
  | int n => exact halted .stuck
  | bool b =>
    cases b with
    | true => exact onYes m' mirrors'
    | false => exact onNo m' mirrors'

theorem assign {e : Expr} {cell : NodeId} {p place : Point}
    (assigns : g.Assigns slots env cell e p place) (enough : slots.length ≤ g.locals.length)
    (nodup : slots.Nodup) (mirrors : m.Mirrors slots cells) :
    Simulates ops g slots fuel (g.stepFrom ops p m) (some place)
      (some (Stmt.assignCell cells cell (e.eval ops env cells))) := by
  obtain ⟨slot, o, middle, stored, computes, hasCode, rfl⟩ := assigns
  refine compute (fun value => some (Stmt.assignCell cells cell value)) computes enough mirrors
    (fun _ => rfl) ?_
  intro v m' read mirrors'
  have inside : (at? g.locals slot).isSome := by
    obtain ⟨bound, -⟩ := List.getElem?_eq_some_iff.mp stored
    exact at?_isSome_iff.mpr ⟨by omega, by omega⟩
  rw [hasCode.stepFrom, execAll_singleton]
  simp only [Instr.exec, read, inside, if_true]
  exact next (mirrors'.write nodup stored v)

end Simulates

end Ir.Func

namespace Stmt

variable {ops : TruthOperators} {g : Ir.Func} {slots : List NodeId}

theorem CodeOfListAt.simulates
    (each : ∀ s ∈ stmts, ∀ (env : Env) p q (m : Machine) cells, s.CodeAt g slots env (some p) q →
      m.Mirrors slots cells →
      g.Simulates ops slots fuel (g.stepFrom ops p m) q (s.exec ops fuel env cells)) {p : Point}
    (code : CodeOfListAt g slots env stmts (some p) q) (mirrors : m.Mirrors slots cells) :
    g.Simulates ops slots fuel (g.stepFrom ops p m) q (execList ops fuel env cells stmts) := by
  induction stmts generalizing env p m cells with
  | nil =>
    simp only [CodeOfListAt] at code
    subst code
    exact .next mirrors
  | cons s rest ih =>
    simp only [CodeOfListAt] at code
    obtain ⟨middle, here, behind⟩ := code
    simp only [execList]
    refine .andThen (each s (by simp) env p middle m cells here mirrors) ?_
    rintro place m' cells' rfl mirrors'
    exact ih (fun s member => each s (by simp [member])) behind mirrors'

theorem CodeAt.simulates (enough : slots.length ≤ g.locals.length) (nodup : slots.Nodup)
    (fuel : Nat) {s : Stmt} {p : Point} (code : s.CodeAt g slots env (some p) q)
    (mirrors : m.Mirrors slots cells) :
    g.Simulates ops slots fuel (g.stepFrom ops p m) q (s.exec ops fuel env cells) := by
  induction s using Stmt.induction generalizing env p q m cells with
  | absent | bare =>
    simp only [CodeAt] at code
    subst code
    simp only [exec]
    exact .next mirrors
  | block node stmts each =>
    simp only [CodeAt] at code
    simp only [exec]
    exact code.simulates
      (fun s member env p q m cells code mirrors => each s member code mirrors) mirrors
  | decl node mutable name type value =>
    simp only [CodeAt] at code
    simp only [exec]
    split
    · next absent =>
      rw [if_pos absent] at code
      subst code
      exact .next mirrors
    · next present =>
      rw [if_neg present] at code
      obtain ⟨place, assigns, rfl⟩ := code
      exact .assign assigns enough nodup mirrors
  | assign node target value =>
    simp only [CodeAt] at code
    obtain ⟨d, place, means, assigns, rfl⟩ := code
    simp only [exec, means]
    exact .assign assigns enough nodup mirrors
  | ret node value =>
    simp only [CodeAt] at code
    simp only [exec]
    split
    · next absent =>
      rw [if_pos absent] at code
      rw [code.1.stepFrom]
      exact .returned none
    · next present =>
      rw [if_neg present] at code
      obtain ⟨o, place, computes, returns, -⟩ := code
      refine .compute (fun value => some (returnValue value)) computes enough mirrors
        (fun _ => rfl) fun v m' read _ => ?_
      rw [returns.stepFrom]
      simp only [Terminator.exec, read]
      exact .returned (some v)
  | cond node test yes no yesIH noIH =>
    simp only [CodeAt] at code
    obtain ⟨o, place, yesBlock, noBlock, merge, yesEnd, noEnd, computes, branches, yesCode,
      yesJumps, noCode, noEnds, rfl⟩ := code
    simp only [exec]
    refine .choose computes branches enough mirrors (fun m' mirrors' => ?_) fun m' mirrors' => ?_
    · exact .enter ((yesIH yesCode mirrors').jump yesJumps) (Nat.le_succ fuel)
    · refine .enter ?_ (Nat.le_succ fuel)
      rcases noEnds with rfl | noJumps
      · exact noIH noCode mirrors'
      · exact (noIH noCode mirrors').jump noJumps
  | loop node test body bodyIH =>
    simp only [CodeAt] at code
    obtain ⟨o, place, testBlock, bodyBlock, exitBlock, bodyEnd, enters, computes, branches,
      bodyCode, jumps, rfl⟩ := code
    -- The test block is entered with any number of rounds left.
    have rounds : ∀ left ≤ fuel, ∀ (m : Machine) cells, m.Mirrors slots cells →
        g.Simulates ops slots left (.into testBlock m) (some ⟨exitBlock, 0⟩)
          (Flow.iterate (fun cells => test.eval ops env cells)
            (fun cells => exec ops fuel env cells body) left cells) := by
      intro left
      induction left with
      | zero => exact fun _ m cells _ => rfl
      | succ left ih =>
        intro le m cells mirrors
        simp only [Flow.iterate]
        refine .enter (.choose computes branches enough mirrors (fun m' mirrors' => ?_)
          fun m' mirrors' => ?_) (Nat.le_refl _)
        · refine .andThen (.enter (bodyIH bodyCode mirrors') (by omega)) ?_
          intro place m'' cells'' ends mirrors''
          rw [(jumps place ends).stepFrom]
          exact ih (by omega) m'' cells'' mirrors''
        · exact .enter (.next mirrors') (Nat.le_succ left)
    simp only [exec]
    rw [enters.stepFrom]
    exact rounds fuel (Nat.le_refl _) m cells mirrors
  | unknown node kind => exact absurd code (by simp [CodeAt])

end Stmt

end MiddleEnd
