import MiddleEnd.Proofs.Ir.Locality

/-!
Forwarding within blocks keeps how a function runs.
-/

namespace MiddleEnd.Ir

open List Option Instr Operand

variable {id : ValueId}

/-- The instructions that compute a value from operands alone. -/
inductive Instr.Computes : Instr → ValueId → Prop where
  | binary {dst : ValueId} {op : BinOp} {left right : Operand} :
      Computes (.binary dst op left right) dst
  | compare {dst : ValueId} {pred : CmpPred} {left right : Operand} :
      Computes (.compare dst pred left right) dst
  | unary {dst : ValueId} {op : UnOp} {operand : Operand} : Computes (.unary dst op operand) dst

variable {instr : Instr} {dst : ValueId}

theorem Instr.Computes.defines (computes : instr.Computes dst) : instr.defines = some dst := by
  cases computes <;> rfl

theorem Instr.Computes.mapOperands (computes : instr.Computes dst) (change : Operand → Operand) :
    (instr.mapOperands change).Computes dst := by
  cases computes <;> constructor

theorem Instr.operands_mapOperands (instr : Instr) (change : Operand → Operand) :
    (instr.mapOperands change).operands = instr.operands.map change := by
  cases instr <;> rfl

theorem Terminator.operands_mapOperands (term : Terminator) (change : Operand → Operand) :
    (term.mapOperands change).operands = term.operands.map change := by
  cases term with
  | ret value => cases value <;> rfl
  | _ => rfl

theorem Instr.Computes.exec_mapOperands (computes : instr.Computes dst) (ops : TruthOperators)
    (slots : List Slot) {change : Operand → Operand}
    (same : ∀ operand ∈ instr.operands, m'.read (change operand) = m.read operand) :
    ∃ result, instr.exec ops slots m = m.assign dst result ∧
      (instr.mapOperands change).exec ops slots m' = m'.assign dst result := by
  cases computes with
  | binary =>
    refine ⟨_, rfl, ?_⟩
    simp only [Instr.mapOperands, Instr.exec]
    rw [same _ (by simp [Instr.operands]), same _ (by simp [Instr.operands])]
  | compare =>
    refine ⟨_, rfl, ?_⟩
    simp only [Instr.mapOperands, Instr.exec]
    rw [same _ (by simp [Instr.operands]), same _ (by simp [Instr.operands])]
  | unary =>
    refine ⟨_, rfl, ?_⟩
    simp only [Instr.mapOperands, Instr.exec]
    rw [same _ (by simp [Instr.operands])]

theorem Terminator.exec_mapOperands (term : Terminator) {R : Machine → Machine → Prop}
    (related : R m m') {change : Operand → Operand}
    (same : ∀ operand ∈ term.operands, m'.read (change operand) = m.read operand) :
    Step.Related R (term.exec m) ((term.mapOperands change).exec m') := by
  cases term with
  | goto target => exact .into related
  | branch cond yes no =>
    have test := same cond (by simp [operands])
    simp only [mapOperands, exec, test]
    cases m.read cond with
    | error why => exact .out
    | ok v =>
      cases v with
      | int n => exact .out
      | bool b => exact .into related
  | ret value =>
    cases value with
    | none => exact .out
    | some value =>
      have result := same value (by simp [operands])
      simp only [mapOperands, map_some, exec, result]
      cases m.read value <;> exact .out
  | pending | unreachable | unknown kind => exact .out

namespace Known

/-- All that going over an instruction can do. -/
inductive Stepped (values : List Ty) (known : Known) : Instr → Known → List Instr → Prop where
  | store {dst : LocalId} {value : Operand} : Stepped values known (.store dst value)
      { known with slots := (dst, value.replace known.forwarded) :: known.slots }
      [.store dst (value.replace known.forwarded)]
  | forwarded {dst : ValueId} {src : LocalId} {operand : Operand}
      (found : known.slots.lookup src = some operand) : Stepped values known (.load dst src)
      { known with forwarded := (dst, operand) :: known.forwarded } []
  | load {dst : ValueId} {src : LocalId} {type : Ty} (unknown : known.slots.lookup src = none)
      (typed : at? values dst = some type) : Stepped values known (.load dst src)
      { known with slots := (src, .value dst type) :: known.slots } [.load dst src]
  | computed {instr : Instr} {dst : ValueId} (computes : instr.Computes dst) :
      Stepped values known instr known [instr.mapOperands (replace known.forwarded)]
  | unknown {dst : ValueId} {kind : UInt8} :
      Stepped values known (.unknown dst kind) known [.unknown dst kind]

theorem stepped_of_step {known : Known} (stepped : known.step values instr = some (known', kept)) :
    known.Stepped values instr known' kept := by
  cases instr with
  | load dst src =>
    simp only [step, mapOperands] at stepped
    cases found : known.slots.lookup src with
    | some operand =>
      rw [found] at stepped
      cases stepped
      exact .forwarded found
    | none =>
      simp only [found, map_eq_some_iff] at stepped
      obtain ⟨type, typed, same⟩ := stepped
      cases same
      exact .load found typed
  | store dst value =>
    cases stepped
    exact .store
  | binary dst op left right =>
    cases stepped
    exact .computed .binary
  | compare dst pred left right =>
    cases stepped
    exact .computed .compare
  | unary dst op operand =>
    cases stepped
    exact .computed .unary
  | unknown dst kind =>
    cases stepped
    exact .unknown

end Known

namespace Operand

theorem replace_value (forwarded : List (ValueId × Operand)) (id : ValueId) (type : Ty) :
    (value id type).replace forwarded = (forwarded.lookup id).getD (.value id type) := rfl

theorem replace_fresh (fresh : forwarded.lookup id = none) (type : Ty) :
    (value id type).replace forwarded = .value id type := by
  rw [replace_value, fresh]
  rfl

theorem replace_cons_same (forwarded : List (ValueId × Operand)) (id : ValueId) (type : Ty)
    (operand : Operand) :
    (value id type).replace ((id, operand) :: forwarded) = operand := by
  simp [replace_value]

theorem replace_cons_other (forwarded : List (ValueId × Operand)) (type : Ty) (operand : Operand)
    (distinct : id ≠ dst) :
    (value id type).replace ((dst, operand) :: forwarded) =
      (value id type).replace forwarded := by
  simp [replace_value, lookup_cons, beq_false_of_ne distinct]

end Operand

/-- The values an instruction may define are new: neither defined before nor forwarded. -/
def Fresh (forwarded : List (ValueId × Operand)) (before ids : List ValueId) : Prop :=
  ∀ id ∈ ids, id ∉ before ∧ forwarded.lookup id = none

namespace Known

/-- Whatever is known of the values and slots of a block, it is a constant or a value that was
kept. -/
structure Covers (known : Known) (before kept : List ValueId) : Prop where
  values : ∀ id ∈ before, ∀ type,
    ((value id type).replace known.forwarded).DefinedIn kept
  slots : ∀ slot operand, known.slots.lookup slot = some operand → operand.DefinedIn kept
  subset : kept ⊆ before

theorem Covers.initial (forwarded : List (ValueId × Operand)) : Covers ⟨forwarded, []⟩ [] [] :=
  ⟨by simp, by simp, by simp⟩

variable {known known' : Known} {before kept : List ValueId} {operand : Operand} {dst : ValueId}
  {m m' : Machine} {values : List Ty} {instr : Instr} {out instrs : List Instr}

theorem Covers.replace (covers : known.Covers before kept) (given : operand.DefinedIn before) :
    (operand.replace known.forwarded).DefinedIn kept := by
  cases operand with
  | undef type => cases given
  | const type n => trivial
  | value id type => exact covers.values id given type

theorem Covers.define (covers : known.Covers before kept)
    (fresh : known.forwarded.lookup dst = none) : known.Covers (dst :: before) (dst :: kept) where
  values id member type := by
    rcases mem_cons.mp member with rfl | member
    · rw [replace_fresh fresh]
      exact mem_cons_self
    · exact (covers.values id member type).mono (subset_cons_self dst kept)
  slots slot operand found :=
    (covers.slots slot operand found).mono (subset_cons_self dst kept)
  subset := cons_subset_cons dst covers.subset

theorem Covers.learn (covers : known.Covers before kept) (given : operand.DefinedIn kept)
    (slot : LocalId) :
    Covers { known with slots := (slot, operand) :: known.slots } before kept where
  values := covers.values
  slots other operand' found := by
    rw [lookup_cons] at found
    split at found
    · cases found
      exact given
    · exact covers.slots other operand' found
  subset := covers.subset

theorem Covers.forward (covers : known.Covers before kept) (given : operand.DefinedIn kept)
    (fresh : dst ∉ before) :
    Covers { known with forwarded := (dst, operand) :: known.forwarded } (dst :: before) kept where
  values id member type := by
    rcases mem_cons.mp member with rfl | earlier
    · simp only [replace_cons_same]
      exact given
    · simp only [replace_cons_other _ _ _ (ne_of_mem_of_not_mem earlier fresh)]
      exact covers.values id earlier type
  slots := covers.slots
  subset := subset_cons_of_subset dst covers.subset

theorem Covers.step {values : List Ty} {known known' : Known} {before kept : List ValueId}
    {instr : Instr} {out : List Instr} (covers : known.Covers before kept)
    (stepped : known.step values instr = some (known', out))
    (reads : ∀ operand ∈ instr.operands, operand.DefinedIn before)
    (fresh : Fresh known.forwarded before instr.defines.toList) :
    known'.Covers (instr.defines.toList ++ before) (defined out ++ kept) ∧
      ∀ instr ∈ out, ∀ operand ∈ instr.operands, operand.DefinedIn kept := by
  cases stepped_of_step stepped with
  | @store dst value =>
    have stored := covers.replace (reads value (by simp [operands]))
    refine ⟨covers.learn stored _, ?_⟩
    simpa [operands] using stored
  | forwarded found =>
    refine ⟨covers.forward (covers.slots _ _ found) (fresh _ (by simp [defines])).1, ?_⟩
    simp
  | @load dst =>
    have defined := covers.define (fresh dst (by simp [defines])).2
    refine ⟨defined.learn mem_cons_self _, ?_⟩
    simp [operands]
  | @computed _ dst computes =>
    have new := fresh dst (by simp [computes.defines])
    have defines : defined [instr.mapOperands (Operand.replace known.forwarded)] = [dst] := by
      simp [defined, (computes.mapOperands _).defines]
    rw [computes.defines, defines]
    refine ⟨covers.define new.2, ?_⟩
    intro instr' member operand' isOperand
    cases mem_singleton.mp member
    rw [operands_mapOperands] at isOperand
    obtain ⟨operand, inInstr, rfl⟩ := mem_map.mp isOperand
    exact covers.replace (reads operand inInstr)
  | unknown =>
    refine ⟨covers.define (fresh _ (by simp [defines])).2, ?_⟩
    simp [operands]

/-- The slots hold the same, each value defined so far is what its replacement stands for, and known
slots hold what is known. -/
structure Follows (known : Known) (before : List ValueId) (m m' : Machine) : Prop where
  locals : m'.locals = m.locals
  values : ∀ id ∈ before, ∀ type,
    ((value id type).replace known.forwarded).eval m'.values = m.values id
  slots : ∀ slot operand, known.slots.lookup slot = some operand →
    operand.eval m'.values = some (m.locals slot)

theorem Follows.initial (forwarded : List (ValueId × Operand)) (locals : m'.locals = m.locals) :
    Follows ⟨forwarded, []⟩ [] m m' :=
  ⟨locals, by simp, by simp⟩

theorem Follows.read (follows : known.Follows before m m') (given : operand.DefinedIn before) :
    m'.read (operand.replace known.forwarded) = m.read operand := by
  apply read_congr
  cases operand with
  | undef type => cases given
  | const type n => cases type <;> rfl
  | value id type => exact follows.values id given type

theorem Follows.define (follows : known.Follows before m m') (covers : known.Covers before kept)
    (fresh : dst ∉ before ∧ known.forwarded.lookup dst = none) (v : Constant) :
    known.Follows (dst :: before) (m.define dst v) (m'.define dst v) where
  locals := follows.locals
  values id member type := by
    have notKept : dst ∉ kept := fun inKept => fresh.1 (covers.subset inKept)
    rcases mem_cons.mp member with rfl | earlier
    · rw [replace_fresh fresh.2]
      simp [eval]
    · rw [(covers.values id earlier type).eval_define m' notKept,
        m.define_other v (ne_of_mem_of_not_mem earlier fresh.1)]
      exact follows.values id earlier type
  slots slot operand found := by
    have notKept : dst ∉ kept := fun inKept => fresh.1 (covers.subset inKept)
    rw [(covers.slots slot operand found).eval_define m' notKept]
    exact follows.slots slot operand found

theorem Follows.forward (follows : known.Follows before m m') (fresh : dst ∉ before)
    (stands : operand.eval m'.values = some v) :
    Follows { known with forwarded := (dst, operand) :: known.forwarded } (dst :: before)
      (m.define dst v) m' where
  locals := follows.locals
  values id member type := by
    rcases mem_cons.mp member with rfl | earlier
    · simp only [replace_cons_same, Machine.define_same]
      exact stands
    · have distinct := ne_of_mem_of_not_mem earlier fresh
      simp only [replace_cons_other _ _ _ distinct, m.define_other v distinct]
      exact follows.values id earlier type
  slots := follows.slots

theorem Follows.learn (follows : known.Follows before m m')
    (stands : operand.eval m'.values = some (m.locals slot)) :
    Follows { known with slots := (slot, operand) :: known.slots } before m m' where
  locals := follows.locals
  values := follows.values
  slots other operand' found := by
    rw [lookup_cons] at found
    split at found
    · next same =>
      cases found
      rw [eq_of_beq same]
      exact stands
    · exact follows.slots other operand' found

theorem Follows.write (follows : known.Follows before m m')
    (stands : operand.eval m'.values = some v) :
    Follows { known with slots := (slot, operand) :: known.slots } before
      (m.write slot v) (m'.write slot v) where
  locals := by simp only [Machine.write, follows.locals]
  values := follows.values
  slots other operand' found := by
    rw [lookup_cons] at found
    split at found
    · next same =>
      cases found
      rw [eq_of_beq same]
      simpa using stands
    · next distinct =>
      rw [m.write_other v (by simpa using distinct)]
      exact follows.slots other operand' found

/-- One instruction: the rewritten block does what the block does, or nothing where a load was
forwarded. -/
theorem Follows.step {ops : TruthOperators} {slots : List Slot} {values : List Ty}
    {known known' : Known} {before kept : List ValueId} {instr : Instr} {out : List Instr}
    {m m' : Machine} (follows : known.Follows before m m') (covers : known.Covers before kept)
    (stepped : known.step values instr = some (known', out))
    (reads : ∀ operand ∈ instr.operands, operand.DefinedIn before)
    (fresh : Fresh known.forwarded before instr.defines.toList)
    (loads : ∀ dst src, instr = .load dst src → (at? slots src).isSome) :
    match instr.exec ops slots m with
    | .ok n => ∃ n', execAll ops slots m' out = .ok n' ∧
        known'.Follows (instr.defines.toList ++ before) n n'
    | .error why => execAll ops slots m' out = .error why := by
  cases stepped_of_step stepped with
  | @store dst value =>
    have same := follows.read (reads value (by simp [operands]))
    rw [execAll_singleton]
    simp only [exec, same]
    cases result : m.read value with
    | error why => rfl
    | ok v =>
      by_cases exists' : (at? slots dst).isSome
      · simp only [exists', if_true]
        exact ⟨_, rfl, follows.write (read_eq_ok.mp (same.trans result))⟩
      · simp [exists']
  | forwarded found =>
    simp only [exec, loads _ _ rfl, if_true]
    refine ⟨m', rfl, ?_⟩
    exact follows.forward (fresh _ (by simp [defines])).1 (follows.slots _ _ found)
  | load =>
    rw [execAll_singleton]
    simp only [exec, loads _ _ rfl, if_true, follows.locals]
    refine ⟨_, rfl, ?_⟩
    apply Follows.learn (follows.define covers (fresh _ (by simp [defines])) _)
    simp [eval]
  | @computed _ dst computes =>
    have new := fresh dst (by simp [computes.defines])
    obtain ⟨result, original, rewritten⟩ := computes.exec_mapOperands ops slots
      fun operand member => follows.read (reads operand member)
    rw [execAll_singleton, original, rewritten, computes.defines]
    cases result with
    | error why => rfl
    | ok v => exact ⟨_, rfl, follows.define covers new v⟩
  | unknown => rfl

theorem step_lookup (stepped : known.step values instr = some (known', out))
    (other : id ∉ instr.defines.toList) :
    known'.forwarded.lookup id = known.forwarded.lookup id := by
  cases stepped_of_step stepped with
  | @forwarded dst =>
    have distinct : id ≠ dst := by simpa [defines] using other
    simp [lookup_cons, beq_false_of_ne distinct]
  | _ => rfl

theorem step_out (stepped : known.step values instr = some (known', out)) :
    out = [] ∨ ∃ instr', out = [instr'] := by
  cases stepped_of_step stepped with
  | forwarded => exact .inl rfl
  | _ => exact .inr ⟨_, rfl⟩

theorem steps_cons (stepped : known.steps values (instr :: rest) = some (known', out)) :
    ∃ middle first second, known.step values instr = some (middle, first) ∧
      middle.steps values rest = some (known', second) ∧ out = first ++ second := by
  simp only [steps, bind_eq_bind, bind_eq_some_iff] at stepped
  obtain ⟨⟨middle, first⟩, headStepped, ⟨⟨_, second⟩, restStepped, equation⟩⟩ := stepped
  cases equation
  exact ⟨middle, first, second, headStepped, restStepped, rfl⟩

theorem defined_cons (instr : Instr) (rest : List Instr) :
    defined (instr :: rest) = instr.defines.toList ++ defined rest := by
  simp only [defined, filterMap_cons]
  cases instr.defines <;> rfl

theorem Fresh.cons {values : List Ty} {known known' : Known} {before : List ValueId} {instr : Instr}
    {rest out : List Instr} (fresh : Fresh known.forwarded before (defined (instr :: rest)))
    (nodup : (defined (instr :: rest)).Nodup)
    (stepped : known.step values instr = some (known', out)) :
    Fresh known.forwarded before instr.defines.toList ∧
      Fresh known'.forwarded (instr.defines.toList ++ before) (defined rest) := by
  rw [defined_cons] at fresh nodup
  refine ⟨fun id member => fresh id (mem_append_left _ member), fun id member => ?_⟩
  have new := fresh id (mem_append_right _ member)
  have other : id ∉ instr.defines.toList := fun inHead =>
    (nodup_append.mp nodup).2.2 id inHead id member rfl
  refine ⟨?_, (step_lookup stepped other).trans new.2⟩
  simp only [mem_append, not_or]
  exact ⟨other, new.1⟩

theorem steps_lookup (stepped : known.steps values instrs = some (known', out))
    (other : id ∉ defined instrs) : known'.forwarded.lookup id = known.forwarded.lookup id := by
  induction instrs generalizing known out with
  | nil => cases stepped; rfl
  | cons instr rest ih =>
    obtain ⟨middle, first, second, headStepped, restStepped, rfl⟩ := steps_cons stepped
    rw [defined_cons, mem_append, not_or] at other
    rw [ih restStepped other.2, step_lookup headStepped other.1]

theorem Covers.steps (covers : known.Covers before kept)
    (stepped : known.steps values instrs = some (known', out))
    (reads : Reads DefinedIn term before instrs) (nodup : (defined instrs).Nodup)
    (fresh : Fresh known.forwarded before (defined instrs)) :
    Reads Operand.DefinedIn (term.mapOperands (Operand.replace known'.forwarded)) kept out := by
  induction instrs generalizing known before kept out with
  | nil =>
    cases stepped
    intro operand' isOperand
    rw [Terminator.operands_mapOperands] at isOperand
    obtain ⟨operand, inTerm, rfl⟩ := mem_map.mp isOperand
    exact covers.replace (reads operand inTerm)
  | cons instr rest ih =>
    obtain ⟨middle, first, second, headStepped, restStepped, rfl⟩ := steps_cons stepped
    obtain ⟨freshHead, freshRest⟩ := Fresh.cons fresh nodup headStepped
    obtain ⟨covers', keptReads⟩ := covers.step headStepped reads.1 freshHead
    rw [defined_cons] at nodup
    have tail := ih covers' restStepped reads.2 (nodup_append.mp nodup).2.1 freshRest
    rcases step_out headStepped with rfl | ⟨instr', rfl⟩
    · exact tail
    · rw [defined_cons, append_assoc] at tail
      exact ⟨keptReads instr' (by simp), tail⟩

theorem Follows.finish {slots : List Slot} (follows : known.Follows before m m')
    (covers : known.Covers before kept) (stepped : known.steps values instrs = some (known', out))
    (reads : Reads DefinedIn term before instrs) (nodup : (defined instrs).Nodup)
    (fresh : Fresh known.forwarded before (defined instrs))
    (loads : ∀ dst src, .load dst src ∈ instrs → (at? slots src).isSome) :
    Step.Related (fun m m' => m'.locals = m.locals) (Ir.finish ops slots m instrs term)
      (Ir.finish ops slots m' out (term.mapOperands (replace known'.forwarded))) := by
  induction instrs generalizing known before kept out m m' with
  | nil =>
    cases stepped
    exact term.exec_mapOperands follows.locals fun operand member =>
      follows.read (reads operand member)
  | cons instr rest ih =>
    obtain ⟨middle, first, second, headStepped, restStepped, rfl⟩ := steps_cons stepped
    obtain ⟨freshHead, freshRest⟩ := Fresh.cons fresh nodup headStepped
    obtain ⟨covers', -⟩ := covers.step headStepped reads.1 freshHead
    have head := @Follows.step ops slots values known middle before kept instr first m m' follows
      covers headStepped reads.1 freshHead fun dst src equation =>
        loads dst src (by simp [equation])
    rw [defined_cons] at nodup
    rw [finish_cons, finish_append]
    cases result : instr.exec ops slots m with
    | error why =>
      rw [result] at head
      rw [head]
      exact .out
    | ok n =>
      rw [result] at head
      obtain ⟨n', rewritten, follows'⟩ := head
      rw [rewritten]
      exact ih follows' covers' restStepped reads.2 (nodup_append.mp nodup).2.1 freshRest
        fun dst src member => loads dst src (mem_cons_of_mem _ member)

theorem step_slot (stepped : known.step values instr = some (known', out)) (member : instr' ∈ out) :
    instr'.slot? = instr.slot? := by
  cases stepped_of_step stepped with
  | forwarded => cases member
  | computed computes =>
    cases mem_singleton.mp member
    cases computes <;> rfl
  | _ =>
    cases mem_singleton.mp member
    rfl

theorem steps_slot (stepped : known.steps values instrs = some (known', out))
    (member : instr' ∈ out) : ∃ instr ∈ instrs, instr'.slot? = instr.slot? := by
  induction instrs generalizing known out with
  | nil =>
    cases stepped
    cases member
  | cons instr rest ih =>
    obtain ⟨middle, first, second, headStepped, restStepped, rfl⟩ := steps_cons stepped
    rcases mem_append.mp member with inFirst | inSecond
    · exact ⟨instr, by simp, step_slot headStepped inFirst⟩
    · obtain ⟨instr₀, inRest, same⟩ := ih restStepped inSecond
      exact ⟨instr₀, by simp [inRest], same⟩

theorem step_total (known : Known) (typed : ∀ id ∈ instr.defines.toList, (at? values id).isSome) :
    ∃ known' out, known.step values instr = some (known', out) := by
  cases instr with
  | load dst src =>
    simp only [step, mapOperands]
    cases known.slots.lookup src with
    | some operand => exact ⟨_, _, rfl⟩
    | none =>
      obtain ⟨type, found⟩ := isSome_iff_exists.mp (typed dst (by simp [defines]))
      exact ⟨_, _, by rw [found]; rfl⟩
  | _ => exact ⟨_, _, rfl⟩

theorem steps_total (known : Known) (typed : ∀ id ∈ defined instrs, (at? values id).isSome) :
    ∃ known' out, known.steps values instrs = some (known', out) := by
  induction instrs generalizing known with
  | nil => exact ⟨known, [], rfl⟩
  | cons instr rest ih =>
    rw [defined_cons] at typed
    obtain ⟨middle, first, headStepped⟩ := known.step_total fun id member =>
      typed id (mem_append_left _ member)
    obtain ⟨known', second, restStepped⟩ := ih middle fun id member =>
      typed id (mem_append_right _ member)
    exact ⟨known', first ++ second, by simp [steps, headStepped, restStepped]⟩

end Known

/-- Block `b'` is block `b` with its loads forwarded, behind blocks that forwarded none of the
values `b` defines. -/
def Block.Forwarded (values : List Ty) (b b' : Block) : Prop :=
  ∃ forwarded known out, Fresh forwarded [] (defined b.instrs) ∧
    Known.steps values ⟨forwarded, []⟩ b.instrs = some (known, out) ∧
    b' = { b with instrs := out, term := b.term.mapOperands (replace known.forwarded) }

theorem Func.forwardBlocks_each {values : List Ty} {forwarded : List (ValueId × Operand)}
    {blocks : List Block} (nodup : (blocks.flatMap fun b => defined b.instrs).Nodup)
    (fresh : ∀ id ∈ blocks.flatMap fun b => defined b.instrs, forwarded.lookup id = none)
    (typed : ∀ id ∈ blocks.flatMap fun b => defined b.instrs, (at? values id).isSome) :
    ∃ blocks', forwardBlocks values forwarded blocks = some blocks' ∧
      blocks'.length = blocks.length ∧
      ∀ (i : Nat) b, blocks[i]? = some b →
        ∃ b', blocks'[i]? = some b' ∧ b.Forwarded values b' := by
  induction blocks generalizing forwarded with
  | nil => exact ⟨[], rfl, rfl, by simp⟩
  | cons b rest ih =>
    simp only [flatMap_cons, nodup_append, mem_append] at nodup fresh typed
    obtain ⟨known, out, stepped⟩ := Known.steps_total ⟨forwarded, []⟩ fun id member =>
      typed id (.inl member)
    obtain ⟨blocks', rewritten, length, each⟩ := @ih known.forwarded nodup.2.1
      (fun id member => by
        rw [Known.steps_lookup stepped fun inHead => nodup.2.2 id inHead id member rfl]
        exact fresh id (.inr member))
      (fun id member => typed id (.inr member))
    refine ⟨{ b with instrs := out, term := b.term.mapOperands (replace known.forwarded) }
        :: blocks', by simp [forwardBlocks, stepped, rewritten], by simp [length], ?_⟩
    intro i b₀ position
    cases i with
    | zero =>
      cases position
      exact ⟨_, rfl, forwarded, known, out, fun id member =>
        ⟨by simp, fresh id (.inl member)⟩, stepped, rfl⟩
    | succ i => exact each i b₀ position

namespace Func

/-- Function `g` is function `f` with the loads of each block forwarded. -/
structure Forwarded (f g : Func) : Prop where
  locals : g.locals = f.locals
  entry : g.entry = f.entry
  length : g.blocks.length = f.blocks.length
  each : ∀ (i : Nat) b, f.blocks[i]? = some b →
    ∃ b', g.blocks[i]? = some b' ∧ b.Forwarded f.values b'

variable {f g : Func}

theorem Valid.forwardBlocks (valid : f.Valid) :
    ∃ blocks, Func.forwardBlocks f.values [] f.blocks = some blocks ∧
      f.Forwarded { f with blocks := blocks } := by
  obtain ⟨blocks, rewritten, length, each⟩ :=
    @forwardBlocks_each f.values [] f.blocks valid.nodup (fun _ _ => rfl) valid.known
  exact ⟨blocks, rewritten, rfl, rfl, length, each⟩

theorem Forwarded.origin (forwarded : f.Forwarded g) (member : b' ∈ g.blocks) :
    ∃ b ∈ f.blocks, b.Forwarded f.values b' := by
  obtain ⟨i, position⟩ := List.getElem?_of_mem member
  have bound : i < f.blocks.length := by
    rw [← forwarded.length]
    exact (List.getElem?_eq_some_iff.mp position).1
  obtain ⟨b₀, position₀, rewritten⟩ :=
    forwarded.each i f.blocks[i] (List.getElem?_eq_getElem bound)
  cases position.symm.trans position₀
  exact ⟨_, getElem_mem bound, rewritten⟩

theorem Forwarded.slotsExist (forwarded : f.Forwarded g) (slots : f.SlotsExist) : g.SlotsExist := by
  intro b' block instr' member slot names
  obtain ⟨b, block₀, before, known, out, -, stepped, rfl⟩ := forwarded.origin block
  obtain ⟨instr, member₀, same⟩ := Known.steps_slot stepped member
  rw [forwarded.locals]
  exact slots b block₀ instr member₀ slot (same ▸ names)

theorem Valid.defined_nodup (valid : f.Valid) (block : b ∈ f.blocks) :
    (Ir.defined b.instrs).Nodup :=
  (pairwise_flatMap.mp valid.nodup).1 b block

theorem Forwarded.defined (forwarded : f.Forwarded g) (valid : f.Valid) (reads : f.Defined) :
    g.Defined := by
  intro b' block
  obtain ⟨b, block₀, before, known, out, fresh, stepped, rfl⟩ := forwarded.origin block
  exact (Known.Covers.initial before).steps stepped (reads b block₀)
    (valid.defined_nodup block₀) fresh

theorem Forwarded.runFrom (forwarded : f.Forwarded g) (valid : f.Valid) (reads : f.Defined)
    (ops : TruthOperators) (fuel : Nat) (id : BlockId) (locals : m'.locals = m.locals) :
    f.runFrom ops fuel id m = g.runFrom ops fuel id m' := by
  refine runFrom_congr_blocks (R := fun m m' => m'.locals = m.locals) forwarded.length ?_ fuel id
    locals
  intro i b position
  obtain ⟨b', position', before, known, out, fresh, stepped, rfl⟩ := forwarded.each i b position
  have block := mem_of_getElem? position
  refine ⟨_, position', fun m m' locals => ?_⟩
  rw [forwarded.locals]
  exact (Known.Follows.initial before locals).finish (Known.Covers.initial before) stepped
    (reads b block) (valid.defined_nodup block) fresh
    fun dst src member => valid.slotsExist b block _ member src rfl

end Func

end MiddleEnd.Ir
