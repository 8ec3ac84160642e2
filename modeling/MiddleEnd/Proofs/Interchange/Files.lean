import MiddleEnd.Proofs.Interchange.MessagePackForm
import MiddleEnd.Proofs.Interchange.Renaming
import MiddleEnd.Proofs.Syntax.NodeIds
import MiddleEnd.Proofs.Text.Normal

/-!
Files there and back: what is written is read, and whatever is read can be written and read again.
-/

namespace MiddleEnd

open List

namespace Interchange

def Format.capacity : Format → Capacity
  | .messagePack => .messagePack
  | .json => .json

theorem Format.capacity_empty (format : Format) : format.capacity.text [] := by
  cases format <;> rfl

variable {normalize : Text → Text} {format : Format} {d : Datum} {t : Text} {f : File}
  {raw : Module}

theorem Format.read_write {r : RecordType} (sound : Sound format.capacity (.record r) d)
    (shallow : format = .json → ∀ j, toJson (.record r) d = .ok j → j.nesting ≤ Json.maxDepth) :
    ∃ t, format.write r d = .ok t ∧ format.read r t = .ok d := by
  have settled := settle_eq_self sound.2
  cases format with
  | messagePack =>
    obtain ⟨t, written, read⟩ := readMessagePack_write sound.1
    rw [settled] at read
    refine ⟨t, ?_, read⟩
    rw [write, written, ok_mapError]
  | json =>
    obtain ⟨t, written, read⟩ := readJson_write sound.1 (shallow rfl)
    rw [settled] at read
    exact ⟨t, written, read⟩

theorem Format.read_sound {r : RecordType} (tree : (Shape.record r).isTree)
    (read : format.read r t = .ok d) : Sound format.capacity (.record r) d := by
  cases format with
  | messagePack => exact readMessagePack_fits tree read
  | json => exact (readJson_fits read).1

theorem checkedModule_toDatum (representable : m.Representable c) (numbered : m.Numbered)
    (normal : ∀ name ∈ m.names, normalize name = name) :
    checkedModule normalize m.toDatum = .ok m := by
  rw [checkedModule, (Module.toDatum_sound representable).1]
  simp only [Module.mapNames_eq_self normal, Module.idProblems_eq_nil.mpr numbered]

theorem checkedModule_eq_ok (read : checkedModule normalize d = .ok m) :
    ∃ raw, Module.ofDatum d = some raw ∧ m = raw.mapNames normalize ∧ m.Numbered := by
  unfold checkedModule at read
  split at read
  · cases read
  · next raw found =>
    dsimp only at read
    split at read
    · next clean =>
      cases read
      exact ⟨raw, found, rfl, Module.idProblems_eq_nil.mp clean⟩
    · cases read

theorem schema_ofInt (allowed : (Shape.unsigned 2).allows schema) :
    ((UInt16.ofInt schema).toNat : Int) = schema := by
  have size : Nat.pow 256 2 = 65536 := rfl
  simp only [Shape.allows, Bool.and_eq_true, decide_eq_true_eq] at allowed
  simp only [UInt16.ofInt, UInt16.toNat_ofNat']
  omega

theorem allows_schema (schema : UInt16) : (Shape.unsigned 2).allows schema.toNat := by
  have size : Nat.pow 256 2 = 65536 := rfl
  have := schema.toNat_lt
  simp only [Shape.allows, Bool.and_eq_true, decide_eq_true_eq]
  omega

theorem ofInt_schema (schema : UInt16) : UInt16.ofInt schema.toNat = schema := by
  apply UInt16.toNat_inj.mp
  have := schema.toNat_lt
  simp only [UInt16.ofInt, UInt16.toNat_ofNat']
  omega

namespace File

theorem toDatum_sound (produced : c.text f.producer)
    (module : Sound c (.link .module) f.module.toDatum) : Sound c (.record .file) f.toDatum := by
  have whole (module : Datum) (fitting : fits c (.link .module) module) :
      fits c (.record .file) (.record [.number f.schema.toNat, .text f.producer, module]) := by
    simp only [fits, fieldsFit, RecordType.fields, allows_schema, produced, fitting, decide_true,
      Bool.and_self]
  exact ⟨whole _ module.1, Bool.and_eq_true_iff.mpr ⟨module.2, rfl⟩⟩

theorem withSchema_eq (schema : f.schema = 0 ∨ f.schema = 1) :
    f.withSchema = { f with schema := 1 } := by
  obtain ⟨found, producer, module⟩ := f
  rcases schema with rfl | rfl <;> rfl

end File

theorem decode_encode (schema : f.schema = 0 ∨ f.schema = 1)
    (produced : format.capacity.text f.producer)
    (representable : f.module.Representable format.capacity) (numbered : f.module.Numbered)
    (normal : ∀ name ∈ f.module.names, normalize name = name)
    (shallow : format = .json → ∀ j, toJson (.record .file) f.withSchema.toDatum = .ok j →
      j.nesting ≤ Json.maxDepth) :
    ∃ t, encode format (some f) = .ok t ∧
      decode normalize format t = .ok { f with schema := 1 } := by
  rw [File.withSchema_eq schema] at shallow
  have sound : Sound format.capacity (.record .file) (File.toDatum { f with schema := 1 }) :=
    File.toDatum_sound produced (Module.toDatum_sound representable).2
  obtain ⟨t, written, read⟩ := Format.read_write sound shallow
  refine ⟨t, ?_, ?_⟩
  · rw [encode, File.withSchema_eq schema, written]
  · rw [decode, read, ok_mapError, ok_bind, File.toDatum]
    dsimp only
    rw [ofInt_schema, currentSchema, if_pos rfl,
      checkedModule_toDatum representable numbered normal, ok_bind]

theorem decode_eq_ok (decoded : decode normalize format t = .ok f) :
    ∃ schema d, format.read .file t = .ok (.record [.number schema, .text f.producer, d]) ∧
      UInt16.ofInt schema = 1 ∧ f.schema = 1 ∧
      checkedModule normalize d = .ok f.module := by
  obtain ⟨d, read, rest⟩ := bind_eq_ok.mp decoded
  have read := mapError_eq_ok.mp read
  split at rest
  · next schema producer module _ =>
    dsimp only at rest
    split at rest
    · next current =>
      obtain ⟨m, checked, equation⟩ := bind_eq_ok.mp rest
      cases equation
      exact ⟨schema, module, read, current, current, checked⟩
    · cases rest
  · cases rest

/-- What a file holds that was read: a module whose names were put in normal form. -/
structure File.Decoded (normalize : Text → Text) (format : Format) (t : Text) (f : File)
    (raw : Module) : Prop where
  read : format.read .file t =
    .ok (.record [.number f.schema.toNat, .text f.producer, raw.toDatum])
  schema : f.schema = 1
  produced : format.capacity.text f.producer
  representable : raw.Representable format.capacity
  normalized : f.module = raw.mapNames normalize
  numbered : f.module.Numbered

theorem decoded_of_decode (decoded : decode normalize format t = .ok f) :
    ∃ raw, f.Decoded normalize format t raw := by
  obtain ⟨schema, d, read, current, same, checked⟩ := decode_eq_ok decoded
  obtain ⟨raw, found, normalized, numbered⟩ := checkedModule_eq_ok checked
  obtain ⟨fitting, settled⟩ := Format.read_sound (by decide) read
  simp only [fits, fieldsFit, RecordType.fields, Bool.and_eq_true] at fitting
  obtain ⟨allowed, ⟨-, produced⟩, ofModule, -⟩ := fitting
  simp only [isSettled, areSettled, Bool.true_and, Bool.and_true] at settled
  obtain ⟨back, representable⟩ := Module.ofDatum_sound ⟨ofModule, settled⟩ found
  refine ⟨raw, ?_, same, produced, representable, normalized, numbered⟩
  rw [back, same, ← current, schema_ofInt allowed, read]

theorem File.Decoded.exists_raw (decoded : f.Decoded normalize format t raw) {name : Text}
    (member : name ∈ f.module.names) : ∃ before ∈ raw.names, name = normalize before := by
  rw [decoded.normalized, Module.names_mapNames, mem_map] at member
  obtain ⟨before, inside, rfl⟩ := member
  exact ⟨before, inside, rfl⟩

/-- A normal form that is for text: it has nothing for nothing, and is valid where the text is. -/
structure KeepsText (normalize : Text → Text) : Prop where
  empty : normalize [] = []
  valid : ∀ t : Text, t.isUtf8 → (normalize t).isUtf8

theorem keepsText_normalize : KeepsText Text.normalize :=
  ⟨Text.normalize_nil, fun _ => Text.isUtf8_normalize⟩

theorem File.Decoded.representable_module (keeps : KeepsText normalize)
    (decoded : f.Decoded normalize format t raw)
    (short : format = .messagePack → ∀ name ∈ f.module.names, name.length < 0x100000000) :
    f.module.Representable format.capacity := by
  rw [decoded.normalized] at short ⊢
  refine decoded.representable.mapNames fun name member => ?_
  cases format with
  | messagePack =>
    refine decide_eq_true (short rfl _ ?_)
    rw [Module.names_mapNames]
    exact mem_map_of_mem member
  | json => exact keeps.valid name (decoded.representable.named name member)

theorem File.Decoded.shallow (keeps : KeepsText normalize)
    (decoded : f.Decoded normalize .json t raw)
    (formed : toJson (.record .file) f.toDatum = .ok j) : j.nesting ≤ Json.maxDepth := by
  have bound := (readJson_fits decoded.read).2
  have lower := raw.noDeeper keeps.empty
  rw [← decoded.normalized] at lower
  have asLink : toJson (.record .file) f.toDatum = toJson (.link .file) f.toDatum := by
    rw [File.toDatum, toJson_record (.inl rfl), toJson_record (.inr rfl)]
  rw [asLink] at formed
  have nested := toJson_nesting (by simp) formed
  have whole : NoDeeper (.link .file) f.toDatum
      (.record [.number f.schema.toNat, .text f.producer, raw.toDatum]) :=
    .link ⟨.refl _ _, .refl _ _, lower, rfl⟩
  exact Nat.le_trans nested (Nat.le_trans whole.1 bound)

/-- MessagePack gives back every file of a module that it can carry, in whatever normal form its
names are. -/
theorem messagePack_round_trip (normalize : Text → Text) (f : File)
    (schema : f.schema = 0 ∨ f.schema = 1)
    (produced : f.producer.length < 0x100000000) (representable : f.module.Representable .messagePack)
    (numbered : f.module.Numbered) (normal : ∀ name ∈ f.module.names, normalize name = name) :
    ∃ t, encode .messagePack (some f) = .ok t ∧
      decode normalize .messagePack t = .ok { f with schema := 1 } :=
  decode_encode schema (decide_eq_true produced) representable numbered normal
    fun other => by cases other

/-- A block without a list beside one with an empty list, and a list of statements that a return
does not read. -/
def keptApart : File where
  schema := 0
  producer := "<\"\\\n&>"
  module :=
    { id := 1
      name := "m"
      funcs := some
        [none,
          some
            { id := 2
              name := "f"
              result := .int
              body := .block ⟨3, []⟩ (some
                [.block ⟨4, []⟩ none, .block ⟨5, []⟩ (some []),
                  .ret ⟨6, [("block", .record [.list [] []])]⟩ (.int ⟨7, []⟩ (-2147483648))]) }] }

theorem keptApart_representable (format : Format) :
    keptApart.module.Representable format.capacity := by
  have nothing := @Node.carries_nothing format.capacity format.capacity_empty
  have behind : Node.Carries format.capacity .stmt "return"
      ⟨6, [("block", .record [.list [] []])]⟩ := by
    refine ⟨[.record [.list [] []], .record [.text [], .number 0, .absent],
      .record [.absent, .absent], .record [.absent], .record [.absent, .absent, .absent],
      .record [.absent, .absent]], ?_, rfl, rfl⟩
    cases format <;> decide
  refine ⟨by cases format <;> decide, ?_, ?_⟩
  · intro funcs listed
    cases listed
    cases format <;> rfl
  · rw [Module.forall_mem_nodes]
    intro f member
    cases (mem_cons.mp member).resolve_left (by simp) with
    | tail _ missing => cases missing
    | head =>
      simp only [Func.nodes_eq, Stmt.nodes_block, Stmt.nodesOfList_cons, Stmt.nodes_bare,
        Stmt.nodesOfList_nil, Stmt.nodes_ret, Expr.nodes, Expr.walk, forall_mem_cons,
        append_nil, cons_append, nil_append]
      refine ⟨⟨rfl, by cases format <;> decide⟩, ⟨nothing .., by cases format <;> rfl⟩, nothing ..,
        ⟨nothing .., by cases format <;> rfl⟩, behind, nothing .., forall_mem_nil _⟩

theorem keptApart_messagePack : ∃ t, encode .messagePack (some keptApart) = .ok t ∧
    decode Text.normalize .messagePack t = .ok { keptApart with schema := 1 } :=
  messagePack_round_trip Text.normalize keptApart (.inl rfl) (by decide)
    (keptApart_representable .messagePack)
    ⟨by decide, by decide⟩ (by decide +kernel)

/-- JSON gives back every file of a module that it can carry and that nests no deeper than is read,
in whatever normal form its names are. -/
theorem json_round_trip (normalize : Text → Text) (f : File)
    (schema : f.schema = 0 ∨ f.schema = 1)
    (produced : f.producer.isUtf8) (representable : f.module.Representable .json)
    (numbered : f.module.Numbered) (normal : ∀ name ∈ f.module.names, normalize name = name)
    (shallow : ∀ json, toJson (.record .file) f.withSchema.toDatum = .ok json →
      json.nesting ≤ Json.maxDepth) :
    ∃ t, encode .json (some f) = .ok t ∧
      decode normalize .json t = .ok { f with schema := 1 } :=
  decode_encode schema produced representable numbered normal fun _ => shallow

theorem keptApart_json : ∃ t, encode .json (some keptApart) = .ok t ∧
    decode Text.normalize .json t = .ok { keptApart with schema := 1 } := by
  apply json_round_trip Text.normalize keptApart (.inl rfl) (by decide +kernel)
    (keptApart_representable .json)
    ⟨by decide, by decide⟩ (by decide +kernel)
  intro json formed
  have nested := toJson_nesting (fun r _ => rfl) formed
  have flat : depth (.record .file) keptApart.withSchema.toDatum ≤ Json.maxDepth := by
    decide +kernel
  exact Nat.le_trans nested flat

/-- Whatever is read can be written, and reads as itself. The normal form of a name may be longer
than the name that was read, and MessagePack has 32 bits for its length. -/
theorem decoded_file_round_trips {normalize : Text → Text} {format : Format} {b : Text} {f : File}
    (keeps : KeepsText normalize) (decoded : decode normalize format b = .ok f)
    (idempotent : ∀ raw : Text, normalize raw ∈ f.module.names →
      normalize (normalize raw) = normalize raw)
    (short : format = .messagePack → ∀ name ∈ f.module.names, name.length < 0x100000000) :
    ∃ t, encode format (some f) = .ok t ∧ decode normalize format t = .ok f := by
  obtain ⟨raw, decoded⟩ := decoded_of_decode decoded
  have current : { f with schema := 1 } = f := by rw [← decoded.schema]
  have written := File.withSchema_eq (.inr decoded.schema)
  rw [← current]
  have representable := decoded.representable_module keeps short
  refine decode_encode (.inr rfl) decoded.produced representable decoded.numbered ?_ ?_
  · intro name member
    obtain ⟨before, -, rfl⟩ := decoded.exists_raw member
    exact idempotent before member
  · rintro rfl j formed
    rw [current, written, current] at formed
    exact decoded.shallow keeps formed

/-- Keys in another case and order, a key said twice, and more text behind the file. -/
def misordered : Text :=
  "\x7b\"Module\": \x7b\"id\": 7, \"funcs\": [\x7b\"id\": 2, \"result\": \"Unit\", \"body\":
    \x7b\"kind\": \"return\", \"id\": 3, \"block\": \x7b\"stmts\": []\x7d\x7d\x7d],
    \"name\": \"m\", \"id\": 1\x7d, \"schema\": 1\x7d x"

theorem misordered_round_trips : ∃ f t, decode Text.normalize .json misordered = .ok f ∧
    encode .json (some f) = .ok t ∧ decode Text.normalize .json t = .ok f := by
  have names : (decode Text.normalize .json misordered).toOption.map (fun f => f.module.names) =
      some [Text.ofString "m", []] := by
    decide +kernel
  obtain ⟨f, read, names⟩ := Option.map_eq_some_iff.mp names
  have decoded := toOption_eq_some.mp read
  obtain ⟨t, again⟩ := decoded_file_round_trips keepsText_normalize decoded (by
    rw [names]
    intro raw member
    have fixed : ∀ name ∈ [Text.ofString "m", []], name.normalize = name := by decide +kernel
    exact fixed _ member) (fun other => by cases other)
  exact ⟨f, t, decoded, again⟩

end Interchange

end MiddleEnd
