import MiddleEnd.Pipeline.Compile
import MiddleEnd.Proofs.Files.Locations
import MiddleEnd.Proofs.Interchange.Trees

/-!
The entries of a cache: the key and the place of each, and that an entry reads back as it was
written.
-/

namespace MiddleEnd

open List

namespace Text

variable {t : Text}

theorem ofBool_append (same : ofBool b ++ t = ofBool b' ++ t') : b = b' ∧ t = t' := by
  have differ (t t' : Text) : ofBool true ++ t ≠ ofBool false ++ t' := by
    intro same
    have first : (116 : UInt8) = 102 := Option.some.inj (congrArg List.head? same)
    exact absurd first (by decide)
  cases b <;> cases b'
  · exact ⟨rfl, append_cancel_left same⟩
  · exact absurd same.symm (differ t' t)
  · exact absurd same (differ t t')
  · exact ⟨rfl, append_cancel_left same⟩

theorem hexDigits_injective {b : UInt8} (same : hexDigits 2 a.toNat = hexDigits 2 b.toNat) :
    a = b := by
  have digit : ∀ m < 16, ∀ n < 16, hexDigit m = hexDigit n → m = n := by decide
  simp only [hexDigits, nil_append, cons_append, List.cons.injEq, and_true] at same
  have high := digit _ (Nat.mod_lt _ (by decide)) _ (Nat.mod_lt _ (by decide)) same.1
  have low := digit _ (Nat.mod_lt _ (by decide)) _ (Nat.mod_lt _ (by decide)) same.2
  have := a.toNat_lt
  have := b.toNat_lt
  apply UInt8.toNat_inj.mp
  omega

theorem hex_injective (same : s.hex = t.hex) : s = t := by
  induction s generalizing t with
  | nil =>
    cases t with
    | nil => rfl
    | cons b t => cases same
  | cons a s ih =>
    cases t with
    | nil => cases same
    | cons b t =>
      obtain ⟨first, rest⟩ := append_inj same rfl
      rw [hexDigits_injective first, ih rest]

theorem mem_hex (member : b ∈ t.hex) : ∃ n < 16, b = hexDigit n := by
  obtain ⟨a, -, inside⟩ := mem_flatMap.mp member
  simp only [hexDigits, nil_append, cons_append, mem_cons, not_mem_nil, or_false] at inside
  rcases inside with rfl | rfl
  · exact ⟨_, Nat.mod_lt _ (by decide), rfl⟩
  · exact ⟨_, Nat.mod_lt _ (by decide), rfl⟩

end Text

namespace Path

theorem clean_ne_nil (path : Text) : clean path ≠ [] := by
  simp only [clean]
  split
  · exact cons_ne_nil _ _
  · split
    · exact (by decide +kernel)
    · next written => exact fun same => written (isEmpty_iff.mpr same)

theorem join_ne_nil (dir : Text) (present : path.isEmpty = false) : join dir path ≠ [] := by
  unfold join
  rw [present]
  cases dir.isEmpty <;> exact clean_ne_nil _

end Path

namespace Digest

theorem length_sum (t : Text) : (sum t).bytes.length = 32 := rfl

theorem hex_injective {d' : Digest} (same : d.hex = d'.hex) : d = d' := by
  obtain ⟨bytes⟩ := d
  obtain ⟨bytes'⟩ := d'
  exact congrArg Digest.mk (Text.hex_injective same)

end Digest

namespace Pipeline

open Interchange (encode hasForm)

/-- No two of the texts are digested alike. -/
def CollisionFree (texts : List Text) : Prop :=
  ∀ s ∈ texts, ∀ t ∈ texts, Digest.sum s = Digest.sum t → s = t

namespace Cache

def settings (version : Text) (o : Options) : Text := .concat
  ["fold=", .ofBool o.fold, ";simplify=", .ofBool o.simplify, ";emit=", o.emitMode,
    ";version=", version]

variable {version : Text} {o : Options}

theorem settings_injective (same : settings version o = settings version o') :
    o.fold = o'.fold ∧ o.simplify = o'.simplify ∧ o.emitMode = o'.emitMode := by
  simp only [settings, Text.concat, flatten_cons] at same
  obtain ⟨folds, same⟩ := Text.ofBool_append (append_cancel_left same)
  obtain ⟨simplifies, same⟩ := Text.ofBool_append (append_cancel_left same)
  exact ⟨folds, simplifies, append_cancel_right (append_cancel_left same)⟩

def digested (version : Text) (o : Options) (encoded : Text) : List Text :=
  [encoded, settings version o,
    (Digest.sum encoded).bytes ++ (Digest.sum (settings version o)).bytes]

def keyOf (version : Text) (o : Options) (encoded : Text) : Digest :=
  .sum ((Digest.sum encoded).bytes ++ (Digest.sum (settings version o)).bytes)

theorem key_eq_ok {key : Digest} :
    Cache.key version o m = .ok key ↔
      ∃ encoded, encode .messagePack (some ⟨0, [], m⟩) = .ok encoded ∧
        keyOf version o encoded = key := by
  have unfolded : Cache.key version o m = (do
      let encoded ← encode .messagePack (some ⟨0, [], m⟩)
      .ok (Digest.combine (Digest.sum encoded) [Digest.sum (settings version o)])) := rfl
  rw [unfolded, bind_eq_ok]
  simp only [Digest.combine, flatMap_cons, flatMap_nil, append_nil, keyOf, Except.ok.injEq]

theorem keyOf_injective (distinct : CollisionFree texts)
    (within : digested version o encoded ⊆ texts) (within' : digested version o' encoded' ⊆ texts)
    (same : keyOf version o encoded = keyOf version o' encoded') :
    encoded = encoded' ∧ settings version o = settings version o' := by
  simp only [digested, cons_subset] at within within'
  obtain ⟨ofModule, ofSettings, both, -⟩ := within
  obtain ⟨ofModule', ofSettings', both', -⟩ := within'
  obtain ⟨modules, options⟩ := append_inj (distinct _ both _ both' same)
    ((Digest.length_sum _).trans (Digest.length_sum _).symm)
  exact ⟨distinct _ ofModule _ ofModule' (congrArg Digest.mk modules),
    distinct _ ofSettings _ ofSettings' (congrArg Digest.mk options)⟩

theorem proper_name (key : Digest) : Path.Proper (key.hex ++ ".mp") := by
  have long : 3 ≤ (key.hex ++ (".mp" : Text)).length := by
    rw [length_append]
    exact Nat.le_add_left _ _
  constructor
  · intro slashed
    rcases mem_append.mp slashed with inside | inside
    · obtain ⟨n, small, digit⟩ := Text.mem_hex inside
      have none : ∀ n < 16, Path.slash ≠ Text.hexDigit n := by decide
      exact none n small digit
    · exact absurd inside (by decide +kernel)
  all_goals
    intro same
    rw [same] at long
    exact absurd long (by decide +kernel)

def place (c : Cache) (workDir : Text) (key : Digest) : List Text :=
  FileTree.destination workDir (c.entryPath key)

theorem place_injective {c : Cache} {key : Digest}
    (same : c.place workDir key = c.place workDir key') : key = key' := by
  have present : c.entriesDir ≠ [] := Path.join_ne_nil c.dir (by decide +kernel)
  obtain ⟨above, ends⟩ := FileTree.destination_join (proper_name key) present workDir
  obtain ⟨above', ends'⟩ := FileTree.destination_join (proper_name key') present workDir
  rw [place, place, entryPath, entryPath, ends, ends'] at same
  have names := singleton_inj.mp (append_inj' same rfl).2
  exact Digest.hex_injective (append_cancel_right names)

end Cache

namespace CacheEntry

/-- The form of an entry. Without output there is nothing in its place. -/
def form (e : CacheEntry) : MessagePack.Value :=
  .map
    [(.str "Schema", .uint 2 1), (.str "Name", .str e.name), (.str "Emit", .str e.emit),
      (.str "Version", .str e.version),
      (.str "Output", if e.output.isEmpty then .nil else .bin e.output)]

theorem toValue_toDatum (e : CacheEntry) :
    Interchange.toValue (.record .cacheEntry) e.toDatum = .ok e.form := by
  rw [toDatum, form]
  split <;> rfl

theorem fillValue_form (e : CacheEntry) :
    Interchange.fillValue (.record .cacheEntry) (Interchange.Shape.record .cacheEntry).zero e.form =
      .ok e.toDatum := by
  rw [toDatum, form]
  split <;> rfl

theorem settle_toDatum (e : CacheEntry) : e.toDatum.settle = e.toDatum := by
  rw [toDatum]
  split <;> rfl

theorem ofDatum?_toDatum (e : CacheEntry) : ofDatum? e.toDatum = some e := by
  obtain ⟨name, emit, version, output⟩ := e
  cases output <;> rfl

theorem read_encode {e : CacheEntry} (fits : hasForm .cacheEntry e.toDatum) :
    Interchange.readMessagePack .cacheEntry e.encode = .ok e.toDatum := by
  obtain ⟨v, formed, writable⟩ := Interchange.hasForm_iff.mp fits
  cases e.toValue_toDatum.symm.trans formed
  have encoded : e.encode = e.form.write := by
    rw [encode, Interchange.writeMessagePack, toValue_toDatum]
    rfl
  rw [encoded, Interchange.readMessagePack, MessagePack.read_write writable, fillValue_form, ok_map,
    settle_toDatum]

end CacheEntry

namespace Cache

variable {c : Cache} {files : FileTree} {key : Digest} {e : CacheEntry}

theorem get_of_file (found : files.find (c.entryPath key) = .ok (.file e.encode))
    (fits : hasForm .cacheEntry e.toDatum) : c.get files key = .ok (some e) := by
  simp only [get, found, CacheEntry.read_encode fits, CacheEntry.ofDatum?_toDatum]

theorem get_eq_some (found : c.get files key = .ok (some e)) :
    ∃ content, files.find (c.entryPath key) = .ok (.file content) := by
  simp only [get] at found
  split at found
  · cases found
  · cases found
  · cases found
  · next content read => exact ⟨content, read⟩

theorem put_files (filed : c.put files key e = .ok files') :
    files'.workDir = files.workDir ∧
      ∀ key' content, files'.node? (c.place files.workDir key') = some (.file content) →
        key' = key ∧ content = e.encode ∨
          files.node? (c.place files.workDir key') = some (.file content) := by
  obtain ⟨between, made, written⟩ := bind_eq_ok.mp filed
  have kept := FileTree.makeDirs_filesWithin made
  obtain ⟨same, files'⟩ := FileTree.write_files written
  refine ⟨same.trans kept.workDir, fun key' content there => ?_⟩
  rcases files' _ content there with ⟨here, rfl⟩ | before
  · rw [kept.workDir] at here
    exact .inl ⟨place_injective here, rfl⟩
  · exact .inr (kept.files _ _ before)

end Cache

end Pipeline

end MiddleEnd
