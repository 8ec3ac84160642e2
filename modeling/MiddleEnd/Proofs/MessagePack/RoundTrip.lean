import MiddleEnd.MessagePack.Reader
import Mathlib.Tactic.IntervalCases

/-!
What is written is read back. Every value with room for its numbers and lengths is what a reader
finds at the head of its text, whatever follows.
-/

namespace MiddleEnd.MessagePack

mutual
/-- Whether the format has room for every number and length in a value. -/
def Value.isWritable : Value → Bool
  | .nil | .bool _ => true
  | .uint width n => width ∈ [1, 2, 4, 8] && n < Nat.pow 256 width
  | .sint width n =>
    width ∈ [1, 2, 4, 8] && -(Nat.pow 256 width : Int) ≤ n * 2 && n * 2 < Nat.pow 256 width
  | .str t | .bin t => t.length < 0x100000000
  | .array items missing => missing == 0 && items.length < 0x100000000 && areWritable items
  | .map pairs => pairs.length < 0x100000000 && arePairsWritable pairs
  | .float _ | .ext _ | .broken => false
def areWritable : List Value → Bool
  | [] => true
  | item :: items => item.isWritable && areWritable items
def arePairsWritable : List (Value × Value) → Bool
  | [] => true
  | (key, value) :: pairs => key.isWritable && value.isWritable && arePairsWritable pairs
end

/-! What is written for each kind of value. -/

namespace Value

theorem write_uint (width n : Nat) : (uint width n).write = writeUint width n := rfl

theorem write_sint (width : Nat) (n : Int) : (sint width n).write = writeSint width n := rfl

theorem write_str (t : Text) :
    (str t).write = header t.length 32 0xA0 (some 0xD9) 0xDA 0xDB ++ t := rfl

theorem write_bin (t : Text) : (bin t).write = header t.length 0 0 (some 0xC4) 0xC5 0xC6 ++ t := rfl

theorem write_array (items : List Value) (missing : Nat) :
    (array items missing).write =
      header items.length 16 0x90 none 0xDC 0xDD ++ writeItems items := rfl

theorem write_map (pairs : List (Value × Value)) :
    (map pairs).write = header pairs.length 16 0x80 none 0xDE 0xDF ++ writePairs pairs := rfl

end Value

@[simp] theorem length_bigEndian (width n : Nat) : (bigEndian width n).length = width := by
  induction width generalizing n with
  | zero => rfl
  | succ width ih => simp [bigEndian, ih]

theorem ofBigEndian_append (t : Text) (b : UInt8) :
    ofBigEndian (t ++ [b]) = 256 * ofBigEndian t + b.toNat := by
  simp [ofBigEndian]

theorem ofBigEndian_bigEndian (width n : Nat) :
    ofBigEndian (bigEndian width n) = n % Nat.pow 256 width := by
  induction width generalizing n with
  | zero => simp [bigEndian, ofBigEndian, Nat.mod_one]
  | succ width ih =>
    have lowest : (UInt8.ofNat n).toNat = n % 256 := UInt8.toNat_ofNat'
    have power : Nat.pow 256 (width + 1) = 256 * Nat.pow 256 width := Nat.mul_comm _ _
    rw [bigEndian, ofBigEndian_append, ih, lowest, power, Nat.mod_mul, Nat.add_comm]

theorem takeBytes?_append (t rest : Text) : takeBytes? t.length (t ++ rest) = some (t, rest) := by
  simp [takeBytes?]

variable {width fuel : Nat} {t : Text} {code : UInt8}

theorem number?_append (small : n < Nat.pow 256 width) (rest : Text) :
    number? width (bigEndian width n ++ rest) = some (n, rest) := by
  have taken := takeBytes?_append (bigEndian width n) rest
  rw [length_bigEndian] at taken
  rw [number?, taken]
  simp only [Option.map_some, ofBigEndian_bigEndian, Nat.mod_eq_of_lt small]

theorem ofBytes_append (make : Text → Value) (t rest : Text) :
    ofBytes t.length make (t ++ rest) = (make t, some rest) := by
  simp [ofBytes, takeBytes?_append]

theorem ofBytes_bigEndian (make : Text → Value) (width n : Nat) (rest : Text) :
    ofBytes width make (bigEndian width n ++ rest) = (make (bigEndian width n), some rest) := by
  have read := ofBytes_append make (bigEndian width n) rest
  rwa [length_bigEndian] at read

theorem ofCounted_append (make : Text → Value) (small : t.length < Nat.pow 256 width) (rest : Text) :
    ofCounted width make (bigEndian width t.length ++ (t ++ rest)) = (make t, some rest) := by
  rw [ofCounted, number?_append small]
  exact ofBytes_append make t rest

theorem signed_bigEndian (low : -(Nat.pow 256 width : Int) ≤ n * 2)
    (high : n * 2 < Nat.pow 256 width) :
    signed width (ofBigEndian (bigEndian width (n % Nat.pow 256 width).toNat)) = n := by
  have positive : (0 : Int) < Nat.pow 256 width := Int.natCast_pos.mpr (Nat.pow_pos (by decide))
  have bits := Int.toNat_of_nonneg (Int.emod_nonneg n (Int.ne_of_gt positive))
  have small : (n % Nat.pow 256 width).toNat < Nat.pow 256 width := by
    rw [← Int.ofNat_lt, bits]
    exact Int.emod_lt_of_pos n positive
  rw [ofBigEndian_bigEndian, Nat.mod_eq_of_lt small, signed, bits, Int.emod_bmod,
    Int.bmod_eq_of_le_mul_two low high]

/-! The head of a text with a length in it. -/

section Header

variable {n small : Nat} {base : UInt8} {one? : Option UInt8} {two four : UInt8}

theorem header_cases (fits : n < 0x100000000) :
    (n < small ∧ header n small base one? two four = [base + UInt8.ofNat n]) ∨
    (∃ one, one? = some one ∧ n < Nat.pow 256 1 ∧
      header n small base one? two four = one :: bigEndian 1 n) ∨
    (n < Nat.pow 256 2 ∧ header n small base one? two four = two :: bigEndian 2 n) ∨
    n < Nat.pow 256 4 ∧ header n small base one? two four = four :: bigEndian 4 n := by
  unfold header header.wide
  by_cases inCode : n < small
  · exact .inl ⟨inCode, if_pos inCode⟩
  · rw [if_neg inCode]
    have wide : (n < Nat.pow 256 2 ∧
        (if n < 0x10000 then two :: bigEndian 2 n else four :: bigEndian 4 n) =
          two :: bigEndian 2 n) ∨
        n < Nat.pow 256 4 ∧
          (if n < 0x10000 then two :: bigEndian 2 n else four :: bigEndian 4 n) =
            four :: bigEndian 4 n := by
      by_cases inTwo : n < 0x10000
      · exact .inl ⟨inTwo, if_pos inTwo⟩
      · exact .inr ⟨fits, if_neg inTwo⟩
    cases one? with
    | none => exact .inr (.inr wide)
    | some one =>
      by_cases inOne : n < 0x100
      · exact .inr (.inl ⟨one, rfl, inOne, if_pos inOne⟩)
      · simp only [if_neg inOne]
        exact .inr (.inr wide)

end Header

theorem length_header_pos (n small : Nat) (base : UInt8) (one? : Option UInt8) (two four : UInt8) :
    0 < (header n small base one? two four).length := by
  unfold header header.wide
  split
  · simp
  · split
    · split
      · simp
      · split <;> simp
    · split <;> simp

theorem Value.write_length_pos (v : Value) (writable : v.isWritable) : 0 < v.write.length := by
  cases v with
  | float | ext | broken => cases writable
  | nil | bool => exact Nat.one_pos
  | uint width n =>
    rw [write_uint, writeUint]
    split <;> simp
  | sint width n =>
    simp only [write_sint, writeSint]
    split <;> simp
  | str t | bin t | array items missing | map pairs =>
    simp only [write_str, write_bin, write_array, write_map, List.length_append]
    exact Nat.add_pos_left (length_header_pos ..) _

theorem readValue_scalar {read : Read Value} (scalar : scalar? code t = some read) :
    readValue (fuel + 1) (code :: t) = read := by
  rw [readValue, scalar]

section Counted

variable {fuel : Nat} {base one two four : UInt8}

theorem read_counted (make : Text → Value) (fits : t.length < 0x100000000)
    (inCode : ∀ n < small, ∀ u, scalar? (base + UInt8.ofNat n) u = some (ofBytes n make u))
    (inOne : ∀ u, scalar? one u = some (ofCounted 1 make u))
    (inTwo : ∀ u, scalar? two u = some (ofCounted 2 make u))
    (inFour : ∀ u, scalar? four u = some (ofCounted 4 make u)) (rest : Text) :
    readValue (fuel + 1) (header t.length small base (some one) two four ++ (t ++ rest)) =
      (make t, some rest) := by
  obtain ⟨below, form⟩ | ⟨_, isOne, below, form⟩ | ⟨below, form⟩ | ⟨below, form⟩ :=
    @header_cases t.length small base (some one) two four fits
  · rw [form]
    exact (readValue_scalar (inCode _ below _)).trans (ofBytes_append make t rest)
  · cases isOne
    rw [form]
    exact (readValue_scalar (inOne _)).trans (ofCounted_append make below rest)
  · rw [form]
    exact (readValue_scalar (inTwo _)).trans (ofCounted_append make below rest)
  · rw [form]
    exact (readValue_scalar (inFour _)).trans (ofCounted_append make below rest)

theorem read_parts {pairs : Bool} {n : Nat} (fits : n < 0x100000000) {content rest : Text}
    {v : Value}
    (inCode : ∀ n < 16, ∀ u, scalar? (base + UInt8.ofNat n) u = none ∧
      parts? (base + UInt8.ofNat n) u = some (pairs, n, u))
    (inTwo : ∀ u u', number? 2 u = some (n, u') → scalar? two u = none ∧
      parts? two u = some (pairs, n, u'))
    (inFour : ∀ u u', number? 4 u = some (n, u') → scalar? four u = none ∧
      parts? four u = some (pairs, n, u'))
    (made : ∀ code u, scalar? code u = none → parts? code u = some (pairs, n, content) →
      readValue (fuel + 1) (code :: u) = (v, some rest)) :
    readValue (fuel + 1) (header n 16 base none two four ++ content) = (v, some rest) := by
  obtain ⟨below, form⟩ | ⟨_, isOne, -⟩ | ⟨below, form⟩ | ⟨below, form⟩ :=
    @header_cases n 16 base none two four fits
  · rw [form]
    obtain ⟨composed, parts⟩ := inCode n below content
    exact made _ _ composed parts
  · cases isOne
  · rw [form]
    obtain ⟨composed, parts⟩ := inTwo _ _ (number?_append below content)
    exact made _ _ composed parts
  · rw [form]
    obtain ⟨composed, parts⟩ := inFour _ _ (number?_append below content)
    exact made _ _ composed parts

end Counted

theorem read_str (fits : t.length < 0x100000000) (fuel : Nat) (rest : Text) :
    readValue (fuel + 1) ((Value.str t).write ++ rest) = (.str t, some rest) := by
  rw [Value.write_str, List.append_assoc]
  refine read_counted .str fits ?_ (fun _ => rfl) (fun _ => rfl) (fun _ => rfl) rest
  intro n small u
  interval_cases n <;> rfl

theorem read_bin (fits : t.length < 0x100000000) (fuel : Nat) (rest : Text) :
    readValue (fuel + 1) ((Value.bin t).write ++ rest) = (.bin t, some rest) := by
  rw [Value.write_bin, List.append_assoc]
  refine read_counted .bin fits ?_ (fun _ => rfl) (fun _ => rfl) (fun _ => rfl) rest
  intro n small
  exact absurd small (Nat.not_lt_zero n)

theorem readValue_items (composed : scalar? code t = none)
    (parts : parts? code t = some (false, count, t')) :
    readValue (fuel + 1) (code :: t) =
      (.array (readItems fuel count t').1 (count - (readItems fuel count t').1.length),
        (readItems fuel count t').2) := by
  simp only [readValue, composed, parts]

theorem readValue_pairs (composed : scalar? code t = none)
    (parts : parts? code t = some (true, count, t')) :
    readValue (fuel + 1) (code :: t) =
      (.map (readPairs fuel count t').1, (readPairs fuel count t').2) := by
  simp only [readValue, composed, parts]

theorem read_array (fits : items.length < 0x100000000)
    (read : readItems fuel items.length (writeItems items ++ rest) = (items, some rest)) :
    readValue (fuel + 1) ((Value.array items 0).write ++ rest) = (.array items 0, some rest) := by
  rw [Value.write_array, List.append_assoc]
  apply @read_parts _ _ _ _ false _ fits
  · intro n small u
    interval_cases n <;> exact ⟨rfl, rfl⟩
  · intro u u' counted
    exact ⟨rfl, congrArg (Option.map _) counted⟩
  · intro u u' counted
    exact ⟨rfl, congrArg (Option.map _) counted⟩
  · intro code u composed parts
    rw [readValue_items composed parts, read, Nat.sub_self]

theorem read_map (fits : pairs.length < 0x100000000)
    (read : readPairs fuel pairs.length (writePairs pairs ++ rest) = (pairs, some rest)) :
    readValue (fuel + 1) ((Value.map pairs).write ++ rest) = (.map pairs, some rest) := by
  rw [Value.write_map, List.append_assoc]
  apply @read_parts _ _ _ _ true _ fits
  · intro n small u
    interval_cases n <;> exact ⟨rfl, rfl⟩
  · intro u u' counted
    exact ⟨rfl, congrArg (Option.map _) counted⟩
  · intro u u' counted
    exact ⟨rfl, congrArg (Option.map _) counted⟩
  · intro code u composed parts
    rw [readValue_pairs composed parts, read]

theorem scalar?_uint (known : width ∈ [1, 2, 4, 8]) (t : Text) :
    scalar? (uintCode width) t =
      some (ofBytes width (fun bytes => .uint width (ofBigEndian bytes)) t) := by
  simp only [List.mem_cons, List.not_mem_nil, or_false] at known
  rcases known with rfl | rfl | rfl | rfl <;> rfl

theorem scalar?_sint (known : width ∈ [1, 2, 4, 8]) (t : Text) :
    scalar? (sintCode width) t =
      some (ofBytes width (fun bytes => .sint width (signed width (ofBigEndian bytes))) t) := by
  simp only [List.mem_cons, List.not_mem_nil, or_false] at known
  rcases known with rfl | rfl | rfl | rfl <;> rfl

theorem width_pos (known : width ∈ [1, 2, 4, 8]) : 1 ≤ width := by
  simp only [List.mem_cons, List.not_mem_nil, or_false] at known
  omega

theorem read_uint (writable : (Value.uint width n).isWritable) (fuel : Nat) (rest : Text) :
    readValue (fuel + 1) ((Value.uint width n).write ++ rest) = (.uint width n, some rest) := by
  simp only [Value.isWritable, Bool.and_eq_true, decide_eq_true_eq] at writable
  obtain ⟨known, small⟩ := writable
  have form : (Value.uint width n).write = uintCode width :: bigEndian width n := by
    simp only [Value.write_uint, writeUint, Nat.ne_of_gt (width_pos known), if_false]
  rw [form, List.cons_append, readValue_scalar (scalar?_uint known _), ofBytes_bigEndian,
    ofBigEndian_bigEndian, Nat.mod_eq_of_lt small]

theorem read_sint (writable : (Value.sint width n).isWritable) (fuel : Nat) (rest : Text) :
    readValue (fuel + 1) ((Value.sint width n).write ++ rest) = (.sint width n, some rest) := by
  simp only [Value.isWritable, Bool.and_eq_true, decide_eq_true_eq] at writable
  obtain ⟨⟨known, low⟩, high⟩ := writable
  have form : (Value.sint width n).write =
      sintCode width :: bigEndian width (n % Nat.pow 256 width).toNat := by
    simp only [Value.write_sint, writeSint, Nat.max_eq_left (width_pos known),
      Nat.ne_of_gt (width_pos known), if_false]
  rw [form, List.cons_append, readValue_scalar (scalar?_sint known _), ofBytes_bigEndian,
    signed_bigEndian low high]

theorem reads (fuel : Nat) :
    (∀ (v : Value) rest, v.isWritable → 2 * v.write.length ≤ fuel + 1 →
      readValue fuel (v.write ++ rest) = (v, some rest)) ∧
    (∀ items rest, areWritable items → 2 * (writeItems items).length ≤ fuel →
      readItems fuel items.length (writeItems items ++ rest) = (items, some rest)) ∧
    ∀ pairs rest, arePairsWritable pairs → 2 * (writePairs pairs).length ≤ fuel →
      readPairs fuel pairs.length (writePairs pairs ++ rest) = (pairs, some rest) := by
  induction fuel with
  | zero =>
    refine ⟨fun v rest writable bound => ?_, fun items rest writable bound => ?_,
      fun pairs rest writable bound => ?_⟩
    · have := v.write_length_pos writable
      omega
    · cases items with
      | nil => rfl
      | cons item items =>
        simp only [areWritable, Bool.and_eq_true] at writable
        have := item.write_length_pos writable.1
        simp only [writeItems, List.length_append] at bound
        omega
    · cases pairs with
      | nil => rfl
      | cons pair pairs =>
        simp only [arePairsWritable, Bool.and_eq_true] at writable
        have := pair.1.write_length_pos writable.1.1
        simp only [writePairs, List.length_append] at bound
        omega
  | succ fuel ih =>
    obtain ⟨onValue, onItems, onPairs⟩ := ih
    refine ⟨fun v rest writable bound => ?_, fun items rest writable bound => ?_,
      fun pairs rest writable bound => ?_⟩
    · cases v with
      | float | ext | broken => cases writable
      | nil => rfl
      | bool b => cases b <;> rfl
      | uint width n => exact read_uint writable fuel rest
      | sint width n => exact read_sint writable fuel rest
      | str t => exact read_str (by simpa [Value.isWritable] using writable) fuel rest
      | bin t => exact read_bin (by simpa [Value.isWritable] using writable) fuel rest
      | array items missing =>
        simp only [Value.isWritable, Bool.and_eq_true, beq_iff_eq, decide_eq_true_eq] at writable
        obtain ⟨⟨rfl, fits⟩, each⟩ := writable
        refine read_array fits (onItems items rest each ?_)
        have := length_header_pos items.length 16 0x90 none 0xDC 0xDD
        simp only [Value.write_array, List.length_append] at bound
        omega
      | map pairs =>
        simp only [Value.isWritable, Bool.and_eq_true, decide_eq_true_eq] at writable
        refine read_map writable.1 (onPairs pairs rest writable.2 ?_)
        have := length_header_pos pairs.length 16 0x80 none 0xDE 0xDF
        simp only [Value.write_map, List.length_append] at bound
        omega
    · cases items with
      | nil => rfl
      | cons item items =>
        simp only [areWritable, Bool.and_eq_true] at writable
        have := item.write_length_pos writable.1
        simp only [writeItems, List.length_append] at bound
        simp only [writeItems, List.length_cons, List.append_assoc, readItems]
        rw [onValue item _ writable.1 (by omega)]
        simp only
        rw [onItems items rest writable.2 (by omega)]
    · cases pairs with
      | nil => rfl
      | cons pair pairs =>
        simp only [arePairsWritable, Bool.and_eq_true] at writable
        have := pair.1.write_length_pos writable.1.1
        have := pair.2.write_length_pos writable.1.2
        simp only [writePairs, List.length_append] at bound
        simp only [writePairs, List.length_cons, List.append_assoc, readPairs]
        rw [onValue pair.1 _ writable.1.1 (by omega)]
        simp only
        rw [onValue pair.2 _ writable.1.2 (by omega)]
        simp only
        rw [onPairs pairs rest writable.2 (by omega)]

theorem read_write (writable : v.isWritable) : read v.write = v := by
  have whole := (reads (2 * v.write.length + 2)).1 v [] writable (by omega)
  rw [List.append_nil] at whole
  rw [read, whole]

theorem write_injective {w : Value} (left : v.isWritable) (right : w.isWritable)
    (same : v.write = w.write) : v = w := by
  rw [← read_write left, same, read_write right]

end MiddleEnd.MessagePack
