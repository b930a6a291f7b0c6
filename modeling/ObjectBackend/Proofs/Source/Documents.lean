import ObjectBackend.Proofs.Floating.Shortest
import ObjectBackend.Proofs.Json.Reading
import ObjectBackend.Proofs.Json.Records
import ObjectBackend.Source.Decoding
import ObjectBackend.Source.Encoding

/-!
# Documents of programs

Whatever is written of a program can be read as a document (`Program.isWritable_toJson`). An integer
of up to 64 bits is written as a plain numeral that can be read, and so is every finite real; of the
long reals this takes a look at the four greatest ones, whose decimals round to them and not beyond.
A real that is not finite is written as null.
-/

namespace ObjectBackend

open Floating

namespace Json

section Numbers

/-- An integer of up to 64 bits can be read. -/
lemma isWritable_ofInt {n : Int} (less : n.natAbs < UInt64.size) : (ofInt n).IsWritable := by
  refine .number ⟨isDigit_toDigits, Nat.toDigits_ne_nil, fun _ eq => (eq_nil_of_toDigits_eq eq).1,
    List.forall_mem_nil _⟩ (Numeral.isSome_toBinary64? ?_ fun _ => ?_)
  · rw [Numeral.ofInt]
    dsimp only
    rwa [List.append_nil, digitsValue_toDigits]
  · rw [Numeral.ofInt]
    dsimp only
    rw [List.append_nil, digitsValue_toDigits]
    have small : n.natAbs ≤ 10 ^ 20 := less.le.trans (by decide)
    have small : (n.natAbs : ℚ) ≤ 10 ^ 20 := by exact_mod_cast small
    calc (n.natAbs : ℚ) * 10 ^ 0 = n.natAbs := by rw [pow_zero, mul_one]
      _ ≤ (2 ^ 54 - 8) * 2 ^ 70 := small.trans (by norm_num)
      _ ≤ (2 ^ 54 - 8) * 2 ^ 970 :=
        mul_le_mul_of_nonneg_left (pow_le_pow_right₀ one_le_two (by decide)) (by norm_num)

/-- The greatest long reals can be read. -/
lemma isSome_greatest {negative : Bool} {significand : Nat} (ge : 2 ^ 53 - 4 ≤ significand)
    (less : significand < 2 ^ 53) :
    (doubleStyle.numeral .double negative significand 971).toBinary64?.isSome = true := by
  obtain rfl | rfl | rfl | rfl : significand = 2 ^ 53 - 4 ∨ significand = 2 ^ 53 - 3 ∨
      significand = 2 ^ 53 - 2 ∨ significand = 2 ^ 53 - 1 := by omega
  all_goals cases negative <;> decide +kernel

/-- A number that is not in the uppermost range of long reals can be read. -/
lemma isSome_numeral_of_le {style : DecimalStyle} {f : Format} {negative : Bool} {significand : Nat}
    {exponent : Int} (places : style.greatestPoint ≤ 16) (short : f.fractionBits ≤ 52)
    (less : significand < 2 ^ 53) (le : exponent ≤ 970) :
    (style.numeral f negative significand exponent).toBinary64?.isSome = true := by
  refine DecimalStyle.isSome_numeral places less short ?_
  have less : (significand : ℚ) ≤ 2 ^ 53 := by exact_mod_cast less.le
  have power : (2 : ℚ) ^ exponent ≤ 2 ^ 970 := by
    rw [← zpow_natCast]
    exact two_zpow_le le
  refine mul_le_mul ?_ power (two_zpow_pos _).le (by norm_num)
  linarith

/-- A finite long real can be read. -/
lemma isSome_numeral_double {negative : Bool} {significand : Nat} {exponent : Int}
    (less : significand < 2 ^ 53) (le : exponent ≤ 971) :
    (doubleStyle.numeral .double negative significand exponent).toBinary64?.isSome = true := by
  rcases le.lt_or_eq with below | rfl
  · exact isSome_numeral_of_le (by decide) (by decide) less (by omega)
  rcases lt_or_ge significand (2 ^ 53 - 4) with below | greatest
  · refine DecimalStyle.isSome_numeral (by decide) less (by decide) ?_
    have below : significand + 5 ≤ 2 ^ 53 := by omega
    have below : (significand + 5 : ℚ) ≤ 2 ^ 53 := by exact_mod_cast below
    have power : (2 : ℚ) ^ (971 : Int) = 2 * 2 ^ 970 := (zpow_natCast 2 971).trans (pow_succ' 2 970)
    rw [power, ← mul_assoc]
    refine mul_le_mul_of_nonneg_right ?_ (by positivity)
    linarith
  · exact isSome_greatest greatest less

/-- What is written of a long real can be read as a document. -/
lemma isWritable_ofBinary64 (x : Binary64) : (ofBinary64 x).IsWritable := by
  rw [ofBinary64]
  split
  case h_1 negative significand exponent datum =>
    obtain ⟨less, le⟩ := Format.decode_bounds (by decide) datum
    exact .number (DecimalStyle.numeral_isPlain less (by decide)) (isSome_numeral_double less le)
  case h_2 => exact .null

/-- What is written of a short real by the digits of its width can be read as a document. -/
lemma isWritable_ofBinary32 (x : Binary32) : (ofBinary32 .own x).IsWritable := by
  rw [ofBinary32]
  split
  case h_1 negative significand exponent datum =>
    obtain ⟨less, le⟩ := Format.decode_bounds (by decide) datum
    have less : significand < 2 ^ 53 := less.trans_le (by decide)
    exact .number (DecimalStyle.numeral_isPlain less (by decide))
      (isSome_numeral_of_le (by decide) (by decide) less (le.trans (by decide)))
  case h_2 => exact .null

end Numbers

attribute [simp] IsWritable.null IsWritable.bool IsWritable.string
attribute [simp] isWritable_ofBinary64 isWritable_ofBinary32

variable {α : Type}

/-- A list is writable if what is written of each item is. -/
lemma isWritable_ofList {write : α → Json} {items : List α}
    (each : ∀ a ∈ items, (write a).IsWritable) : (ofList write items).IsWritable :=
  .array (List.forall_mem_map.2 each)

/-- A part that may be missing is writable if whatever is written of it is. -/
lemma isWritable_ofOption {write : α → Json} {value : Option α}
    (each : ∀ a, (write a).IsWritable) : (ofOption write value).IsWritable := by
  cases value with
  | none => exact .null
  | some a => exact each a

/-- An object is writable just if its members are. -/
lemma isWritable_object {members : List (String × Json)} :
    (object members).IsWritable ↔ ∀ member ∈ members, member.2.IsWritable :=
  ⟨fun | .object each => each, .object⟩

end Json

open Json (isWritable_ofList isWritable_ofOption)

/-- What is written of a type is writable. -/
@[simp] lemma ValueType.isWritable_toJson (type : ValueType) : type.toJson.IsWritable := by
  induction type with
  | void => exact .string _
  | primitive _ => exact .object (by simp)
  | object _ => exact .object (by simp)
  | array _ ih => exact .object (by simp [ih])

/-- What is written of a variable is writable. -/
@[simp] lemma Var.isWritable_toJson (v : Var) : v.toJson.IsWritable :=
  Json.isWritable_ofInt (v.number.toNat_lt.trans (by decide))

/-- What is written of a block number is writable. -/
@[simp] lemma BlockId.isWritable_toJson (b : BlockId) : b.toJson.IsWritable :=
  Json.isWritable_ofInt (b.number.toNat_lt.trans (by decide))

/-- What is written of an integer is writable. -/
@[simp] lemma isWritable_ofInt32 (value : Int32) : (Json.ofInt value.toInt).IsWritable :=
  Json.isWritable_ofInt (by
    have ge := value.le_toInt
    have less := value.toInt_lt
    rw [UInt64.size]
    omega)

/-- What is written of a long integer is writable. -/
@[simp] lemma isWritable_ofInt64 (value : Int64) : (Json.ofInt value.toInt).IsWritable :=
  Json.isWritable_ofInt (by
    have ge := value.le_toInt
    have less := value.toInt_lt
    rw [UInt64.size]
    omega)

/-- What is written of a kind is writable. -/
@[simp] lemma Kind.isWritable_toJson (k : Kind) : k.toJson.IsWritable := by
  cases k with
  | array _ => exact .object (by simp)
  | _ => exact .string _

/-- What is written of a signature is writable. -/
lemma Signature.isWritable_members (s : Signature) :
    ∀ member ∈ s.members, member.2.IsWritable := by
  simp [members, isWritable_ofList]

/-- What is written of a reference to a method is writable. -/
@[simp] lemma MethodRef.isWritable_toJson (m : MethodRef) : m.toJson.IsWritable :=
  .object (List.forall_mem_cons.2 ⟨.string _, m.signature.isWritable_members⟩)

/-- What is written of a reference to a field is writable. -/
@[simp] lemma FieldRef.isWritable_toJson (f : FieldRef) : f.toJson.IsWritable :=
  .object (by simp)

/-- What is written of an operand is writable. -/
@[simp] lemma Operand.isWritable_toJson (o : Operand) : (o.toJson .own).IsWritable := by
  cases o <;> simp [toJson, isWritable_ofList, isWritable_ofOption]

/-- What is written of an instruction is writable. -/
@[simp] lemma Instruction.isWritable_toJson (i : Instruction) : (i.toJson .own).IsWritable :=
  .object (List.forall_mem_cons.2 ⟨.string _, List.forall_mem_map.2 fun _ _ =>
    Operand.isWritable_toJson _⟩)

/-- What is written of a terminator is writable. -/
@[simp] lemma Terminator.isWritable_toJson (t : Terminator) : t.toJson.IsWritable := by
  refine .object (List.forall_mem_cons.2 ⟨.string _, ?_⟩)
  cases t <;> simp [members, isWritable_ofList, isWritable_ofOption, Json.IsWritable.array]

/-- What is written of an incoming value is writable. -/
@[simp] lemma Incoming.isWritable_toJson (i : Incoming) : i.toJson.IsWritable :=
  .object (by simp)

/-- What is written of a phi is writable. -/
@[simp] lemma Phi.isWritable_toJson (phi : Phi) : phi.toJson.IsWritable :=
  .object (by simp [isWritable_ofList])

/-- What is written of a protected range is writable. -/
@[simp] lemma TryCatch.isWritable_toJson (t : TryCatch) : t.toJson.IsWritable :=
  .object (by simp [isWritable_ofOption])

/-- What is written of a block is writable. -/
@[simp] lemma BasicBlock.isWritable_toJson (b : BasicBlock) : (b.toJson .own).IsWritable :=
  .object (by simp [isWritable_ofList, isWritable_ofOption])

/-- What is written of a body is writable. -/
@[simp] lemma Body.isWritable_toJson (b : Body) : (b.toJson .own).IsWritable :=
  .object (by simp [isWritable_ofList])

/-- What is written of an initial value is writable. -/
@[simp] lemma InitialValue.isWritable_toJson (v : InitialValue) : v.toJson.IsWritable := by
  cases v <;> exact .object (by simp)

/-- What is written of a field is writable. -/
@[simp] lemma FieldDef.isWritable_toJson (f : FieldDef) : f.toJson.IsWritable :=
  .object (by simp [isWritable_ofOption])

/-- What is written of a method is writable. -/
@[simp] lemma MethodDef.isWritable_toJson (m : MethodDef) : m.toJson.IsWritable :=
  .object (List.forall_mem_append.2 ⟨m.signature.isWritable_members,
    by simp [isWritable_ofOption]⟩)

/-- What is written of a class is writable. -/
@[simp] lemma ClassDef.isWritable_toJson (c : ClassDef) : c.toJson.IsWritable :=
  .object (by simp [isWritable_ofList, isWritable_ofOption])

/-- The document of a program can be written and read with all its parts. -/
theorem Program.isWritable_toJson (p : Program) : p.toJson.IsWritable :=
  .object (by simp [isWritable_ofList, isWritable_ofOption])

end ObjectBackend
