import ObjectBackend.Proofs.Image.StartUp
import ObjectBackend.Proofs.Lowering.FieldAccesses
import ObjectBackend.Proofs.Lowering.IntegerOperators

/-!
# Narrow storage

Memory may have less bits for an integer than a register. What is written to a field or an element
is cut off, what is read is extended again, and a static field starts with a constant that has been
cut off in advance. All of this agrees on one reduction (`Primitive.reduced`), which a conversion to
a short integer makes, too: memory holds the last bits of a number, as a signed integer, and a
register gets them back with the sign that the declared type has
(`Lowering.narrow_storage_reduces`).
-/

namespace ObjectBackend

open Target

section Reduction

namespace Primitive

variable {t : Primitive} {n : Int}

/-- Whether the values of a type are integers; truth values count as such. -/
def isIntegral : Primitive → Bool
  | float | double => false
  | boolean | byte | short | char | int | long => true

/-- How many bits of memory a value of a type takes. -/
def bits : Primitive → Nat
  | boolean | byte => 8
  | short | char => 16
  | int | float => 32
  | long | double => 64

/-- Whether the integers of a type have no sign. -/
def isUnsigned : Primitive → Bool
  | boolean | char => true
  | byte | short | int | long | float | double => false

/-- The integer of a type that has the same last bits as a number. -/
def reduced (n : Int) (t : Primitive) : Int :=
  if t.isUnsigned then n % 2 ^ t.bits else n.bmod (2 ^ t.bits)

/-- An integral type is stored with as many bits as it has. -/
lemma intWidth?_storage (integral : t.isIntegral = true) :
    (IrType.storage (.primitive t)).intWidth? = some t.bits := by
  cases t with
  | float | double => cases integral
  | _ => rfl

/-- The elements of an array of a primitive type are held as its values are. -/
lemma ofKind_elementKind (t : Primitive) :
    IrType.ofKind t.elementKind.kind = .ofValue (.primitive t) := by
  cases t <;> rfl

/-- Each primitive type has more than one bit. -/
lemma one_lt_bits (t : Primitive) : 1 < t.bits := by cases t <;> decide

end Primitive

/-- The type that a short integer is one of. -/
def Subword.primitive : Subword → Primitive
  | byte => .byte
  | short => .short
  | char => .char

/-- The integer that a value is. -/
def Scalar.number? {ρ : Type} : Scalar ρ → Option Int
  | int n => some n.toInt
  | long n => some n.toInt
  | _ => none

/-- The integer that a static field starts with. -/
def InitialValue.number? : InitialValue → Option Int
  | int n => some n.toInt
  | long n => some n.toInt
  | _ => none

end Reduction

section Bits

variable {w w' : Nat}

/-- Cutting off the upper bits of a number is reducing it. -/
lemma setWidth_eq_ofInt (le : w ≤ w') (x : BitVec w') : x.setWidth w = .ofInt w x.toInt := by
  apply BitVec.eq_of_toInt_eq
  rw [BitVec.toInt_setWidth, BitVec.toInt_ofInt, BitVec.toInt_eq_toNat_bmod, Int.bmod_bmod_of_dvd]
  exact Nat.pow_dvd_pow 2 le

/-- Bits in front of which there are zeros are a number without sign. -/
lemma toInt_setWidth_ofInt (lt : w < w') (n : Int) :
    ((BitVec.ofInt w n).setWidth w').toInt = n % 2 ^ w := by
  have half : 2 * 2 ^ w ≤ 2 ^ w' := by
    rw [← Nat.pow_succ']
    exact Nat.pow_le_pow_right Nat.two_pos lt
  have same := BitVec.toNat_setWidth_of_le (b := BitVec.ofInt w n) (Nat.le_of_lt lt)
  have small := (BitVec.ofInt w n).isLt
  rw [BitVec.toInt_eq_toNat_of_lt (by omega), same, BitVec.toNat_ofInt]
  have positive : (0 : Int) < ((2 ^ w : Nat) : Int) := Int.natCast_pos.2 (Nat.two_pow_pos w)
  rw [Int.toNat_of_nonneg (Int.emod_nonneg _ (Int.ne_of_gt positive))]
  norm_cast

/-- The low bits of a number, extended by sign, are its reduction. -/
lemma toInt_signExtend_ofInt (le : w ≤ w') (n : Int) :
    ((BitVec.ofInt w n).signExtend w').toInt = n.bmod (2 ^ w) := by
  rw [BitVec.toInt_signExtend_of_le le, BitVec.toInt_ofInt]

end Bits

/-- Each static field of a class is made into an entry of a module. -/
lemma Backend.exists_mem_of_staticField {b : Backend} {es : List (Entry Label)}
    {pools pools' : Pools} {c : ClassDef} {f : FieldDef}
    (emitted : b.entries.run pools = .ok (es, pools')) (memc : c ∈ b.program.classes)
    (memf : f ∈ c.staticFields) :
    ∃ e ∈ es, ∃ s s', (c.staticField f).run s = .ok (e, s') := by
  obtain ⟨statics, methods, metadata, main, literals, pools₁, statics', _, _, _, _, eq⟩ :=
    entries_spec emitted
  obtain ⟨entries, mementries, _, _, given⟩ :=
    StateT.exists_mem_of_run_mapM_eq_ok statics' (Program.mem_sortedClasses memc)
  obtain ⟨e, mem, s₁, s₂, given'⟩ := StateT.exists_mem_of_run_mapM_eq_ok given memf
  have part : e ∈ statics.flatten := List.mem_flatten.2 ⟨entries, mementries, mem⟩
  refine ⟨e, ?_, s₁, s₂, given'⟩
  rw [eq]
  simp only [List.mem_append, part, true_or, or_true]

namespace Lowering

open Emit Listing

variable {host : Host} {c : Context} {values : Values Address} {m : Memory} {a : Address}
  {known : List (Value × Word)} {v receiver : Var} {t : Primitive} {n : Int}

section Registers

variable {w : Nat} {operand : Numeric} {make : BitVec w → Scalar Address}

namespace IsInteger

/-- The number of an integer is the signed one. -/
lemma number? (is : IsInteger operand w make) (x : BitVec w) :
    (make x).number? = some x.toInt := by
  cases is with
  | _ => rfl

/-- The integers of a type are held by registers of one of two widths, which may be greater than
that of memory. -/
lemma exists_of_isIntegral (integral : t.isIntegral = true) :
    ∃ operand w make, IsInteger operand w make ∧ operand.irType = .ofValue (.primitive t) ∧
      t.bits ≤ w ∧ (t.isUnsigned = true → t.bits < w) := by
  cases t with
  | long => exact ⟨_, _, _, .long, rfl, by decide, nofun⟩
  | float | double => cases integral
  | _ => exact ⟨_, _, _, .int, rfl, by decide, by decide⟩

end IsInteger

end Registers

section Memory

variable {w w' : Nat} {operand : Numeric} {make : BitVec w → Scalar Address} {storage : IrType}
  {address : Value} {word : Word}

/-- A store runs and leaves its word in the cell, after which nothing is known of the memory before.
-/
lemma store_runs {known : List (Value × Word)} {stored : Value}
    (place : Gives known address (.address a))
    (value : ∀ r, (∀ e ∈ known, e.1.word? r = some e.2) → Mirrors values r →
      stored.word? r = some word) :
    Triple host (Holding m values known) (Emit.run (.store ⟨storage, stored⟩ address))
      fun _ => Holding (Function.update m a (some (storage, word))) values [] := by
  apply Triple.run
  intro n r m' holding
  have words := holding.knows.words
  refine ⟨none, Function.update m' a (some (storage, word)), ?_, ⟨?_, ?_, ?_⟩, holding.mirrors⟩
  · simp [Instr.run?, place r words, value r words holding.mirrors, Word.address?]
  · rw [holding.knows.memory]
  · exact List.forall_mem_nil _
  · exact List.forall_mem_nil _

/-- The last bits of a register are stored. -/
lemma storeFrom_runs (is : IsInteger operand w make) (width : storage.intWidth? = some w')
    (wide : 1 < w') (le : w' ≤ w) {x : BitVec w} (holds : values v = some (make x))
    (place : Gives known address (.address a)) :
    Triple host (Holding m values known) (storeFrom v storage operand.irType address) fun _ =>
      Holding (Function.update m a (some (storage, .int (x.toInt.bmod (2 ^ w'))))) values [] := by
  have held {r : Registers} (mirrors : Mirrors values r) :
      (Value.ofVar v).word? r = some (.int x.toInt) := is.word x ▸ mirrors v _ holds
  dsimp only [storeFrom]
  rw [← BitVec.toInt_ofInt, ← setWidth_eq_ofInt le]
  split
  case isTrue same =>
    obtain rfl : w = w' := Option.some.inj (is.width.symm.trans (same ▸ width))
    rw [BitVec.setWidth_eq]
    exact store_runs place fun r _ mirrors => held mirrors
  case isFalse =>
    have cut : Computes host m values known (.cast .trunc ⟨operand.irType, .ofVar v⟩ storage)
        (.int (x.setWidth w').toInt) := fun r _ mirrors =>
      run?_setWidth (.inl rfl) is.width width wide (held mirrors)
    exact cut.define.bind fun _ => store_runs (place.mono (List.subset_cons_self ..))
      fun r words _ => words _ (List.mem_cons_self ..)

/-- How bits are extended. -/
inductive Extends (y : BitVec w') : CastOp → BitVec w → Prop where
  | zeros :
    Extends y .zext (y.setWidth w)
  | sign :
    Extends y .sext (y.signExtend w)

/-- What is loaded is extended to the width of a register. -/
lemma loadInto_runs (is : IsInteger operand w make) (width : storage.intWidth? = some w')
    {y : BitVec w'} {x : BitVec w} {op : CastOp} (extended : Extends y op x)
    (cell : m a = some (storage, .int y.toInt)) (place : Gives known address (.address a)) :
    Triple host (Holding m values known) (loadInto receiver storage operand.irType op address)
      fun _ => Holding m (Function.update values receiver (some (make x))) [] := by
  have load : Computes host m values known (.load storage address) (.int y.toInt) := by
    intro r words _
    simp [Instr.run?, place r words, Word.address?, cell]
  dsimp only [loadInto]
  split
  case isTrue same =>
    obtain rfl : w = w' := Option.some.inj (is.width.symm.trans (same ▸ width))
    obtain rfl : x = y := by
      cases extended with
      | zeros => exact BitVec.setWidth_eq y
      | sign => exact BitVec.signExtend_eq y
    exact Computes.assign (is.word x ▸ load)
  case isFalse =>
    apply load.define.bind
    intro loaded
    apply Computes.assign
    intro r words _
    have operand := words _ (List.mem_cons_self ..)
    rw [is.word]
    cases extended with
    | zeros => exact run?_setWidth (.inr rfl) width is.width is.wide operand
    | sign => exact run?_signExtend width is.width is.wide operand

end Memory

section Locations

/-- What a value can be written to and read from: a static field, a field of an object, or an
element of an array. -/
inductive Location where
  | global (field : FieldRef)
  | field (inst : Var) (field : FieldRef)
  | element (array index : Var)

namespace Location

/-- The instruction that writes a variable to a location. A field is accessed by some type. -/
def put (value : Var) (used : ValueType) : Location → Instruction
  | global f => .putField none f value used
  | field inst f => .putField (some inst) f value used
  | element array index => .putElement array index value

/-- The instruction that reads a location into a variable. -/
def get (receiver : Var) (used : ValueType) : Location → Instruction
  | global f => .getField receiver none f used
  | field inst f => .getField receiver (some inst) f used
  | element array index => .getElement receiver array index

/-- A location is a place in memory for values of a primitive type. The elements of arrays of
`boolean` are those of arrays of `byte`. -/
inductive IsAt (c : Context) (values : Values Address) : Location → Address → Primitive → Prop where
  | global {field : FieldRef} {owner : ClassDef} {f : FieldDef} {t : Primitive} :
    c.program.resolveField? field = some (owner, f) →
    f.type = .primitive t →
    IsAt c values (.global field) (.symbol (.field owner.name f.name)) t
  | field {inst : Var} {field : FieldRef} {slot : FieldSlot} {a : Address} {t : Primitive} :
    c.program.fieldSlot? field = some slot →
    slot.type = .primitive t →
    values inst = some (.reference (some a)) →
    IsAt c values (.field inst field)
      (.part a (.named (.instances field.className)) [0, slot.index]) t
  | element {array index : Var} {a : Address} {i : BitVec 32} {t : Primitive} :
    t ≠ .boolean →
    c.kindOf array = .ok (.array t.elementKind) →
    values array = some (.reference (some a)) →
    values index = some (.int i) →
    IsAt c values (.element array index)
      (.part (.part a (.runtime .array) [1]) (.element t.elementKind) [i.toInt]) t

end Location

/-- Code that finds a place in memory, whatever memory holds. -/
def Emit.Locates (host : Host) (values : Values Address) (a : Address) (place : Emit Value) :
    Prop :=
  ∀ m, Triple host (Holding m values []) place fun v => Holding m values [(v, .address a)]

/-- A symbol locates its cell. -/
lemma locates_symbol (host : Host) (values : Values Address) (s : Symbol) :
    Emit.Locates host values (.symbol s) (pure (.symbol s)) := by
  intro m
  apply (Triple.pure (Q := fun v => Holding m values [(v, .address (.symbol s))])
    (.symbol s)).imp ?_ fun _ _ _ _ holding => holding
  intro n r m' holding
  exact ⟨⟨holding.knows.memory, List.forall_mem_singleton.2 rfl,
    List.forall_mem_singleton.2 trivial⟩, holding.mirrors⟩

/-- The address of a field locates the part of the object. -/
lemma locates_part (host : Host) {inst : Var} (holds : values inst = some (.reference (some a)))
    (type : IrType) (index : Nat) :
    Emit.Locates host values (.part a type [0, index])
      (Emit.define (.fieldOf type (.ofVar inst) [0, index])) :=
  fun _ => Computes.define fun _ _ mirrors => Instr.run?_fieldOf (mirrors inst _ holds)

/-- The elements of an array are counted behind its header. -/
lemma locates_element (host : Host) {array index : Var} {i : BitVec 32}
    (holds : values array = some (.reference (some a))) (holds' : values index = some (.int i))
    (kind : ElementKind) :
    Emit.Locates host values (.part (.part a (.runtime .array) [1]) (.element kind) [i.toInt])
      (elementAddress array index kind) := by
  intro m
  have items : Computes host m values [] (.fieldOf (.runtime .array) (.ofVar array) [1])
      (.address (.part a (.runtime .array) [1])) := fun _ _ mirrors =>
    Instr.run?_fieldOf (mirrors array _ holds)
  apply items.define.bind
  intro first
  have one : Computes host m values [(first, .address (.part a (.runtime .array) [1]))]
      (.element (.element kind) first [.ofVar index])
      (.address (.part (.part a (.runtime .array) [1]) (.element kind) [i.toInt])) := by
    intro r words mirrors
    have address := words _ (List.mem_singleton_self _)
    have number : (Value.ofVar index).word? r = some (.int i.toInt) := mirrors index _ holds'
    simp [Instr.run?, address, number, Word.address?, Word.int?]
  exact one.define.imp (fun _ _ _ holding => holding) fun _ _ _ _ holding =>
    holding.mono (List.cons_subset_cons _ (List.nil_subset _))

/-- A static field is at its symbol, with the type that it is declared with. -/
lemma locates_global (host : Host) (values : Values Address) {field : FieldRef} {owner : ClassDef}
    {f : FieldDef} {used : ValueType} {place : Emit Value × ValueType}
    (resolved : c.program.resolveField? field = some (owner, f))
    (settled : fieldPlace c none field used = .ok place) :
    Emit.Locates host values (.symbol (.field owner.name f.name)) place.1 ∧ place.2 = f.type := by
  obtain ⟨address, declared⟩ := place
  obtain ⟨_, _, resolved', _, rfl, rfl⟩ := fieldPlace_global settled
  cases resolved.symm.trans resolved'
  exact ⟨locates_symbol host values _, rfl⟩

/-- A field of an object is a part of it, with the type of its slot. -/
lemma locates_field (host : Host) {inst : Var} {field : FieldRef} {slot : FieldSlot}
    {used : ValueType} {place : Emit Value × ValueType}
    (found : c.program.fieldSlot? field = some slot)
    (holds : values inst = some (.reference (some a)))
    (settled : fieldPlace c (some inst) field used = .ok place) :
    Emit.Locates host values (.part a (.named (.instances field.className)) [0, slot.index])
      place.1 ∧ place.2 = slot.type := by
  obtain ⟨address, declared⟩ := place
  obtain ⟨_, found', rfl, rfl⟩ := fieldPlace_element settled
  cases found.symm.trans found'
  exact ⟨locates_part host holds _ _, rfl⟩

/-- The element kind of an array is the one that is declared. -/
lemma elementKind_eq {array : Var} {kind kind' : ElementKind}
    (declared : c.kindOf array = .ok (.array kind)) (given : c.elementKindOf array = .ok kind') :
    kind' = kind := by
  rw [Context.elementKindOf, declared] at given
  exact (Except.ok.inj given).symm

/-- But for truth values, elements are extended as fields of their type are. -/
lemma elementExtension_eq (other : t ≠ .boolean) :
    elementExtension t.elementKind = fieldExtension (.primitive t) := by
  cases t with
  | boolean => exact absurd rfl other
  | _ => rfl

namespace Location

variable {l : Location} {id : BlockId} {b : BasicBlock} {position : Nat} {used : ValueType}

/-- A write finds its place and stores there what a register of the type holds. -/
lemma put_spec (host : Host) (at' : l.IsAt c values a t) :
    Except.Ensures (fun code => ∃ place, Emit.Locates host values a place ∧
        c.typeOf v = .ok (.ofValue (.primitive t)) ∧
        code = place >>= storeFrom v (.storage (.primitive t)) (.ofValue (.primitive t)))
      (instruction c id b (l.put v used) position) := by
  cases at' with
  | @global field owner f _ resolved type =>
    change Except.Ensures _ (putField c none field v used)
    refine .bind fun place settled => .bind fun _ ofValue => .pure ?_
    obtain ⟨locates, declared⟩ := locates_global host values resolved settled
    rw [declared, type] at ofValue
    exact ⟨_, locates, expect_spec _ ofValue, by rw [declared, type]⟩
  | @field inst field slot _ _ found type object =>
    change Except.Ensures _ (putField c inst field v used)
    refine .bind fun place settled => .bind fun _ ofValue => .pure ?_
    obtain ⟨locates, declared⟩ := locates_field host found object settled
    rw [declared, type] at ofValue
    exact ⟨_, locates, expect_spec _ ofValue, by rw [declared, type]⟩
  | @element array index _ _ _ other kind object number =>
    change Except.Ensures _ (putElement c array index v)
    refine .bind fun kind' given => .bind fun _ ofValue => .bind fun _ _ => .pure ?_
    obtain rfl := elementKind_eq kind given
    rw [Primitive.ofKind_elementKind] at ofValue
    refine ⟨_, locates_element host object number _, expect_spec _ ofValue, ?_⟩
    rw [Primitive.ofKind_elementKind]
    rfl

/-- A read finds its place and extends what is there as the type has it. -/
lemma get_spec (host : Host) (at' : l.IsAt c values a t) :
    Except.Ensures (fun code => ∃ place, Emit.Locates host values a place ∧
        c.typeOf receiver = .ok (.ofValue (.primitive t)) ∧
        code = place >>= loadInto receiver (.storage (.primitive t)) (.ofValue (.primitive t))
          (fieldExtension (.primitive t)))
      (instruction c id b (l.get receiver used) position) := by
  cases at' with
  | @global field owner f _ resolved type =>
    change Except.Ensures _ (getField c receiver none field used)
    refine .bind fun place settled => .bind fun _ ofReceiver => .pure ?_
    obtain ⟨locates, declared⟩ := locates_global host values resolved settled
    rw [declared, type] at ofReceiver
    exact ⟨_, locates, expect_spec _ ofReceiver, by rw [declared, type]⟩
  | @field inst field slot _ _ found type object =>
    change Except.Ensures _ (getField c receiver inst field used)
    refine .bind fun place settled => .bind fun _ ofReceiver => .pure ?_
    obtain ⟨locates, declared⟩ := locates_field host found object settled
    rw [declared, type] at ofReceiver
    exact ⟨_, locates, expect_spec _ ofReceiver, by rw [declared, type]⟩
  | @element array index _ _ _ other kind object number =>
    change Except.Ensures _ (getElement c receiver array index)
    refine .bind fun kind' given => .bind fun _ ofReceiver => .bind fun _ _ => .pure ?_
    obtain rfl := elementKind_eq kind given
    rw [Primitive.ofKind_elementKind] at ofReceiver
    refine ⟨_, locates_element host object number _, expect_spec _ ofReceiver, ?_⟩
    rw [Primitive.ofKind_elementKind, elementExtension_eq other]
    rfl

end Location

end Locations

section Constants

variable {owner : ClassDef} {f : FieldDef} {initial : InitialValue}

/-- A constant is cut off as a register would be. -/
lemma wrap_storage (integral : t.isIntegral = true) (number : initial.number? = some n) :
    (IrType.storage (.primitive t)).wrap n = n.bmod (2 ^ t.bits) := by
  cases t with
  | boolean | byte => exact Int8.toInt_ofInt
  | short | char => exact Int16.toInt_ofInt
  | int => exact Int32.toInt_ofInt
  | long =>
    -- constants have 64 bits at most
    have bounds : -2 ^ 63 ≤ n ∧ n < 2 ^ 63 := by
      cases initial with
      | int k =>
        obtain rfl := Option.some.inj number
        have low := k.le_toInt
        have high := k.toInt_lt
        omega
      | long k =>
        obtain rfl := Option.some.inj number
        exact ⟨k.le_toInt, k.toInt_lt⟩
      | _ => cases number
    exact (Int.bmod_eq_of_le bounds.1 bounds.2).symm
  | float | double => cases integral

/-- The data of a static field that starts with an integer. -/
lemma staticField_run (integral : t.isIntegral = true) (type : f.type = .primitive t)
    (starts : f.initial = some initial) (number : initial.number? = some n) (pools : Pools) :
    (owner.staticField f).run pools = .ok
      (.data (.field owner.name f.name) .data (.storage f.type)
        (.value (.int (n.bmod (2 ^ t.bits)))), pools) := by
  have integer : (IrType.storage f.type).isInteger = true := by
    have width := t.intWidth?_storage integral
    rw [← type, IrType.intWidth?] at width
    split at width
    case isTrue integer => exact integer
    case isFalse => cases width
  have contents : initial.contents? (.storage f.type) =
      some (.int (n.bmod (2 ^ t.bits)), ·) := by
    rw [← wrap_storage integral number, ← type]
    cases initial with
    | int | long =>
      obtain rfl := Option.some.inj number
      exact if_pos integer
    | _ => cases number
  rw [ClassDef.staticField, starts]
  dsimp only
  rw [contents]
  rfl

end Constants

section Results

/-- An integer of a type is read back as the reduced number. -/
lemma exists_extends (integral : t.isIntegral = true) (n : Int) :
    ∃ operand w make, IsInteger operand w make ∧ operand.irType = .ofValue (.primitive t) ∧
      t.bits ≤ w ∧ ∃ x : BitVec w,
        Extends (.ofInt t.bits n) (fieldExtension (.primitive t)) x ∧ x.toInt = t.reduced n := by
  obtain ⟨operand, w, make, is, type, le, lt⟩ := IsInteger.exists_of_isIntegral integral
  refine ⟨operand, w, make, is, type, le, ?_⟩
  cases unsigned : t.isUnsigned with
  | true =>
    refine ⟨_, ?_, (toInt_setWidth_ofInt (lt unsigned) n).trans (if_pos unsigned).symm⟩
    cases t with
    | boolean | char => exact .zeros
    | _ => cases unsigned
  | false =>
    refine ⟨_, ?_, (toInt_signExtend_ofInt le n).trans (if_neg (Bool.eq_false_iff.1 unsigned)).symm⟩
    cases t with
    | boolean | char => cases unsigned
    | _ => exact .sign

/-- Narrowing a word to a subword reduces its number. -/
lemma narrowed_reduced (subword : Subword) (x : BitVec 32) :
    (subword.narrowed x).toInt = subword.primitive.reduced x.toInt := by
  cases subword with
  | byte =>
    rw [Subword.narrowed, setWidth_eq_ofInt (by decide), toInt_signExtend_ofInt (by decide)]
    rfl
  | short =>
    rw [Subword.narrowed, setWidth_eq_ofInt (by decide), toInt_signExtend_ofInt (by decide)]
    rfl
  | char =>
    rw [Subword.narrowed, setWidth_eq_ofInt (w := 16) (by decide), toInt_setWidth_ofInt (by decide)]
    rfl

end Results

section Runs

variable {id : BlockId} {b : BasicBlock} {position : Nat} {code : Emit Unit} {l : Location}
  {used : ValueType} {d x : Scalar Address}

/-- Wherever it stands, code runs to its end, from what variables and memory hold before to what
they hold behind it. -/
def Emit.Leads (host : Host) (code : Emit Unit) (values : Values Address) (m : Memory)
    (values' : Values Address) (m' : Memory) : Prop :=
  ∀ (f : Function Label) (p : code.Placement f) (σ : State Label), σ.Behind p.current →
    Mirrors values σ.registers → σ.memory = m →
    ∃ τ, f.Runs host σ τ ∧ τ.Behind (last p.current p.listing) ∧ Mirrors values' τ.registers ∧
      τ.memory = m'

/-- Code for which a triple holds leads from the one memory to the other. -/
lemma Emit.Leads.of_triple {values' : Values Address} {m' : Memory}
    (triple : Triple host (Holding m values []) code fun _ => Holding m' values' []) :
    Emit.Leads host code values m values' m' := by
  intro f p σ behind mirrors memory
  have start : Holding m values [] p.start.draft.nextTemporary σ.registers σ.memory :=
    ⟨⟨memory, List.forall_mem_nil _, List.forall_mem_nil _⟩, mirrors⟩
  obtain ⟨τ, runs, ends, holding⟩ := p.runs triple behind start
  exact ⟨τ, runs, ends, holding.mirrors, holding.knows.memory⟩

/-- A write leaves the last bits of a number in its place. -/
lemma put_leads (host : Host) (integral : t.isIntegral = true) (at' : l.IsAt c values a t)
    (given : instruction c id b (l.put v used) position = .ok code) (typed : Typed c values)
    (holds : values v = some x) (number : x.number? = some n) (m : Memory) :
    Emit.Leads host code values m values
      (Function.update m a (some (.storage (.primitive t), .int (n.bmod (2 ^ t.bits))))) := by
  obtain ⟨place, locates, ofValue, rfl⟩ := Location.put_spec host at' code given
  obtain ⟨operand, w, make, is, type, le, _⟩ := IsInteger.exists_of_isIntegral integral
  have fits : x.type = operand.irType :=
    type ▸ Except.ok.inj ((typed v x holds).symm.trans ofValue)
  obtain ⟨k, rfl⟩ := is.exists_eq fits
  obtain rfl : k.toInt = n := Option.some.inj ((is.number? k).symm.trans number)
  apply Emit.Leads.of_triple
  rw [← type]
  exact (locates m).bind fun address => storeFrom_runs is (Primitive.intWidth?_storage integral)
    t.one_lt_bits le holds (gives_of_mem (List.mem_singleton_self _))

/-- A read of the last bits of a number leaves the reduced number in a register. -/
lemma get_leads (host : Host) (integral : t.isIntegral = true) (at' : l.IsAt c values a t)
    (given : instruction c id b (l.get receiver used) position = .ok code)
    (number : d.number? = some (t.reduced n)) (type' : d.type = .ofValue (.primitive t))
    (cell : m a = some (.storage (.primitive t), .int (n.bmod (2 ^ t.bits)))) :
    Emit.Leads host code values m (Function.update values receiver (some d)) m := by
  obtain ⟨place, locates, _, rfl⟩ := Location.get_spec host at' code given
  obtain ⟨operand, w, make, is, type, _, x, extended, reduced⟩ := exists_extends integral n
  obtain ⟨k, rfl⟩ := is.exists_eq (type'.trans type.symm)
  obtain rfl : k = x := by
    apply BitVec.eq_of_toInt_eq
    rw [reduced]
    exact Option.some.inj ((is.number? k).symm.trans number)
  apply Emit.Leads.of_triple
  rw [← BitVec.toInt_ofInt] at cell
  rw [← type]
  exact (locates m).bind fun address => loadInto_runs is (Primitive.intWidth?_storage integral)
    extended cell (gives_of_mem (List.mem_singleton_self _))

/-- A conversion leaves the reduced number in a register. -/
lemma cast_leads (host : Host) {subword : Subword} {direction : CastDirection}
    (given : instruction c id b (.integerCast receiver v subword direction) position = .ok code)
    (typed : Typed c values) (holds : values v = some x) (number : x.number? = some n)
    (number' : d.number? = some (subword.primitive.reduced n)) (type : d.type = .i32)
    (m : Memory) : Emit.Leads host code values m (Function.update values receiver (some d)) m := by
  obtain ⟨k, rfl, assigns⟩ : ∃ k, x = .int k ∧
      Emit.Assigns host c values receiver (.int (subword.narrowed k)) code :=
    integerCast_assigns typed holds subword code given
  obtain rfl : k.toInt = n := Option.some.inj number
  obtain ⟨k', rfl⟩ := Scalar.exists_int type
  obtain rfl : subword.narrowed k = k' := by
    apply BitVec.eq_of_toInt_eq
    rw [narrowed_reduced]
    exact (Option.some.inj number').symm
  exact .of_triple (assigns.runs m)

end Runs

section Agreement

/-- What is written to a place of a type is read from it as some value, by any code and as long as
memory still holds it there. Nothing else in memory is changed by the write. -/
def StoredAs (host : Host) (t : Primitive) (n : Int) (d : Scalar Address) : Prop :=
  ∀ (c c' : Context) (values values' : Values Address) (l l' : Location) (a a' : Address)
    (v receiver : Var) (used used' : ValueType) (id id' : BlockId) (b b' : BasicBlock)
    (position position' : Nat) (put get : Emit Unit) (x : Scalar Address),
    l.IsAt c values a t → l'.IsAt c' values' a' t →
    instruction c id b (l.put v used) position = .ok put →
    instruction c' id' b' (l'.get receiver used') position' = .ok get →
    Typed c values → values v = some x → x.number? = some n →
    ∀ m, ∃ m₁, Emit.Leads host put values m values m₁ ∧ (∀ a₁ ≠ a, m₁ a₁ = m a₁) ∧
      ∀ m', m' a' = m₁ a →
        Emit.Leads host get values' m' (Function.update values' receiver (some d)) m'

/-- A conversion to a short integer of a type gives some value. -/
def ConvertedTo (host : Host) (t : Primitive) (n : Int) (d : Scalar Address) : Prop :=
  ∀ (c : Context) (values : Values Address) (subword : Subword) (direction : CastDirection)
    (v receiver : Var) (id : BlockId) (b : BasicBlock) (position : Nat) (cast : Emit Unit)
    (x : Scalar Address),
    subword.primitive = t →
    instruction c id b (.integerCast receiver v subword direction) position = .ok cast →
    Typed c values → values v = some x → x.number? = some n →
    ∀ m, Emit.Leads host cast values m (Function.update values receiver (some d)) m

/-- A static field of a type that starts with an integer is emitted with one that fits into its
memory. As long as memory holds that one, the field is read as some value. -/
def StartsAs (host : Host) (t : Primitive) (n : Int) (d : Scalar Address) : Prop :=
  ∀ (owner : ClassDef) (f : FieldDef) (initial : InitialValue),
    f.type = .primitive t → f.initial = some initial → initial.number? = some n →
    ∃ literal : Int, -2 ^ (t.bits - 1) ≤ literal ∧ literal < 2 ^ (t.bits - 1) ∧
      (∀ (p : Program) (settings : Settings) (b : Backend) (es : List (Entry Label))
        (pools pools' : Pools), Backend.ofProgram p settings = .ok b →
        b.entries.run pools = .ok (es, pools') → owner ∈ p.classes → f ∈ owner.staticFields →
        .data (.field owner.name f.name) .data (.storage f.type) (.value (.int literal)) ∈ es) ∧
      ∀ (c : Context) (values : Values Address) (l : Location) (receiver : Var) (used : ValueType)
        (id : BlockId) (b : BasicBlock) (position : Nat) (get : Emit Unit),
        l.IsAt c values (.symbol (.field owner.name f.name)) t →
        instruction c id b (l.get receiver used) position = .ok get →
        ∀ m, m (.symbol (.field owner.name f.name)) = some (.storage f.type, .int literal) →
          Emit.Leads host get values m (Function.update values receiver (some d)) m

variable {d : Scalar Address}

/-- A reduced number is what is loaded after the number has been stored. -/
lemma storedAs_reduced (host : Host) (integral : t.isIntegral = true)
    (number : d.number? = some (t.reduced n)) (type : d.type = .ofValue (.primitive t)) :
    StoredAs host t n d := by
  intro c c' values values' l l' a a' v receiver used used' id id' b b' position position' put get x
    at' at'' given given' typed holds written m
  refine ⟨_, put_leads host integral at' given typed holds written m,
    fun a₁ other => Function.update_of_ne other .., fun m' cell => ?_⟩
  rw [Function.update_self] at cell
  exact get_leads host integral at'' given' number type cell

/-- A reduced number is what a cast makes of the number. -/
lemma convertedTo_reduced (host : Host) (number : d.number? = some (t.reduced n))
    (type : d.type = .ofValue (.primitive t)) : ConvertedTo host t n d := by
  rintro c values subword direction v receiver id b position cast x rfl given typed holds written m
  have short : d.type = .i32 := by
    rw [type]
    cases subword <;> rfl
  exact cast_leads host given typed holds written number short m

/-- A reduced number is what is loaded of a static field that starts with the number. -/
lemma startsAs_reduced (host : Host) (integral : t.isIntegral = true)
    (number : d.number? = some (t.reduced n)) (type : d.type = .ofValue (.primitive t)) :
    StartsAs host t n d := by
  intro owner f initial declared starts written
  have half : ((2 ^ t.bits : Nat) : Int) = 2 * 2 ^ (t.bits - 1) := by
    cases t <;> rfl
  have low := Int.le_bmod (x := n) (Nat.two_pow_pos t.bits)
  have high := Int.bmod_lt (x := n) (Nat.two_pow_pos t.bits)
  refine ⟨n.bmod (2 ^ t.bits), by omega, by omega, ?_, ?_⟩
  · intro p settings b es pools pools' built emitted memc memf
    rw [← (Backend.ofProgram_spec built).1] at memc
    obtain ⟨e, mem, s, s', given⟩ := Backend.exists_mem_of_staticField emitted memc memf
    rw [staticField_run integral declared starts written] at given
    obtain ⟨rfl, _⟩ := Prod.mk.inj (Except.ok.inj given)
    exact mem
  · intro c values l receiver used id b position get at' given m cell
    rw [declared] at cell
    exact get_leads host integral at' given number type cell

end Agreement

/-- All reductions of a number to a declared type agree. A place in memory, a conversion and the
constant of a static field give one and the same value: the integer of the type with the same last
bits. -/
theorem narrow_storage_reduces (host : Host) {t : Primitive} (integral : t.isIntegral = true)
    (n : Int) :
    ∃ d : Scalar Address, d.number? = some (t.reduced n) ∧ d.type = .ofValue (.primitive t) ∧
      StoredAs host t n d ∧ ConvertedTo host t n d ∧ StartsAs host t n d := by
  obtain ⟨operand, w, make, is, type, _, x, _, reduced⟩ := exists_extends integral n
  have number : (make x).number? = some (t.reduced n) := reduced ▸ is.number? x
  have fits : (make x).type = .ofValue (.primitive t) := (is.type x).trans type
  exact ⟨make x, number, fits, storedAs_reduced host integral number fits,
    convertedTo_reduced host number fits, startsAs_reduced host integral number fits⟩

/-- Keep a number as a byte and take it out again. -/
def keeping : Body :=
  { kinds := [.int, .int]
    blocks :=
      [{ BasicBlock.empty with
          instructions :=
            [.putField none ⟨"Gauge", "level"⟩ ⟨0⟩ (.primitive .byte),
             .getField ⟨1⟩ none ⟨"Gauge", "level"⟩ (.primitive .byte)]
          terminator := .exit (some ⟨1⟩) }] }

/-- The method of the body. -/
def keepingMethod : MethodDef :=
  { digitsMethod with
    signature := ⟨"keep", [.primitive .int], .primitive .int⟩
    body := some keeping }

/-- A class with a static field for the byte. -/
def gauge : ClassDef :=
  { ClassDef.empty "Gauge" with
    fields := [⟨"level", true, .primitive .byte, some (.int 200)⟩]
    methods := [keepingMethod] }

/-- The class alone. -/
def gaugeProgram : Program := { classes := [gauge], entryPoint := none, nodup := by decide }

/-- The parameter of the body. -/
def kept (n : BitVec 32) : Values Address := fun v => if v = ⟨0⟩ then some (.int n) else none

/-- The variables of the example are of their types. -/
lemma kept_typed (b : Backend) (n : BitVec 32) :
    Typed (.ofBody b gauge keepingMethod keeping) (kept n) := by
  intro v d holds
  rw [kept] at holds
  split at holds
  case isTrue first =>
    obtain rfl := Option.some.inj holds
    rw [first]
    rfl
  case isFalse => cases holds

/-- A thousand is kept as minus twenty-four. -/
theorem thousand_kept :
    ∃ b f pools put get, Backend.ofProgram gaugeProgram .default = .ok b ∧
      (function (.ofBody b gauge keepingMethod keeping)).run .empty = .ok (f, pools) ∧
      instruction (.ofBody b gauge keepingMethod keeping) ⟨0⟩ keeping.blocks[0]
        keeping.blocks[0].instructions[0] 0 = .ok put ∧
      instruction (.ofBody b gauge keepingMethod keeping) ⟨0⟩ keeping.blocks[0]
        keeping.blocks[0].instructions[1] 1 = .ok get ∧
      ∃ (p : put.Placement f) (q : get.Placement f) (σ τ σ' υ : State Label),
        σ.Behind p.current ∧ σ.registers (.var ⟨0⟩) = some (.int 1000) ∧
        f.Runs Environment.comparing σ τ ∧ τ.Behind (last p.current p.listing) ∧
        σ'.Behind q.current ∧ σ'.registers = τ.registers ∧ σ'.memory = τ.memory ∧
        f.Runs Environment.comparing σ' υ ∧ υ.Behind (last q.current q.listing) ∧
        υ.registers (.var ⟨1⟩) = some (.int (-24)) := by
  have computed : ((Backend.ofProgram gaugeProgram .default).toOption.bind fun b =>
      ((function (.ofBody b gauge keepingMethod keeping)).run .empty).toOption.map fun _ => ()) =
        some () := by
    cbv
  obtain ⟨b, ⟨f, pools⟩, built, lowered, _⟩ := Except.exists_of_toOption_bind_map computed
  let c : Context := .ofBody b gauge keepingMethod keeping
  have bound : keeping.blocks.length ≤ UInt32.size := by decide
  have found : keeping.block? ⟨0⟩ = some keeping.blocks[0] := rfl
  have writes : keeping.blocks[0].instructions[0]? = some keeping.blocks[0].instructions[0] := rfl
  have reads : keeping.blocks[0].instructions[1]? = some keeping.blocks[0].instructions[1] := rfl
  obtain ⟨put, given, ⟨p⟩⟩ := exists_placement (c := c) bound lowered found writes
  obtain ⟨get, given', ⟨q⟩⟩ := exists_placement (c := c) bound lowered found reads
  have at' (values : Values Address) : Location.IsAt c values (.global ⟨"Gauge", "level"⟩)
      (.symbol (.field "Gauge" "level")) .byte := by
    have resolved : c.program.resolveField? ⟨"Gauge", "level"⟩ = some (gauge, gauge.fields[0]) := by
      change b.program.resolveField? _ = _
      rw [(Backend.ofProgram_spec built).1]
      decide +kernel
    exact .global resolved rfl
  obtain ⟨d, number, type, stored, _⟩ :=
    narrow_storage_reduces Environment.comparing (t := .byte) rfl 1000
  -- storing is run to the end of its code, and loading goes on from there
  obtain ⟨m₁, puts, _, gets⟩ := stored c c (kept 1000) (kept 1000) _ _ _ _ ⟨0⟩ ⟨1⟩ _ _ _ _ _ _ _ _
    put get _ (at' _) (at' _) given given' (kept_typed b 1000) rfl rfl fun _ => none
  let σ : State Label :=
    { label := p.current.label, position := p.current.lines.length, source := none
      entered := registersOf (kept 1000), registers := registersOf (kept 1000)
      memory := fun _ => none }
  obtain ⟨τ, runs, ends, mirrors, memory⟩ := puts f p σ ⟨rfl, rfl⟩ (mirrors_registersOf _) rfl
  let σ' : State Label := { τ with label := q.current.label, position := q.current.lines.length }
  obtain ⟨υ, runs', ends', mirrors', _⟩ := gets m₁ rfl f q σ' ⟨rfl, rfl⟩ mirrors memory
  obtain ⟨k, rfl⟩ := Scalar.exists_int type
  have word : k.toInt = -24 := Option.some.inj number
  refine ⟨b, f, pools, put, get, built, lowered, given, given', p, q, σ, τ, σ', υ, ⟨rfl, rfl⟩, rfl,
    runs, ends, ⟨rfl, rfl⟩, rfl, rfl, runs', ends', ?_⟩
  rw [mirrors' ⟨1⟩ _ (Function.update_self ..), Scalar.word, word]

end Lowering

end ObjectBackend
