import FlatImage.BigEndian
import FlatImage.Name

/-!
# Directory records

A directory table is an array of records of sixty-four bytes. A record holds whatever sixty-four
bytes say: its kind may be unknown, its name need not be text, and the length of its name may
exceed the field. What a record means is decided by the code that reads an image.

Records and their bytes determine each other: `decode_encode` and `encode_decode`.
-/

namespace FlatImage

/-- A directory entry as it is stored. -/
structure Record where
  kind : UInt8
  nameLength : UInt8
  reserved : UInt16
  /-- The length of a file, or sixty-four bytes for every record of a directory. -/
  size : UInt32
  /-- The first block of the content, and zero for an empty file. -/
  start : UInt32
  count : UInt32
  /-- The table of the directory above the one that holds this record. -/
  parent : UInt32
  mtime : UInt64
  nameField : Vector UInt8 36
  deriving DecidableEq

namespace Record

/-- The kind of a directory's record. -/
def directoryKind : UInt8 := 0

def fileKind : UInt8 := 1

def isDirectory (r : Record) : Bool := r.kind == directoryKind

def isFile (r : Record) : Bool := r.kind == fileKind

/-- The name's bytes without padding. A length beyond the field stands for the whole field. -/
def name (r : Record) : Bytes := r.nameField.toList.take r.nameLength.toNat

/-- The field that holds a name, filled up with zeros. -/
def padName (name : Bytes) : Vector UInt8 36 := Vector.ofFn fun i => name.getD i.val 0

/-- A record of an accepted name and nothing else. -/
def named (name : Bytes) (kind : UInt8) : Except NameError Record := do
  Name.check name
  return {
    kind := kind
    nameLength := UInt8.ofNat name.length
    reserved := 0
    size := 0
    start := 0
    count := 0
    parent := 0
    mtime := 0
    nameField := padName name }

def encode (r : Record) : Bytes :=
  [r.kind, r.nameLength] ++ BigEndian.encode 2 r.reserved.toNat
    ++ BigEndian.encode 4 r.size.toNat ++ BigEndian.encode 4 r.start.toNat
    ++ BigEndian.encode 4 r.count.toNat ++ BigEndian.encode 4 r.parent.toNat
    ++ BigEndian.encode 8 r.mtime.toNat ++ r.nameField.toList

/-- The number in `width` bytes at an offset. -/
def field (bytes : Bytes) (offset width : Nat) : Nat :=
  BigEndian.decode ((bytes.drop offset).take width)

def decode (bytes : Bytes) : Record where
  kind := bytes.getD 0 0
  nameLength := bytes.getD 1 0
  reserved := UInt16.ofNat (field bytes 2 2)
  size := UInt32.ofNat (field bytes 4 4)
  start := UInt32.ofNat (field bytes 8 4)
  count := UInt32.ofNat (field bytes 12 4)
  parent := UInt32.ofNat (field bytes 16 4)
  mtime := UInt64.ofNat (field bytes 20 8)
  nameField := Vector.ofFn fun i => (bytes.drop 28).getD i.val 0

/-- The record that the bytes hold, when there are sixty-four of them. -/
def decode? (bytes : Bytes) : Option Record :=
  if bytes.length = Geometry.recordSize then some (decode bytes) else none

/-- The records of a table, one after the other. -/
def decodeMany : Nat → Bytes → List Record
  | 0, _ => []
  | n + 1, bytes =>
    decode (bytes.take Geometry.recordSize) :: decodeMany n (bytes.drop Geometry.recordSize)

def encodeMany (records : List Record) : Bytes := records.flatMap encode

@[simp] theorem length_encode (r : Record) : r.encode.length = Geometry.recordSize := by
  simp [encode, Geometry.recordSize]

theorem decode_encode (r : Record) : decode r.encode = r := by
  cases r with
  | mk kind nameLength reserved size start count parent mtime nameField =>
    simp only [decode, mk.injEq]
    refine ⟨by simp [encode], by simp [encode], ?_, ?_, ?_, ?_, ?_, ?_, ?_⟩
    all_goals simp only [field, encode, List.append_assoc, List.cons_append, List.nil_append,
      List.drop_succ_cons, List.drop_zero, List.drop_append, BigEndian.length_encode,
      List.drop_eq_nil_of_le, Nat.reduceLeDiff, Nat.reduceSub, Nat.le_refl]
    · simp [BigEndian.decode_encode, BigEndian.bound, reserved.toNat_lt]
    · simp [BigEndian.decode_encode, BigEndian.bound, size.toNat_lt]
    · simp [BigEndian.decode_encode, BigEndian.bound, start.toNat_lt]
    · simp [BigEndian.decode_encode, BigEndian.bound, count.toNat_lt]
    · simp [BigEndian.decode_encode, BigEndian.bound, parent.toNat_lt]
    · simp [BigEndian.decode_encode, BigEndian.bound, mtime.toNat_lt]
    · ext i hi
      simp [List.getD_eq_getElem?_getD]

/-- A field is written with the bytes it was read from. -/
theorem encode_field (bytes : Bytes) (offset width : Nat) (h : offset + width ≤ bytes.length) :
    BigEndian.encode width (field bytes offset width) = (bytes.drop offset).take width := by
  have full : ((bytes.drop offset).take width).length = width := by
    simp; omega
  have := BigEndian.encode_decode ((bytes.drop offset).take width)
  rwa [full] at this

theorem field_lt (bytes : Bytes) (offset width : Nat) :
    field bytes offset width < BigEndian.bound width :=
  Nat.lt_of_lt_of_le (BigEndian.decode_lt _) (BigEndian.bound_mono (List.length_take_le ..))

/-- Sixty-four bytes are written as they were read. -/
theorem encode_decode {bytes : Bytes} (h : bytes.length = Geometry.recordSize) :
    (decode bytes).encode = bytes := by
  simp only [Geometry.recordSize] at h
  have r := field_lt bytes 2 2
  have s := field_lt bytes 4 4
  have t := field_lt bytes 8 4
  have c := field_lt bytes 12 4
  have p := field_lt bytes 16 4
  have m := field_lt bytes 20 8
  have head : [bytes.getD 0 0, bytes.getD 1 0] = bytes.take 2 := by
    match bytes, h with
    | a :: b :: rest, _ => simp
  have tail : (Vector.ofFn fun i : Fin 36 => (bytes.drop 28).getD i.val 0).toList
      = bytes.drop 28 := by
    apply List.ext_getElem
    · simp; omega
    · intro i _ hi
      rw [List.length_drop] at hi
      simp [List.getD_eq_getElem?_getD,
        List.getElem?_eq_getElem (show 28 + i < bytes.length by omega)]
  simp only [encode, decode, tail, head]
  rw [UInt16.toNat_ofNat_of_lt' r, UInt32.toNat_ofNat_of_lt' s, UInt32.toNat_ofNat_of_lt' t,
    UInt32.toNat_ofNat_of_lt' c, UInt32.toNat_ofNat_of_lt' p, UInt64.toNat_ofNat_of_lt' m]
  rw [encode_field _ _ _ (by omega), encode_field _ _ _ (by omega), encode_field _ _ _ (by omega),
    encode_field _ _ _ (by omega), encode_field _ _ _ (by omega), encode_field _ _ _ (by omega)]
  simp only [← List.take_add, Nat.reduceAdd, List.take_append_drop]

theorem length_encodeMany (records : List Record) :
    (encodeMany records).length = records.length * Geometry.recordSize := by
  induction records with
  | nil => rfl
  | cons r rest ih =>
    simp only [encodeMany, List.flatMap_cons, List.length_append, List.length_cons,
      length_encode] at ih ⊢
    rw [ih, Nat.add_mul, Nat.one_mul, Nat.add_comm]

theorem length_decodeMany (n : Nat) (bytes : Bytes) : (decodeMany n bytes).length = n := by
  induction n generalizing bytes with
  | zero => rfl
  | succ n ih => rw [decodeMany, List.length_cons, ih]

theorem decodeMany_encodeMany (records : List Record) :
    decodeMany records.length (encodeMany records) = records := by
  induction records with
  | nil => rfl
  | cons r rest ih =>
    have length := r.length_encode
    simp only [encodeMany, List.flatMap_cons, List.length_cons, decodeMany] at ih ⊢
    rw [List.take_left' length, List.drop_left' length, decode_encode, ih]

/-- A name of no more than thirty-six bytes is found in its field as it was. -/
theorem take_padName {name : Bytes} (short : name.length ≤ Geometry.nameCapacity) :
    (padName name).toList.take name.length = name := by
  apply List.ext_getElem
  · simp only [Geometry.nameCapacity] at short
    simp
    omega
  · intro i _ inside
    simp [padName, List.getD_eq_getElem?_getD, List.getElem?_eq_getElem inside]

end Record

end FlatImage
