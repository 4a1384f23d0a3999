import FpgaEthash.Devcore.StdString

/-!
# Byte strings, hexadecimal text and fixed hashes

The parts of `libdevcore` that the miner and the pool protocols share:
`CommonData.h` (the `toHex` family, `fromHex`, `fromBigEndian`) and `FixedHash.h`.
A `FixedHash<N>` is its array of `N` bytes, the most significant first.
-/

namespace FpgaEthash
namespace Devcore

open HexDigits

/-- A `byte`. -/
abbrev Byte := BitVec 8

/-! ## Hexadecimal text -/

/-- `HexPrefix`: whether the text starts with `0x`. -/
inductive HexPrefix where
  | dontAdd
  | add
  deriving DecidableEq, Repr

/-- The text with or without its `0x`. -/
def HexPrefix.prepend : HexPrefix → StdString → StdString
  | .dontAdd, s => s
  | .add, s => '0' :: 'x' :: s

/-- `std::hex << std::setfill('0') << std::setw(w) << n`. -/
def hexField (w n : ℕ) : StdString :=
  List.replicate (w - (compactForm n).length) '0' ++ compactForm n

/-- `toHex` of a series of bytes.  The first of them is written `w` digits wide. -/
def toHexBytes (data : List Byte) (w : ℕ) (pre : HexPrefix) : StdString :=
  pre.prepend (data.zipIdx.flatMap fun p => hexField (if p.2 = 0 then w else 2) p.1.toNat)

/-- `toHex(uint64_t)`, at its default width of sixteen digits. -/
def toHex (n : BitVec 64) (pre : HexPrefix) : StdString :=
  pre.prepend (hexField 16 n.toNat)

/-- A field wide enough holds the digits of the number with leading zeros. -/
theorem hexField_eq_hexForm {w n : ℕ} (hw : 0 < w) (hn : n < 16 ^ w) :
    hexField w n = hexForm w n :=
  replicate_append_compactForm hw hn

/-- `toHex` writes the sixteen digits of a 64-bit number. -/
theorem toHex_eq_hexForm (n : BitVec 64) : toHex n .dontAdd = hexForm 16 n.toNat :=
  hexField_eq_hexForm (by decide) n.isLt

/-- The loop of `fromHex`, over an even number of characters. -/
def fromHexPairs : StdString → Option (List Byte)
  | [] => some []
  -- the low digit would be the terminating zero, which is none
  | [_] => none
  | h :: l :: s => do
      let h ← digitValue h
      let l ← digitValue l
      let ret ← fromHexPairs s
      some (BitVec.ofNat 8 (h * 16 + l) :: ret)

/-- The text after its `0x`, if it starts with one. -/
def skip0x : StdString → StdString
  | '0' :: 'x' :: s => s
  | s => s

/-- `fromHex(s, WhenError::Throw)`, where `none` is a `BadHexCharacter`.  A string of
odd length has a first digit that stands alone. -/
def fromHex (s : StdString) : Option (List Byte) :=
  if s.length % 2 = 1 then
    match skip0x s with
    | [] => none
    | h :: rest => do
        let h ← digitValue h
        let ret ← fromHexPairs rest
        some (BitVec.ofNat 8 h :: ret)
  else fromHexPairs (skip0x s)

/-- `padLeft`. -/
def padLeft (s : StdString) (length : ℕ) (fillChar : Char) : StdString :=
  List.replicate (length - s.length) fillChar ++ s

/-! ## Fixed hashes -/

/-- `FixedHash<N>`. -/
abbrev FixedHash (N : ℕ) := Vector Byte N

/-- `h256`. -/
abbrev H256 := FixedHash 32

namespace FixedHash

/-- `FixedHash()`: all bytes zero. -/
def zero (N : ℕ) : FixedHash N := Vector.replicate N 0

/-- `FixedHash(bytes, FailIfDifferent)`: zero if the number of bytes differs. -/
def ofBytes (N : ℕ) (b : List Byte) : FixedHash N :=
  if h : b.length = N then ⟨b.toArray, h⟩ else zero N

/-- `FixedHash(std::string)`. -/
def ofString (N : ℕ) (s : StdString) : Except StdException (FixedHash N) :=
  match fromHex s with
  | none => .error .badHexCharacter
  | some b => .ok (ofBytes N b)

/-- `hex(_prefix)`. -/
def hex {N : ℕ} (h : FixedHash N) (pre : HexPrefix) : StdString := toHexBytes h.toList 2 pre

end FixedHash

/-- `fromBigEndian`: the integer a byte string stands for. -/
def fromBigEndian (bytes : List Byte) : ℕ :=
  bytes.foldl (fun ret b => ret * 256 + b.toNat) 0

theorem fromBigEndian_concat (bytes : List Byte) (b : Byte) :
    fromBigEndian (bytes ++ [b]) = fromBigEndian bytes * 256 + b.toNat := by
  rw [fromBigEndian, List.foldl_append]
  rfl

/-- Two digits for every byte. -/
theorem toHexBytes_eq_flatMap (data : List Byte) (pre : HexPrefix) :
    toHexBytes data 2 pre = pre.prepend (data.flatMap fun b => hexForm 2 b.toNat) := by
  have hfield : ∀ p : Byte × ℕ, hexField (if p.2 = 0 then 2 else 2) p.1.toNat =
      hexForm 2 p.1.toNat := fun p => by
    rw [ite_self, hexField_eq_hexForm (by decide) p.1.isLt]
  rw [toHexBytes]
  conv_rhs => rw [← List.zipIdx_map_fst 0 data, List.flatMap_map]
  simp only [hfield]

/-- The digits of a byte string stand for the integer that it stands for. -/
theorem value_toHexBytes (data : List Byte) :
    value (toHexBytes data 2 .dontAdd) = fromBigEndian data := by
  rw [toHexBytes_eq_flatMap, HexPrefix.prepend]
  induction data using List.reverseRecOn with
  | nil => rfl
  | append_singleton data b ih =>
    have hb : b.toNat < 16 ^ 2 := b.isLt
    rw [List.flatMap_append, List.flatMap_singleton, value_append, ih, value_hexForm hb,
      length_hexForm, fromBigEndian_concat]
    rfl

theorem fromBigEndian_eq_zero_iff (bytes : List Byte) :
    fromBigEndian bytes = 0 ↔ ∀ b ∈ bytes, b = 0 := by
  induction bytes using List.reverseRecOn with
  | nil => exact ⟨fun _ => nofun, fun _ => rfl⟩
  | append_singleton bytes b ih =>
    have hb : b.toNat = 0 ↔ b = 0 := BitVec.toNat_inj (y := 0#8)
    rw [fromBigEndian_concat, List.forall_mem_append, ← ih, List.forall_mem_singleton, ← hb]
    omega

/-- The digits of a hash read zero for the zero hash only. -/
theorem FixedHash.value_hex_eq_zero_iff {N : ℕ} (h : FixedHash N) :
    value (skip0x (h.hex .add)) = 0 ↔ h = FixedHash.zero N := by
  have htext : skip0x (h.hex .add) = toHexBytes h.toList 2 .dontAdd := rfl
  rw [htext, value_toHexBytes, fromBigEndian_eq_zero_iff]
  constructor
  · intro hbytes
    refine Vector.toList_inj.mp ?_
    rw [FixedHash.zero, Vector.toList_replicate]
    exact List.eq_replicate_iff.mpr ⟨Vector.length_toList, hbytes⟩
  · rintro rfl b hb
    rw [FixedHash.zero, Vector.toList_replicate] at hb
    exact List.eq_of_mem_replicate hb

/-- The digits of a byte string are read back. -/
theorem fromHexPairs_flatMap (data : List Byte) :
    fromHexPairs (data.flatMap fun b => hexForm 2 b.toNat) = some data := by
  induction data with
  | nil => rfl
  | cons b data ih =>
    have hdigits : hexForm 2 b.toNat =
        [Nat.digitChar (b.toNat / 16 % 16), Nat.digitChar (b.toNat % 16)] := rfl
    have hb : BitVec.ofNat 8 (b.toNat / 16 % 16 * 16 + b.toNat % 16) = b := by
      have hlt : b.toNat < 256 := b.isLt
      rw [show b.toNat / 16 % 16 * 16 + b.toNat % 16 = b.toNat by omega, BitVec.ofNat_toNat,
        BitVec.setWidth_eq]
    have hlow := digitValue_digitChar (Nat.mod_lt b.toNat (by decide : 0 < 16))
    have hhigh := digitValue_digitChar (Nat.mod_lt (b.toNat / 16) (by decide : 0 < 16))
    rw [List.flatMap_cons, hdigits, List.cons_append, List.cons_append, List.nil_append,
      fromHexPairs, hlow, hhigh, ih]
    simp only [Option.bind_eq_bind, Option.bind_some, hb]

theorem FixedHash.ofBytes_toList {N : ℕ} (h : FixedHash N) :
    FixedHash.ofBytes N h.toList = h := by
  rw [FixedHash.ofBytes, dif_pos Vector.length_toList]
  exact Vector.toArray_inj.mp Array.toArray_toList

/-- **A hash is what its text stands for.** -/
theorem FixedHash.ofString_hex {N : ℕ} (h : FixedHash N) :
    FixedHash.ofString N (h.hex .add) = .ok h := by
  have heven : ∀ data : List Byte, (data.flatMap fun b => hexForm 2 b.toNat).length % 2 = 0 := by
    intro data
    induction data with
    | nil => rfl
    | cons b data ih =>
      rw [List.flatMap_cons, List.length_append, length_hexForm]
      omega
  have hfrom : fromHex (h.hex .add) = some h.toList := by
    rw [FixedHash.hex, toHexBytes_eq_flatMap, HexPrefix.prepend, fromHex, List.length_cons,
      List.length_cons, if_neg (by have := heven h.toList; omega)]
    exact fromHexPairs_flatMap h.toList
  rw [FixedHash.ofString, hfrom]
  exact congrArg Except.ok (FixedHash.ofBytes_toList h)

end Devcore
end FpgaEthash
