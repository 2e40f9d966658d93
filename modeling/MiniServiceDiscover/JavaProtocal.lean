import MiniServiceDiscover.WireFormat
import Mathlib.Tactic.IntervalCases

set_option autoImplicit false

/-! The Java codec: signed bytes, signed shorts, and `int` arithmetic between. -/
namespace MiniServiceDiscover.JavaProtocal
open WordSum WireFormat

inductive JavaException where
  | arrayIndexOutOfBounds
  deriving DecidableEq, Repr

abbrev JavaBytes := List Int8

def protocalLen : ℕ := 1024

def javaInfoHead : Int16 := 0xFFEE

def infoTypeActionInvalid : Int16 := -1

/-- The short constant of an action. -/
def infoType : Action → Int16
  | .registerService => 0
  | .unregisterService => 1
  | .inquiry => 2
  | .actionSucc => 3
  | .actionFail => 4

structure ProtocalHead where
  head : Int16
  action : Int16
  len : Int16
  checksum : Int16
  deriving DecidableEq, Repr

def index (data : JavaBytes) (i : ℕ) : Except JavaException Int8 :=
  match data[i]? with
  | some b => .ok b
  | none => .error .arrayIndexOutOfBounds

def shortOf (high low : Int8) : Int16 :=
  ((high.toInt32 <<< 8) ||| (low.toInt32 &&& 0xFF)).toInt16

def getShort (data : JavaBytes) (offset : ℕ) : Except JavaException Int16 := do
  let high ← index data (offset + 1)
  let low ← index data offset
  pure (shortOf high low)

def ProtocalHead.ofBytes (data : JavaBytes) : Except JavaException ProtocalHead := do
  let head ← getShort data 0
  let action ← getShort data 2
  let len ← getShort data 4
  let checksum ← getShort data 6
  pure ⟨head, action, len, checksum⟩

def getSize : ℕ := 16 / 8 * 4

def shortLow (s : Int16) : Int8 := (s.toInt32 &&& 0xFF).toInt8

def shortHigh (s : Int16) : Int8 := ((s.toInt32 >>> 8) &&& 0xFF).toInt8

def ProtocalHead.getBytes (h : ProtocalHead) : JavaBytes :=
  [shortLow h.head, shortHigh h.head, shortLow h.action, shortHigh h.action,
    shortLow h.len, shortHigh h.len, shortLow h.checksum, shortHigh h.checksum]

/-- The loop of `getChecksumByOffset`; `sum += b` narrows back to a short. -/
def checksumFrom (sum : Int16) : ℕ → JavaBytes → Except JavaException Int16
  | 0, _ => .ok sum
  | _ + 1, [] => .error .arrayIndexOutOfBounds
  | n + 1, b :: data => checksumFrom (sum + b.toInt16) n data

/-- A negative length runs no iteration. -/
def getChecksumByOffset (data : JavaBytes) (offset : ℕ) (len : ℤ) : Except JavaException Int16 :=
  checksumFrom 0 len.toNat (data.drop offset)

def getChecksum (data : JavaBytes) : Except JavaException Int16 :=
  getChecksumByOffset data 0 data.length

def arraycopy (src dst : JavaBytes) (destPos : ℕ) : Except JavaException JavaBytes :=
  if destPos + src.length ≤ dst.length then
    .ok (dst.take destPos ++ src ++ dst.drop (destPos + src.length))
  else .error .arrayIndexOutOfBounds

def fillPkt (head : ProtocalHead) (jsonData : JavaBytes) : Except JavaException JavaBytes := do
  let data ← arraycopy head.getBytes (List.replicate protocalLen 0) 0
  arraycopy jsonData data getSize

/-- What the four encoders do with the bytes of their JSON text. -/
def getPkt (action : Int16) (jsonData : JavaBytes) : Except JavaException JavaBytes := do
  let checksum ← getChecksum jsonData
  fillPkt ⟨javaInfoHead, action, Int16.ofNat jsonData.length, checksum⟩ jsonData

def decodeAction (data : JavaBytes) : Except JavaException Int16 := do
  let head ← ProtocalHead.ofBytes data
  let checksum ← getChecksumByOffset data getSize head.len.toInt
  pure (if checksum = head.checksum then head.action else infoTypeActionInvalid)

section Bytes

def signed (data : List UInt8) : JavaBytes := data.map UInt8.toInt8

def unsigned (data : JavaBytes) : List UInt8 := data.map Int8.toUInt8

@[simp] theorem unsigned_signed (data : List UInt8) : unsigned (signed data) = data := by
  rw [unsigned, signed, List.map_map]
  exact List.map_id data

theorem signed_length (data : List UInt8) : (signed data).length = data.length := List.length_map _

theorem unsigned_append (a b : JavaBytes) : unsigned (a ++ b) = unsigned a ++ unsigned b :=
  List.map_append

theorem shortLow_toUInt8 (s : Int16) : (shortLow s).toUInt8 = lowByte s.toUInt16 := by
  apply UInt8.toBitVec_inj.1
  change (s.toBitVec.signExtend 32 &&& 0xFF#32).signExtend 8 = s.toBitVec.setWidth 8
  ext i hi
  interval_cases i <;> simp [BitVec.getElem_signExtend]

theorem shortHigh_toUInt8 (s : Int16) : (shortHigh s).toUInt8 = highByte s.toUInt16 := by
  apply UInt8.toBitVec_inj.1
  change ((s.toBitVec.signExtend 32).sshiftRight 8 &&& 0xFF#32).signExtend 8 =
    (s.toBitVec >>> 8).setWidth 8
  ext i hi
  interval_cases i <;> simp [BitVec.getElem_signExtend, BitVec.getElem_sshiftRight]

/-- Sign extension of the high byte is shifted out. -/
theorem shortOf_toUInt16 (high low : Int8) :
    (shortOf high low).toUInt16 = word low.toUInt8 high.toUInt8 := by
  apply UInt16.toBitVec_inj.1
  change ((high.toBitVec.signExtend 32 <<< 8) ||| (low.toBitVec.signExtend 32 &&& 0xFF#32)).signExtend 16
    = low.toBitVec.setWidth 16 ||| (high.toBitVec.setWidth 16 <<< 8)
  ext i hi
  interval_cases i <;> simp [BitVec.getElem_signExtend]

theorem getBytes_unsigned (h : ProtocalHead) : unsigned h.getBytes =
    headBytes h.head.toUInt16 h.action.toUInt16 h.len.toUInt16 h.checksum.toUInt16 := by
  simp only [unsigned, ProtocalHead.getBytes, List.map_cons, List.map_nil, shortLow_toUInt8,
    shortHigh_toUInt8, headBytes]

theorem getShort_signed {data : List UInt8} {k : ℕ} (h : 2 * k + 1 < data.length) :
    getShort (signed data) (2 * k) = .ok (field k data).toInt16 := by
  have hi : ∀ i (hi : i < data.length), index (signed data) i = .ok (data.getD i 0).toInt8 := by
    intro i hi
    rw [index, signed, List.getElem?_map, List.getD_eq_getElem?_getD,
      List.getElem?_eq_getElem hi]
    rfl
  rw [getShort, hi _ h, hi (2 * k) (by omega)]
  change Except.ok _ = _
  congr 1
  have hs := shortOf_toUInt16 (data.getD (2 * k + 1) 0).toInt8 (data.getD (2 * k) 0).toInt8
  exact congrArg UInt16.toInt16 hs

theorem ofBytes_signed {data : List UInt8} (h : headLen ≤ data.length) :
    ProtocalHead.ofBytes (signed data) = .ok ⟨(field 0 data).toInt16, (field 1 data).toInt16,
      (field 2 data).toInt16, (field 3 data).toInt16⟩ := by
  unfold headLen at h
  rw [ProtocalHead.ofBytes, getShort_signed (k := 0) (by omega), getShort_signed (k := 1) (by omega),
    getShort_signed (k := 2) (by omega), getShort_signed (k := 3) (by omega)]
  rfl

end Bytes

section Checksums

theorem checksumFrom_eq (sum : Int16) (n : ℕ) (data : JavaBytes) (h : n ≤ data.length) :
    checksumFrom sum n data = .ok ((data.take n).foldl (fun s b => s + b.toInt16) sum) := by
  induction n generalizing sum data with
  | zero => rfl
  | succ n ih =>
    cases data with
    | nil => simp at h
    | cons b data =>
      rw [checksumFrom, ih _ _ (by simpa using h)]
      rfl

theorem foldl_toUInt16 (data : List UInt8) (sum : Int16) :
    ((signed data).foldl (fun s b => s + b.toInt16) sum).toUInt16 =
      data.foldl (fun s b => s + signExtend b) sum.toUInt16 := by
  induction data generalizing sum with
  | nil => rfl
  | cons b data ih => exact ih (sum + b.toInt8.toInt16)

/-- The checksum is the sign-extended byte sum of what the length counts. -/
theorem getChecksumByOffset_signed {data : List UInt8} {offset : ℕ} {len : ℤ}
    (h : offset + len.toNat ≤ data.length) :
    getChecksumByOffset (signed data) offset len =
      .ok (wordSum signExtend ((data.drop offset).take len.toNat)).toInt16 := by
  have hd : (signed data).drop offset = signed (data.drop offset) := List.map_drop.symm
  have ht : (signed (data.drop offset)).take len.toNat = signed ((data.drop offset).take len.toNat) :=
    List.map_take.symm
  rw [getChecksumByOffset, hd, checksumFrom_eq _ _ _ (by rw [signed_length, List.length_drop]; omega),
    ht]
  exact congrArg (fun w => Except.ok (UInt16.toInt16 w)) (foldl_toUInt16 _ 0)

theorem getChecksum_signed (data : List UInt8) :
    getChecksum (signed data) = .ok (wordSum signExtend data).toInt16 := by
  rw [getChecksum, signed_length,
    getChecksumByOffset_signed (by rw [Int.toNat_natCast, Nat.zero_add])]
  rw [Int.toNat_natCast, List.drop_zero, List.take_length]

end Checksums

section Packets

theorem ok_bind {α β : Type} (a : α) (f : α → Except JavaException β) :
    (Except.ok a >>= f) = f a := rfl

theorem infoType_toUInt16 (action : Action) : (infoType action).toUInt16 = action.code := by
  cases action <;> rfl

theorem infoType_ne_invalid (action : Action) : infoType action ≠ infoTypeActionInvalid := by
  cases action <;> decide

theorem arraycopy_behind (front rest src : JavaBytes) (h : src.length ≤ rest.length) :
    arraycopy src (front ++ rest) front.length = .ok (front ++ (src ++ rest.drop src.length)) := by
  rw [arraycopy, if_pos (by rw [List.length_append]; omega), List.take_left, List.drop_append,
    List.drop_of_length_le (Nat.le_add_right _ _), List.nil_append, Nat.add_sub_cancel_left,
    List.append_assoc]

theorem fillPkt_ok (head : ProtocalHead) {jsonData : JavaBytes} (h : jsonData.length ≤ payloadLen) :
    fillPkt head jsonData =
      .ok (head.getBytes ++ (jsonData ++ List.replicate (payloadLen - jsonData.length) 0)) := by
  have hl : head.getBytes.length = headLen := rfl
  have front := arraycopy_behind [] (List.replicate protocalLen 0) head.getBytes
    (by rw [hl, List.length_replicate]; decide)
  have body := arraycopy_behind head.getBytes (List.replicate payloadLen 0) jsonData
    (by rw [List.length_replicate]; exact h)
  rw [List.drop_replicate, List.nil_append, List.nil_append, List.length_nil] at front
  rw [List.drop_replicate] at body
  rw [fillPkt, front, ok_bind]
  exact body

theorem fillPkt_long (head : ProtocalHead) {jsonData : JavaBytes}
    (h : payloadLen < jsonData.length) :
    fillPkt head jsonData = .error .arrayIndexOutOfBounds := by
  have hl : head.getBytes.length = headLen := rfl
  have front := arraycopy_behind [] (List.replicate protocalLen 0) head.getBytes
    (by rw [hl, List.length_replicate]; decide)
  rw [List.drop_replicate, List.nil_append, List.nil_append, List.length_nil] at front
  rw [fillPkt, front, ok_bind, arraycopy, if_neg]
  rw [List.length_append, hl, List.length_replicate]
  change ¬ headLen + jsonData.length ≤ headLen + payloadLen
  omega

/-- Building a packet fails exactly on a text that does not fit. -/
theorem getPkt_eq (action : Int16) (jsonData : JavaBytes) :
    ∃ head : ProtocalHead, head.action = action ∧ getPkt action jsonData =
      if jsonData.length ≤ payloadLen then
        .ok (head.getBytes ++ (jsonData ++ List.replicate (payloadLen - jsonData.length) 0))
      else .error .arrayIndexOutOfBounds := by
  obtain ⟨sum, hsum⟩ : ∃ sum, getChecksum jsonData = .ok sum :=
    ⟨_, checksumFrom_eq 0 _ _ (by rw [Int.toNat_natCast]; rfl)⟩
  refine ⟨⟨javaInfoHead, action, Int16.ofNat jsonData.length, sum⟩, rfl, ?_⟩
  rw [getPkt, hsum, ok_bind]
  by_cases h : jsonData.length ≤ payloadLen
  · rw [if_pos h, fillPkt_ok _ h]
  · rw [if_neg h, fillPkt_long _ (Nat.lt_of_not_le h)]

theorem ofNat_toUInt16 (n : ℕ) : (Int16.ofNat n).toUInt16 = n.toUInt16 := rfl

/-- A text that fits is laid out as in the other implementations, with the
signed checksum. -/
theorem getPkt_signed (action : Action) {json : List UInt8} (h : json.length ≤ payloadLen) :
    ∃ pkt, getPkt (infoType action) (signed json) = .ok pkt ∧
      unsigned pkt = packet (headBytes infoHead action.code json.length.toUInt16
        (wordSum signExtend json)) json := by
  have hp : getPkt (infoType action) (signed json) = fillPkt ⟨javaInfoHead, infoType action,
      Int16.ofNat json.length, (wordSum signExtend json).toInt16⟩ (signed json) := by
    rw [getPkt, getChecksum_signed, signed_length, ok_bind]
  refine ⟨_, hp.trans (fillPkt_ok _ (by rw [signed_length]; exact h)), ?_⟩
  rw [unsigned_append, unsigned_append, unsigned_signed, getBytes_unsigned, infoType_toUInt16,
    ofNat_toUInt16, packet, List.take_of_length_le h, unsigned, List.map_replicate, signed_length]
  rfl

/-- The receiver compares the signed sum of what the header counts. -/
theorem decodeAction_signed (data : List UInt8) (h : headLen ≤ data.length)
    (hl : headLen + (field 2 data).toInt16.toInt.toNat ≤ data.length) :
    decodeAction (signed data) = .ok
      (if (wordSum signExtend ((payload data).take (field 2 data).toInt16.toInt.toNat)).toInt16 =
          (field 3 data).toInt16 then (field 1 data).toInt16 else infoTypeActionInvalid) := by
  rw [decodeAction, ofBytes_signed h]
  change (getChecksumByOffset (signed data) headLen (field 2 data).toInt16.toInt >>= _) = _
  rw [getChecksumByOffset_signed hl]
  rfl

end Packets

end MiniServiceDiscover.JavaProtocal
