import MiniServiceDiscover.CRoundTrip
import Mathlib.Data.List.GetD

set_option autoImplicit false

/-! The C codec byte by byte: what the encoders leave in their local buffers and copy
into the packet, and which bytes the decoders read. -/
namespace MiniServiceDiscover.CMemory
open CProtocal CJsonText CRoundTrip JsonText JsonRoundTrip WordSum WireFormat

section Encoders

/-- `strncpy` over `n` bytes, from the bytes before the terminator. -/
def strncpy : ℕ → List UInt8 → List UInt8
  | 0, _ => []
  | n + 1, [] => 0 :: strncpy n []
  | n + 1, b :: s => b :: strncpy n s

/-- The calls of the encoders, with the strings their arguments point to. -/
inductive Encode where
  | registerPkt (deviceName serviceName ip : CString) (port : UInt16) (info : CString)
  | unregisterPkt (deviceName serviceName : CString)
  | inquiryPkt (serviceName : CString)
  | inquiryResultPkt (deviceName serviceName ip info : CString) (port : UInt16)
  | resultPkt (isSucc : Bool) (reason : CString)

namespace Encode

def args : Encode → List CString
  | .registerPkt deviceName serviceName ip _ info => [deviceName, serviceName, ip, info]
  | .unregisterPkt deviceName serviceName => [deviceName, serviceName]
  | .inquiryPkt serviceName => [serviceName]
  | .inquiryResultPkt deviceName serviceName ip info _ => [deviceName, serviceName, ip, info]
  | .resultPkt _ reason => [reason]

/-- The object that is printed. -/
def root : Encode → List (Key × Field)
  | .registerPkt deviceName serviceName ip port info =>
    serviceRoot deviceName serviceName ip info port
  | .unregisterPkt deviceName serviceName => serviceRoot deviceName serviceName .empty .empty 0
  | .inquiryPkt serviceName => serviceRoot .empty serviceName .empty .empty 0
  | .inquiryResultPkt deviceName serviceName ip info port =>
    serviceRoot deviceName serviceName ip info port
  | .resultPkt _ reason => [(.reason, .string reason)]

def pkt (cj : CJson) : Encode → Except CFault (List UInt8)
  | .registerPkt deviceName serviceName ip port info =>
    getRegisterPkt cj (some deviceName) (some serviceName) (some ip) port (some info)
  | .unregisterPkt deviceName serviceName => getUnregisterPkt cj (some deviceName) (some serviceName)
  | .inquiryPkt serviceName => CProtocal.getInquiryPkt cj (some serviceName)
  | .inquiryResultPkt deviceName serviceName ip info port =>
    getInquiryResultPkt cj ⟨some deviceName, some serviceName, some ip, some info, port⟩
  | .resultPkt isSucc reason => getResultPkt cj isSucc (some reason)

def infoLen (cj : CJson) (e : Encode) : UInt16 := (cj.print e.root).bytes.length.toUInt16

/-- Every string handed to cJSON ends within its local buffer, and the copy of the text
within the packet. -/
structure InBuffers (cj : CJson) (e : Encode) : Prop where
  terminated : ∀ s ∈ e.args, (0 : UInt8) ∈ strncpy infoMaxLen s.bytes
  copied : headLen + (e.infoLen cj).toNat ≤ packetLen

end Encode

/-- The bytes `cJSON_Print` writes for one byte of a string. -/
def escapedCost (b : UInt8) : ℕ :=
  if b ∈ shortEscapes then 2 else if b.toNat < 0x20 then 6 else 1

def escapedLen (s : CString) : ℕ := (s.bytes.map escapedCost).sum

def digits (n : UInt16) : ℕ := (decimal n.toNat).length

def valueLen : Field → ℕ
  | .string s => escapedLen s + 2
  | .number n => digits n

/-- Two braces and a line break, and for each field its quoted key, a colon, two tabs,
a line break, and a comma behind all but the last. -/
def printLen (root : List (Key × Field)) : ℕ :=
  2 + (root.map fun f => f.1.name.length + valueLen f.2 + 7).sum

/-- cJSON prints an object in exactly that many bytes. -/
def PrintsExactly (cj : CJson) : Prop :=
  ∀ root, root ≠ [] → (cj.print root).bytes.length = printLen root

/-- The four strings and the port leave room for the rest of the text. -/
def Encode.Fits : Encode → Prop
  | .registerPkt deviceName serviceName ip port info =>
    escapedLen deviceName + escapedLen serviceName + escapedLen ip + escapedLen info + digits port ≤
      938
  | .unregisterPkt deviceName serviceName => escapedLen deviceName + escapedLen serviceName ≤ 937
  | .inquiryPkt _ => True
  | .inquiryResultPkt deviceName serviceName ip info port =>
    escapedLen deviceName + escapedLen serviceName + escapedLen ip + escapedLen info + digits port ≤
      938
  | .resultPkt _ _ => True

/-- The copy is terminated when the string is shorter than the buffer. -/
theorem strncpy_terminated_iff (n : ℕ) {s : List UInt8} (h : (0 : UInt8) ∉ s) :
    (0 : UInt8) ∈ strncpy n s ↔ s.length < n := by
  induction n generalizing s with
  | zero => exact iff_of_false List.not_mem_nil (Nat.not_lt_zero _)
  | succ n ih =>
    cases s with
    | nil => exact iff_of_true (List.mem_cons_self ..) (Nat.succ_pos n)
    | cons b s =>
      rw [List.mem_cons, not_or] at h
      rw [strncpy, List.mem_cons, List.length_cons, ih h.2, Nat.succ_lt_succ_iff]
      exact or_iff_right h.1

theorem takeWhile_strncpy (n : ℕ) {s : List UInt8} (h : (0 : UInt8) ∉ s) (hl : s.length < n) :
    (strncpy n s).takeWhile (· != 0) = s := by
  induction n generalizing s with
  | zero => exact absurd hl (Nat.not_lt_zero _)
  | succ n ih =>
    cases s with
    | nil => rfl
    | cons b s =>
      rw [List.mem_cons, not_or] at h
      have hb : (b != 0) = true := bne_iff_ne.2 (Ne.symm h.1)
      rw [strncpy, List.takeWhile_cons, if_pos hb, ih h.2 (Nat.lt_of_succ_lt_succ hl)]

/-- Read as a string, the copy is what the encoders go on with. -/
theorem stringAt_strncpy (s : CString) :
    stringAt (strncpy infoMaxLen s.bytes) = strncpyBuf (some s) := by
  by_cases h : s.bytes.length < infoMaxLen
  · have h0 := (strncpy_terminated_iff infoMaxLen s.noNul).2 h
    simp only [stringAt, if_pos h0, takeWhile_strncpy infoMaxLen s.noNul h, strncpyBuf, if_pos h]
  · have h0 : (0 : UInt8) ∉ strncpy infoMaxLen s.bytes :=
      fun hm => h ((strncpy_terminated_iff infoMaxLen s.noNul).1 hm)
    rw [stringAt, if_neg h0, strncpyBuf, if_neg h]

variable {cj : CJson} {e : Encode}

theorem terminated_iff (e : Encode) : (∀ s ∈ e.args, (0 : UInt8) ∈ strncpy infoMaxLen s.bytes) ↔
    ∀ s ∈ e.args, s.bytes.length < infoMaxLen :=
  forall₂_congr fun s _ => strncpy_terminated_iff infoMaxLen s.noNul

theorem fillPkt_ok_iff (action : UInt16) (root : List (Key × Field)) :
    (∃ data, fillPkt cj action root = .ok data) ↔
      headLen + (cj.print root).bytes.length.toUInt16.toNat ≤ packetLen := by
  have hsize : headLen + payloadLen = packetLen := rfl
  rw [fillPkt]
  by_cases h : (cj.print root).bytes.length.toUInt16.toNat ≤ payloadLen
  · exact iff_of_true ⟨_, if_pos h⟩ (by omega)
  · refine iff_of_false ?_ (by omega)
    rintro ⟨data, hd⟩
    exact absurd ((if_neg h).symm.trans hd) (by simp)

theorem strncpyBuf_bind_ok {s : CString} {f : CString → Except CFault (List UInt8)} :
    (∃ data, (strncpyBuf (some s) >>= f) = .ok data) ↔
      s.bytes.length < infoMaxLen ∧ ∃ data, f s = .ok data := by
  by_cases h : s.bytes.length < infoMaxLen
  · rw [strncpyBuf_ok h]
    exact (and_iff_right h).symm
  · rw [strncpyBuf, if_neg h]
    refine iff_of_false ?_ fun hf => h hf.1
    rintro ⟨data, hd⟩
    cases hd

/-- The encoders return a packet exactly when they stay in their buffers. -/
theorem pkt_ok_iff (cj : CJson) (e : Encode) : (∃ data, e.pkt cj = .ok data) ↔ e.InBuffers cj := by
  have hbuffers : e.InBuffers cj ↔ (∀ s ∈ e.args, s.bytes.length < infoMaxLen) ∧
      headLen + (cj.print e.root).bytes.length.toUInt16.toNat ≤ packetLen := by
    rw [← terminated_iff]
    exact ⟨fun h => ⟨h.terminated, h.copied⟩, fun h => ⟨h.1, h.2⟩⟩
  rw [hbuffers]
  cases e with
  | registerPkt deviceName serviceName ip port info =>
    simp only [Encode.pkt, getRegisterPkt, strncpyBuf_bind_ok, fillPkt_ok_iff, Encode.args,
      List.forall_mem_cons, List.not_mem_nil, IsEmpty.forall_iff, implies_true, and_true, and_assoc]
    rfl
  | unregisterPkt deviceName serviceName =>
    simp only [Encode.pkt, getUnregisterPkt, strncpyBuf_bind_ok, fillPkt_ok_iff, Encode.args,
      List.forall_mem_cons, List.not_mem_nil, IsEmpty.forall_iff, implies_true, and_true, and_assoc]
    rfl
  | inquiryPkt serviceName =>
    simp only [Encode.pkt, CProtocal.getInquiryPkt, strncpyBuf_bind_ok, fillPkt_ok_iff, Encode.args,
      List.forall_mem_cons, List.not_mem_nil, IsEmpty.forall_iff, implies_true, and_true]
    rfl
  | inquiryResultPkt deviceName serviceName ip info port =>
    simp only [Encode.pkt, getInquiryResultPkt, strncpyBuf_bind_ok, fillPkt_ok_iff, Encode.args,
      List.forall_mem_cons, List.not_mem_nil, IsEmpty.forall_iff, implies_true, and_true, and_assoc]
    rfl
  | resultPkt isSucc reason =>
    simp only [Encode.pkt, getResultPkt, strncpyBuf_bind_ok, fillPkt_ok_iff, Encode.args,
      List.forall_mem_cons, List.not_mem_nil, IsEmpty.forall_iff, implies_true, and_true]
    rfl

theorem escapedLen_le (s : CString) : escapedLen s ≤ 6 * s.bytes.length :=
  sum_map_le escapedCost 6 fun b _ => by
    unfold escapedCost
    split_ifs <;> decide

theorem digits_le (n : UInt16) : digits n ≤ 5 := decimal_port_length n

theorem printLen_serviceRoot (deviceName serviceName ip info : CString) (port : UInt16) :
    printLen (serviceRoot deviceName serviceName ip info port) = escapedLen deviceName +
      escapedLen serviceName + escapedLen ip + escapedLen info + digits port + 78 := by
  simp only [printLen, serviceRoot, List.map_cons, List.map_nil, List.sum_cons, List.sum_nil,
    valueLen, Key.name]
  have h1 : "device_name".length = 11 := rfl
  have h2 : "service_name".length = 12 := rfl
  have h3 : "ip".length = 2 := rfl
  have h4 : "info".length = 4 := rfl
  have h5 : "port".length = 4 := rfl
  omega

theorem printLen_reason (reason : CString) :
    printLen [(.reason, .string reason)] = escapedLen reason + 17 := by
  simp only [printLen, List.map_cons, List.map_nil, List.sum_cons, List.sum_nil, valueLen, Key.name]
  have h : "reason".length = 6 := rfl
  omega

/-- The four strings of a service that fit their buffers, against the packet. -/
theorem serviceRoot_fits_iff {deviceName serviceName ip info : CString} (port : UInt16)
    (hd : deviceName.bytes.length < infoMaxLen) (hs : serviceName.bytes.length < infoMaxLen)
    (hip : ip.bytes.length < infoMaxLen) (hinfo : info.bytes.length < infoMaxLen) :
    printLen (serviceRoot deviceName serviceName ip info port) < 65536 ∧
      (printLen (serviceRoot deviceName serviceName ip info port) ≤ payloadLen ↔
        escapedLen deviceName + escapedLen serviceName + escapedLen ip + escapedLen info +
          digits port ≤ 938) := by
  have hmax : infoMaxLen = 100 := rfl
  have hpay : payloadLen = 1016 := rfl
  have := escapedLen_le deviceName
  have := escapedLen_le serviceName
  have := escapedLen_le ip
  have := escapedLen_le info
  have := digits_le port
  rw [printLen_serviceRoot]
  omega

/-- For arguments that fit their buffers, the text fits the packet when the strings leave
room for it. -/
theorem printLen_fits_iff (h : ∀ s ∈ e.args, s.bytes.length < infoMaxLen) :
    printLen e.root < 65536 ∧ (printLen e.root ≤ payloadLen ↔ e.Fits) := by
  have hmax : infoMaxLen = 100 := rfl
  have hnone : CString.empty.bytes.length < infoMaxLen := by decide
  have hempty : escapedLen .empty = 0 := rfl
  have hzero : digits 0 = 1 := by decide
  cases e with
  | registerPkt deviceName serviceName ip port info =>
    simp only [Encode.args, List.forall_mem_cons] at h
    obtain ⟨h1, h2, h3, h4, -⟩ := h
    exact serviceRoot_fits_iff port h1 h2 h3 h4
  | unregisterPkt deviceName serviceName =>
    simp only [Encode.args, List.forall_mem_cons] at h
    obtain ⟨h1, h2, -⟩ := h
    have hfits := serviceRoot_fits_iff 0 h1 h2 hnone hnone
    rw [Encode.root, Encode.Fits]
    omega
  | inquiryPkt serviceName =>
    simp only [Encode.args, List.forall_mem_cons] at h
    have hfits := serviceRoot_fits_iff 0 hnone h.1 hnone hnone
    have := escapedLen_le serviceName
    rw [Encode.root, Encode.Fits, iff_true]
    omega
  | inquiryResultPkt deviceName serviceName ip info port =>
    simp only [Encode.args, List.forall_mem_cons] at h
    obtain ⟨h1, h2, h3, h4, -⟩ := h
    exact serviceRoot_fits_iff port h1 h2 h3 h4
  | resultPkt isSucc reason =>
    simp only [Encode.args, List.forall_mem_cons] at h
    have hpay : payloadLen = 1016 := rfl
    have := escapedLen_le reason
    rw [Encode.root, printLen_reason, Encode.Fits, iff_true]
    omega

theorem root_ne_nil (e : Encode) : e.root ≠ [] := by
  cases e <;> exact List.cons_ne_nil _ _

/-- An encoder stays in its buffers exactly when its arguments fit the local ones and
leave room for the rest of the text in the packet. -/
theorem encode_inBuffers_iff (cj : CJson) (exact : PrintsExactly cj) (e : Encode) :
    e.InBuffers cj ↔ (∀ s ∈ e.args, s.bytes.length < infoMaxLen) ∧ e.Fits := by
  have hlen : (∀ s ∈ e.args, s.bytes.length < infoMaxLen) →
      (headLen + (e.infoLen cj).toNat ≤ packetLen ↔ e.Fits) := by
    intro h
    obtain ⟨hsmall, hfits⟩ := printLen_fits_iff h
    have hn : (e.infoLen cj).toNat = printLen e.root := by
      rw [Encode.infoLen, exact e.root (root_ne_nil e)]
      exact UInt16.toNat_ofNat_of_lt' hsmall
    have hsize : headLen + payloadLen = packetLen := rfl
    rw [hn, ← hfits]
    omega
  constructor
  · intro h
    have hshort := (terminated_iff e).1 h.terminated
    exact ⟨hshort, (hlen hshort).1 h.copied⟩
  · exact fun h => ⟨(terminated_iff e).2 h.1, (hlen h.1).2 h.2⟩

end Encoders

section Printed

theorem elemText_printByte_length (b : UInt8) : (elemText (printByte b)).length = escapedCost b := by
  unfold printByte escapedCost
  by_cases hs : b ∈ shortEscapes
  · rw [if_pos hs, if_pos hs]
    rfl
  · rw [if_neg hs, if_neg hs]
    split_ifs <;> rfl

theorem stringText_printString_length (s : CString) :
    (stringText (printString s)).length = escapedLen s + 2 := by
  have go : ((printString s).flatMap elemText).length = escapedLen s := by
    rw [printString, escapedLen]
    induction s.bytes with
    | nil => rfl
    | cons b bytes ih =>
      rw [List.map_cons, List.flatMap_cons, List.length_append, List.map_cons, List.sum_cons, ih,
        elemText_printByte_length]
  rw [stringText, List.length_cons, List.length_append, List.length_singleton, go]

theorem memberText_length_eq (f : Key × Field) :
    (memberText formatted (keyElems f.1, fieldScalar f.2)).length =
      f.1.name.length + valueLen f.2 + 6 := by
  obtain ⟨k, f⟩ := f
  have hk : (stringText (keyElems k)).length = k.name.length + 2 := by
    cases k <;> decide
  have hf : (fieldScalar f).text.length = valueLen f := by
    cases f with
    | string s => exact stringText_printString_length s
    | number n => rfl
  simp only [memberText, formatted, List.length_append, List.length_cons, List.length_nil, hk, hf]
  omega

theorem membersText_length_eq (y : Layout) {ms : List (List Elem × Scalar)} (h : ms ≠ []) :
    (membersText y ms).length + 1 = (ms.map fun m => (memberText y m).length + 1).sum := by
  induction ms with
  | nil => exact absurd rfl h
  | cons m ms ih =>
    cases ms with
    | nil => rfl
    | cons n ms =>
      rw [membersText, List.map_cons, List.sum_cons, ← ih (List.cons_ne_nil n ms),
        List.length_append, List.length_cons]
      · omega
      · exact List.cons_ne_nil n ms

theorem textCJson_printsExactly : PrintsExactly textCJson := by
  intro root hne
  have hm := membersText_length_eq formatted (show members root ≠ [] by simpa [members] using hne)
  have hs : ((members root).map fun m => (memberText formatted m).length + 1).sum =
      (root.map fun f => f.1.name.length + valueLen f.2 + 7).sum := by
    rw [members, List.map_map]
    congr 1
    apply List.map_congr_left
    intro f _
    exact congrArg Nat.succ (memberText_length_eq f)
  change (printText root).length = _
  simp only [printText, objectText, printLen, formatted, List.length_cons, List.length_append,
    List.length_nil] at hm ⊢
  simp only [formatted] at hs
  omega

end Printed

section EncoderExamples

/-- A registration with an info of 100 bytes. -/
def longRegister : Encode :=
  .registerPkt box.str box.str box.str 6666 ⟨List.replicate infoMaxLen 0x61, by
    rw [List.mem_replicate]
    exact fun h => absurd h.2 (by decide)⟩

theorem encode_inBuffers_iff_box : (Encode.inquiryPkt box.str).InBuffers textCJson ↔
    (∀ s ∈ (Encode.inquiryPkt box.str).args, s.bytes.length < infoMaxLen) ∧
      (Encode.inquiryPkt box.str).Fits :=
  encode_inBuffers_iff textCJson textCJson_printsExactly (.inquiryPkt box.str)

/-- Its buffer has no terminator. -/
theorem longRegister_unterminated : ¬ longRegister.InBuffers textCJson := by
  intro h
  have hinfo := h.terminated _ (List.mem_cons_of_mem _ (List.mem_cons_of_mem _
    (List.mem_cons_of_mem _ (List.mem_cons_self ..))))
  exact absurd ((strncpy_terminated_iff infoMaxLen (CString.noNul _)).1 hinfo)
    (by rw [List.length_replicate]; exact Nat.lt_irrefl _)

end EncoderExamples

section Decoders

/-- The bytes from `pkt->data` on, those of the packet and what lies behind them. -/
abbrev Memory := ℕ → UInt8

/-- What a function returns, and the offsets it has read in order. -/
structure Reading (α : Type) where
  value : α
  offsets : List ℕ

/-- Word `k` of the header. -/
def headWord (mem : Memory) (k : ℕ) : Reading UInt16 :=
  ⟨word (mem (2 * k)) (mem (2 * k + 1)), [2 * k, 2 * k + 1]⟩

/-- The loop of `checksum_right` with `left` iterations to go; every test reads
`head->info_len` again. -/
def sumFrom (mem : Memory) : ℕ → ℕ → UInt16 → Reading UInt16
  | 0, _, sum => ⟨sum, (headWord mem 2).offsets⟩
  | left + 1, data, sum =>
    let rest := sumFrom mem left (data + 1) (sum + zeroExtend (mem data))
    ⟨rest.value, (headWord mem 2).offsets ++ data :: rest.offsets⟩

def checksumRight (mem : Memory) : Reading Bool :=
  let sum := sumFrom mem (headWord mem 2).value.toNat headLen 0
  ⟨sum.value == (headWord mem 3).value, sum.offsets ++ (headWord mem 3).offsets⟩

def decodeAction (mem : Memory) : Reading ℤ :=
  let right := checksumRight mem
  if right.value then ⟨(headWord mem 1).value.toNat, right.offsets ++ (headWord mem 1).offsets⟩
  else ⟨infoTypeActionInvalid, right.offsets⟩

/-- The offsets that are read of the string behind the header: up to its first zero byte. -/
def Scanned (mem : Memory) (i : ℕ) : Prop :=
  headLen ≤ i ∧ ∀ j, headLen ≤ j → j < i → mem j ≠ 0

/-- What `decode_action` and then `get_service_info` read. -/
def ReadByServiceInfo (mem : Memory) (i : ℕ) : Prop :=
  i ∈ (decodeAction mem).offsets ∨ Scanned mem i

/-- What `decode_action` and then `get_result` read. -/
def ReadByResult (mem : Memory) (i : ℕ) : Prop :=
  i ∈ (decodeAction mem).offsets ∨ i ∈ (headWord mem 1).offsets ∨
    ((headWord mem 1).value = Action.actionFail.code ∧ Scanned mem i)

/-- What a caller reads that decodes the string in some cases of its switch. -/
def ReadInCases (cases : List Action) (mem : Memory) (i : ℕ) : Prop :=
  i ∈ (decodeAction mem).offsets ∨
    ((∃ action ∈ cases, (decodeAction mem).value = action.code.toNat) ∧ Scanned mem i)

/-- The memory begins with the packet. -/
def Holds (mem : Memory) (pkt : List UInt8) : Prop := ∀ i, i < packetLen → mem i = pkt.getD i 0

variable {mem : Memory} {pkt : List UInt8}

theorem Holds.headWord (h : Holds mem pkt) {k : ℕ} (hk : k < 4) :
    (CMemory.headWord mem k).value = field k pkt := by
  have hlen : packetLen = 1024 := rfl
  rw [CMemory.headWord, h (2 * k) (by omega), h (2 * k + 1) (by omega)]
  rfl

theorem mem_headWord {k i : ℕ} : i ∈ (headWord mem k).offsets ↔ i = 2 * k ∨ i = 2 * k + 1 := by
  simp only [headWord, List.mem_cons, List.not_mem_nil, or_false]

/-- The loop reads its bound, and one byte after the other. -/
theorem mem_sumFrom {left data i : ℕ} {sum : UInt16} : i ∈ (sumFrom mem left data sum).offsets ↔
    i ∈ (headWord mem 2).offsets ∨ (data ≤ i ∧ i < data + left) := by
  induction left generalizing data sum with
  | zero =>
    rw [sumFrom]
    exact (or_iff_left (by omega)).symm
  | succ left ih =>
    rw [sumFrom, List.mem_append, List.mem_cons, ih]
    constructor
    · rintro (h | rfl | h | ⟨h1, h2⟩)
      · exact .inl h
      · exact .inr (by omega)
      · exact .inl h
      · exact .inr (by omega)
    · rintro (h | ⟨h1, h2⟩)
      · exact .inl h
      · by_cases hi : i = data
        · exact .inr (.inl hi)
        · exact .inr (.inr (.inr (by omega)))

theorem mem_checksumRight {i : ℕ} : i ∈ (checksumRight mem).offsets ↔
    (i ∈ (headWord mem 2).offsets ∨ (headLen ≤ i ∧ i < headLen + (headWord mem 2).value.toNat)) ∨
      i ∈ (headWord mem 3).offsets := by
  rw [checksumRight, List.mem_append, mem_sumFrom]

/-- Behind the header, `decode_action` reads as many bytes as the header counts. -/
theorem decodeAction_inBounds_iff (hm : Holds mem pkt) :
    (∀ i ∈ (decodeAction mem).offsets, i < packetLen) ↔ (field 2 pkt).toNat ≤ payloadLen := by
  have hlen : packetLen = 1024 := rfl
  have hhead : headLen = 8 := rfl
  have hpay : payloadLen = 1016 := rfl
  have hsub : ∀ i, i ∈ (decodeAction mem).offsets ↔ i ∈ (checksumRight mem).offsets ∨
      ((checksumRight mem).value = true ∧ i ∈ (headWord mem 1).offsets) := by
    intro i
    unfold decodeAction
    by_cases hr : (checksumRight mem).value = true
    · simp only [hr, if_true, List.mem_append, true_and]
    · simp only [hr, Bool.false_eq_true, if_false, false_and, or_false]
  have h2 := hm.headWord (k := 2) (by decide)
  constructor
  · intro h
    by_contra hn
    have hread : packetLen ∈ (checksumRight mem).offsets := by
      refine mem_checksumRight.2 (.inl (.inr ?_))
      rw [h2]
      omega
    exact absurd (h packetLen ((hsub packetLen).2 (.inl hread))) (Nat.lt_irrefl _)
  · intro hle i hi
    rcases (hsub i).1 hi with hi | ⟨-, hi⟩
    · rcases mem_checksumRight.1 hi with (hi | hi) | hi
      · have := mem_headWord.1 hi
        omega
      · rw [h2] at hi
        omega
      · have := mem_headWord.1 hi
        omega
    · have := mem_headWord.1 hi
      omega

theorem getD_payload (pkt : List UInt8) (i : ℕ) :
    (payload pkt).getD i 0 = pkt.getD (headLen + i) 0 := by
  rw [payload, List.getD_eq_getElem?_getD, List.getElem?_drop, List.getD_eq_getElem?_getD]

/-- The string ends within the packet when the payload has a zero byte. -/
theorem scanned_inBounds_iff (hp : pkt.length = packetLen) (hm : Holds mem pkt) :
    (∀ i, Scanned mem i → i < packetLen) ↔ (0 : UInt8) ∈ payload pkt := by
  have hlen := payload_length hp
  have hsize : headLen + payloadLen = packetLen := rfl
  constructor
  · intro h
    by_contra h0
    refine absurd (h packetLen ⟨by omega, fun j hj hlt hz => h0 ?_⟩) (Nat.lt_irrefl _)
    rw [hm j hlt, show j = headLen + (j - headLen) by omega, ← getD_payload,
      List.getD_eq_getElem _ _ (by omega)] at hz
    exact hz ▸ List.getElem_mem _
  · intro h0 i hi
    obtain ⟨k, hk, hz⟩ := List.getElem_of_mem h0
    by_contra hn
    refine hi.2 (headLen + k) (Nat.le_add_right _ _) (by omega) ?_
    rw [hm _ (by omega), ← getD_payload, List.getD_eq_getElem _ _ hk, hz]

theorem sumFrom_value {left data : ℕ} {sum : UInt16} (hm : Holds mem pkt)
    (h : headLen + data + left ≤ packetLen) (hp : pkt.length = packetLen) :
    (sumFrom mem left (headLen + data) sum).value =
      (((payload pkt).drop data).take left).foldl (fun s b => s + zeroExtend b) sum := by
  induction left generalizing data sum with
  | zero => rfl
  | succ left ih =>
    have hlen := payload_length hp
    have hsize : headLen + payloadLen = packetLen := rfl
    have hlt : data < (payload pkt).length := by omega
    have hbyte : mem (headLen + data) = (payload pkt)[data] := by
      rw [hm _ (by omega), ← getD_payload, List.getD_eq_getElem _ _ hlt]
    rw [sumFrom, List.drop_eq_getElem_cons hlt, List.take_succ_cons, List.foldl_cons, ← hbyte]
    exact @ih (data + 1) _ (by omega)

/-- Within the packet the bytewise decoder is the one the other modules use. -/
theorem decodeAction_value (hp : pkt.length = packetLen) (hm : Holds mem pkt) :
    CProtocal.decodeAction pkt = if (field 2 pkt).toNat ≤ payloadLen then
      .ok (decodeAction mem).value else .error .invalidPointer := by
  by_cases hf : (field 2 pkt).toNat ≤ payloadLen
  · have hsize : headLen + payloadLen = packetLen := rfl
    have hsum := @sumFrom_value mem pkt (field 2 pkt).toNat 0 0 hm (by omega) hp
    rw [Nat.add_zero, List.drop_zero] at hsum
    have hright : (checksumRight mem).value =
        (wordSum zeroExtend ((payload pkt).take (field 2 pkt).toNat) == field 3 pkt) := by
      rw [checksumRight]
      simp only
      rw [hm.headWord (k := 2) (by decide), hm.headWord (k := 3) (by decide), hsum]
      rfl
    rw [if_pos hf, decodeAction_fits ((payload_length hp).symm ▸ hf), decodeAction]
    by_cases hs : SumRight pkt
    · have hr : (checksumRight mem).value = true := hright.trans (beq_iff_eq.2 hs)
      simp only [hr, if_true, if_pos hs]
      rw [hm.headWord (k := 1) (by decide)]
    · have hr : ¬ (checksumRight mem).value = true := by
        rw [hright]
        exact fun h => hs (beq_iff_eq.1 h)
      simp only [hr, if_neg hs]
      rfl
  · rw [if_neg hf, CProtocal.decodeAction, CProtocal.checksumRight, if_neg]
    · rfl
    · rwa [payload_length hp]

theorem decodeAction_value_eq (hp : pkt.length = packetLen) (hm : Holds mem pkt)
    (hf : (field 2 pkt).toNat ≤ payloadLen) : (decodeAction mem).value =
      if SumRight pkt then ((field 1 pkt).toNat : ℤ) else infoTypeActionInvalid := by
  have h := decodeAction_value hp hm
  rw [if_pos hf, decodeAction_fits ((payload_length hp).symm ▸ hf)] at h
  exact (Except.ok.inj h).symm

/-- A case of a caller's switch is taken for an accepted packet with that action. -/
theorem inCases_iff (hp : pkt.length = packetLen) (hm : Holds mem pkt)
    (hf : (field 2 pkt).toNat ≤ payloadLen) (cases : List Action) :
    (∃ action ∈ cases, (decodeAction mem).value = action.code.toNat) ↔
      SumRight pkt ∧ ∃ action ∈ cases, field 1 pkt = action.code := by
  rw [decodeAction_value_eq hp hm hf]
  by_cases hs : SumRight pkt
  · simp only [hs, if_true, true_and, Int.natCast_inj, UInt16.toNat_inj]
  · simp only [hs, if_false, false_and, iff_false, not_exists, not_and, infoTypeActionInvalid]
    intro action _
    omega

/-- The decoders stay in the packet exactly when the header counts no more bytes than
the payload has, and the string that is parsed has a terminator there. -/
theorem decoders_inBounds_iff (pkt : List UInt8) (hp : pkt.length = packetLen) (mem : Memory)
    (hm : Holds mem pkt) :
    ((∀ i, ReadByServiceInfo mem i → i < packetLen) ↔
      (field 2 pkt).toNat ≤ payloadLen ∧ (0 : UInt8) ∈ payload pkt) ∧
    ((∀ i, ReadByResult mem i → i < packetLen) ↔ (field 2 pkt).toNat ≤ payloadLen ∧
      (field 1 pkt = Action.actionFail.code → (0 : UInt8) ∈ payload pkt)) ∧
    ∀ cases : List Action, (∀ i, ReadInCases cases mem i → i < packetLen) ↔
      (field 2 pkt).toNat ≤ payloadLen ∧
        (SumRight pkt → (∃ action ∈ cases, field 1 pkt = action.code) → (0 : UInt8) ∈ payload pkt) := by
  have hdecode := decodeAction_inBounds_iff hm
  have hscan := scanned_inBounds_iff hp hm
  have hword : ∀ i ∈ (headWord mem 1).offsets, i < packetLen := by
    intro i hi
    have := mem_headWord.1 hi
    have hlen : packetLen = 1024 := rfl
    omega
  refine ⟨?_, ?_, fun cases => ?_⟩
  · rw [← hdecode, ← hscan, ← forall_and]
    exact forall_congr' fun i => or_imp
  · rw [← hdecode, ← hscan, ← hm.headWord (k := 1) (by decide)]
    constructor
    · exact fun h => ⟨fun i hi => h i (.inl hi), fun ha i hi => h i (.inr (.inr ⟨ha, hi⟩))⟩
    · rintro ⟨hd, hs⟩ i (hi | hi | ⟨ha, hi⟩)
      · exact hd i hi
      · exact hword i hi
      · exact hs ha i hi
  · constructor
    · intro h
      have hf := hdecode.1 fun i hi => h i (.inl hi)
      refine ⟨hf, fun hs hc => hscan.1 fun i hi => h i (.inr ⟨?_, hi⟩)⟩
      exact (inCases_iff hp hm hf cases).2 ⟨hs, hc⟩
    · rintro ⟨hf, hs⟩ i (hi | ⟨hc, hi⟩)
      · exact hdecode.2 hf i hi
      · obtain ⟨hsum, hc⟩ := (inCases_iff hp hm hf cases).1 hc
        exact hscan.2 (hs hsum hc) i hi

end Decoders

section DecoderExamples

/-- A packet of equal bytes, in a memory of that byte. -/
def flatPacket (b : UInt8) : List UInt8 := List.replicate packetLen b

theorem flatPacket_length (b : UInt8) : (flatPacket b).length = packetLen := List.length_replicate

theorem holds_flat (b : UInt8) : Holds (fun _ => b) (flatPacket b) := by
  intro i hi
  rw [flatPacket, List.getD_eq_getElem _ _ (by rwa [List.length_replicate]), List.getElem_replicate]

theorem decoders_inBounds_iff_zeros :
    (∀ i, ReadByServiceInfo (fun _ => 0) i → i < packetLen) ↔
      (field 2 (flatPacket 0)).toNat ≤ payloadLen ∧ (0 : UInt8) ∈ payload (flatPacket 0) :=
  (decoders_inBounds_iff (flatPacket 0) (flatPacket_length 0) _ (holds_flat 0)).1

/-- A packet of bytes `0xFF`: the checksum alone reads 65535 bytes behind the header. -/
theorem ones_outOfBounds : Holds (fun _ => 0xFF) (flatPacket 0xFF) ∧
    ¬ ∀ i ∈ (decodeAction fun _ => 0xFF).offsets, i < packetLen := by
  refine ⟨holds_flat 0xFF, fun h => ?_⟩
  have hf := (decodeAction_inBounds_iff (holds_flat 0xFF)).1 h
  rw [← (holds_flat 0xFF).headWord (k := 2) (by decide)] at hf
  exact absurd hf (by decide)

end DecoderExamples

end MiniServiceDiscover.CMemory
