import MiniServiceDiscover.Fallible
import MiniServiceDiscover.GoHistory
import MiniServiceDiscover.GoRoundTrip
import MiniServiceDiscover.ServiceWire

set_option autoImplicit false

/-! The Go codec among the others: what its packets carry, and which packets that carry a
service it reads. -/
namespace MiniServiceDiscover.GoWire
open JsonText JsonRoundTrip UnicodeText JsonMeaning WordSum WireFormat ServiceWire
open Utf8Runes GoJson GoProtocal GoHistory

def infoOf (s : Service) : ServiceInfo :=
  ⟨s.device.bytes, s.name.bytes, s.ip.bytes, s.port, s.info.bytes⟩

/-- No string is cut on its way into a packet. -/
structure Short (s : Service) : Prop where
  device : s.device.bytes.length ≤ infoMaxLen
  name : s.name.bytes.length ≤ infoMaxLen
  ip : s.ip.bytes.length ≤ infoMaxLen
  info : s.info.bytes.length ≤ infoMaxLen

/-- The packets the program makes of a service: of names alone, where there is no more. -/
inductive Encodes : Action → Service → Bytes → Prop where
  | register (s : Service) (short : Short s) {pkt : Bytes}
      (h : getRegisterService s.device.bytes s.name.bytes s.ip.bytes s.port s.info.bytes = .ok pkt) :
      Encodes .registerService s pkt
  | unregister (device name : Str) (short : Short ⟨device, name, .empty, .empty, 0⟩) {pkt : Bytes}
      (h : getUnRegisterService device.bytes name.bytes = .ok pkt) :
      Encodes .unregisterService ⟨device, name, .empty, .empty, 0⟩ pkt
  | inquiry (name : Str) (short : Short ⟨.empty, name, .empty, .empty, 0⟩) {pkt : Bytes}
      (h : getInquiryService name.bytes = .ok pkt) :
      Encodes .inquiry ⟨.empty, name, .empty, .empty, 0⟩ pkt
  | answer (s : Service) {pkt : Bytes} (h : getServiceData .actionSucc (some (infoOf s)) = .ok pkt) :
      Encodes .actionSucc s pkt

theorem infoOf_injective {s t : Service} (h : infoOf s = infoOf t) : s = t := by
  obtain ⟨h1, h2, h3, h4, h5⟩ := ServiceInfo.mk.inj h
  exact Service.ext (Str.bytes_injective h1) (Str.bytes_injective h2) (Str.bytes_injective h3)
    (Str.bytes_injective h5) h4

section Characters

theorem runeSize_two {a b : UInt8} (ha : within 0xC2 0xDF a = true) (hb : tail b = true) :
    IsRune [a, b] := by
  have hlow : ¬ a.toNat < 0x80 := by
    simp only [within, Bool.and_eq_true, decide_eq_true_iff] at ha
    omega
  refine ⟨List.cons_ne_nil _ _, ?_⟩
  rw [runeSize, if_neg hlow, if_pos (Bool.and_eq_true_iff.2 ⟨ha, hb⟩)]
  rfl

theorem within_iff (lo hi : ℕ) (b : UInt8) : within lo hi b = true ↔ lo ≤ b.toNat ∧ b.toNat ≤ hi := by
  rw [within, Bool.and_eq_true, decide_eq_true_iff, decide_eq_true_iff]

theorem not_two {a b : UInt8} (h : 0xE0 ≤ a.toNat) : ¬ (within 0xC2 0xDF a && tail b) = true := by
  rw [Bool.and_eq_true, within_iff]
  omega

/-- The encoding of a character is one rune. -/
theorem isRune_utf8EncodeChar (c : Char) : IsRune (String.utf8EncodeChar c) := by
  obtain ⟨v, hv⟩ : ∃ v, c.val.toNat = v := ⟨_, rfl⟩
  have hrange : v < 0xD800 ∨ (0xE000 ≤ v ∧ v < 0x110000) := hv ▸ toNat_cases c
  have byte : ∀ n, n < 256 → (UInt8.ofNat n).toNat = n := fun n => UInt8.toNat_ofNat_of_lt'
  have htail : ∀ n, tail (UInt8.ofNat (n % 64 + 0x80)) = true := fun n => by
    rw [tail, within_iff, byte _ (by omega)]
    omega
  rw [String.utf8EncodeChar, hv]
  by_cases h1 : v ≤ 0x7F
  · rw [if_pos h1]
    refine ⟨List.cons_ne_nil _ _, ?_⟩
    rw [runeSize, if_pos (by rw [byte _ (by omega)]; omega)]
    rfl
  rw [if_neg h1]
  by_cases h2 : v ≤ 0x7FF
  · rw [if_pos h2]
    refine runeSize_two ?_ (htail v)
    rw [within_iff, byte _ (by omega)]
    omega
  rw [if_neg h2]
  by_cases h3 : v ≤ 0xFFFF
  · rw [if_pos h3]
    obtain ⟨a, ha⟩ : ∃ a, a = UInt8.ofNat (v / 4096 % 16 + 0xE0) := ⟨_, rfl⟩
    obtain ⟨b, hb⟩ : ∃ b, b = UInt8.ofNat (v / 64 % 64 + 0x80) := ⟨_, rfl⟩
    have haval : a.toNat = v / 4096 % 16 + 0xE0 := ha ▸ byte _ (by omega)
    have hbval : b.toNat = v / 64 % 64 + 0x80 := hb ▸ byte _ (by omega)
    have hstart : threeStart a b = true := by
      simp only [threeStart, tail, Bool.or_eq_true, Bool.and_eq_true, within_iff, haval, hbval]
      omega
    rw [← ha, ← hb]
    refine ⟨List.cons_ne_nil _ _, ?_⟩
    rw [runeSize, if_neg (by omega), if_neg (not_two (by omega)),
      if_pos (Bool.and_eq_true_iff.2 ⟨hstart, htail v⟩)]
    rfl
  · rw [if_neg h3]
    obtain ⟨a, ha⟩ : ∃ a, a = UInt8.ofNat (v / 262144 % 8 + 0xF0) := ⟨_, rfl⟩
    obtain ⟨b, hb⟩ : ∃ b, b = UInt8.ofNat (v / 4096 % 64 + 0x80) := ⟨_, rfl⟩
    have haval : a.toNat = v / 262144 % 8 + 0xF0 := ha ▸ byte _ (by omega)
    have hbval : b.toNat = v / 4096 % 64 + 0x80 := hb ▸ byte _ (by omega)
    have hstart : fourStart a b = true := by
      simp only [fourStart, tail, Bool.or_eq_true, Bool.and_eq_true, within_iff, haval, hbval]
      omega
    have hthree : ∀ d, ¬ (threeStart a b && tail d) = true := by
      intro d
      simp only [threeStart, Bool.or_eq_true, Bool.and_eq_true, within_iff, haval]
      omega
    rw [← ha, ← hb]
    refine ⟨List.cons_ne_nil _ _, ?_⟩
    rw [runeSize, if_neg (by omega), if_neg (not_two (by omega)), if_neg (hthree _),
      if_pos (Bool.and_eq_true_iff.2 ⟨Bool.and_eq_true_iff.2 ⟨hstart, htail (v / 64)⟩, htail v⟩)]
    rfl

theorem runes_utf8 (s : List Char) :
    runes (utf8 s) = s.map fun c => .valid (String.utf8EncodeChar c) := by
  rw [utf8, List.flatMap_def, runes_flatten, List.map_map]
  · rfl
  · intro bytes hb
    obtain ⟨c, -, rfl⟩ := List.mem_map.1 hb
    exact isRune_utf8EncodeChar c

theorem coerce_utf8 (s : List Char) : coerce (utf8 s) = utf8 s := by
  rw [coerce, runes_utf8, List.flatMap_map]
  rfl

end Characters

section Strings

theorem encodeRune_unit {u : ℕ} (h : u < 0xD800 ∨ (0xE000 ≤ u ∧ u < 0x10000)) :
    encodeRune u = String.utf8EncodeChar (Char.ofNat u) := by
  have hsurrogate : ¬ (0xD800 ≤ u ∧ u < 0xE000) := by omega
  have hbmp : u < 0x10000 := by omega
  rw [utf8EncodeChar_ofNat h, encodeRune, if_neg hsurrogate, if_pos hbmp]

theorem elemBytes_writes {es : List Elem} {c : Char} (h : Writes es c) (fs : List Elem) :
    elemBytes (es ++ fs) = String.utf8EncodeChar c ++ elemBytes fs := by
  cases h with
  | raw c => exact elemBytes_bytes _ fs
  | escaped b hb =>
    rw [utf8EncodeChar_ofUInt8 hb]
    rfl
  | unit u hu =>
    rw [← encodeRune_unit hu]
    exact elemBytes_unit (by omega) fs

theorem unquote_means {es : List Elem} {s : List Char} (h : Means es s) : unquote es = utf8 s := by
  have hbytes : elemBytes es = utf8 s := by
    induction h with
    | nil => rfl
    | cons hc _ ih =>
      rw [elemBytes_writes hc, ih]
      rfl
  rw [unquote, hbytes, coerce_utf8]

theorem asciiElem_writes {c : Char} (hc : c.toNat < 0x80) : Writes [asciiElem c.toNat.toUInt8] c := by
  have hb : c.toNat.toUInt8.toNat = c.toNat := UInt8.toNat_ofNat_of_lt' (hc.trans (by decide))
  unfold asciiElem
  split_ifs
  · have h := Writes.raw c
    rwa [utf8EncodeChar_ascii hc] at h
  · have h := Writes.escaped c.toNat.toUInt8 (hb.trans_lt hc)
    rwa [show Char.ofUInt8 c.toNat.toUInt8 = c from
      Char.toNat_inj.1 ((UInt8.toNat_toUInt32 _).trans hb)] at h
  · have h := Writes.unit c.toNat (.inl (by omega))
    rw [Char.ofNat_toNat] at h
    rwa [hb]

/-- `Marshal` writes each character, the two separators as units. -/
theorem runeElems_writes (c : Char) : Writes (runeElems (.valid (String.utf8EncodeChar c))) c := by
  have same : ∀ d : Char, String.utf8EncodeChar c = String.utf8EncodeChar d → c = d := by
    intro d h
    have hutf8 : utf8 [c] = utf8 [d] := by
      rw [utf8, utf8, List.flatMap_singleton, List.flatMap_singleton, h]
    exact (List.cons.inj (utf8_injective hutf8)).1
  rcases runeElems_valid_cases (String.utf8EncodeChar c) with
    ⟨b, hb, hr⟩ | ⟨hl, hr⟩ | ⟨hp, hr⟩ | ⟨-, -, -, hr⟩
  · rw [hr]
    have hlow : c.toNat < 0x80 := by
      by_contra hhigh
      have hrune := isRune_singleton (hb ▸ isRune_utf8EncodeChar c)
      have hmem := utf8EncodeChar_high (Nat.le_of_not_lt hhigh) b (hb ▸ List.mem_singleton_self b)
      omega
    rw [utf8EncodeChar_ascii hlow] at hb
    exact (List.cons.inj hb).1 ▸ asciiElem_writes hlow
  · rw [hr, same '\u2028' (hl.trans (by decide))]
    exact Writes.unit 0x2028 (.inl (by decide))
  · rw [hr, same '\u2029' (hp.trans (by decide))]
    exact Writes.unit 0x2029 (.inl (by decide))
  · rw [hr]
    exact .raw c

theorem marshalString_means (s : List Char) : Means (marshalString (utf8 s)) s := by
  rw [marshalString, runes_utf8, List.flatMap_map]
  exact Means.flatMap runeElems_writes s

theorem key_means {name : String} (h : ascii name = utf8 name.toList) :
    Means (key name) name.toList := by
  rw [key, h]
  exact raw_means _

end Strings

section Structs

/-- The members in the order of the struct. -/
def entries (s : Service) : List (String × Scalar × List Char × Datum) :=
  [("device_name", .str (marshalString s.device.bytes), "device_name".toList, .text s.device.chars),
    ("service_name", .str (marshalString s.name.bytes), "service_name".toList, .text s.name.chars),
    ("ip", .str (marshalString s.ip.bytes), "ip".toList, .text s.ip.chars),
    ("port", .num s.port.toNat, "port".toList, .number s.port.toNat),
    ("info", .str (marshalString s.info.bytes), "info".toList, .text s.info.chars)]

theorem marshalString_literal (s : Str) :
    Literal (Scalar.str (marshalString s.bytes)).text (Scalar.str (marshalString s.bytes)).value
      (.text s.chars) :=
  string_literal (marshalString_means s.chars) (marshalString_printable s.bytes)

theorem entries_prints (s : Service) :
    Prints (recordText compact ((entries s).map fun m => (key m.1, m.2.1.text)))
      ((entries s).map fun m => (m.2.2.1, m.2.2.2)) := by
  have hne : entries s ≠ [] := List.cons_ne_nil _ _
  have hp : ∀ m ∈ entries s, ∀ e ∈ key m.1, Printable e := by
    simp only [entries, List.forall_mem_cons]
    exact ⟨key_printable (by decide), key_printable (by decide), key_printable (by decide),
      key_printable (by decide), key_printable (by decide), fun _ h => absurd h List.not_mem_nil⟩
  have hk : ∀ m ∈ entries s, Means (key m.1) m.2.2.1 := by
    simp only [entries, List.forall_mem_cons]
    exact ⟨key_means (by decide), key_means (by decide), key_means (by decide),
      key_means (by decide), key_means (by decide), fun _ h => absurd h List.not_mem_nil⟩
  have hv : ∀ m ∈ entries s, Literal m.2.1.text m.2.1.value m.2.2.2 := by
    simp only [entries, List.forall_mem_cons]
    exact ⟨marshalString_literal s.device, marshalString_literal s.name,
      marshalString_literal s.ip, decimal_literal s.port.toNat, marshalString_literal s.info,
      fun _ h => absurd h List.not_mem_nil⟩
  exact recordText_prints compact_blank (entries s) hne hp hk hv

theorem marshal_prints (s : Service) :
    ∃ r, Prints (infoOf s).marshal r ∧ r.Perm s.record := by
  have htext : (infoOf s).marshal =
      recordText compact ((entries s).map fun m => (key m.1, m.2.1.text)) := by
    rw [ServiceInfo.marshal, objectText_eq_recordText]
    rfl
  have hprints := entries_prints s
  rw [← htext] at hprints
  exact ⟨_, hprints, .cons _ (.cons _ (.cons _ (.swap _ _ _)))⟩

/-- What `Unmarshal` makes of a member of the record. -/
def set (i : ServiceInfo) : List Char × Datum → ServiceInfo
  | (name, .text s) =>
    if name = "device_name".toList then { i with deviceName := utf8 s }
    else if name = "service_name".toList then { i with serviceName := utf8 s }
    else if name = "ip".toList then { i with ip := utf8 s }
    else if name = "info".toList then { i with info := utf8 s }
    else i
  | (_, .number n) => { i with port := n.toUInt16 }

theorem setString_text {v : Value} {s : List Char} (h : Denotes v (.text s)) (old : Bytes) :
    setString old v = some (utf8 s) := by
  cases h with
  | text hes => exact congrArg some (unquote_means hes)

theorem setUint16_number {v : Value} {n : ℕ} (h : Denotes v (.number n)) (hn : n < 65536)
    (old : UInt16) : setUint16 old v = some n.toUInt16 := by
  cases h with
  | number hl => rw [setUint16, if_pos ⟨hl, hn⟩]

theorem fold_means {es : List Elem} {name : String} (h : Means es name.toList)
    (hname : foldName (utf8 name.toList) = ascii name) : foldName (unquote es) = ascii name := by
  rw [unquote_means h, hname]

theorem setMember_record {s : Service} {m : List Elem × Value} {e : List Char × Datum}
    (he : e ∈ s.record) (h : Member m e) (i : ServiceInfo) : i.setMember m = some (set i e) := by
  have h2 : ascii "service_name" ≠ ascii "device_name" := by decide
  have h3 : ascii "ip" ≠ ascii "device_name" ∧ ascii "ip" ≠ ascii "service_name" := by decide
  have h4 : ascii "port" ≠ ascii "device_name" ∧ ascii "port" ≠ ascii "service_name" ∧
    ascii "port" ≠ ascii "ip" := by decide
  have h5 : ascii "info" ≠ ascii "device_name" ∧ ascii "info" ≠ ascii "service_name" ∧
    ascii "info" ≠ ascii "ip" ∧ ascii "info" ≠ ascii "port" := by decide
  simp only [Service.record, List.mem_cons, List.not_mem_nil, or_false] at he
  rcases he with rfl | rfl | rfl | rfl | rfl
  · rw [ServiceInfo.setMember, fold_means h.key (by decide), if_pos rfl, setString_text h.value]
    rfl
  · rw [ServiceInfo.setMember, fold_means h.key (by decide), if_neg h2, if_pos rfl,
      setString_text h.value]
    rfl
  · rw [ServiceInfo.setMember, fold_means h.key (by decide), if_neg h3.1, if_neg h3.2, if_pos rfl,
      setString_text h.value]
    rfl
  · rw [ServiceInfo.setMember, fold_means h.key (by decide), if_neg h5.1, if_neg h5.2.1,
      if_neg h5.2.2.1, if_neg h5.2.2.2, if_pos rfl, setString_text h.value]
    rfl
  · rw [ServiceInfo.setMember, fold_means h.key (by decide), if_neg h4.1, if_neg h4.2.1,
      if_neg h4.2.2, if_pos rfl, setUint16_number h.value s.port.toNat_lt]
    rfl

theorem foldlM_members {s : Service} {ms : List (List Elem × Value)} {r : List (List Char × Datum)}
    (h : List.Forall₂ Member ms r) (hr : ∀ e ∈ r, e ∈ s.record) (i : ServiceInfo) :
    ms.foldlM ServiceInfo.setMember i = some (r.foldl set i) := by
  induction h generalizing i with
  | nil => rfl
  | cons hm _ ih =>
    rw [List.forall_mem_cons] at hr
    rw [List.foldlM_cons, setMember_record hr.1 hm]
    exact ih hr.2 _

/-- The members of a service are set in any order. -/
theorem set_comm (s : Service) (x : List Char × Datum) (hx : x ∈ s.record) (y : List Char × Datum)
    (hy : y ∈ s.record) (i : ServiceInfo) : set (set i x) y = set (set i y) x := by
  simp only [Service.record, List.mem_cons, List.not_mem_nil, or_false] at hx hy
  rcases hx with rfl | rfl | rfl | rfl | rfl <;> rcases hy with rfl | rfl | rfl | rfl | rfl <;> rfl

theorem unmarshal_record {s : Service} {text : Bytes} {r : List (List Char × Datum)}
    (h : Record text r) (hr : r.Perm s.record) : ServiceInfo.unmarshal text = some (infoOf s) := by
  obtain ⟨ms, hparse, hms⟩ := h
  have hfold := foldlM_members hms (fun e he => hr.mem_iff.1 he) ServiceInfo.empty
  rw [hr.foldl_eq' (fun x hx y hy => set_comm s x (hr.mem_iff.1 hx) y (hr.mem_iff.1 hy))] at hfold
  have hport : s.port.toNat.toUInt16 = s.port := UInt16.ofNat_toNat
  rw [ServiceInfo.unmarshal, GoJson.unmarshal, hparse]
  refine hfold.trans (congrArg some ?_)
  change (⟨s.device.bytes, s.name.bytes, s.ip.bytes, s.port.toNat.toUInt16, s.info.bytes⟩ :
    ServiceInfo) = _
  rw [hport]
  rfl

theorem result_prints (reason : Str) :
    Prints (ResultInfo.marshal ⟨reason.bytes⟩) (reasonRecord reason) := by
  have hp : ∀ e ∈ key "reason", Printable e := key_printable (by decide)
  have hk : Means (key "reason") "reason".toList := key_means (by decide)
  have hprints := @recordText_prints Str (fun _ => key "reason")
    (fun r => (Scalar.str (marshalString r.bytes)).text)
    (fun r => (Scalar.str (marshalString r.bytes)).value) (fun _ => "reason".toList)
    (fun r => .text r.chars) _ compact_blank [reason] (List.cons_ne_nil _ _) (fun _ _ => hp)
    (fun _ _ => hk) fun r _ => marshalString_literal r
  rw [ResultInfo.marshal, objectText_eq_recordText]
  exact hprints

theorem unmarshal_reason {reason : Str} {text : Bytes} {r : List (List Char × Datum)}
    (h : Record text r) (hr : r.Perm (reasonRecord reason)) :
    ResultInfo.unmarshal text = some ⟨reason.bytes⟩ := by
  obtain rfl := List.perm_singleton.1 hr
  obtain ⟨ms, hparse, hms⟩ := h
  cases hms with
  | cons hm hrest =>
    cases hrest
    rw [ResultInfo.unmarshal, GoJson.unmarshal, hparse]
    change (ResultInfo.setMember _ _ >>= fun r => pure r) = _
    rw [ResultInfo.setMember, fold_means hm.key (by decide), if_pos rfl, setString_text hm.value]
    rfl

end Structs

section Sending
variable {action : Action} {s : Service} {pkt : Bytes}

theorem getValidStr_short {str : Bytes} (h : str.length ≤ infoMaxLen) : getValidStr str = str :=
  if_neg (Nat.not_lt.2 h)

/-- Every encoder of a service comes down to one buffer. -/
theorem Encodes.buffer (h : Encodes action s pkt) :
    pkt = dataBuffer action.code (infoOf s).marshal := by
  cases h with
  | register s short h =>
    rw [getRegisterService, registerInfo, getValidStr_short short.device,
      getValidStr_short short.name, getValidStr_short short.ip, getValidStr_short short.info] at h
    exact (Except.ok.inj h).symm
  | unregister device name short h =>
    rw [getUnRegisterService, unRegisterInfo, getValidStr_short short.device,
      getValidStr_short short.name] at h
    exact (Except.ok.inj h).symm
  | inquiry name short h =>
    rw [getInquiryService, inquiryInfo, getValidStr_short short.name] at h
    exact (Except.ok.inj h).symm
  | answer s h => exact (Except.ok.inj h).symm

/-- A packet with a zero in its payload holds the whole text. -/
theorem Encodes.carries (h : Encodes action s pkt) (room : (0 : UInt8) ∈ payload pkt) :
    ∃ text, Carries (wordSum zeroExtend) action s.record text pkt := by
  obtain ⟨r, hprints, hperm⟩ := marshal_prints s
  have hpkt := h.buffer.trans (dataBuffer_eq_packet _ _)
  refine ⟨_, ⟨r, hprints, hperm⟩, Nat.lt_of_not_le fun hlong => ?_, hpkt⟩
  rw [hpkt, packet, payload_headBytes, Nat.sub_eq_zero_of_le hlong, List.replicate_zero,
    List.append_nil] at room
  exact hprints.noNul (List.mem_of_mem_take room)

/-- A result always leaves room. -/
theorem result_carries {isSucc : Bool} {reason : Str} (short : reason.bytes.length ≤ infoMaxLen)
    (h : pkt = getResult (outcome isSucc).code reason.bytes) :
    ∃ text, Carries (wordSum zeroExtend) (outcome isSucc) (reasonRecord reason) text pkt := by
  have hlen : (ResultInfo.marshal ⟨reason.bytes⟩).length = 13 + GoCapacity.escapedLen reason.bytes :=
    GoRoundTrip.resultInfo_length ⟨reason.bytes⟩
  have hcost := GoCapacity.escapedLen_le reason.bytes
  have hmax : infoMaxLen = 100 := rfl
  have hpay : payloadLen = 1016 := rfl
  rw [getResult, getResultData, resultInfoToBytes, getValidStr_short short] at h
  have hroom : (ResultInfo.marshal ⟨reason.bytes⟩).length < payloadLen := by
    rw [hlen]
    omega
  exact ⟨_, ⟨_, result_prints reason, .refl _⟩, hroom, h.trans (dataBuffer_eq_packet _ _)⟩

end Sending

section Receiving
variable {sum : List UInt8 → UInt16} {action : Action} {s : Service}
  {record : List (List Char × Datum)} {text pkt : Bytes}

/-- The text ends where its last brace stands. -/
theorem getJson_of_carries (h : Carries sum action record text pkt) :
    getJson (payload pkt) = .ok text := by
  obtain ⟨r, hprints, -⟩ := h.prints
  obtain ⟨body, hbody⟩ := hprints.ends
  have hroom := h.room
  rw [h.payload, hbody]
  refine getJson_padded body _ ?_
  rw [hbody, List.length_append] at hroom
  exact Nat.lt_of_le_of_lt (Nat.le_add_right _ _) (hroom.trans (by decide))

theorem getServiceInfo_of_carries (h : Carries sum action s.record text pkt) :
    getServiceInfo (payload pkt) = .ok (some (infoOf s)) := by
  obtain ⟨r, hprints, hperm⟩ := h.prints
  rw [getServiceInfo, getJson_of_carries h]
  exact congrArg Except.ok (unmarshal_record hprints.record hperm)

theorem getResultInfo_of_carries {reason : Str}
    (h : Carries sum action (reasonRecord reason) text pkt) :
    getResultInfo (payload pkt) = .ok (some ⟨reason.bytes⟩) := by
  obtain ⟨r, hprints, hperm⟩ := h.prints
  rw [getResultInfo, getJson_of_carries h]
  exact congrArg Except.ok (unmarshal_reason hprints.record hperm)

theorem jsonLen_of_carries (h : Carries sum action record text pkt) :
    (headOf pkt).jsonLen.toNat = text.length :=
  (congrArg UInt16.toNat h.field_len).trans h.length_toNat

theorem length_fits (h : Carries sum action record text pkt) :
    ¬ ((headOf pkt).head = infoHead ∧ payloadLen < (headOf pkt).jsonLen.toNat) := by
  rw [jsonLen_of_carries h]
  exact fun hover => Nat.lt_asymm h.room hover.2

/-- The receiver takes a packet whose sender has summed unsigned bytes, or as good as. -/
theorem accepted_iff (h : Carries sum action record text pkt) :
    Accepted pkt ↔ sum text = wordSum zeroExtend text := by
  rw [Accepted, jsonLen_of_carries h, h.counted]
  change field 0 pkt = infoHead ∧ _ = field 3 pkt ↔ _
  rw [h.field_head, h.field_sum]
  exact ⟨fun hs => hs.2.symm, fun hs => ⟨rfl, hs.symm⟩⟩

theorem check_of_carries (h : Carries sum action record text pkt) :
    checkAndGetServiceInfoHead pkt = .ok (if Accepted pkt then some (headOf pkt) else none) := by
  rw [checkAndGetServiceInfoHead_eq h.pkt_length, if_neg (length_fits h), apply_ite Except.ok]

/-- A packet that is taken for an action has it. -/
theorem action_of_carries {a : Action} {head : ServiceHead}
    (h : Carries sum action record text pkt)
    (hh : checkAndGetServiceInfoHead pkt = .ok (some head)) (ha : head.action = a.code) :
    Accepted pkt ∧ a = action := by
  rw [check_of_carries h] at hh
  have hhead := Except.ok.inj hh
  split_ifs at hhead with hacc
  obtain rfl := Option.some.inj hhead
  exact ⟨hacc, Action.code_injective (ha.symm.trans h.field_action)⟩

theorem head_iff (h : Carries sum action record text pkt) :
    (∃ head, checkAndGetServiceInfoHead pkt = .ok (some head) ∧ head.action = action.code) ↔
      sum text = wordSum zeroExtend text := by
  rw [← accepted_iff h]
  constructor
  · rintro ⟨head, hh, ha⟩
    exact (action_of_carries h hh ha).1
  · intro hright
    exact ⟨headOf pkt, by rw [check_of_carries h, if_pos hright], h.field_action⟩

theorem requests_iff (h : Carries sum action s.record text pkt) :
    Requests action pkt (infoOf s) ↔ sum text = wordSum zeroExtend text := by
  have hdecode : GoDaemon.decodeData pkt = if Accepted pkt then
      .ok (some (headOf pkt, infoOf s)) else .ok none := by
    rw [GoDaemon.decodeData_eq h.pkt_length, if_neg (length_fits h), getServiceInfo_of_carries h]
    rfl
  rw [← accepted_iff h]
  constructor
  · rintro ⟨head, hd, -⟩
    by_contra hwrong
    rw [hdecode, if_neg hwrong] at hd
    cases Except.ok.inj hd
  · intro hright
    exact ⟨headOf pkt, by rw [hdecode, if_pos hright], h.field_action⟩

/-- Whatever the packet holds, what it is taken for is its action. -/
theorem requests_action {a : Action} {info : ServiceInfo}
    (h : Carries sum action record text pkt) (hr : Requests a pkt info) : a = action := by
  obtain ⟨head, hd, ha⟩ := hr
  rw [GoDaemon.decodeData_eq h.pkt_length, if_neg (length_fits h)] at hd
  by_cases hacc : Accepted pkt
  · rw [if_pos hacc] at hd
    obtain ⟨o, -, ho⟩ := Fallible.map_eq_ok.1 hd
    obtain ⟨i, -, hi⟩ := Option.map_eq_some_iff.1 ho
    obtain ⟨rfl, -⟩ := Prod.mk.inj hi
    exact Action.code_injective (ha.symm.trans h.field_action)
  · rw [if_neg hacc] at hd
    cases Except.ok.inj hd

theorem requests_unique {a : Action} {t : Service} (h : Carries sum action s.record text pkt)
    (hr : Requests a pkt (infoOf t)) : t = s := by
  obtain ⟨head, hd, -⟩ := hr
  rw [GoDaemon.decodeData_eq h.pkt_length, if_neg (length_fits h),
    getServiceInfo_of_carries h] at hd
  by_cases hacc : Accepted pkt
  · rw [if_pos hacc] at hd
    obtain ⟨-, hinfo⟩ := Prod.mk.inj (Option.some.inj (Except.ok.inj hd))
    exact infoOf_injective hinfo.symm
  · rw [if_neg hacc] at hd
    cases Except.ok.inj hd

end Receiving

end MiniServiceDiscover.GoWire
