import MiniServiceDiscover.CJsonText

set_option autoImplicit false

/-! The C codec against itself: the encoder sums signed bytes, the decoder
unsigned ones. -/
namespace MiniServiceDiscover.CRoundTrip
open JsonText WordSum WireFormat CProtocal CJsonText

/-- A string that fits the local buffers and has no control characters. -/
structure Text where
  str : CString
  short : str.bytes.length ≤ 99
  plain : ∀ b ∈ str.bytes, 0x20 ≤ b.toNat

/-- The packet passes the checksum and decodes to the action and the info. -/
def RoundTrips (cj : CJson) (pkt : Except CFault (List UInt8)) (action : Action)
    (info : ServiceInfo) : Prop :=
  ∃ data, pkt = .ok data ∧ checksumRight data = .ok true ∧
    decodeAction data = .ok action.code.toNat ∧ getServiceInfo cj data = .ok (some info)

section Packets
variable (cj : CJson) (action : Action)

def printedPkt (text : List UInt8) : List UInt8 :=
  packet (headBytes infoHead action.code text.length.toUInt16 (getChecksum text)) text

theorem printedPkt_checksumRight {text : List UInt8} (h : text.length ≤ payloadLen) :
    checksumRight (printedPkt action text) =
      .ok (wordSum zeroExtend text == wordSum signExtend text) := by
  have hn : text.length.toUInt16.toNat = text.length :=
    UInt16.toNat_ofNat_of_lt' (h.trans_lt (by decide))
  have h2 : field 2 (printedPkt action text) = text.length.toUInt16 :=
    field_headBytes_len _ _ _ _ _
  have h3 : field 3 (printedPkt action text) = getChecksum text :=
    field_headBytes_checksum _ _ _ _ _
  have hp : payload (printedPkt action text) = text ++ List.replicate (payloadLen - text.length) 0 :=
    payload_packet_fits _ _ _ _ _ h
  rw [checksumRight, h2, h3, hn, hp, List.take_left, if_pos]
  · rfl
  · rw [List.length_append]
    omega

theorem printedPkt_decodeAction {text : List UInt8}
    (h : checksumRight (printedPkt action text) = .ok true) :
    decodeAction (printedPkt action text) = .ok action.code.toNat := by
  have h1 : field 1 (printedPkt action text) = action.code := field_headBytes_action _ _ _ _ _
  rw [decodeAction, h, h1]
  rfl

theorem takeWhile_text {text : List UInt8} (h : (0 : UInt8) ∉ text) (n : ℕ) :
    (text ++ List.replicate n 0).takeWhile (· != 0) = text := by
  rw [List.takeWhile_append_of_pos]
  · cases n with
    | zero => simp
    | succ n => simp [List.replicate_succ]
  · intro b hb
    simpa using fun he : b = 0 => h (he ▸ hb)

/-- A printed text shorter than the payload area is read back as a string. -/
theorem printedPkt_stringAt {s : CString} (h : s.bytes.length < payloadLen) :
    stringAt (payload (printedPkt action s.bytes)) = .ok s := by
  have hp : payload (printedPkt action s.bytes) =
      s.bytes ++ List.replicate (payloadLen - s.bytes.length) 0 :=
    payload_packet_fits _ _ _ _ _ h.le
  have h0 : (0 : UInt8) ∈ s.bytes ++ List.replicate (payloadLen - s.bytes.length) 0 := by
    apply List.mem_append_right
    rw [List.mem_replicate]
    exact ⟨by omega, rfl⟩
  simp only [hp, stringAt, if_pos h0, takeWhile_text s.noNul]

theorem printedPkt_getServiceInfo {cj : CJson} (doc : cj.Documented)
    (deviceName serviceName ip info : CString) (port : UInt16)
    (h : (cj.print (serviceRoot deviceName serviceName ip info port)).bytes.length < payloadLen) :
    getServiceInfo cj (printedPkt action
        (cj.print (serviceRoot deviceName serviceName ip info port)).bytes) =
      .ok (some ⟨some deviceName, some serviceName, some ip, some info, port⟩) := by
  obtain ⟨json, hj, hi⟩ := doc.roundTrip _ (serviceRoot_keys deviceName serviceName ip info port)
  have h1 := hi (.deviceName, .string deviceName) (by simp [serviceRoot])
  have h2 := hi (.serviceName, .string serviceName) (by simp [serviceRoot])
  have h3 := hi (.ip, .string ip) (by simp [serviceRoot])
  have h4 := hi (.info, .string info) (by simp [serviceRoot])
  have h5 := hi (.port, .number port) (by simp [serviceRoot])
  have hport : UInt16.ofInt (port.toNat : ℤ) = port := by
    have hm : ((port.toNat : ℤ) % 2 ^ 16).toNat = port.toNat := by
      have := port.toNat_lt
      omega
    rw [UInt16.ofInt, hm]
    exact UInt16.ofNat_toNat
  simp only [Field.item] at h1 h2 h3 h4 h5
  rw [getServiceInfo, printedPkt_stringAt action h]
  change Except.ok ((cj.parse _).map _) = _
  rw [hj, Option.map_some]
  simp only [stringItem, portItem, h1, h2, h3, h4, h5, hport]

end Packets

section Texts

theorem Text.cost_le (t : Text) : stringCost t.str ≤ 198 := by
  have h := sum_map_le byteCost 2 (l := t.str.bytes) (by
    intro b hb
    have := t.plain b hb
    unfold byteCost
    split_ifs <;> omega)
  have := t.short
  unfold stringCost
  omega

theorem strncpyBuf_text (t : Text) : strncpyBuf (some t.str) = .ok t.str :=
  strncpyBuf_ok (Nat.lt_of_le_of_lt t.short (by decide))

variable {cj : CJson} (deviceName serviceName ip info : Text) (port : UInt16)

theorem print_length (doc : cj.Documented) :
    (cj.print (serviceRoot deviceName.str serviceName.str ip.str info.str
    port)).bytes.length < payloadLen := by
  have h := doc.printLength (serviceRoot deviceName.str serviceName.str ip.str info.str port)
  rw [serviceRoot_printCost] at h
  have h1 := deviceName.cost_le
  have h2 := serviceName.cost_le
  have h3 := ip.cost_le
  have h4 := info.cost_le
  have : payloadLen = 1016 := rfl
  omega

theorem print_high (doc : cj.Documented) :
    highCount (cj.print (serviceRoot deviceName.str serviceName.str ip.str info.str
    port)).bytes = highCount deviceName.str.bytes + highCount serviceName.str.bytes +
      highCount ip.str.bytes + highCount info.str.bytes := by
  rw [doc.rawHigh]
  simp only [serviceRoot, List.map_cons, List.map_nil, List.sum_cons, List.sum_nil,
    Field.highCount]
  omega

theorem fillPkt_roundTrips_iff (doc : cj.Documented) (action : Action) :
    RoundTrips cj (fillPkt cj action.code (serviceRoot deviceName.str serviceName.str ip.str info.str
        port)) action
      ⟨some deviceName.str, some serviceName.str, some ip.str, some info.str, port⟩ ↔
    (highCount deviceName.str.bytes + highCount serviceName.str.bytes + highCount ip.str.bytes +
      highCount info.str.bytes) % 256 = 0 := by
  have hl := print_length deviceName serviceName ip info port doc
  have hc := printedPkt_checksumRight action hl.le
  rw [← print_high deviceName serviceName ip info port doc, ← signed_eq_unsigned_iff,
    fillPkt_ok cj action.code hl.le]
  constructor
  · rintro ⟨data, hd, hr, -, -⟩
    obtain rfl := Except.ok.inj hd
    change checksumRight (printedPkt action _) = _ at hr
    rw [hc, Except.ok.injEq, beq_iff_eq] at hr
    exact hr.symm
  · intro hs
    have hr := hc.trans (congrArg Except.ok (beq_iff_eq.2 hs.symm))
    exact ⟨_, rfl, hr, printedPkt_decodeAction action hr,
      printedPkt_getServiceInfo action doc _ _ _ _ _ hl⟩

theorem getRegisterPkt_text :
    getRegisterPkt cj (some deviceName.str) (some serviceName.str) (some ip.str) port
        (some info.str) =
      fillPkt cj Action.registerService.code
        (serviceRoot deviceName.str serviceName.str ip.str info.str port) := by
  rw [getRegisterPkt, strncpyBuf_text, strncpyBuf_text, strncpyBuf_text, strncpyBuf_text]
  rfl

theorem getInquiryResultPkt_text :
    getInquiryResultPkt cj
        ⟨some deviceName.str, some serviceName.str, some ip.str, some info.str, port⟩ =
      fillPkt cj Action.actionSucc.code
        (serviceRoot deviceName.str serviceName.str ip.str info.str port) := by
  rw [getInquiryResultPkt, strncpyBuf_text, strncpyBuf_text, strncpyBuf_text, strncpyBuf_text]
  rfl

end Texts

/-- The packets decode to what they were built from exactly when the number of
bytes from `0x80` on in the four strings is a multiple of `256`. -/
theorem roundTrips_iff (cj : CJson) (doc : cj.Documented)
    (deviceName serviceName ip info : Text) (port : UInt16) :
    (RoundTrips cj (getRegisterPkt cj (some deviceName.str) (some serviceName.str) (some ip.str) port
        (some info.str)) .registerService
      ⟨some deviceName.str, some serviceName.str, some ip.str, some info.str, port⟩ ↔
    (highCount deviceName.str.bytes + highCount serviceName.str.bytes + highCount ip.str.bytes +
      highCount info.str.bytes) % 256 = 0) ∧
    (RoundTrips cj (getInquiryResultPkt cj
        ⟨some deviceName.str, some serviceName.str, some ip.str, some info.str, port⟩) .actionSucc
      ⟨some deviceName.str, some serviceName.str, some ip.str, some info.str, port⟩ ↔
    (highCount deviceName.str.bytes + highCount serviceName.str.bytes + highCount ip.str.bytes +
      highCount info.str.bytes) % 256 = 0) := by
  rw [getRegisterPkt_text, getInquiryResultPkt_text]
  exact ⟨fillPkt_roundTrips_iff deviceName serviceName ip info port doc .registerService,
    fillPkt_roundTrips_iff deviceName serviceName ip info port doc .actionSucc⟩

section Examples

theorem plain_of_all {bytes : List UInt8} (h : bytes.all (fun b => 0x20 ≤ b.toNat) = true) :
    ∀ b ∈ bytes, 0x20 ≤ b.toNat :=
  fun b hb => of_decide_eq_true (List.all_eq_true.1 h b hb)

def box : Text := ⟨⟨ascii "box1", by decide⟩, by decide, plain_of_all (by decide)⟩

def boxInfo : ServiceInfo := ⟨some box.str, some box.str, some box.str, some box.str, 6666⟩

/-- The word `café` in UTF-8. -/
def cafe : Text := ⟨⟨ascii "caf" ++ [0xC3, 0xA9], by decide⟩, by decide, plain_of_all (by decide)⟩

theorem roundTrips_iff_box :
    (RoundTrips textCJson (getRegisterPkt textCJson (some box.str) (some box.str) (some box.str) 6666
        (some box.str)) .registerService
      ⟨some box.str, some box.str, some box.str, some box.str, 6666⟩ ↔
    (highCount box.str.bytes + highCount box.str.bytes + highCount box.str.bytes +
      highCount box.str.bytes) % 256 = 0) ∧
    (RoundTrips textCJson (getInquiryResultPkt textCJson
        ⟨some box.str, some box.str, some box.str, some box.str, 6666⟩) .actionSucc
      ⟨some box.str, some box.str, some box.str, some box.str, 6666⟩ ↔
    (highCount box.str.bytes + highCount box.str.bytes + highCount box.str.bytes +
      highCount box.str.bytes) % 256 = 0) :=
  roundTrips_iff textCJson textCJson_documented box box box box 6666

/-- A device named `café` cannot be registered. -/
theorem cafe_fails : ¬ RoundTrips textCJson (getRegisterPkt textCJson (some cafe.str)
      (some box.str) (some box.str) 6666 (some box.str)) .registerService
    ⟨some cafe.str, some box.str, some box.str, some box.str, 6666⟩ := by
  rw [getRegisterPkt_text, fillPkt_roundTrips_iff cafe box box box 6666 textCJson_documented]
  decide

end Examples

end MiniServiceDiscover.CRoundTrip
