import MiniServiceDiscover.CDaemon
import MiniServiceDiscover.CRoundTrip
import MiniServiceDiscover.CheckedRange

set_option autoImplicit false

/-! Which bytes the C receiver reads: the checksum covers what the header
counts, the text runs up to the first zero byte. -/
namespace MiniServiceDiscover.CRange
open CProtocal CList CDaemon CJsonText CRoundTrip CheckedRange WordSum WireFormat

/-- Every buffer with the same checked part is decoded and served the same way. -/
structure OnlyChecked (cj : CJson) (data other : List UInt8) : Prop where
  action : decodeAction other = decodeAction data
  info : (∃ a, decodeAction data = .ok a ∧ a ≠ infoTypeActionInvalid) →
    getServiceInfo cj other = getServiceInfo cj data
  served : ∀ listFuel fuel l,
    serverLoop cj listFuel fuel l other = serverLoop cj listFuel fuel l data

section Receiver
variable {cj : CJson} {data other : List UInt8}

theorem sumRight_congr (h : SameChecked data other) : SumRight other ↔ SumRight data := by
  have hc : counted other = counted data := h.counted.symm
  change wordSum zeroExtend (counted other) = _ ↔ wordSum zeroExtend (counted data) = _
  rw [hc, h.field 3 (by decide)]

theorem decodeAction_congr (hd : data.length = packetLen) (ho : other.length = packetLen)
    (hl : (field 2 data).toNat ≤ payloadLen) (h : SameChecked data other) :
    decodeAction other = decodeAction data := by
  have h2 := h.field 2 (by decide)
  have hp : (field 2 data).toNat ≤ (payload data).length := (payload_length hd).symm ▸ hl
  have hq : (field 2 other).toNat ≤ (payload other).length := by
    rw [payload_length ho, ← h2]
    exact hl
  rw [decodeAction_fits hp, decodeAction_fits hq, ← h.field 1 (by decide)]
  simp only [sumRight_congr h]

/-- The loop reads a packet through its action and, for a valid one, its info. -/
theorem serverLoop_congr (ha : decodeAction other = decodeAction data)
    (hi : (∃ a, decodeAction data = .ok a ∧ a ≠ infoTypeActionInvalid) →
      getServiceInfo cj other = getServiceInfo cj data)
    (listFuel fuel : ℕ) (l : ServiceInfoList) :
    serverLoop cj listFuel fuel l other = serverLoop cj listFuel fuel l data := by
  rw [serverLoop, serverLoop, ha]
  cases hc : decodeAction data with
  | error e => rfl
  | ok type =>
    by_cases hv : type = infoTypeActionInvalid
    · subst hv
      rfl
    · rw [hi ⟨type, hc, hv⟩]

/-- A string ends at its first zero byte, whatever follows. -/
theorem stringAt_append {text tail : List UInt8} (h : (0 : UInt8) ∈ text) :
    stringAt (text ++ tail) = stringAt text := by
  have hw : (text ++ tail).takeWhile (· != 0) = text.takeWhile (· != 0) := by
    have hs : (text.takeWhile (· != 0)).length ≠ text.length := by
      intro he
      have hall := (List.takeWhile_eq_self_iff (p := (· != 0))).1
        ((List.takeWhile_prefix (· != 0)).eq_of_length he)
      exact absurd (hall 0 h) (by decide)
    rw [List.takeWhile_append, if_neg hs]
  simp only [stringAt, List.mem_append, h, true_or, if_true, hw]

theorem stringAt_unterminated {text : List UInt8} (h : (0 : UInt8) ∉ text) :
    stringAt text = .error .unterminated := if_neg h

theorem getServiceInfo_payload_congr (h : stringAt (payload other) = stringAt (payload data)) :
    getServiceInfo cj other = getServiceInfo cj data := by
  rw [getServiceInfo, getServiceInfo, h]

theorem getServiceInfo_terminated (h : (0 : UInt8) ∈ payload data) :
    getServiceInfo cj data ≠ .error .unterminated := by
  intro hu
  rw [getServiceInfo, stringAt, if_pos h] at hu
  cases hu

theorem getServiceInfo_unterminated (h : (0 : UInt8) ∉ payload data) :
    getServiceInfo cj data = .error .unterminated := by
  rw [getServiceInfo, stringAt_unterminated h]
  rfl

theorem getServiceInfo_unparsed {s : CString} (h : stringAt (payload data) = .ok s)
    (hp : cj.parse s = none) : getServiceInfo cj data = .ok none := by
  rw [getServiceInfo, h]
  change Except.ok ((cj.parse s).map _) = _
  rw [hp, Option.map_none]

theorem onlyChecked_of_info (hd : data.length = packetLen) (ho : other.length = packetLen)
    (hl : (field 2 data).toNat ≤ payloadLen) (h : SameChecked data other)
    (hi : SumRight data → getServiceInfo cj other = getServiceInfo cj data) :
    OnlyChecked cj data other := by
  have hp : (field 2 data).toNat ≤ (payload data).length := (payload_length hd).symm ▸ hl
  have ha := decodeAction_congr hd ho hl h
  have hv := fun hv => hi ((decodeAction_valid_iff hp).1 hv)
  exact ⟨ha, hv, serverLoop_congr ha hv⟩

/-- With no zero byte among the counted ones, the tail decides whether the text
ends within the buffer. -/
theorem info_depends_on_tail (hd : data.length = packetLen)
    (hl : (field 2 data).toNat < payloadLen) (h0 : (0 : UInt8) ∉ counted data)
    (h : ∀ other, other.length = packetLen → SameChecked data other →
      getServiceInfo cj other = getServiceInfo cj data) : False := by
  obtain ⟨k, hk⟩ : ∃ k, payloadLen - (field 2 data).toNat = k + 1 :=
    ⟨payloadLen - (field 2 data).toNat - 1, by omega⟩
  have tail : ∀ b : UInt8, getServiceInfo cj (withTail data (List.replicate (k + 1) b)) =
      getServiceInfo cj data := fun b =>
    h _ (withTail_length hd hl.le (by rw [List.length_replicate, hk])) (withTail_same hd hl.le)
  have hOnes : (0 : UInt8) ∉ payload (withTail data (List.replicate (k + 1) 1)) := by
    rw [payload_withTail hd, List.mem_append, List.mem_replicate]
    exact fun hm => hm.elim h0 fun hr => absurd hr.2 (by decide)
  have hZeros : (0 : UInt8) ∈ payload (withTail data (List.replicate (k + 1) 0)) := by
    rw [payload_withTail hd]
    exact List.mem_append_right _ (List.mem_replicate.2 ⟨Nat.succ_ne_zero k, rfl⟩)
  refine (getServiceInfo_terminated hZeros : getServiceInfo cj _ ≠ _) ?_
  rw [tail 0, ← tail 1, getServiceInfo_unterminated hOnes]

end Receiver

/-- An accepted buffer is read from its checked part alone exactly when the text
ends there: the header counts the whole payload, or a zero byte is counted. -/
theorem onlyChecked_iff (cj : CJson) (data : List UInt8) (hd : data.length = packetLen)
    (hl : (field 2 data).toNat ≤ payloadLen) :
    (∀ other, other.length = packetLen → SameChecked data other → OnlyChecked cj data other) ↔
      ¬ SumRight data ∨ (field 2 data).toNat = payloadLen ∨ (0 : UInt8) ∈ counted data := by
  have hp : (field 2 data).toNat ≤ (payload data).length := (payload_length hd).symm ▸ hl
  constructor
  · intro h
    by_contra hc
    push Not at hc
    obtain ⟨hs, hne, h0⟩ := hc
    have hv := (decodeAction_valid_iff hp).2 hs
    exact info_depends_on_tail hd (Nat.lt_of_le_of_ne hl hne) h0
      fun other ho hsame => (h other ho hsame).info hv
  · intro h other ho hsame
    refine onlyChecked_of_info hd ho hl hsame fun hs => ?_
    rcases h.resolve_left (not_not.2 hs) with hfull | h0
    · rw [hsame.eq_of_full hd ho hfull]
    · apply getServiceInfo_payload_congr
      rw [payload_eq other, payload_eq data, ← hsame.counted, stringAt_append h0,
        stringAt_append h0]

section Examples

/-- A registration whose header counts no payload byte. -/
def uncountedPkt (text : List UInt8) : List UInt8 :=
  packet (headBytes infoHead Action.registerService.code 0 0) text

def boxRoot : List (Key × Field) := serviceRoot box.str box.str box.str box.str 6666

theorem uncountedPkt_length (text : List UInt8) : (uncountedPkt text).length = packetLen :=
  packet_length _ _ _ _ _

theorem uncountedPkt_len (text : List UInt8) : field 2 (uncountedPkt text) = 0 :=
  field_headBytes_len _ _ _ _ _

theorem uncountedPkt_payload (text : List UInt8) :
    payload (uncountedPkt text) = payload (printedPkt .registerService text) := by
  rw [uncountedPkt, printedPkt, packet, payload_headBytes, packet, payload_headBytes]

theorem uncountedPkt_fits (text : List UInt8) :
    (field 2 (uncountedPkt text)).toNat ≤ payloadLen := by
  rw [uncountedPkt_len]
  exact Nat.zero_le _

theorem uncountedPkt_counted (text : List UInt8) : counted (uncountedPkt text) = [] := by
  rw [counted, uncountedPkt_len]
  rfl

theorem uncountedPkt_action (text : List UInt8) : decodeAction (uncountedPkt text) = .ok 0 := by
  have hs : SumRight (uncountedPkt text) := by
    change wordSum zeroExtend (counted (uncountedPkt text)) = _
    rw [uncountedPkt_counted]
    exact (field_headBytes_checksum _ _ _ _ _).symm
  have h1 : field 1 (uncountedPkt text) = Action.registerService.code :=
    field_headBytes_action _ _ _ _ _
  rw [decodeAction_fits, if_pos hs, h1]
  · rfl
  · rw [uncountedPkt_len]
    exact Nat.zero_le _

theorem onlyChecked_iff_uncountedPkt :
    (∀ other, other.length = packetLen → SameChecked (uncountedPkt []) other →
      OnlyChecked textCJson (uncountedPkt []) other) ↔
    ¬ SumRight (uncountedPkt []) ∨ (field 2 (uncountedPkt [])).toNat = payloadLen ∨
      (0 : UInt8) ∈ counted (uncountedPkt []) :=
  onlyChecked_iff textCJson (uncountedPkt []) (uncountedPkt_length []) (uncountedPkt_fits [])

/-- Two accepted registrations with one header and no counted byte: the first
registers nothing, the second a service. -/
theorem uncountedPkt_differ :
    SameChecked (uncountedPkt []) (uncountedPkt (textCJson.print boxRoot).bytes) ∧
    decodeAction (uncountedPkt []) = .ok 0 ∧
    getServiceInfo textCJson (uncountedPkt []) = .ok none ∧
    getServiceInfo textCJson (uncountedPkt (textCJson.print boxRoot).bytes) =
      .ok (some ⟨some box.str, some box.str, some box.str, some box.str, 6666⟩) := by
  have h0 : stringAt (payload (uncountedPkt [])) = .ok .empty :=
    printedPkt_stringAt .registerService (s := .empty) (by decide)
  have hl : (textCJson.print boxRoot).bytes.length < payloadLen :=
    print_length box box box box 6666 textCJson_documented
  refine ⟨⟨rfl, ?_⟩, uncountedPkt_action [], ?_, ?_⟩
  · rw [uncountedPkt_counted, uncountedPkt_counted]
  · exact getServiceInfo_unparsed h0 (by decide)
  · rw [← printedPkt_getServiceInfo .registerService textCJson_documented _ _ _ _ _ hl]
    exact getServiceInfo_payload_congr (congrArg stringAt (uncountedPkt_payload _))

end Examples

end MiniServiceDiscover.CRange
