import MiniServiceDiscover.GoReply
import MiniServiceDiscover.CheckedRange
import MiniServiceDiscover.JsonPrefix

set_option autoImplicit false

/-! Which bytes the Go receiver reads: the checksum covers what the header
counts, the text runs up to the last closing brace of the buffer. -/
namespace MiniServiceDiscover.GoRange
open JsonText GoJson GoProtocal GoInquiry GoReply CheckedRange JsonPrefix WordSum WireFormat

/-- The two buffers are accepted together and then decode alike. -/
structure OnlyChecked (data other : List UInt8) : Prop where
  check : checkAndGetServiceInfoHead other = checkAndGetServiceInfoHead data
  service : (∃ h, checkAndGetServiceInfoHead data = .ok (some h)) →
    getServiceInfo (payload other) = getServiceInfo (payload data)
  result : (∃ h, checkAndGetServiceInfoHead data = .ok (some h)) →
    getResultInfo (payload other) = getResultInfo (payload data)

/-- The part of a text the receiver decodes. -/
def upToBrace (text : List UInt8) : List UInt8 := text.take (jsonEnd 0 0 text)

/-- No bytes behind the counted ones complete a text that decodes. -/
def Dead (data : List UInt8) : Prop :=
  ∀ tail : List UInt8, tail.length = payloadLen - (field 2 data).toNat →
    ServiceInfo.unmarshal (upToBrace (counted data ++ tail)) = none ∧
      ResultInfo.unmarshal (upToBrace (counted data ++ tail)) = none

section Texts
variable {α : Type} {empty : α} {setMember : α → List Elem × Value → Option α}
variable {text y : List UInt8}

theorem upToBrace_zeros (text : List UInt8) (n : ℕ) :
    upToBrace (text ++ List.replicate n 0) = upToBrace text := by
  have hle := jsonEnd_le text 0 0 (Nat.le_refl _)
  rw [Nat.zero_add] at hle
  rw [upToBrace, jsonEnd_append, jsonEnd_zeros, List.take_append_of_le_length hle, upToBrace]

theorem upToBrace_brace (text : List UInt8) :
    upToBrace (text ++ [closeBrace]) = text ++ [closeBrace] := by
  rw [upToBrace, jsonEnd_append, jsonEnd, if_pos rfl, jsonEnd, Nat.zero_add]
  exact List.take_of_length_le (by simp)

theorem unmarshal_delimited {a : α} (h : GoJson.unmarshal empty setMember text = some a) :
    ∃ v, parse text = some v ∧ Delimited v := by
  unfold GoJson.unmarshal at h
  split at h
  · rename_i ms hp
    exact ⟨_, hp, trivial⟩
  · rename_i hp
    exact ⟨_, hp, trivial⟩
  · cases h

/-- A text that decodes does not decode with a brace behind it. -/
theorem unmarshal_append {a : α} (h : GoJson.unmarshal empty setMember text = some a)
    (hy : skipSpace y ≠ []) : GoJson.unmarshal empty setMember (text ++ y) = none := by
  obtain ⟨v, hp, hv⟩ := unmarshal_delimited h
  rw [GoJson.unmarshal, parse_append hp hv hy]

theorem skipSpace_ne_nil {b : UInt8} (hb : b ∈ y) (hs : isSpace b = false) :
    skipSpace y ≠ [] := by
  intro h
  have hall := List.dropWhile_eq_nil_iff.1 h b hb
  rw [hs] at hall
  cases hall

theorem unmarshal_braced {a : α} (h : GoJson.unmarshal empty setMember (upToBrace text) = some a)
    (k : ℕ) : GoJson.unmarshal empty setMember
      (upToBrace (text ++ (List.replicate k 0 ++ [closeBrace]))) = none := by
  have hsplit : text ++ (List.replicate k 0 ++ [closeBrace]) =
      upToBrace text ++ (text.drop (jsonEnd 0 0 text) ++ List.replicate k 0 ++ [closeBrace]) := by
    rw [← List.append_assoc, ← List.append_assoc, ← List.append_assoc, upToBrace,
      List.take_append_drop]
  have hb : closeBrace ∈ text.drop (jsonEnd 0 0 text) ++ List.replicate k 0 ++ [closeBrace] :=
    List.mem_append_right _ (List.mem_singleton.2 rfl)
  rw [← List.append_assoc, upToBrace_brace, List.append_assoc, hsplit]
  exact unmarshal_append h (skipSpace_ne_nil hb (by decide))

/-- The counted bytes padded with zeros, and the same ending in a brace, do not
both decode. -/
theorem unmarshal_zeros_or_brace (text : List UInt8) (k : ℕ)
    (h : GoJson.unmarshal empty setMember (upToBrace (text ++ List.replicate (k + 1) 0)) =
      GoJson.unmarshal empty setMember
        (upToBrace (text ++ (List.replicate k 0 ++ [closeBrace])))) :
    GoJson.unmarshal empty setMember (upToBrace (text ++ List.replicate (k + 1) 0)) = none := by
  rw [upToBrace_zeros] at h ⊢
  cases hu : GoJson.unmarshal empty setMember (upToBrace text) with
  | none => rfl
  | some a =>
    rw [hu, unmarshal_braced hu k] at h
    cases h

theorem jsonEnd_noBrace (i last : ℕ) (h : closeBrace ∉ text) : jsonEnd i last text = last := by
  induction text generalizing i with
  | nil => rfl
  | cons d text ih =>
    have hd : d ≠ closeBrace := fun he => h (he ▸ List.mem_cons_self)
    rw [jsonEnd, if_neg hd, ih _ fun hm => h (List.mem_cons_of_mem d hm)]

theorem upToBrace_append (h : closeBrace ∉ y) : upToBrace (text ++ y) = upToBrace text := by
  have hle := jsonEnd_le text 0 0 (Nat.le_refl _)
  rw [Nat.zero_add] at hle
  rw [upToBrace, jsonEnd_append, jsonEnd_noBrace _ _ h, List.take_append_of_le_length hle,
    upToBrace]

end Texts

section Receiver
variable {data other : List UInt8}

theorem textOf_eq (data : List UInt8) : textOf data = upToBrace (counted data ++ uncounted data) := by
  rw [← payload_eq]
  rfl

theorem headOf_congr (h : SameChecked data other) : headOf other = headOf data := by
  rw [headOf, headOf, h.field 0 (by decide), h.field 1 (by decide), h.field 2 (by decide),
    h.field 3 (by decide)]

theorem accepted_congr (h : SameChecked data other) : Accepted other ↔ Accepted data := by
  have hc : counted other = counted data := h.counted.symm
  change _ ∧ wordSum zeroExtend (counted other) = _ ↔ _ ∧ wordSum zeroExtend (counted data) = _
  rw [hc, headOf_congr h]

/-- Whether a buffer is accepted depends on its checked part alone. -/
theorem checkAndGetServiceInfoHead_congr (hd : data.length = packetLen)
    (ho : other.length = packetLen) (hl : (field 2 data).toNat ≤ payloadLen)
    (h : SameChecked data other) :
    checkAndGetServiceInfoHead other = checkAndGetServiceInfoHead data := by
  have hlo : (field 2 other).toNat ≤ payloadLen := h.field 2 (by decide) ▸ hl
  rw [checkAndGetServiceInfoHead_fits hd fun _ => hl,
    checkAndGetServiceInfoHead_fits ho fun _ => hlo, headOf_congr h]
  simp only [accepted_congr h]

theorem accepted_of_some (hd : data.length = packetLen)
    (h : ∃ h, checkAndGetServiceInfoHead data = .ok (some h)) : Accepted data := by
  obtain ⟨_, hs⟩ := h
  exact (checkAndGetServiceInfoHead_some hd hs).2.1

theorem onlyChecked_of_texts (hd : data.length = packetLen) (ho : other.length = packetLen)
    (hl : (field 2 data).toNat ≤ payloadLen) (h : SameChecked data other)
    (ht : Accepted data → ServiceInfo.unmarshal (textOf other) = ServiceInfo.unmarshal (textOf data) ∧
      ResultInfo.unmarshal (textOf other) = ResultInfo.unmarshal (textOf data)) :
    OnlyChecked data other := by
  refine ⟨checkAndGetServiceInfoHead_congr hd ho hl h, fun hs => ?_, fun hs => ?_⟩
  · rw [getServiceInfo_payload hd, getServiceInfo_payload ho, (ht (accepted_of_some hd hs)).1]
  · rw [getResultInfo_payload hd, getResultInfo_payload ho, (ht (accepted_of_some hd hs)).2]

/-- One decoder that gives the same for every tail gives nothing. -/
theorem unmarshal_constant {α : Type} {empty : α}
    {setMember : α → List Elem × Value → Option α} (hd : data.length = packetLen)
    (hl : (field 2 data).toNat < payloadLen)
    (h : ∀ other, other.length = packetLen → SameChecked data other →
      GoJson.unmarshal empty setMember (textOf other) =
        GoJson.unmarshal empty setMember (textOf data))
    (tail : List UInt8) (ht : tail.length = payloadLen - (field 2 data).toNat) :
    GoJson.unmarshal empty setMember (upToBrace (counted data ++ tail)) = none := by
  have same : ∀ t : List UInt8, t.length = payloadLen - (field 2 data).toNat →
      GoJson.unmarshal empty setMember (upToBrace (counted data ++ t)) =
        GoJson.unmarshal empty setMember (textOf data) := by
    intro t hlen
    have ht := h _ (withTail_length hd hl.le hlen) (withTail_same hd hl.le)
    rwa [textOf, payload_withTail hd] at ht
  obtain ⟨k, hk⟩ : ∃ k, payloadLen - (field 2 data).toNat = k + 1 :=
    ⟨payloadLen - (field 2 data).toNat - 1, by omega⟩
  have hz := same (List.replicate (k + 1) 0) (by rw [List.length_replicate, hk])
  have hb := same (List.replicate k 0 ++ [closeBrace]) (by
    rw [List.length_append, List.length_replicate, hk]
    rfl)
  rw [same tail ht, ← hz]
  exact unmarshal_zeros_or_brace (counted data) k (hz.trans hb.symm)

end Receiver

/-- An accepted buffer is decoded from its checked part alone exactly when that
is the whole buffer or no continuation of it decodes at all. -/
theorem accepted_onlyChecked_iff (data : List UInt8) (hd : data.length = packetLen)
    (hl : (field 2 data).toNat ≤ payloadLen) :
    ((∀ other, other.length = packetLen → SameChecked data other → OnlyChecked data other) ↔
      ¬ Accepted data ∨ (field 2 data).toNat = payloadLen ∨ Dead data) ∧
    ∀ other, other.length = packetLen → SameChecked data other →
      closeBrace ∉ uncounted data → closeBrace ∉ uncounted other → OnlyChecked data other := by
  refine ⟨⟨fun h => ?_, fun h other ho hsame => ?_⟩, fun other ho hsame hb hbo => ?_⟩
  · by_cases ha : Accepted data
    · by_cases hfull : (field 2 data).toNat = payloadLen
      · exact .inr (.inl hfull)
      · have hs : ∃ h, checkAndGetServiceInfoHead data = .ok (some h) :=
          ⟨headOf data, by rw [checkAndGetServiceInfoHead_fits hd fun _ => hl, if_pos ha]⟩
        have hlt := Nat.lt_of_le_of_ne hl hfull
        refine .inr (.inr fun tail ht => ⟨?_, ?_⟩)
        · refine unmarshal_constant hd hlt (fun other ho hsame => ?_) tail ht
          have hsv := (h other ho hsame).service hs
          rw [getServiceInfo_payload hd, getServiceInfo_payload ho] at hsv
          exact Except.ok.inj hsv
        · refine unmarshal_constant hd hlt (fun other ho hsame => ?_) tail ht
          have hrs := (h other ho hsame).result hs
          rw [getResultInfo_payload hd, getResultInfo_payload ho] at hrs
          exact Except.ok.inj hrs
    · exact .inl ha
  · refine onlyChecked_of_texts hd ho hl hsame fun ha => ?_
    rcases h.resolve_left (not_not.2 ha) with hfull | hdead
    · rw [hsame.eq_of_full hd ho hfull]
      exact ⟨rfl, rfl⟩
    · have h1 := hdead _ (uncounted_length hd)
      have h2 := hdead (uncounted other) (by
        rw [uncounted_length ho, hsame.field 2 (by decide)])
      rw [textOf_eq, textOf_eq, ← hsame.counted, h1.1, h1.2, h2.1, h2.2]
      exact ⟨rfl, rfl⟩
  · refine onlyChecked_of_texts hd ho hl hsame fun _ => ?_
    rw [textOf_eq, textOf_eq, upToBrace_append hb, upToBrace_append hbo, hsame.counted]
    exact ⟨rfl, rfl⟩

section Examples

def playMusicText : Bytes := (inquiryInfo (ascii "play_music")).marshal

theorem playMusicText_length : playMusicText.length = 73 := by decide

theorem playMusicInquiry_length : playMusicInquiry.length = packetLen :=
  dataBuffer_length _ _

theorem playMusicInquiry_len : (field 2 playMusicInquiry).toNat = 73 := by
  have h : field 2 playMusicInquiry = playMusicText.length.toUInt16 :=
    congrArg ServiceHead.jsonLen (headOf_dataBuffer Action.inquiry.code playMusicText)
  rw [h, playMusicText_length]
  rfl

theorem playMusicInquiry_fits : (field 2 playMusicInquiry).toNat ≤ payloadLen := by
  rw [playMusicInquiry_len]
  decide

theorem playMusicInquiry_counted : counted playMusicInquiry = playMusicText := by
  have hp : payload playMusicInquiry = playMusicText ++ List.replicate _ 0 :=
    payload_dataBuffer _ (by decide)
  rw [counted, playMusicInquiry_len, hp, List.take_left' playMusicText_length]

theorem playMusicInquiry_decodes : ServiceInfo.unmarshal (upToBrace playMusicText) =
    some (inquiryInfo (ascii "play_music")).coerce := by
  have hs : getServiceInfo (payload playMusicInquiry) =
      .ok (some (inquiryInfo (ascii "play_music")).coerce) :=
    getServiceInfo_dataBuffer _ (by decide)
  have hp : payload playMusicInquiry = playMusicText ++ List.replicate _ 0 :=
    payload_dataBuffer _ (by decide)
  rw [getServiceInfo_payload playMusicInquiry_length] at hs
  have hu := Except.ok.inj hs
  change ServiceInfo.unmarshal (upToBrace (payload playMusicInquiry)) = _ at hu
  rwa [hp, upToBrace_zeros] at hu

theorem accepted_onlyChecked_iff_playMusicInquiry :
    ((∀ other, other.length = packetLen → SameChecked playMusicInquiry other →
        OnlyChecked playMusicInquiry other) ↔
      ¬ Accepted playMusicInquiry ∨ (field 2 playMusicInquiry).toNat = payloadLen ∨
        Dead playMusicInquiry) ∧
    ∀ other, other.length = packetLen → SameChecked playMusicInquiry other →
      closeBrace ∉ uncounted playMusicInquiry → closeBrace ∉ uncounted other →
        OnlyChecked playMusicInquiry other :=
  accepted_onlyChecked_iff playMusicInquiry playMusicInquiry_length playMusicInquiry_fits

/-- The inquiry packet with a closing brace in its last byte. -/
def bracedInquiry : List UInt8 :=
  withTail playMusicInquiry (List.replicate 942 0 ++ [closeBrace])

/-- One byte behind the checksummed ones, and an inquiry is no longer decoded. -/
theorem bracedInquiry_undecodable :
    bracedInquiry.length = packetLen ∧ SameChecked playMusicInquiry bracedInquiry ∧
    checkAndGetServiceInfoHead bracedInquiry = .ok (some (headOf playMusicInquiry)) ∧
    getServiceInfo (payload playMusicInquiry) =
      .ok (some (inquiryInfo (ascii "play_music")).coerce) ∧
    getServiceInfo (payload bracedInquiry) = .ok none := by
  have hlen : bracedInquiry.length = packetLen :=
    withTail_length playMusicInquiry_length playMusicInquiry_fits (by
      rw [playMusicInquiry_len, List.length_append, List.length_replicate]
      rfl)
  have hsame : SameChecked playMusicInquiry bracedInquiry :=
    withTail_same playMusicInquiry_length playMusicInquiry_fits
  refine ⟨hlen, hsame, ?_, getServiceInfo_dataBuffer _ (by decide), ?_⟩
  · rw [checkAndGetServiceInfoHead_congr playMusicInquiry_length hlen playMusicInquiry_fits hsame]
    exact (checkAndGetServiceInfoHead_dataBuffer _ (by decide)).trans
      (by rw [playMusicInquiry, headOf_dataBuffer])
  · rw [getServiceInfo_payload hlen, textOf, bracedInquiry,
      payload_withTail playMusicInquiry_length, playMusicInquiry_counted]
    exact congrArg Except.ok (unmarshal_braced playMusicInquiry_decodes 942)

end Examples

end MiniServiceDiscover.GoRange
