import MiniServiceDiscover.JavaHistory
import MiniServiceDiscover.JavaRoundTrip
import MiniServiceDiscover.ServiceWire

set_option autoImplicit false

/-! The Java codec among the others: what its packets carry, and which packets that carry a
service it reads. -/
namespace MiniServiceDiscover.JavaWire
open JsonText JsonRoundTrip UnicodeText JsonMeaning WordSum WireFormat ServiceWire
open JavaProtocal JavaProvider JavaDaemon JavaRequest JavaHistory JavaUnicodeText
open JavaGoInterop (length_toInt toInt16_injective code_toInt16)
open JavaRoundTrip (getPkt_fits mapError_eq_ok serviceMap_keys)

def javaString (s : Str) : JavaString := utf16 s.chars

def infoOf (s : Service) : ServiceInfo where
  dev := some (javaString s.device)
  name := some (javaString s.name)
  ip := some (javaString s.ip)
  info := some (javaString s.info)
  port := Int32.ofNat s.port.toNat

/-- What a map holds, or an object gives; an `int` below zero is not among it. -/
inductive Holds : Field → Datum → Prop where
  | string (s : List Char) : Holds (.string (some (utf16 s))) (.text s)
  | number {n : ℕ} (h : n < 2 ^ 31) : Holds (.number (Int32.ofNat n)) (.number n)

/-- The library prints the object of a map in JSON, its members in some order, and reads
any object; strings are in UTF-8 outside the program. -/
structure ReadsJson (oj : OrgJson) : Prop where
  newString : ∀ s, oj.newString (signed (utf8 s)) = utf16 s
  prints : ∀ map r, map ≠ [] → (map.map Prod.fst).Nodup →
    List.Forall₂ (fun m e => e.1 = m.1.toList ∧ Holds m.2 e.2) map r →
      ∃ text r', oj.print map = signed text ∧ Prints text r' ∧ r'.Perm r
  reads : ∀ s r, Record (utf8 s) r → (r.map Prod.fst).Nodup →
    ∃ json, oj.newJson (utf16 s) = some json ∧ ∀ (key : String) (d : Datum) (field : Field),
      (key.toList, d) ∈ r → Holds field d → GivesBack oj json (key, field)

/-- The packets the program makes of a service: of its name alone, where there is no more. -/
inductive Encodes (oj : OrgJson) : Action → Service → List UInt8 → Prop where
  | register (s : Service) {pkt : List UInt8}
      (h : JavaSweep.getRegisterPkt oj (infoOf s) = .ok (signed pkt)) :
      Encodes oj .registerService s pkt
  | inquiry (name : Str) {pkt : List UInt8}
      (h : JavaSweep.getInquiryPkt oj (some (javaString name)) = .ok (signed pkt)) :
      Encodes oj .inquiry ⟨.empty, name, .empty, .empty, 0⟩ pkt
  | answer (s : Service) {pkt : List UInt8} (h : getServicePkt oj (infoOf s) = .ok (signed pkt)) :
      Encodes oj .actionSucc s pkt

section Strings

theorem javaString_injective {s t : Str} (h : javaString s = javaString t) : s = t := by
  obtain ⟨cs, hs⟩ := s
  obtain ⟨ct, ht⟩ := t
  have hchars : some cs = some ct := by
    rw [← ofUtf16_utf16 cs, ← ofUtf16_utf16 ct]
    exact congrArg ofUtf16 h
  obtain rfl := Option.some.inj hchars
  rfl

theorem port_injective {m n : UInt16} (h : Int32.ofNat m.toNat = Int32.ofNat n.toNat) : m = n := by
  have hm := Int32.toInt_ofNat_of_lt (m.toNat_lt.trans (show 2 ^ 16 < 2 ^ 31 by decide))
  have hn := Int32.toInt_ofNat_of_lt (n.toNat_lt.trans (show 2 ^ 16 < 2 ^ 31 by decide))
  rw [h, hn] at hm
  exact UInt16.toNat_inj.1 (Int.ofNat.inj hm.symm)

theorem infoOf_injective {s t : Service} (h : infoOf s = infoOf t) : s = t := by
  obtain ⟨h1, h2, h3, h4, h5⟩ := ServiceInfo.mk.inj h
  exact Service.ext (javaString_injective (Option.some.inj h1))
    (javaString_injective (Option.some.inj h2)) (javaString_injective (Option.some.inj h3))
    (javaString_injective (Option.some.inj h4)) (port_injective h5)

end Strings

section Sending
variable {oj : OrgJson} {action : Action} {s : Service} {pkt : List UInt8}

/-- Every encoder of a service comes down to one map. -/
theorem Encodes.getPkt (h : Encodes oj action s pkt) :
    JavaProtocal.getPkt (infoType action) (oj.print (serviceMap (infoOf s))) = .ok (signed pkt) := by
  cases h with
  | register s h => exact mapError_eq_ok.1 h
  | inquiry name h => exact mapError_eq_ok.1 h
  | answer s h => exact mapError_eq_ok.1 h

theorem serviceMap_prints (json : ReadsJson oj) (s : Service) :
    ∃ text r, oj.print (serviceMap (infoOf s)) = signed text ∧ Prints text r ∧ r.Perm s.record := by
  have hport : s.port.toNat < 2 ^ 31 := s.port.toNat_lt.trans (by decide)
  refine json.prints _ _ (List.cons_ne_nil _ _) (serviceMap_keys _) ?_
  exact .cons ⟨rfl, .string _⟩ (.cons ⟨rfl, .string _⟩ (.cons ⟨rfl, .string _⟩
    (.cons ⟨rfl, .string _⟩ (.cons ⟨rfl, .number hport⟩ .nil))))

/-- A packet with a zero in its payload holds the whole text. -/
theorem getPkt_carries {data : JavaBytes} {record : List (List Char × Datum)}
    (prints : ∃ text r, data = signed text ∧ Prints text r ∧ r.Perm record)
    (hpkt : JavaProtocal.getPkt (infoType action) data = .ok (signed pkt))
    (room : (0 : UInt8) ∈ payload pkt) :
    ∃ text, Carries (wordSum signExtend) action record text pkt := by
  obtain ⟨text, r, rfl, hprints, hperm⟩ := prints
  have hfits : text.length ≤ payloadLen := (signed_length text).symm.trans_le (getPkt_fits hpkt)
  obtain ⟨pkt', hpkt', hunsigned⟩ := getPkt_signed action hfits
  obtain rfl := Except.ok.inj (hpkt'.symm.trans hpkt)
  rw [unsigned_signed] at hunsigned
  refine ⟨text, ⟨r, hprints, hperm⟩, Nat.lt_of_le_of_ne hfits fun he => ?_, hunsigned⟩
  rw [hunsigned, payload_packet_fits _ _ _ _ _ hfits, he, Nat.sub_self, List.replicate_zero,
    List.append_nil] at room
  exact hprints.noNul room

theorem Encodes.carries (json : ReadsJson oj) (h : Encodes oj action s pkt)
    (room : (0 : UInt8) ∈ payload pkt) :
    ∃ text, Carries (wordSum signExtend) action s.record text pkt :=
  getPkt_carries (serviceMap_prints json s) h.getPkt room

theorem result_carries {isSucc : Bool} {reason : Str} (json : ReadsJson oj)
    (h : getResultPkt oj isSucc (javaString reason) = .ok (signed pkt))
    (room : (0 : UInt8) ∈ payload pkt) :
    ∃ text, Carries (wordSum signExtend) (outcome isSucc) (reasonRecord reason) text pkt := by
  have hprints := json.prints [("reason", .string (some (javaString reason)))] (reasonRecord reason)
    (List.cons_ne_nil _ _) (List.nodup_singleton _) (.cons ⟨rfl, .string _⟩ .nil)
  exact getPkt_carries hprints (mapError_eq_ok.1 h) room

end Sending

section Receiving
variable {oj : OrgJson} {sum : List UInt8 → UInt16} {action : Action} {s : Service}
  {record : List (List Char × Datum)} {text pkt : List UInt8}

theorem payloadText_of_carries (h : Carries sum action record text pkt) :
    payloadText oj (signed pkt) = .ok (oj.newString (signed text)) := by
  have hlen := h.pkt_length
  have hroom := h.room
  rw [payloadText, ofBytes_signed (by rw [hlen]; decide)]
  change stringOf oj (signed pkt) headLen (field 2 pkt).toInt16.toInt = _
  have htake : ((signed pkt).drop headLen).take text.length = signed text := by
    rw [signed, ← List.map_drop, ← List.map_take]
    exact congrArg signed h.counted
  rw [h.field_len, length_toInt_eq hroom.le, stringOf, if_neg, Int.toNat_natCast, htake]
  rw [signed_length, hlen]
  have hsize : headLen + payloadLen = packetLen := rfl
  omega

/-- Whatever the order of its members, the object gives what the record says. -/
theorem newJson_of_carries (json : ReadsJson oj) (h : Carries sum action record text pkt)
    (keys : (record.map Prod.fst).Nodup) :
    ∃ (string : JavaString) (tree : oj.Json), payloadText oj (signed pkt) = .ok string ∧
      oj.newJson string = some tree ∧ ∀ (key : String) (d : Datum) (f : Field),
        (key.toList, d) ∈ record → Holds f d → GivesBack oj tree (key, f) := by
  obtain ⟨r, hprints, hperm⟩ := h.prints
  obtain ⟨chars, hutf8⟩ := hprints.utf8
  have hkeys : (r.map Prod.fst).Nodup := (hperm.map Prod.fst).nodup_iff.2 keys
  have hrecord := hprints.record
  have htext := @payloadText_of_carries oj _ _ _ _ _ h
  rw [← hutf8] at hrecord
  rw [← hutf8, json.newString] at htext
  obtain ⟨tree, hparse, hgives⟩ := json.reads chars r hrecord hkeys
  exact ⟨_, tree, htext, hparse, fun key d f hm => hgives key d f (hperm.mem_iff.2 hm)⟩

theorem getServiceInfo_of_carries (json : ReadsJson oj)
    (h : Carries sum action s.record text pkt) :
    getServiceInfo oj (signed pkt) = .ok (infoOf s) := by
  obtain ⟨string, tree, htext, hparse, hgives⟩ := newJson_of_carries json h (record_keys s)
  have hdev : oj.getString tree "device_name" = some (javaString s.device) :=
    hgives "device_name" _ _ (.head _) (.string _)
  have hname : oj.getString tree "service_name" = some (javaString s.name) :=
    hgives "service_name" _ _ (.tail _ (.head _)) (.string _)
  have hip : oj.getString tree "ip" = some (javaString s.ip) :=
    hgives "ip" _ _ (.tail _ (.tail _ (.head _))) (.string _)
  have hinfo : oj.getString tree "info" = some (javaString s.info) :=
    hgives "info" _ _ (.tail _ (.tail _ (.tail _ (.head _)))) (.string _)
  have hport : oj.getInt tree "port" = some (Int32.ofNat s.port.toNat) :=
    hgives "port" _ _ (.tail _ (.tail _ (.tail _ (.tail _ (.head _)))))
      (.number (s.port.toNat_lt.trans (by decide)))
  rw [getServiceInfo_payloadText, htext]
  simp only [Except.map, hparse, readMembers, hdev, hname, hip, hinfo, hport, infoOf]

theorem getResult_of_carries {reason : Str} (json : ReadsJson oj)
    (h : Carries sum action (reasonRecord reason) text pkt) :
    JavaSweep.getResult oj (signed pkt) = .ok (javaString reason) := by
  obtain ⟨string, tree, htext, hparse, hgives⟩ :=
    newJson_of_carries json h (List.nodup_singleton _)
  have hreason : oj.getString tree "reason" = some (javaString reason) :=
    hgives "reason" _ _ (.head _) (.string _)
  exact JavaRoundTrip.getResult_of_text htext hparse hreason

theorem decodeAction_of_carries (h : Carries sum action record text pkt) :
    decodeAction (signed pkt) = .ok (if sum text = wordSum signExtend text then infoType action
      else infoTypeActionInvalid) := by
  have hlen := h.pkt_length
  have hroom := h.room
  have hsize : headLen + payloadLen = packetLen := rfl
  have hn : (field 2 pkt).toInt16.toInt.toNat = text.length := by
    rw [h.field_len, length_toInt hroom.le]
  have hdecode := decodeAction_signed pkt (by rw [hlen]; decide) (by rw [hn, hlen]; omega)
  rw [hn, h.counted, h.field_sum, h.field_action, code_toInt16] at hdecode
  simp only [toInt16_injective] at hdecode
  simp only [hdecode, eq_comm]

/-- A packet that is taken for an action has it. -/
theorem action_of_carries {a : Action} (h : Carries sum action record text pkt)
    (ha : Accepted a (signed pkt)) : sum text = wordSum signExtend text ∧ a = action := by
  rw [Accepted, decodeAction_of_carries h] at ha
  have hcode := Except.ok.inj ha
  by_cases hsum : sum text = wordSum signExtend text
  · rw [if_pos hsum] at hcode
    exact ⟨hsum, infoType_injective hcode.symm⟩
  · rw [if_neg hsum] at hcode
    exact absurd hcode.symm (infoType_ne_invalid a)

/-- The receiver takes a packet whose sender has summed signed bytes, or as good as. -/
theorem accepted_iff (h : Carries sum action record text pkt) :
    Accepted action (signed pkt) ↔ sum text = wordSum signExtend text := by
  refine ⟨fun ha => (action_of_carries h ha).1, fun hsum => ?_⟩
  rw [Accepted, decodeAction_of_carries h, if_pos hsum]

theorem requests_iff (json : ReadsJson oj) (h : Carries sum action s.record text pkt) :
    Requests oj (signed pkt) action (infoOf s) ↔ sum text = wordSum signExtend text :=
  ⟨fun hreq => (accepted_iff h).1 hreq.accepted,
    fun hright => ⟨(accepted_iff h).2 hright, getServiceInfo_of_carries json h⟩⟩

theorem requests_unique {a : Action} {t : Service} (json : ReadsJson oj)
    (h : Carries sum action s.record text pkt) (hr : Requests oj (signed pkt) a (infoOf t)) :
    t = s :=
  infoOf_injective (Except.ok.inj (hr.info.symm.trans (getServiceInfo_of_carries json h)))

end Receiving

section Library
open JavaJsonText

theorem elemBytes_means {es : List Elem} {s : List Char} (h : Means es s) :
    es.flatMap elemBytes = utf8 s :=
  h.bytes (fun _ => rfl) (fun _ => rfl) fun u _ => List.flatMap_singleton _ (Char.ofNat u)

theorem toInt_small {n : ℕ} (h : n < 2 ^ 31) : (Int32.ofNat n).toInt = n :=
  Int32.toInt_ofNat_of_lt h

theorem numberText_small {n : ℕ} (h : n < 2 ^ 31) : numberText (Int32.ofNat n) = decimal n := by
  rw [numberText, toInt_small h, if_neg (Int.not_lt.2 (Int.natCast_nonneg n)), Int.natAbs_natCast]

theorem charsOf_utf16 (s : List Char) : charsOf (utf16 s) = s := by
  rw [charsOf, ofUtf16_utf16]
  rfl

theorem fieldLiteral_literal {f : Field} {d : Datum} (h : Holds f d) :
    Literal (fieldLiteral f) (fieldValue f) d := by
  cases h with
  | string s =>
    rw [fieldLiteral, fieldValue, charsOf_utf16]
    exact string_literal (written_means (by decide) s) (textElems_printable s)
  | @number n hn =>
    rw [fieldLiteral, fieldValue, numberText_small hn]
    exact decimal_literal n

theorem mapText_prints {map : List (String × Field)} {r : List (List Char × Datum)}
    (hne : map ≠ []) (h : List.Forall₂ (fun m e => e.1 = m.1.toList ∧ Holds m.2 e.2) map r) :
    Prints (mapText map) r := by
  obtain ⟨hlen, hzip⟩ := List.forall₂_iff_zip.1 h
  have hfst : (map.zip r).map Prod.fst = map := List.map_fst_zip hlen.le
  have hsnd : (map.zip r).map Prod.snd = r := List.map_snd_zip hlen.ge
  have hkey : ∀ m ∈ map.zip r, Means (textElems m.1.1.toList) m.2.1 := fun m hm => by
    rw [(hzip hm).1]
    exact written_means (by decide) m.1.1.toList
  have hprints := @recordText_prints _ (fun m => textElems m.1.1.toList)
    (fun m => fieldLiteral m.1.2) (fun m => fieldValue m.1.2) (fun m => m.2.1) (fun m => m.2.2) _
    bare_blank (map.zip r) (fun he => hne (hfst.symm.trans (congrArg _ he)))
    (fun m _ => textElems_printable m.1.1.toList) hkey
    fun m hm => fieldLiteral_literal (hzip hm).2
  have htext : recordText bare ((map.zip r).map fun m =>
      (textElems m.1.1.toList, fieldLiteral m.1.2)) = mapText map := by
    rw [mapText]
    conv_rhs => rw [← hfst, List.map_map]
    rfl
  rwa [htext, show ((map.zip r).map fun m => (m.2.1, m.2.2)) = r from hsnd] at hprints

theorem literalInt_digits {literal : List UInt8} (h : literal.all isDigit = true) :
    literalInt (.num literal) = some (Int32.ofNat (natOf literal)) := by
  cases literal with
  | nil => rfl
  | cons b t =>
    have hb : b ≠ 0x2D := by
      rintro rfl
      exact absurd (List.all_eq_true.1 h 0x2D List.mem_cons_self) (by decide)
    rw [literalInt, if_pos h]
    exact fun t' he => hb (List.cons.inj he).1

theorem givesBack_of_holds {ms : List (List Elem × Value)} {key : String} {v : Value} {d : Datum}
    {f : Field} (hm : memberOf ms key = some v) (hv : Denotes v d) (hf : Holds f d) :
    GivesBack unicodeJson ms (key, f) := by
  cases hv with
  | @text es s hes =>
    cases hf with
    | string s =>
      change (memberOf ms key).bind literalString = some (utf16 s)
      rw [hm, Option.bind_some, literalString, elemBytes_means hes, decoded_utf8]
  | @number literal hl =>
    cases hf with
    | number _ =>
      change (memberOf ms key).bind literalInt = some _
      rw [hm, Option.bind_some, literalInt_digits hl]

theorem unicodeJson_readsJson : ReadsJson unicodeJson where
  newString s := by rw [unicodeJson_newString, unsigned_signed, decoded_utf8]
  prints map r hne _ h := ⟨mapText map, r, print_eq map, mapText_prints hne h, .refl r⟩
  reads s r hr unique := by
    obtain ⟨ms, hparse, hms⟩ := hr
    refine ⟨ms, ?_, fun key d f hm hf => ?_⟩
    · rw [unicodeJson_newJson, readRecord, encoded_utf16, hparse]
      rfl
    · obtain ⟨m, hfind, hd⟩ := find_member (fun es s => elemBytes_means) hms unique hm
      refine givesBack_of_holds ?_ hd hf
      rw [memberOf, hfind]
      rfl

end Library

end MiniServiceDiscover.JavaWire
