import MiniServiceDiscover.CRegistry
import MiniServiceDiscover.CRoundTrip
import MiniServiceDiscover.ServiceWire

set_option autoImplicit false

/-! The C codec among the others: what its packets carry, and which packets that carry a
service it reads. -/
namespace MiniServiceDiscover.CWire
open JsonText JsonRoundTrip UnicodeText JsonMeaning WordSum WireFormat ServiceWire
open CProtocal CRegistry Fallible

def cString (s : Str) : CString := ⟨s.bytes, s.bytes_noNul⟩

def infoOf (s : Service) : ServiceInfo where
  deviceName := some (cString s.device)
  serviceName := some (cString s.name)
  ip := some (cString s.ip)
  info := some (cString s.info)
  port := s.port

def rootOf (s : Service) : List (Key × Field) :=
  serviceRoot (cString s.device) (cString s.name) (cString s.ip) (cString s.info) s.port

inductive Holds : Field → Datum → Prop where
  | string {c : CString} {s : List Char} (h : c.bytes = utf8 s) : Holds (.string c) (.text s)
  | number (n : UInt16) : Holds (.number n) (.number n.toNat)

/-- The item of a datum, if a number is in the range of an `int`. -/
inductive Shows : Item → Datum → Prop where
  | string {c : CString} {s : List Char} (h : c.bytes = utf8 s) : Shows (.string c) (.text s)
  | number {n : ℕ} (h : n < 2 ^ 31) : Shows (.number n) (.number n)

/-- cJSON prints JSON, and reads any object with the keys of the program. -/
structure ReadsJson (cj : CJson) : Prop where
  prints : ∀ root r, root ≠ [] →
    List.Forall₂ (fun f e => e.1 = f.1.name.toList ∧ Holds f.2 e.2) root r →
      Prints (cj.print root).bytes r
  reads : ∀ (text : CString) r, Record text.bytes r → (r.map Prod.fst).Nodup →
    (∀ e ∈ r, ∃ k : Key, e.1 = k.name.toList) → ∃ json, cj.parse text = some json ∧
      ∀ (k : Key) (d : Datum) (item : Item), (k.name.toList, d) ∈ r → Shows item d →
        cj.item json k = some item

/-- The packets the program makes of a service: of names alone, where there is no more. -/
inductive Encodes (cj : CJson) : Action → Service → List UInt8 → Prop where
  | register (s : Service) {pkt : List UInt8}
      (h : getRegisterPkt cj (some (cString s.device)) (some (cString s.name))
        (some (cString s.ip)) s.port (some (cString s.info)) = .ok pkt) :
      Encodes cj .registerService s pkt
  | unregister (device name : Str) {pkt : List UInt8}
      (h : getUnregisterPkt cj (some (cString device)) (some (cString name)) = .ok pkt) :
      Encodes cj .unregisterService ⟨device, name, .empty, .empty, 0⟩ pkt
  | inquiry (name : Str) {pkt : List UInt8}
      (h : getInquiryPkt cj (some (cString name)) = .ok pkt) :
      Encodes cj .inquiry ⟨.empty, name, .empty, .empty, 0⟩ pkt
  | answer (s : Service) {pkt : List UInt8} (h : getInquiryResultPkt cj (infoOf s) = .ok pkt) :
      Encodes cj .actionSucc s pkt

section Strings

theorem cString_injective {s t : Str} (h : cString s = cString t) : s = t :=
  Str.bytes_injective (congrArg CString.bytes h)

theorem infoOf_injective {s t : Service} (h : infoOf s = infoOf t) : s = t := by
  obtain ⟨h1, h2, h3, h4, h5⟩ := ServiceInfo.mk.inj h
  exact Service.ext (cString_injective (Option.some.inj h1)) (cString_injective (Option.some.inj h2))
    (cString_injective (Option.some.inj h3)) (cString_injective (Option.some.inj h4)) h5

end Strings

section Sending
variable {cj : CJson} {action : Action} {s : Service} {pkt : List UInt8}

theorem strncpyBuf_short {p : CharPtr} {c : CString} (h : strncpyBuf p = .ok c) :
    p = some c ∧ stringCost c ≤ 594 := by
  obtain ⟨hp, hlen⟩ := strncpyBuf_eq_ok.1 h
  have hcost := stringCost_le c
  have hmax : infoMaxLen = 100 := rfl
  exact ⟨hp, by omega⟩

/-- Four copies that succeed leave the strings as they were. -/
theorem bufs_eq {fill : CString → CString → CString → CString → Except CFault (List UInt8)}
    {a b c d : CString}
    (h : (do
      let bufA ← strncpyBuf (some a)
      let bufB ← strncpyBuf (some b)
      let bufC ← strncpyBuf (some c)
      let bufD ← strncpyBuf (some d)
      fill bufA bufB bufC bufD) = .ok pkt) :
    fill a b c d = .ok pkt ∧ stringCost a ≤ 594 ∧ stringCost b ≤ 594 ∧ stringCost c ≤ 594 ∧
      stringCost d ≤ 594 := by
  obtain ⟨a', ha, h⟩ := bind_eq_ok.1 h
  obtain ⟨b', hb, h⟩ := bind_eq_ok.1 h
  obtain ⟨c', hc, h⟩ := bind_eq_ok.1 h
  obtain ⟨d', hd, h⟩ := bind_eq_ok.1 h
  obtain ⟨ha, hcostA⟩ := strncpyBuf_short ha
  obtain ⟨hb, hcostB⟩ := strncpyBuf_short hb
  obtain ⟨hc, hcostC⟩ := strncpyBuf_short hc
  obtain ⟨hd, hcostD⟩ := strncpyBuf_short hd
  obtain rfl := Option.some.inj ha
  obtain rfl := Option.some.inj hb
  obtain rfl := Option.some.inj hc
  obtain rfl := Option.some.inj hd
  exact ⟨h, hcostA, hcostB, hcostC, hcostD⟩

theorem printCost_lt {s : Service} (device : stringCost (cString s.device) ≤ 594)
    (name : stringCost (cString s.name) ≤ 594) (ip : stringCost (cString s.ip) ≤ 594)
    (info : stringCost (cString s.info) ≤ 594) : printCost (rootOf s) < 65536 := by
  rw [rootOf, serviceRoot_printCost]
  omega

/-- Every encoder of a service comes down to the same copy. -/
theorem Encodes.fill (h : Encodes cj action s pkt) :
    fillPkt cj action.code (rootOf s) = .ok pkt ∧ printCost (rootOf s) < 65536 := by
  cases h with
  | register s h =>
    obtain ⟨hfill, h1, h2, h3, h4⟩ := @bufs_eq pkt (fun device name ip info =>
      fillPkt cj Action.registerService.code (serviceRoot device name ip info s.port)) _ _ _ _ h
    exact ⟨hfill, printCost_lt h1 h2 h3 h4⟩
  | answer s h =>
    obtain ⟨hfill, h1, h2, h3, h4⟩ := @bufs_eq pkt (fun device name ip info =>
      fillPkt cj Action.actionSucc.code (serviceRoot device name ip info s.port)) _ _ _ _ h
    exact ⟨hfill, printCost_lt h1 h2 h3 h4⟩
  | unregister device name h =>
    obtain ⟨device', hdevice, h⟩ := bind_eq_ok.1 h
    obtain ⟨name', hname, h⟩ := bind_eq_ok.1 h
    obtain ⟨hd, h1⟩ := strncpyBuf_short hdevice
    obtain ⟨hn, h2⟩ := strncpyBuf_short hname
    obtain rfl := Option.some.inj hd
    obtain rfl := Option.some.inj hn
    exact ⟨h, printCost_lt h1 h2 (Nat.zero_le _) (Nat.zero_le _)⟩
  | inquiry name h =>
    obtain ⟨name', hname, h⟩ := bind_eq_ok.1 h
    obtain ⟨hn, h2⟩ := strncpyBuf_short hname
    obtain rfl := Option.some.inj hn
    exact ⟨h, printCost_lt (Nat.zero_le _) h2 (Nat.zero_le _) (Nat.zero_le _)⟩

theorem rootOf_prints (json : ReadsJson cj) (s : Service) :
    Prints (cj.print (rootOf s)).bytes s.record := by
  refine json.prints _ _ (List.cons_ne_nil _ _) ?_
  refine .cons ⟨rfl, .string rfl⟩ (.cons ⟨rfl, .string rfl⟩ (.cons ⟨rfl, .string rfl⟩
    (.cons ⟨rfl, .string rfl⟩ (.cons ⟨rfl, .number s.port⟩ .nil))))

/-- A packet with a zero in its payload holds the whole text. -/
theorem Encodes.carries (doc : cj.Documented) (json : ReadsJson cj) (h : Encodes cj action s pkt)
    (room : (0 : UInt8) ∈ payload pkt) :
    ∃ text, Carries (wordSum signExtend) action s.record text pkt := by
  obtain ⟨hfill, hcost⟩ := h.fill
  have hprints := rootOf_prints json s
  have hlen : (cj.print (rootOf s)).bytes.length < 65536 := (doc.printLength _).trans_lt hcost
  have hfits : (cj.print (rootOf s)).bytes.length ≤ payloadLen := by
    by_contra hlong
    rw [fillPkt_overflow cj _ (Nat.lt_of_not_le hlong) hlen] at hfill
    cases hfill
  rw [fillPkt_ok cj _ hfits] at hfill
  obtain rfl := Except.ok.inj hfill
  refine ⟨_, ⟨_, hprints, .refl _⟩, Nat.lt_of_le_of_ne hfits fun he => ?_, rfl⟩
  rw [payload_packet_fits _ _ _ _ _ hfits, he, Nat.sub_self, List.replicate_zero,
    List.append_nil] at room
  exact hprints.noNul room

/-- A result always leaves room. -/
theorem result_carries {isSucc : Bool} {reason : Str} (doc : cj.Documented) (json : ReadsJson cj)
    (h : getResultPkt cj isSucc (some (cString reason)) = .ok pkt) :
    ∃ text, Carries (wordSum signExtend) (outcome isSucc) (reasonRecord reason) text pkt := by
  obtain ⟨c, hc, -⟩ := bind_eq_ok.1 h
  obtain ⟨hsame, hlen⟩ := strncpyBuf_eq_ok.1 hc
  obtain rfl := Option.some.inj hsame
  rw [getResultPkt_eq doc isSucc hlen] at h
  obtain rfl := Except.ok.inj h
  have hprints : Prints (cj.print (reasonRoot (cString reason))).bytes (reasonRecord reason) :=
    json.prints _ _ (List.cons_ne_nil _ _) (.cons ⟨rfl, .string rfl⟩ .nil)
  exact ⟨_, ⟨_, hprints, .refl _⟩, reasonText_length doc hlen, rfl⟩

end Sending

section Receiving
variable {cj : CJson} {sum : List UInt8 → UInt16} {action : Action} {s : Service}
  {record : List (List Char × Datum)} {text pkt : List UInt8}

theorem stringAt_of_carries (h : Carries sum action record text pkt) (hn : (0 : UInt8) ∉ text) :
    stringAt (payload pkt) = .ok ⟨text, hn⟩ := by
  have h0 : (0 : UInt8) ∈ text ++ List.replicate (payloadLen - text.length) 0 :=
    h.payload ▸ h.zero_mem
  rw [h.payload]
  simp only [CProtocal.stringAt, if_pos h0, CRoundTrip.takeWhile_text hn]

/-- Whatever the order of its members, the object gives what the record says. -/
theorem parse_of_carries (json : ReadsJson cj) (h : Carries sum action record text pkt)
    (keys : (record.map Prod.fst).Nodup) (known : ∀ e ∈ record, ∃ k : Key, e.1 = k.name.toList) :
    ∃ (c : CString) (tree : cj.Tree), stringAt (payload pkt) = .ok c ∧ cj.parse c = some tree ∧
      ∀ (k : Key) (d : Datum) (item : Item), (k.name.toList, d) ∈ record → Shows item d →
        cj.item tree k = some item := by
  obtain ⟨r, hprints, hperm⟩ := h.prints
  have hkeys : (r.map Prod.fst).Nodup := (hperm.map Prod.fst).nodup_iff.2 keys
  have hknown : ∀ e ∈ r, ∃ k : Key, e.1 = k.name.toList := fun e he => known e (hperm.mem_iff.1 he)
  obtain ⟨tree, hparse, hitem⟩ := json.reads ⟨text, hprints.noNul⟩ r hprints.record hkeys hknown
  exact ⟨_, tree, stringAt_of_carries h hprints.noNul, hparse,
    fun k d item hm => hitem k d item (hperm.mem_iff.2 hm)⟩

theorem record_known (s : Service) : ∀ e ∈ s.record, ∃ k : Key, e.1 = k.name.toList := by
  simp only [Service.record, List.forall_mem_cons]
  exact ⟨⟨.deviceName, rfl⟩, ⟨.serviceName, rfl⟩, ⟨.ip, rfl⟩, ⟨.info, rfl⟩, ⟨.port, rfl⟩,
    fun _ h => absurd h List.not_mem_nil⟩

theorem getServiceInfo_of_carries (json : ReadsJson cj)
    (h : Carries sum action s.record text pkt) :
    getServiceInfo cj pkt = .ok (some (infoOf s)) := by
  obtain ⟨c, tree, hstring, hparse, hitem⟩ := parse_of_carries json h (record_keys s) (record_known s)
  have hdevice := hitem .deviceName _ (.string (cString s.device)) (.head _) (.string rfl)
  have hname := hitem .serviceName _ (.string (cString s.name)) (.tail _ (.head _)) (.string rfl)
  have hip := hitem .ip _ (.string (cString s.ip)) (.tail _ (.tail _ (.head _))) (.string rfl)
  have hinfo := hitem .info _ (.string (cString s.info)) (.tail _ (.tail _ (.tail _ (.head _))))
    (.string rfl)
  have hport := hitem .port _ (.number s.port.toNat)
    (.tail _ (.tail _ (.tail _ (.tail _ (.head _))))) (.number (s.port.toNat_lt.trans (by decide)))
  have hnarrow : UInt16.ofInt (s.port.toNat : ℤ) = s.port := by
    have hm : ((s.port.toNat : ℤ) % 2 ^ 16).toNat = s.port.toNat := by
      have := s.port.toNat_lt
      omega
    rw [UInt16.ofInt, hm]
    exact UInt16.ofNat_toNat
  rw [CProtocal.getServiceInfo, hstring]
  change Except.ok ((cj.parse _).map _) = _
  rw [hparse, Option.map_some]
  simp only [stringItem, portItem, hdevice, hname, hip, hinfo, hport, hnarrow, infoOf]

theorem getResult_of_carries {reason : Str} (json : ReadsJson cj)
    (h : Carries sum (outcome false) (reasonRecord reason) text pkt) :
    getResult cj pkt = .ok (some ⟨some (cString reason)⟩) := by
  have hknown : ∀ e ∈ reasonRecord reason, ∃ k : Key, e.1 = k.name.toList := fun e he =>
    ⟨.reason, by rw [List.mem_singleton.1 he]; rfl⟩
  obtain ⟨c, tree, hstring, hparse, hitem⟩ :=
    parse_of_carries json h (List.nodup_singleton _) hknown
  have hreason := hitem .reason _ (.string (cString reason)) List.mem_cons_self (.string rfl)
  have haction : field 1 pkt = Action.actionFail.code := h.field_action
  rw [getResult, if_pos haction, hstring]
  change Except.ok ((cj.parse _).map _) = _
  rw [hparse, Option.map_some]
  simp only [stringItem, hreason]

theorem decodeAction_of_carries (h : Carries sum action record text pkt) :
    decodeAction pkt = .ok (if sum text = wordSum zeroExtend text then (action.code.toNat : ℤ)
      else infoTypeActionInvalid) := by
  have hn := h.length_toNat
  have hfits : (field 2 pkt).toNat ≤ (payload pkt).length := by
    rw [h.field_len, hn, payload_length h.pkt_length]
    exact h.room.le
  have hsum : SumRight pkt ↔ sum text = wordSum zeroExtend text := by
    rw [SumRight, h.field_len, hn, h.counted, h.field_sum]
    exact eq_comm
  rw [decodeAction_fits hfits, h.field_action]
  simp only [hsum]

/-- A packet that is taken for an action has it. -/
theorem action_of_carries {a : Action} (h : Carries sum action record text pkt)
    (ha : decodeAction pkt = .ok (a.code.toNat : ℤ)) :
    sum text = wordSum zeroExtend text ∧ a = action := by
  rw [decodeAction_of_carries h] at ha
  have hcode := Except.ok.inj ha
  by_cases hsum : sum text = wordSum zeroExtend text
  · rw [if_pos hsum] at hcode
    exact ⟨hsum, Action.code_injective (UInt16.toNat_inj.1 (Int.ofNat.inj hcode)).symm⟩
  · rw [if_neg hsum, infoTypeActionInvalid] at hcode
    omega

/-- The receiver takes a packet whose sender has summed unsigned bytes, or as good as. -/
theorem decodeAction_iff (h : Carries sum action record text pkt) :
    decodeAction pkt = .ok (action.code.toNat : ℤ) ↔ sum text = wordSum zeroExtend text := by
  refine ⟨fun ha => (action_of_carries h ha).1, fun hsum => ?_⟩
  rw [decodeAction_of_carries h, if_pos hsum]

theorem requests_iff (json : ReadsJson cj) (h : Carries sum action s.record text pkt) :
    Requests cj pkt action (infoOf s) ↔ sum text = wordSum zeroExtend text :=
  ⟨fun hreq => (decodeAction_iff h).1 hreq.action,
    fun hright => ⟨(decodeAction_iff h).2 hright, getServiceInfo_of_carries json h⟩⟩

theorem requests_unique {a : Action} {t : Service} (json : ReadsJson cj)
    (h : Carries sum action s.record text pkt) (hr : Requests cj pkt a (infoOf t)) : t = s :=
  infoOf_injective (Option.some.inj (Except.ok.inj
    (hr.info.symm.trans (getServiceInfo_of_carries json h))))

end Receiving

section Library
open CJsonText

theorem elemBytes_means {es : List Elem} {s : List Char} (h : Means es s) :
    es.flatMap elemBytes = utf8 s :=
  h.bytes (fun _ => rfl) (fun _ => rfl) fun _ hu => (utf8EncodeChar_ofNat hu).symm

theorem keyElems_means (k : Key) : Means (keyElems k) k.name.toList := by
  have hname : ascii k.name = utf8 k.name.toList := by cases k <;> decide
  rw [keyElems, hname]
  exact raw_means _

theorem fieldScalar_literal {f : Field} {d : Datum} (h : Holds f d) :
    Literal (fieldScalar f).text (fieldScalar f).value d := by
  cases h with
  | @string c s hc =>
    have hmeans : Means (printString c) s := by
      rw [printString, hc]
      exact written_means (by decide) s
    refine string_literal hmeans fun e he => ?_
    obtain ⟨b, -, rfl⟩ := List.mem_map.1 he
    exact printByte_printable b
  | number n => exact decimal_literal n.toNat

theorem printText_prints {root : List (Key × Field)} {r : List (List Char × Datum)}
    (hne : root ≠ []) (h : List.Forall₂ (fun f e => e.1 = f.1.name.toList ∧ Holds f.2 e.2) root r) :
    Prints (printText root) r := by
  obtain ⟨hlen, hzip⟩ := List.forall₂_iff_zip.1 h
  have hfst : (root.zip r).map Prod.fst = root := List.map_fst_zip hlen.le
  have hsnd : (root.zip r).map Prod.snd = r := List.map_snd_zip hlen.ge
  have hprints := @recordText_prints _ (fun m => keyElems m.1.1) (fun m => (fieldScalar m.1.2).text)
    (fun m => (fieldScalar m.1.2).value) (fun m => m.2.1) (fun m => m.2.2) _ formatted_blank
    (root.zip r) (fun he => hne (hfst.symm.trans (congrArg _ he))) (fun m _ => key_printable m.1.1)
    (fun m hm => (hzip hm).1 ▸ keyElems_means m.1.1) fun m hm => fieldScalar_literal (hzip hm).2
  have htext : recordText formatted ((root.zip r).map fun m =>
      (keyElems m.1.1, (fieldScalar m.1.2).text)) = printText root := by
    rw [printText, objectText_eq_recordText, members, List.map_map]
    conv_rhs => rw [← hfst, List.map_map]
    rfl
  rwa [htext, show ((root.zip r).map fun m => (m.2.1, m.2.2)) = r from hsnd] at hprints

theorem readItem_shows {v : Value} {d : Datum} {item : Item} (hv : Denotes v d)
    (hi : Shows item d) : readItem v = item := by
  cases hv with
  | @text es s hes =>
    cases hi with
    | @string c s hc =>
      have hbytes : es.flatMap elemBytes = c.bytes := (elemBytes_means hes).trans hc.symm
      have hread : readString es = c := by
        obtain ⟨bytes, hn⟩ := c
        rw [readString, CString.mk.injEq, hbytes, List.filter_eq_self]
        intro b hb
        rw [bne_iff_ne]
        rintro rfl
        exact hn hb
      rw [readItem, hread]
  | @number literal hl =>
    cases hi with
    | number _ => rw [readItem, if_pos hl]

theorem textCJson_readsJson : ReadsJson textCJson where
  prints _ _ hne h := printText_prints hne h
  reads text r hr unique _ := by
    obtain ⟨ms, hparse, hms⟩ := hr
    refine ⟨ms, parseTree_obj hparse, fun k d item hm hi => ?_⟩
    obtain ⟨m, hfind, hd⟩ := find_member (fun es s => elemBytes_means) hms unique hm
    have hname : ascii k.name = utf8 k.name.toList := by cases k <;> decide
    change treeItem ms k = some item
    rw [treeItem, hname, hfind, Option.map_some, readItem_shows hd hi]

end Library

end MiniServiceDiscover.CWire
