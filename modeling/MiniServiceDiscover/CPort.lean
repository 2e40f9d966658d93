import MiniServiceDiscover.CUnregister
import MiniServiceDiscover.JsonNumber

set_option autoImplicit false

/-! The port of a registration on its way through the C daemon: JSON number, `int`,
`uint16_t` and JSON number again. -/
namespace MiniServiceDiscover.CPort
open JsonNumber WireFormat CProtocal CInquiry PointerChain CList CDaemon CRegistry CReachable
open CUnregister Fallible

/-- `valueint`: the number truncated and saturated. -/
def valueInt (x : ℚ) : ℤ := max (-2147483648) (min (truncate x) 2147483647)

/-- `number` is the number of a member that is one. -/
structure TellsNumbers (cj : CJson) (number : cj.Tree → Key → Option ℚ) : Prop where
  valueint : ∀ json k x, number json k = some x → cj.item json k = some (.number (valueInt x))
  /-- A number that was printed is read back. -/
  printed : ∀ root, (root.map Prod.fst).Nodup → ∀ json, cj.parse (cj.print root) = some json →
    ∀ k n, (k, Field.number n) ∈ root → number json k = some (n.toNat : ℚ)

/-- The loop accepts the packet as a registration, its text parses, and the answer
is a success. -/
structure Registers (cj : CJson) (fuel : ℕ) (l : ServiceInfoList) (pkt : List UInt8)
    (json : cj.Tree) (l' : ServiceInfoList) : Prop where
  action : decodeAction pkt = .ok (Action.registerService.code.toNat : ℤ)
  text : ∃ text, stringAt (payload pkt) = .ok text ∧ cj.parse text = some json
  reply : ∃ p, getResultPkt cj true (some .empty) = .ok p ∧
    serverLoop cj fuel fuel l pkt = .ok ([p], l')

/-- The text that the header counts has this number for its port. -/
def Tells (cj : CJson) (number : cj.Tree → Key → Option ℚ) (pkt : List UInt8) (x : ℚ) : Prop :=
  ∃ text json, (payload pkt).take (field 2 pkt).toNat = text.bytes ∧ cj.parse text = some json ∧
    number json .port = some x

/-- `l'` has a node that `l` did not have, with this info. -/
def Added (l l' : ServiceInfoList) (p : Ptr) (i : ServiceInfo) : Prop :=
  l.heap p = none ∧ ∃ cells, Chain l'.heap l'.head cells ∧ (p, some i) ∈ cells

/-- What is stored has the number for its port, stays so whatever is served later, and has
the number told to whoever inquires. -/
def KeepsPort (cj : CJson) (number : cj.Tree → Key → Option ℚ) (l l' : ServiceInfoList) (x : ℚ) :
    Prop :=
  ∀ p i, Added l l' p i → (i.port.toNat : ℚ) = x ∧
    (∀ fuel pkts later, serveAll cj fuel l' pkts = .ok later → InfoAt later p i) ∧
    ∀ pkt, getInquiryResultPkt cj i = .ok pkt → Tells cj number pkt x

/-- A whole number from `0` to `65535`. -/
def IsPort (x : ℚ) : Prop := ∃ n : UInt16, x = n.toNat

section Runs
variable {cj : CJson} {fuel : ℕ} {l l' : ServiceInfoList} {cells : List Slot}

/-- Whatever is served later, a node holds what it held. -/
theorem serveAll_keeps (doc : cj.Documented) (h : Keyed l cells) {pkts : List (List UInt8)}
    (hs : serveAll cj fuel l pkts = .ok l') : Keeps l l' := by
  induction pkts generalizing l cells with
  | nil =>
    obtain rfl := Except.ok.inj hs
    exact Keeps.refl l
  | cons pkt pkts ih =>
    rw [serveAll, List.foldlM_cons] at hs
    obtain ⟨l₁, hserve, hrest⟩ := bind_eq_ok.1 hs
    obtain ⟨cells', hkeyed, -⟩ := h.serve doc hserve
    exact (h.serve_keeps doc hserve).trans (ih hkeyed hrest)

end Runs

section Ports
variable {cj : CJson} {number : cj.Tree → Key → Option ℚ}

theorem ofInt_valueInt (n : UInt16) : UInt16.ofInt (valueInt n.toNat) = n := by
  have hlt := n.toNat_lt
  have hvalue : valueInt n.toNat = n.toNat := by
    rw [valueInt, truncate_natCast]
    omega
  have hm : ((n.toNat : ℤ) % 2 ^ 16).toNat = n.toNat := by omega
  rw [hvalue, UInt16.ofInt, hm]
  exact UInt16.ofNat_toNat

theorem fillPkt_text {action : UInt16} {root : List (Key × Field)} {pkt : List UInt8}
    (hlen : (cj.print root).bytes.length ≤ payloadLen) (h : fillPkt cj action root = .ok pkt) :
    (payload pkt).take (field 2 pkt).toNat = (cj.print root).bytes := by
  have hn : (cj.print root).bytes.length.toUInt16.toNat = (cj.print root).bytes.length :=
    UInt16.toNat_ofNat_of_lt' (hlen.trans_lt (by decide))
  rw [fillPkt_ok cj action hlen] at h
  have h2 : field 2 pkt = (cj.print root).bytes.length.toUInt16 :=
    Except.ok.inj h ▸ field_headBytes_len _ _ _ _ _
  have hpayload : payload pkt = (cj.print root).bytes ++
      List.replicate (payloadLen - (cj.print root).bytes.length) 0 :=
    Except.ok.inj h ▸ payload_packet_fits _ _ _ _ _ hlen
  rw [h2, hn, hpayload, List.take_left]

/-- What a packet made of an info tells of its port. -/
theorem getInquiryResultPkt_tells (doc : cj.Documented) (numbers : TellsNumbers cj number)
    {i : ServiceInfo} {pkt : List UInt8} (h : getInquiryResultPkt cj i = .ok pkt) :
    Tells cj number pkt i.port.toNat := by
  obtain ⟨d, s, ip, info, hi, hd, hs, hip, hinfo, hlen⟩ :=
    (getInquiryResultPkt_ok_iff doc i).1 ⟨pkt, h⟩
  obtain ⟨json, hjson, -⟩ := doc.roundTrip _ (serviceRoot_keys d s ip info i.port)
  have hfill : fillPkt cj Action.actionSucc.code (serviceRoot d s ip info i.port) = .ok pkt := by
    rw [hi, getInquiryResultPkt] at h
    simpa only [strncpyBuf_ok hd, strncpyBuf_ok hs, strncpyBuf_ok hip, strncpyBuf_ok hinfo,
      bind, Except.bind] using h
  refine ⟨_, json, fillPkt_text hlen hfill, hjson, ?_⟩
  exact numbers.printed _ (serviceRoot_keys d s ip info i.port) json hjson .port i.port
    (by simp [serviceRoot])

/-- One info is stored, and its port is the number narrowed to sixteen bits. -/
theorem Registers.stores (doc : cj.Documented) (numbers : TellsNumbers cj number) {fuel : ℕ}
    {l l' : ServiceInfoList} {slots : List Slot} {pkt : List UInt8} {json : cj.Tree} {x : ℚ}
    (keyed : Keyed l slots) (h : Registers cj fuel l pkt json l')
    (port : number json .port = some x) :
    ∃ cells i, Keyed l' (cells ++ [(l.top, some i)]) ∧ cells.Sublist slots ∧
      i.port = UInt16.ofInt (valueInt x) := by
  obtain ⟨text, htext, hparse⟩ := h.text
  obtain ⟨p, -, hloop⟩ := h.reply
  have hinfo := getServiceInfo_parsed cj json htext hparse
  have hserve : serve cj fuel l pkt = .ok l' := by
    rw [serve, hloop]
    rfl
  rw [serve_register doc ⟨h.action, hinfo⟩] at hserve
  obtain ⟨cells, hkeyed, hsub⟩ := keyed.listAdd hserve
  refine ⟨cells, _, hkeyed, hsub, ?_⟩
  change portItem cj json = _
  rw [portItem, numbers.valueint json .port x port]

/-- The one node behind the cells that were there is the new one. -/
theorem added_iff {l l' : ServiceInfoList} {slots cells : List Slot} {i : ServiceInfo}
    (keyed : Keyed l slots) (keyed' : Keyed l' (cells ++ [(l.top, some i)]))
    (hsub : cells.Sublist slots) (p : Ptr) (j : ServiceInfo) :
    Added l l' p j ↔ p = l.top ∧ j = i := by
  constructor
  · rintro ⟨hnew, chain, hchain, hmem⟩
    obtain rfl := Chain.unique hchain keyed'.shaped.chain
    rcases List.mem_append.1 hmem with hold | hlast
    · have hp : p ∈ slots.map Prod.fst := List.mem_map_of_mem (hsub.subset hold)
      have hallocated := Segment.allocated keyed.shaped.chain hp
      rw [hnew] at hallocated
      cases hallocated
    · obtain ⟨rfl, hj⟩ := Prod.mk.inj (List.mem_singleton.1 hlast)
      exact ⟨rfl, Option.some.inj hj⟩
  · rintro ⟨rfl, rfl⟩
    exact ⟨keyed.shaped.fresh l.top (Nat.le_refl _), _, keyed'.shaped.chain, by simp⟩

end Ports

/-- The port given in a registration that succeeds is kept and told on exactly when it is a
whole number of sixteen bits. -/
theorem register_keepsPort_iff (cj : CJson) (number : cj.Tree → Key → Option ℚ)
    (doc : cj.Documented) (numbers : TellsNumbers cj number) {fuel : ℕ}
    {front : List (List UInt8)} {l l' : ServiceInfoList} {pkt : List UInt8} {json : cj.Tree} {x : ℚ}
    (reached : serves cj fuel front = .ok l) (registers : Registers cj fuel l pkt json l')
    (port : number json .port = some x) : KeepsPort cj number l l' x ↔ IsPort x := by
  obtain ⟨slots, keyed, -⟩ := serves_keyed doc reached
  obtain ⟨cells, i, keyed', hsub, hport⟩ := registers.stores doc numbers keyed port
  have hadded := added_iff keyed keyed' hsub
  constructor
  · intro h
    obtain ⟨heq, -⟩ := h l.top i ((hadded _ _).2 ⟨rfl, rfl⟩)
    exact ⟨i.port, heq.symm⟩
  · rintro ⟨n, rfl⟩ p j hj
    obtain ⟨rfl, rfl⟩ := (hadded p j).1 hj
    rw [ofInt_valueInt] at hport
    subst hport
    obtain ⟨before, -, rfl, next, hcell, -⟩ := segment_append.1 keyed'.shaped.chain
    have hat : InfoAt l' l.top j := ⟨next, hcell⟩
    exact ⟨rfl, fun fuel pkts later hlater => serveAll_keeps doc keyed' hlater l.top j hat,
      fun pkt hpkt => getInquiryResultPkt_tells doc numbers hpkt⟩

section Library
open JsonText JsonRoundTrip CJsonText

def numberItem : Value → Item
  | .str es => .string (readString es)
  | .num literal => .number (valueInt (valueOf literal))
  | _ => .other

def literalNumber : Value → Option ℚ
  | .num literal => some (valueOf literal)
  | _ => none

def valueAt (tree : List (List Elem × Value)) (k : Key) : Option Value :=
  (tree.find? fun m => m.1.flatMap elemBytes = ascii k.name).map Prod.snd

/-- The text codec with every number a literal can stand for. -/
def numberJson : CJson where
  Tree := List (List Elem × Value)
  print := textCJson.print
  parse := parseTree
  item tree k := (valueAt tree k).map numberItem

def memberNumber (tree : List (List Elem × Value)) (k : Key) : Option ℚ :=
  (valueAt tree k).bind literalNumber

theorem valueInt_natCast {n : ℕ} (h : n < 2147483648) : valueInt n = n := by
  rw [valueInt, truncate_natCast]
  omega

theorem numberJson_item (tree : List (List Elem × Value)) (k : Key) :
    numberJson.item tree k = (valueAt tree k).map numberItem := rfl

theorem valueAt_members {root : List (Key × Field)} (h : (root.map Prod.fst).Nodup)
    {f : Key × Field} (hf : f ∈ root) :
    valueAt ((members root).map fun m => (m.1, m.2.value)) f.1 = some (fieldScalar f.2).value := by
  rw [valueAt, find_members h hf, Option.map_some]

theorem numberItem_fieldScalar (f : Field) : numberItem (fieldScalar f).value = f.item := by
  cases f with
  | string s => exact congrArg Item.string (readString_printString s)
  | number n =>
    change Item.number (valueInt (valueOf (decimal n.toNat))) = .number n.toNat
    rw [valueOf_decimal, valueInt_natCast (n.toNat_lt.trans (by decide))]

/-- A printed object parses to its members. -/
theorem parseTree_print {root : List (Key × Field)} :
    parseTree (textCJson.print root) = some ((members root).map fun m => (m.1, m.2.value)) := by
  by_cases hne : root = []
  · subst hne
    rfl
  · exact parseTree_obj (parse_printText hne)

theorem numberJson_documented : numberJson.Documented where
  roundTrip := by
    intro root h
    refine ⟨_, parseTree_print, fun f hf => ?_⟩
    change (valueAt _ f.1).map numberItem = _
    rw [valueAt_members h hf, Option.map_some, numberItem_fieldScalar]
  rawHigh := textCJson_documented.rawHigh
  printLength := textCJson_documented.printLength

theorem numberJson_tellsNumbers : TellsNumbers numberJson memberNumber where
  valueint := by
    intro json k x h
    obtain ⟨v, hv, hx⟩ := Option.bind_eq_some_iff.1 h
    change (valueAt json k).map numberItem = _
    rw [hv, Option.map_some]
    cases v with
    | num literal =>
      obtain rfl := Option.some.inj hx
      rfl
    | _ => cases hx
  printed := by
    intro root h json hjson k n hf
    obtain rfl := Option.some.inj (parseTree_print.symm.trans hjson)
    change (valueAt _ (k, Field.number n).1).bind literalNumber = _
    rw [valueAt_members h hf]
    exact congrArg some (valueOf_decimal n.toNat)

end Library

section Examples
open JsonText JsonRoundTrip CJsonText CRoundTrip WordSum

/-- A registration as any client may send it, with a number of any size. -/
def portMembers (n : ℕ) : List (List Elem × Scalar) :=
  [(keyElems .deviceName, .str (printString box.str)),
    (keyElems .serviceName, .str (printString box.str)), (keyElems .ip, .str (printString box.str)),
    (keyElems .info, .str (printString box.str)), (keyElems .port, .num n)]

def portText (n : ℕ) : List UInt8 := objectText formatted (portMembers n)

def portTree (n : ℕ) : List (List Elem × Value) := (portMembers n).map fun m => (m.1, m.2.value)

def portPkt (n : ℕ) : List UInt8 := printedPkt .registerService (portText n)

def portInfo (port : UInt16) : ServiceInfo :=
  ⟨some box.str, some box.str, some box.str, some box.str, port⟩

def portList (port : UInt16) : ServiceInfoList :=
  ⟨write initList.heap 0 ⟨some (portInfo port), none⟩, 1, some 0, some 0⟩

/-- Plain text that fits a packet. -/
def fitsPlain (text : List UInt8) : Bool :=
  text.all (fun b => b != 0 && decide (b.toNat < 0x80)) && decide (text.length < payloadLen)

theorem key_name_iff {k k' : Key} : ascii k.name = ascii k'.name ↔ k = k' :=
  ⟨key_name_injective, fun h => congrArg (fun k => ascii k.name) h⟩

theorem valueAt_portTree (n : ℕ) : valueAt (portTree n) .port = some (.num (decimal n)) ∧
    ∀ k ∈ [Key.deviceName, .serviceName, .ip, .info],
      valueAt (portTree n) k = some (.str (printString box.str)) := by
  simp only [valueAt, portTree, portMembers, List.map_cons, List.find?_cons, key_bytes,
    key_name_iff, List.forall_mem_cons, reduceCtorEq, decide_false, decide_true, Option.map_some,
    Scalar.value]
  simp

theorem portText_parses (n : ℕ) : parse (portText n) = some (.obj (portTree n)) := by
  rw [portText, portTree]
  apply parse_objectText formatted_blank _ (List.cons_ne_nil _ _)
  · simp only [List.forall_mem_cons]
    exact ⟨key_printable _, key_printable _, key_printable _, key_printable _, key_printable _,
      fun _ hm => absurd hm List.not_mem_nil⟩
  · have hbox := fieldScalar_printable (.string box.str)
    simp only [List.forall_mem_cons]
    exact ⟨hbox, hbox, hbox, hbox, trivial, fun _ hm => absurd hm List.not_mem_nil⟩

theorem portTree_info (n : ℕ) : ServiceInfo.mk (stringItem numberJson (portTree n) .deviceName)
    (stringItem numberJson (portTree n) .serviceName) (stringItem numberJson (portTree n) .ip)
    (stringItem numberJson (portTree n) .info) (portItem numberJson (portTree n)) =
      portInfo (UInt16.ofInt (valueInt n)) := by
  obtain ⟨hport, hstring⟩ := valueAt_portTree n
  have string : ∀ k ∈ [Key.deviceName, .serviceName, .ip, .info],
      stringItem numberJson (portTree n) k = some box.str := by
    intro k hk
    have hitem : numberJson.item (portTree n) k = some (.string box.str) := by
      rw [numberJson_item, hstring k hk, Option.map_some, numberItem, readString_printString]
    simp only [stringItem, hitem]
  have port : portItem numberJson (portTree n) = UInt16.ofInt (valueInt n) := by
    have hitem : numberJson.item (portTree n) .port = some (.number (valueInt n)) := by
      rw [numberJson_item, hport, Option.map_some, numberItem, valueOf_decimal]
    simp only [portItem, hitem]
  rw [string _ (by simp), string _ (by simp), string _ (by simp), string _ (by simp), port,
    portInfo]

/-- The registration is taken whatever the number is. -/
theorem portPkt_registers {n : ℕ} (h : fitsPlain (portText n) = true) :
    Registers numberJson 1 initList (portPkt n) (portTree n)
      (portList (UInt16.ofInt (valueInt n))) := by
  rw [fitsPlain, Bool.and_eq_true, decide_eq_true_iff, List.all_eq_true] at h
  obtain ⟨hplain, hlen⟩ := h
  have hnul : (0 : UInt8) ∉ portText n := fun hm => absurd (hplain 0 hm) (by decide)
  have hhigh : highCount (portText n) = 0 := by
    refine countP_free fun b hb => ?_
    have hb := hplain b hb
    rw [Bool.and_eq_true, decide_eq_true_iff] at hb
    simp only [isHigh, decide_eq_false_iff_not]
    omega
  obtain ⟨text, htext⟩ : ∃ text : CString, text.bytes = portText n := ⟨⟨portText n, hnul⟩, rfl⟩
  have hparse := parseTree_obj ((congrArg parse htext).trans (portText_parses n))
  rw [← htext] at hlen hhigh
  rw [portPkt, ← htext]
  have hsum := (signed_eq_unsigned_iff text.bytes).2 (by rw [hhigh])
  have hright := (printedPkt_checksumRight .registerService hlen.le).trans
    (congrArg Except.ok (beq_iff_eq.2 hsum.symm))
  have hstring := printedPkt_stringAt .registerService hlen
  have haction := printedPkt_decodeAction .registerService hright
  have hinfo := getServiceInfo_parsed numberJson (portTree n) hstring hparse
  rw [portTree_info] at hinfo
  obtain ⟨p, hp⟩ := resultPkt_ok numberJson_documented true .empty (by decide)
  refine ⟨haction, ⟨text, hstring, hparse⟩, p, hp, ?_⟩
  rw [serverLoop_register ⟨haction, hinfo⟩ hp]
  rfl

theorem memberNumber_portTree (n : ℕ) : memberNumber (portTree n) .port = some (n : ℚ) := by
  rw [memberNumber, (valueAt_portTree n).1]
  exact congrArg some (valueOf_decimal n)

theorem register_keepsPort_6666 :
    Registers numberJson 1 initList (portPkt 6666) (portTree 6666) (portList 6666) ∧
      KeepsPort numberJson memberNumber initList (portList 6666) 6666 := by
  have hempty : serves numberJson 1 [] = .ok initList := rfl
  have h := portPkt_registers (n := 6666) (by decide)
  rw [valueInt_natCast (by decide)] at h
  exact ⟨h, (register_keepsPort_iff numberJson memberNumber numberJson_documented
    numberJson_tellsNumbers hempty h (memberNumber_portTree 6666)).2 ⟨6666, rfl⟩⟩

/-- Port `72202` is stored as `6666`, and told as `6666` to whoever inquires. -/
theorem register_72202 : ∃ l' i, serves numberJson 1 [] = .ok initList ∧
    Registers numberJson 1 initList (portPkt 72202) (portTree 72202) l' ∧
    memberNumber (portTree 72202) .port = some 72202 ∧
    Added initList l' 0 i ∧ i.port = 6666 ∧
    (∀ pkt, getInquiryResultPkt numberJson i = .ok pkt → Tells numberJson memberNumber pkt 6666) ∧
    ¬ KeepsPort numberJson memberNumber initList l' 72202 := by
  have h := portPkt_registers (n := 72202) (by decide)
  rw [valueInt_natCast (by decide)] at h
  have hadded : Added initList (portList 6666) 0 (portInfo 6666) :=
    ⟨rfl, [(0, some (portInfo 6666))], ⟨rfl, none, rfl, rfl⟩, List.mem_singleton_self _⟩
  refine ⟨portList 6666, portInfo 6666, rfl, h, memberNumber_portTree 72202, hadded, rfl,
    fun pkt hpkt => ?_, fun hkeeps => ?_⟩
  · exact getInquiryResultPkt_tells numberJson_documented numberJson_tellsNumbers hpkt
  · have hport : (((6666 : UInt16).toNat : ℕ) : ℚ) = 72202 := (hkeeps 0 _ hadded).1
    revert hport
    decide

end Examples

end MiniServiceDiscover.CPort
