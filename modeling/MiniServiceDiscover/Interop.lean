import MiniServiceDiscover.CWire
import MiniServiceDiscover.GoWire
import MiniServiceDiscover.JavaWire

set_option autoImplicit false

/-! The three programs on one net: which packets of one another they read. -/
namespace MiniServiceDiscover.Interop
open JsonMeaning WordSum WireFormat ServiceWire CProtocal JavaDaemon JavaProtocal

inductive Program where
  | c
  | go
  | java
  deriving DecidableEq, Repr

/-- How a byte enters the sum of a packet that is sent, `char` being signed in C. -/
def Program.sends : Program → UInt8 → UInt16
  | .c => signExtend
  | .go => zeroExtend
  | .java => signExtend

/-- How a byte enters the sum of a packet that is received. -/
def Program.checks : Program → UInt8 → UInt16
  | .c => zeroExtend
  | .go => zeroExtend
  | .java => signExtend

/-- The libraries write and read JSON. -/
structure ReadJson (cj : CJson) (oj : OrgJson) : Prop where
  documented : cj.Documented
  c : CWire.ReadsJson cj
  java : JavaWire.ReadsJson oj

section Programs
variable (cj : CJson) (oj : OrgJson)

/-- The program makes this packet of the service. -/
def Program.Encodes : Program → Action → Service → List UInt8 → Prop
  | .c => CWire.Encodes cj
  | .go => GoWire.Encodes
  | .java => JavaWire.Encodes oj

/-- The program takes the packet for this action, with this service. -/
def Program.Reads : Program → Action → Service → List UInt8 → Prop
  | .c, action, s, pkt => CRegistry.Requests cj pkt action (CWire.infoOf s)
  | .go, action, s, pkt => GoHistory.Requests action pkt (GoWire.infoOf s)
  | .java, action, s, pkt => JavaHistory.Requests oj (signed pkt) action (JavaWire.infoOf s)

/-- The program makes this packet of an outcome. -/
def Program.EncodesResult : Program → Bool → Str → List UInt8 → Prop
  | .c, isSucc, reason, pkt =>
      CProtocal.getResultPkt cj isSucc (some (CWire.cString reason)) = .ok pkt
  | .go, isSucc, reason, pkt => reason.bytes.length ≤ GoProtocal.infoMaxLen ∧
      pkt = GoProtocal.getResult (outcome isSucc).code reason.bytes
  | .java, isSucc, reason, pkt =>
      JavaDaemon.getResultPkt oj isSucc (JavaWire.javaString reason) = .ok (signed pkt)

/-- The program takes the packet for this outcome; only of a failure does it read the reason. -/
def Program.ReadsResult : Program → Bool → Str → List UInt8 → Prop
  | .c, isSucc, reason, pkt => decodeAction pkt = .ok ((outcome isSucc).code.toNat : ℤ) ∧
      (isSucc = false → CProtocal.getResult cj pkt = .ok (some ⟨some (CWire.cString reason)⟩))
  | .go, isSucc, reason, pkt => (∃ head, GoProtocal.checkAndGetServiceInfoHead pkt =
        .ok (some head) ∧ head.action = (outcome isSucc).code) ∧
      (isSucc = false → GoProtocal.getResultInfo (payload pkt) = .ok (some ⟨reason.bytes⟩))
  | .java, isSucc, reason, pkt => JavaRequest.Accepted (outcome isSucc) (signed pkt) ∧
      (isSucc = false → JavaSweep.getResult oj (signed pkt) = .ok (JavaWire.javaString reason))

end Programs

/-- The reason that all three daemons give. -/
def noFound : Str := ⟨"service no found".toList, by decide⟩

section Sums

theorem wordSum_eq_iff (p q : Program) (text : List UInt8) :
    wordSum p.sends text = wordSum q.checks text ↔
      p.sends = q.checks ∨ highCount text % 256 = 0 := by
  by_cases he : p.sends = q.checks
  · rw [he]
    exact iff_of_true rfl (.inl rfl)
  have hsides : (p.sends = signExtend ∧ q.checks = zeroExtend) ∨
      (p.sends = zeroExtend ∧ q.checks = signExtend) := by
    cases p <;> cases q
    case c.c => exact .inl ⟨rfl, rfl⟩
    case c.go => exact .inl ⟨rfl, rfl⟩
    case java.c => exact .inl ⟨rfl, rfl⟩
    case java.go => exact .inl ⟨rfl, rfl⟩
    case go.java => exact .inr ⟨rfl, rfl⟩
    all_goals exact absurd rfl he
  rw [or_iff_right he]
  rcases hsides with ⟨hp, hq⟩ | ⟨hp, hq⟩
  · rw [hp, hq]
    exact signed_eq_unsigned_iff text
  · rw [hp, hq]
    exact eq_comm.trans (signed_eq_unsigned_iff text)

end Sums

section Packets
variable {cj : CJson} {oj : OrgJson} {p : Program} {action : Action} {s : Service}
  {pkt : List UInt8}

theorem encodes_carries (json : ReadJson cj oj) (h : p.Encodes cj oj action s pkt)
    (room : (0 : UInt8) ∈ payload pkt) :
    ∃ text, Carries (wordSum p.sends) action s.record text pkt := by
  cases p with
  | c => exact CWire.Encodes.carries json.documented json.c h room
  | go => exact GoWire.Encodes.carries h room
  | java => exact JavaWire.Encodes.carries json.java h room

theorem reads_iff (json : ReadJson cj oj) (q : Program) {f : UInt8 → UInt16} {text : List UInt8}
    (h : Carries (wordSum f) action s.record text pkt) :
    q.Reads cj oj action s pkt ↔ wordSum f text = wordSum q.checks text := by
  cases q with
  | c => exact CWire.requests_iff json.c h
  | go => exact GoWire.requests_iff h
  | java => exact JavaWire.requests_iff json.java h

theorem encodes_reads (json : ReadJson cj oj) (q : Program) (h : p.Encodes cj oj action s pkt)
    (room : (0 : UInt8) ∈ payload pkt) :
    q.Reads cj oj action s pkt ↔ p.sends = q.checks ∨ highCount (payload pkt) % 256 = 0 := by
  obtain ⟨text, hcarries⟩ := encodes_carries json h room
  rw [reads_iff json q hcarries, wordSum_eq_iff, hcarries.highCount_payload]

/-- What a program receives, it reads exactly when the sums agree. -/
theorem readsResult_iff (json : ReadJson cj oj) (q : Program) {f : UInt8 → UInt16} {isSucc : Bool}
    {reason : Str} {text : List UInt8}
    (h : Carries (wordSum f) (outcome isSucc) (reasonRecord reason) text pkt) :
    q.ReadsResult cj oj isSucc reason pkt ↔ wordSum f text = wordSum q.checks text := by
  cases q with
  | c =>
    refine (and_iff_left fun hfail => ?_).trans (CWire.decodeAction_iff h)
    subst hfail
    exact CWire.getResult_of_carries json.c h
  | go => exact (and_iff_left fun _ => GoWire.getResultInfo_of_carries h).trans (GoWire.head_iff h)
  | java =>
    exact (and_iff_left fun _ => JavaWire.getResult_of_carries json.java h).trans
      (JavaWire.accepted_iff h)

theorem encodesResult_carries (json : ReadJson cj oj) {isSucc : Bool} {reason : Str}
    (h : p.EncodesResult cj oj isSucc reason pkt) (room : (0 : UInt8) ∈ payload pkt) :
    ∃ text, Carries (wordSum p.sends) (outcome isSucc) (reasonRecord reason) text pkt := by
  cases p with
  | c => exact CWire.result_carries json.documented json.c h
  | go => exact GoWire.result_carries h.1 h.2
  | java => exact JavaWire.result_carries json.java h room

/-- What is read off a packet is what it carries. -/
theorem reads_action {q : Program} {f : UInt8 → UInt16} {record : List (List Char × Datum)}
    {text : List UInt8} {a : Action} {t : Service} (h : Carries (wordSum f) action record text pkt)
    (hr : q.Reads cj oj a t pkt) : a = action := by
  cases q with
  | c => exact (CWire.action_of_carries h hr.action).2
  | go => exact GoWire.requests_action h hr
  | java => exact (JavaWire.action_of_carries h hr.accepted).2

theorem reads_unique (json : ReadJson cj oj) {q : Program} {f : UInt8 → UInt16} {text : List UInt8}
    {a : Action} {t : Service} (h : Carries (wordSum f) action s.record text pkt)
    (hr : q.Reads cj oj a t pkt) : t = s := by
  cases q with
  | c => exact CWire.requests_unique json.c h hr
  | go => exact GoWire.requests_unique h hr
  | java => exact JavaWire.requests_unique json.java h hr

theorem readsResult_action {q : Program} {f : UInt8 → UInt16} {record : List (List Char × Datum)}
    {text : List UInt8} {isSucc : Bool} {reason : Str}
    (h : Carries (wordSum f) action record text pkt)
    (hr : q.ReadsResult cj oj isSucc reason pkt) : outcome isSucc = action := by
  cases q with
  | c => exact (CWire.action_of_carries h hr.1).2
  | go =>
    obtain ⟨⟨head, hh, ha⟩, -⟩ := hr
    exact (GoWire.action_of_carries h hh ha).2
  | java => exact (JavaWire.action_of_carries h hr.1).2

end Packets

/-- Whatever one program encodes, with a zero left in the packet, another reads as the same
action and service exactly when both extend bytes alike, or when the number of bytes of the
text with the top bit set is a multiple of `256`. -/
theorem services_interoperate (cj : CJson) (oj : OrgJson) (json : ReadJson cj oj) (p q : Program)
    (action : Action) (s : Service) (pkt : List UInt8) (encoded : p.Encodes cj oj action s pkt)
    (room : (0 : UInt8) ∈ payload pkt) :
    q.Reads cj oj action s pkt ↔ p.sends = q.checks ∨ highCount (payload pkt) % 256 = 0 :=
  encodes_reads json q encoded room

/-- The same of an outcome: whether it is a success, and otherwise why not. -/
theorem results_interoperate (cj : CJson) (oj : OrgJson) (json : ReadJson cj oj) (p q : Program)
    (isSucc : Bool) (reason : Str) (pkt : List UInt8)
    (encoded : p.EncodesResult cj oj isSucc reason pkt) (room : (0 : UInt8) ∈ payload pkt) :
    q.ReadsResult cj oj isSucc reason pkt ↔
      p.sends = q.checks ∨ highCount (payload pkt) % 256 = 0 := by
  obtain ⟨text, hcarries⟩ := encodesResult_carries json encoded room
  rw [readsResult_iff json q hcarries, wordSum_eq_iff, hcarries.highCount_payload]

section Examples

def boxMusic : Service where
  device := ⟨"box".toList, by decide⟩
  name := ⟨"play_music".toList, by decide⟩
  ip := ⟨"192.168.1.2".toList, by decide⟩
  info := .empty
  port := 6666

def goPacket (action : Action) (s : Service) : List UInt8 :=
  GoProtocal.dataBuffer action.code (GoWire.infoOf s).marshal

/-- A packet with room for a zero, and without any byte above `127`. -/
theorem goPacket_plain {action : Action} {s : Service}
    (room : (GoWire.infoOf s).marshal.length < payloadLen)
    (plain : highCount (GoWire.infoOf s).marshal = 0) :
    (0 : UInt8) ∈ payload (goPacket action s) ∧
      highCount (payload (goPacket action s)) % 256 = 0 := by
  obtain ⟨r, hprints, hperm⟩ := GoWire.marshal_prints s
  have hcarries : Carries (wordSum zeroExtend) action s.record (GoWire.infoOf s).marshal
      (goPacket action s) :=
    ⟨⟨r, hprints, hperm⟩, room, GoProtocal.dataBuffer_eq_packet _ _⟩
  refine ⟨hcarries.zero_mem, ?_⟩
  rw [hcarries.highCount_payload, plain]

theorem goRegister_encoded {cj : CJson} {oj : OrgJson} {s : Service} (h : GoWire.Short s) :
    Program.go.Encodes cj oj .registerService s (goPacket .registerService s) := by
  refine .register s h ?_
  rw [GoProtocal.getRegisterService, GoProtocal.registerInfo, GoWire.getValidStr_short h.device,
    GoWire.getValidStr_short h.name, GoWire.getValidStr_short h.ip, GoWire.getValidStr_short h.info]
  rfl

def boxMusicRegister : List UInt8 := goPacket .registerService boxMusic

theorem boxMusic_encoded {cj : CJson} {oj : OrgJson} :
    Program.go.Encodes cj oj .registerService boxMusic boxMusicRegister :=
  goRegister_encoded ⟨by decide, by decide, by decide, by decide⟩

theorem boxMusicRegister_plain : (0 : UInt8) ∈ payload boxMusicRegister ∧
    highCount (payload boxMusicRegister) % 256 = 0 := by
  have hroom : (GoWire.infoOf boxMusic).marshal.length < payloadLen := by decide
  have hplain : highCount (GoWire.infoOf boxMusic).marshal = 0 := by decide +kernel
  rw [boxMusicRegister]
  exact goPacket_plain hroom hplain

theorem noFound_encoded {cj : CJson} {oj : OrgJson} :
    Program.go.EncodesResult cj oj false noFound GoDaemon.noFoundData :=
  ⟨by decide, rfl⟩

theorem textLibraries : ReadJson CJsonText.textCJson JavaUnicodeText.unicodeJson where
  documented := CJsonText.textCJson_documented
  c := CWire.textCJson_readsJson
  java := JavaWire.unicodeJson_readsJson

theorem services_interoperate_boxMusic :
    Program.java.Reads CJsonText.textCJson JavaUnicodeText.unicodeJson .registerService boxMusic
        boxMusicRegister ↔
      Program.go.sends = Program.java.checks ∨ highCount (payload boxMusicRegister) % 256 = 0 :=
  services_interoperate _ _ textLibraries .go .java .registerService boxMusic boxMusicRegister
    boxMusic_encoded boxMusicRegister_plain.1

theorem results_interoperate_noFound :
    Program.java.ReadsResult CJsonText.textCJson JavaUnicodeText.unicodeJson false noFound
        GoDaemon.noFoundData ↔
      Program.go.sends = Program.java.checks ∨
        highCount (payload GoDaemon.noFoundData) % 256 = 0 := by
  have hencoded := @noFound_encoded CJsonText.textCJson JavaUnicodeText.unicodeJson
  obtain ⟨text, hcarries⟩ := GoWire.result_carries hencoded.1 hencoded.2
  exact results_interoperate _ _ textLibraries .go .java false noFound _ hencoded hcarries.zero_mem

end Examples

end MiniServiceDiscover.Interop
