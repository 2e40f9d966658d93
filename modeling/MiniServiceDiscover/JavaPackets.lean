import MiniServiceDiscover.JavaSweep

set_option autoImplicit false

/-! The packet that the thread and the call keep in one field: where they do not meet there,
each hands its own to the socket, and the sweep covers its addresses. -/
namespace MiniServiceDiscover.JavaPackets
open JavaProtocal JavaProvider JavaSweep StepRuns
open JavaDaemon (OrgJson)

/-- The call sets the field while no packet of the thread is on its way, and waits with its
own; every address is found, and the flag is not left set. -/
def Apart (s : State) : Act → Prop
  | .newPacket => ∀ t ∈ s.tasks, t.made = false
  | .listen => ∃ packet p, s.dataPacket = some packet ∧ s.packets[packet]? = some p ∧
      p.data = s.callBuffer
  | .task i => ∀ t, s.tasks[i]? = some t → t.loop.pc = .check → s.pc = .launched →
      s.recEnd = false
  | .unresolved _ => False
  | _ => True

/-- The array that the thread has taken, or will take. -/
def arrayOf (s : State) (t : Task) : ℕ := t.data.getD s.sendData

/-- The packet of the thread is in the field, for the address it has prepared. -/
def Carries (s : State) (t : Task) : Prop :=
  ∃ packet p data, s.dataPacket = some packet ∧ s.packets[packet]? = some p ∧
    p.data = arrayOf s t ∧ s.arrays[arrayOf s t]? = some data ∧ p.length = data.length ∧
    p.address = some (.host s.cursor.dst)

structure Own (oj : OrgJson) (s : State) : Prop where
  request : ∀ t ∈ s.tasks, ∃ data, s.arrays[arrayOf s t]? = some data ∧
    Request oj s.calls t.call data
  buffer : s.pc ≠ .launched → ∀ t ∈ s.tasks, arrayOf s t ≠ s.callBuffer
  socket : ∀ packet, s.pc = .listening packet →
    ∃ p, s.packets[packet]? = some p ∧ p.data = s.callBuffer
  made : ∀ t ∈ s.tasks, t.made = true → sends t.loop.pc = true
  address : ∀ t ∈ s.tasks, sends t.loop.pc = true → s.subAddr = some s.cursor.dst
  packet : ∀ t ∈ s.tasks, t.made = true → Carries s t

section Own
variable {oj : OrgJson} {s u : State} {t : Task}

theorem init_own (client : Client) (isBroadcast : Bool) : Own oj (init client isBroadcast) where
  request := fun _ ht => absurd ht List.not_mem_nil
  buffer := fun _ _ ht => absurd ht List.not_mem_nil
  socket := fun _ h => Pc.noConfusion h
  made := fun _ ht => absurd ht List.not_mem_nil
  address := fun _ ht => absurd ht List.not_mem_nil
  packet := fun _ ht => absurd ht List.not_mem_nil

/-- What the thread hands over is the request, to the address it has prepared. -/
theorem Own.handed (h : Own oj s) (ht : t ∈ s.tasks) (hm : t.made = true) :
    ∃ data, handed s = some (.host s.cursor.dst, data) ∧ Request oj s.calls t.call data := by
  obtain ⟨data, hdata, hr⟩ := h.request t ht
  obtain ⟨packet, p, data', hfield, hp, harray, hdata', hlength, haddress⟩ := h.packet t ht hm
  obtain rfl := Option.some.inj (hdata.symm.trans hdata')
  have hat : arrayAt s p.data = data := by
    rw [arrayAt, List.getD_eq_getElem?_getD, harray, hdata]
    rfl
  refine ⟨data, ?_, hr⟩
  rw [JavaSweep.handed, hfield]
  change (s.packets[packet]? >>= fun p => p.address >>= fun address =>
    pure (address, (arrayAt s p.data).take p.length)) = _
  rw [hp]
  change (p.address >>= fun address => pure (address, (arrayAt s p.data).take p.length)) = _
  rw [haddress, hat, hlength, List.take_length]
  rfl

theorem Own.finds (h : Own oj s) (ht : t ∈ s.tasks)
    (hflag : t.loop.pc = .check → s.pc = .launched → s.recEnd = false) : Finds oj s t where
  flag := hflag
  packet := by
    intro _ hm datagram hd
    obtain ⟨data, hh, hr⟩ := h.handed ht hm
    obtain rfl := Option.some.inj (hh.symm.trans hd)
    exact ⟨rfl, hr⟩
  address := by
    intro _ hm hn
    obtain ⟨data, hh, -⟩ := h.handed ht hm
    cases hn.symm.trans hh

theorem Own.cleared {a : Act} (h : Own oj s) (ha : Apart s a) : Cleared oj s a := by
  cases a with
  | task i => exact fun t ht _ => h.finds (List.mem_of_getElem? ht) (ha t ht)
  | unresolved i => exact absurd ha id
  | _ => trivial

/-- A statement of the call leaves the thread its array, and its packet in the field. -/
theorem Own.frame (h : Own oj s) (htasks : u.tasks = s.tasks) (hcalls : u.calls = s.calls)
    (hcursor : u.cursor = s.cursor) (hsub : u.subAddr = s.subAddr)
    (hsend : u.sendData = s.sendData)
    (harrays : ∀ t ∈ s.tasks, u.arrays[arrayOf s t]? = s.arrays[arrayOf s t]?)
    (hbuffer : u.pc ≠ .launched → ∀ t ∈ s.tasks, arrayOf s t ≠ u.callBuffer)
    (hsocket : ∀ packet, u.pc = .listening packet →
      ∃ p, u.packets[packet]? = some p ∧ p.data = u.callBuffer)
    (hpacket : ∀ t ∈ s.tasks, t.made = true → u.dataPacket = s.dataPacket ∧
      ∀ (packet : ℕ) (p : Packet), s.packets[packet]? = some p → p.data = arrayOf s t →
        u.packets[packet]? = some p) : Own oj u := by
  have harray : ∀ t, arrayOf u t = arrayOf s t := fun t => by rw [arrayOf, hsend, arrayOf]
  refine ⟨?_, ?_, hsocket, ?_, ?_, ?_⟩
  · intro t ht
    rw [htasks] at ht
    rw [harray, harrays t ht, hcalls]
    exact h.request t ht
  · intro hpc t ht
    rw [htasks] at ht
    rw [harray]
    exact hbuffer hpc t ht
  · intro t ht
    rw [htasks] at ht
    exact h.made t ht
  · intro t ht
    rw [htasks] at ht
    rw [hsub, hcursor]
    exact h.address t ht
  · intro t ht hm
    rw [htasks] at ht
    obtain ⟨hfield, hkeeps⟩ := hpacket t ht hm
    obtain ⟨packet, p, data, hd, hp, hpd, hdata, hlength, haddress⟩ := h.packet t ht hm
    refine ⟨packet, p, data, hfield.trans hd, hkeeps packet p hp hpd, ?_, ?_, hlength, ?_⟩
    · rw [harray]
      exact hpd
    · rw [harray, harrays t ht]
      exact hdata
    · rw [hcursor]
      exact haddress

/-- One that leaves the packets alone, and does not begin to wait for one. -/
theorem Own.moves {pc : Pc} {runSearchFinish recEnd succ : Bool} {buffer : Option JavaBytes}
    {infoList : ServiceInfoList} {failReason : StringRef} {firstReads : List ℕ} (h : Own oj s)
    (hs : s.pc ≠ .launched) (hp : ∀ packet, pc ≠ .listening packet) : Own oj { s with
      pc := pc, runSearchFinish := runSearchFinish, recEnd := recEnd, buffer := buffer
      infoList := infoList, succ := succ, failReason := failReason, firstReads := firstReads } :=
  ⟨h.request, fun _ => h.buffer hs, fun packet hl => absurd hl (hp packet), h.made, h.address,
    h.packet⟩

theorem Own.array_lt (h : Own oj s) (ht : t ∈ s.tasks) : arrayOf s t < s.arrays.length := by
  obtain ⟨data, hdata, -⟩ := h.request t ht
  exact (List.getElem?_eq_some_iff.1 hdata).1

theorem clearRecEnd_own (h : Own oj s) (hu : clearRecEnd s = some u) : Own oj u := by
  unfold clearRecEnd at hu
  split at hu
  case isFalse => exact absurd hu (Option.some_ne_none u).symm
  case isTrue hp =>
    cases hu
    exact h.frame rfl rfl rfl rfl rfl (fun t ht => List.getElem?_append_left (h.array_lt ht))
      (fun _ t ht => (h.array_lt ht).ne) (fun _ hl => Pc.noConfusion hl)
      fun _ _ _ => ⟨rfl, fun _ _ hp _ => hp⟩

theorem newPacket_own (h : Own oj s) (ha : ∀ t ∈ s.tasks, t.made = false)
    (hu : newPacket s = some u) : Own oj u := by
  unfold newPacket at hu
  split at hu
  case isFalse => exact absurd hu (Option.some_ne_none u).symm
  case isTrue hp =>
    cases hu
    exact h.frame rfl rfl rfl rfl rfl (fun _ _ => rfl)
      (fun _ => h.buffer (by rw [hp]; decide)) (fun _ hl => Pc.noConfusion hl)
      fun t ht hm => absurd (hm.symm.trans (ha t ht)) (by decide)

theorem listen_own (h : Own oj s) (ha : Apart s .listen) (hu : JavaSweep.listen s = some u) :
    Own oj u := by
  unfold JavaSweep.listen at hu
  split at hu
  case isFalse => exact absurd hu (Option.some_ne_none u).symm
  case isTrue hp =>
    obtain ⟨packet, hd, rfl⟩ := Option.map_eq_some_iff.1 hu
    obtain ⟨packet', p, hd', hpacket, hdata⟩ := ha
    obtain rfl := Option.some.inj (hd.symm.trans hd')
    refine h.frame rfl rfl rfl rfl rfl (fun _ _ => rfl) (fun _ => h.buffer (by rw [hp]; decide))
      (fun _ hl => ?_) fun _ _ _ => ⟨rfl, fun _ _ hp _ => hp⟩
    obtain rfl := Pc.listening.inj hl
    exact ⟨p, hpacket, hdata⟩

/-- The packet that is filled is the call's own. -/
theorem fill_own {packet : ℕ} {p : Packet} {sender : Peer} {datagram : JavaBytes} {pc : Pc}
    {buffer : Option JavaBytes} {firstReads : List ℕ} (h : Own oj s)
    (hp : s.packets[packet]? = some p) (hd : p.data = s.callBuffer) (hs : s.pc ≠ .launched)
    (hpc : ∀ packet, pc ≠ .listening packet) : Own oj { fill s packet sender datagram with
      pc := pc, buffer := buffer, firstReads := firstReads } := by
  have hne : ∀ t ∈ s.tasks, p.data ≠ arrayOf s t :=
    fun t ht he => h.buffer hs t ht (he.symm.trans hd)
  unfold fill
  simp only [hp]
  refine h.frame rfl rfl rfl rfl rfl (fun t ht => List.getElem?_set_ne (hne t ht))
    (fun _ => h.buffer hs) (fun _ hl => absurd hl (hpc _)) fun t ht _ => ⟨rfl, fun n q hq hqd => ?_⟩
  have hn : packet ≠ n := by
    rintro rfl
    obtain rfl := Option.some.inj (hp.symm.trans hq)
    exact hne t ht hqd
  exact (List.getElem?_set_ne hn).trans hq

theorem receive_own {reply : Option Reply} (h : Own oj s) (hu : clientReceive s reply = some u) :
    Own oj u := by
  unfold clientReceive at hu
  split at hu
  · rename_i packet hp
    cases hu
    exact h.moves (by rw [hp]; exact Pc.noConfusion) fun _ => Pc.noConfusion
  · rename_i packet r hp
    obtain ⟨p, hpacket, hdata⟩ := h.socket packet hp
    simp only at hu
    split at hu
    case isFalse => exact absurd hu (Option.some_ne_none u).symm
    case isTrue =>
      cases hu
      exact fill_own h hpacket hdata (by rw [hp]; exact Pc.noConfusion) fun _ => Pc.noConfusion
  · exact absurd hu (Option.some_ne_none u).symm

/-- A pass of the loop does not begin to wait. -/
theorem examine_pc (oj : OrgJson) (s : State) (packet : ℕ) :
    (examine oj s).pc ≠ .listening packet := by
  unfold examine
  split
  · exact Pc.noConfusion
  split
  · exact Pc.noConfusion
  split
  · unfold succeed
    split
    · exact Pc.noConfusion
    split
    · exact Pc.noConfusion
    split <;> exact Pc.noConfusion
  split
  · split <;> exact Pc.noConfusion
  · exact Pc.noConfusion

theorem setRecEnd_own (h : Own oj s) (hu : setRecEnd oj s = some u) : Own oj u := by
  unfold setRecEnd at hu
  split at hu
  case isFalse => exact absurd hu (Option.some_ne_none u).symm
  case isTrue hp =>
    cases hu
    have hpc := examine_pc oj { s with recEnd := true }
    obtain ⟨_, _, _, _, -, he⟩ := examine_eq oj { s with recEnd := true }
    rw [he] at hpc ⊢
    exact h.moves (by rw [hp]; decide) hpc

theorem callNotice_own (hi : Inv oj s) (h : Own oj s) (hu : callNotice s = some u) :
    Own oj u := by
  obtain ⟨hp, rfl | ⟨-, rfl⟩⟩ := callNotice_cases hi hu
  · exact h.moves (by rw [hp]; decide) fun _ => Pc.noConfusion
  · exact h.moves (by rw [hp]; decide) fun _ => Pc.noConfusion

theorem join_own (hi : Inv oj s) (h : Own oj s) (hu : join s = some u) : Own oj u := by
  obtain ⟨hp, -, rfl⟩ := join_cases hi hu
  exact h.moves (by rw [hp]; decide) fun _ => Pc.noConfusion

/-- All of it, where one thread is left. -/
theorem own_single (htasks : s.tasks = [t])
    (request : ∃ data, s.arrays[arrayOf s t]? = some data ∧ Request oj s.calls t.call data)
    (buffer : s.pc ≠ .launched → arrayOf s t ≠ s.callBuffer)
    (socket : ∀ packet, s.pc = .listening packet →
      ∃ p, s.packets[packet]? = some p ∧ p.data = s.callBuffer)
    (made : t.made = true → sends t.loop.pc = true)
    (address : sends t.loop.pc = true → s.subAddr = some s.cursor.dst)
    (packet : t.made = true → Carries s t) : Own oj s := by
  refine ⟨?_, fun hp => ?_, socket, ?_, ?_, ?_⟩
  all_goals rw [htasks, List.forall_mem_singleton]
  · exact request
  · exact buffer hp
  · exact made
  · exact address
  · exact packet

theorem own_nil (htasks : s.tasks = []) (socket : ∀ packet, s.pc = .listening packet →
    ∃ p, s.packets[packet]? = some p ∧ p.data = s.callBuffer) : Own oj s := by
  refine ⟨?_, fun hp => ?_, socket, ?_, ?_, ?_⟩
  all_goals rw [htasks]
  all_goals exact fun _ ht => absurd ht List.not_mem_nil

theorem start_own {c : Call} (hi : Inv oj s) (h : Own oj s) (hu : start oj s c = some u) :
    Own oj u := by
  obtain rfl | ⟨hp, hf, ⟨pc, rfl, hpc⟩ | ⟨-, data, hd, rfl⟩⟩ := start_cases hu
  · exact h
  · refine own_nil (hi.tasks_nil hf) fun packet hl => ?_
    rcases hpc with rfl | ⟨rfl, -⟩
    · exact Pc.noConfusion hl
    · exact Pc.noConfusion hl
  · have hnil := hi.tasks_nil hf
    have hlast : (s.calls ++ [c])[s.calls.length]? = some c := List.getElem?_concat_length
    refine own_single (t := .started s.calls.length) (by rw [hnil]; rfl)
      ⟨data, List.getElem?_concat_length, c, hlast, hd⟩ (fun hl => absurd rfl hl)
      (fun _ hl => Pc.noConfusion hl) (fun hm => ?_) (fun hs => ?_) fun hm => ?_
    · cases hm
    · cases hs
    · cases hm

/-- The first statement of `send` puts the packet of the thread into the field. -/
theorem makePacket_carries {data : ℕ} (h : Own oj s) (ht : t ∈ s.tasks) (hd : t.data = some data)
    (hs : sends t.loop.pc = true) :
    Carries { (makePacket s t data).1 with tasks := [(makePacket s t data).2] }
      (makePacket s t data).2 := by
  obtain ⟨request, hrequest, -⟩ := h.request t ht
  have harray : arrayOf s t = data := by rw [arrayOf, hd, Option.getD_some]
  rw [harray] at hrequest
  have hat : arrayAt s data = request := by
    rw [arrayAt, List.getD_eq_getElem?_getD, hrequest]
    rfl
  have hlast : (s.packets ++ [⟨data, (arrayAt s data).length, s.subAddr.map Peer.host⟩])[
      s.packets.length]? = some ⟨data, (arrayAt s data).length, s.subAddr.map .host⟩ :=
    List.getElem?_concat_length
  refine ⟨s.packets.length, _, request, rfl, hlast, ?_, ?_, congrArg List.length hat, ?_⟩
  · exact harray.symm
  · exact (congrArg (s.arrays[·]?) harray).trans hrequest
  · rw [h.address t ht hs]
    rfl

theorem makePacket_own {data : ℕ} (h : Own oj s) (hl : s.tasks = [t]) (hd : t.data = some data)
    (hs : sends t.loop.pc = true) :
    Own oj { (makePacket s t data).1 with tasks := [(makePacket s t data).2] } := by
  have ht : t ∈ s.tasks := hl ▸ List.mem_singleton_self t
  refine own_single rfl (h.request t ht) (fun hp => h.buffer hp t ht) (fun packet hp => ?_)
    (fun _ => hs) (h.address t ht) fun _ => makePacket_carries h ht hd hs
  obtain ⟨p, hpacket, hdata⟩ := h.socket packet hp
  obtain ⟨hlt, -⟩ := List.getElem?_eq_some_iff.1 hpacket
  exact ⟨p, (List.getElem?_append_left hlt).trans hpacket, hdata⟩

/-- Only behind a lookup is there something to send. -/
theorem sends_next {recEnd : Bool} {c : AddressSweep.Cursor} {w : AddressSweep.Sweep}
    (h : w.pc ≠ .prepare) : sends (broadcastData recEnd c w).2.pc = false := by
  obtain ⟨pc, sent⟩ := w
  cases pc with
  | prepare => exact absurd rfl h
  | check => cases recEnd <;> rfl
  | write finish => cases finish <;> rfl
  | _ => rfl

theorem handOver_own (h : Own oj s) (hl : s.tasks = [t]) (hm : t.made = true) :
    Own oj { (handOver s t).1 with tasks := [(handOver s t).2] } := by
  have ht : t ∈ s.tasks := hl ▸ List.mem_singleton_self t
  obtain ⟨request, hh, -⟩ := h.handed ht hm
  have hs := h.made t ht hm
  have hnext : sends (broadcastData s.recEnd s.cursor t.loop).2.pc = false :=
    sends_next fun hp => Bool.false_ne_true ((congrArg sends hp).symm.trans hs)
  unfold handOver
  simp only [hh]
  refine own_single rfl (h.request t ht) (fun hp => h.buffer hp t ht) h.socket (fun hm => ?_)
    (fun hs => absurd (hnext.symm.trans hs) Bool.false_ne_true) fun hm => ?_
  · cases hm
  · cases hm

theorem proceed_own (h : Own oj s) (hl : s.tasks = [t]) (hs : sends t.loop.pc = false) :
    Own oj { (proceed s t true).1 with tasks := [(proceed s t true).2] } := by
  have ht : t ∈ s.tasks := hl ▸ List.mem_singleton_self t
  have hmade : t.made ≠ true := fun hm => Bool.false_ne_true (hs.symm.trans (h.made t ht hm))
  refine own_single rfl (h.request t ht) (fun hp => h.buffer hp t ht) h.socket
    (fun hm => absurd hm hmade) (fun hs' => ?_) fun hm => absurd hm hmade
  by_cases hpc : t.loop.pc = .prepare
  · exact if_pos ⟨hpc, rfl⟩
  · exact absurd ((sends_next hpc).symm.trans hs') Bool.false_ne_true

theorem task_own {i : ℕ} (hi : Inv oj s) (h : Own oj s) (hu : task s i true = some u) :
    Own oj u := by
  obtain ⟨-, -, t, hl, -, ⟨hd, rfl⟩ | ⟨-, -, rfl⟩ | ⟨data, hd, -, rfl⟩⟩ := task_cases hi hu
  · have ht : t ∈ s.tasks := hl ▸ List.mem_singleton_self t
    have harray : s.sendData = arrayOf s t := by rw [arrayOf, hd, Option.getD_none]
    obtain ⟨request, hrequest, hr⟩ := h.request t ht
    refine own_single rfl ⟨request, (congrArg (s.arrays[·]?) harray).trans hrequest, hr⟩
      (fun hp he => h.buffer hp t ht (harray.symm.trans he)) h.socket (h.made t ht)
      (h.address t ht) fun hm => ?_
    obtain ⟨packet, p, data, hfield, hp, hpd, hdata, hlength, haddress⟩ := h.packet t ht hm
    exact ⟨packet, p, data, hfield, hp, hpd.trans harray.symm,
      (congrArg (s.arrays[·]?) harray).trans hdata, hlength, haddress⟩
  · exact own_nil rfl h.socket
  · unfold advance
    split_ifs with hs hm
    · exact handOver_own h hl hm
    · exact makePacket_own h hl hd hs
    · exact proceed_own h hl (Bool.eq_false_of_not_eq_true hs)

theorem step_own {a : Act} (hi : Inv oj s) (h : Own oj s) (ha : Apart s a)
    (hu : step oj s a = some u) : Own oj u := by
  cases a with
  | start c => exact start_own hi h hu
  | task i => exact task_own hi h hu
  | unresolved i => exact absurd ha id
  | clearRecEnd => exact clearRecEnd_own h hu
  | newPacket => exact newPacket_own h ha hu
  | listen => exact listen_own h ha hu
  | receive reply => exact receive_own h hu
  | setRecEnd => exact setRecEnd_own h hu
  | notice => exact callNotice_own hi h hu
  | join => exact join_own hi h hu

/-- Where the two keep apart, every sweep covers its addresses. -/
theorem run_covers {client : Client} {isBroadcast : Bool} {acts : List Act}
    (h : Runs (step oj) Apart (init client isBroadcast) acts s) :
    Runs (step oj) (fun s a => ∀ u, step oj s a = some u → Covers oj u)
      (init client isBroadcast) acts s := by
  refine run_covers_iff.2 ?_
  refine h.guard_of_invariant (fun s => Inv oj s ∧ Own oj s)
    ⟨init_inv client isBroadcast, init_own client isBroadcast⟩ ?_ ?_
  · intro s a u hs ha hu
    exact ⟨step_inv hs.1 hu, step_own hs.1 hs.2 ha hu⟩
  · intro s a _ hs ha _
    exact hs.2.cleared ha

end Own

end MiniServiceDiscover.JavaPackets
