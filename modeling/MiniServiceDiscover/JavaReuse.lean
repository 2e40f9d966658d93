import MiniServiceDiscover.JavaCalls

set_option autoImplicit false

/-! One search object over many calls: what each call finds in the list, and what it
leaves to the next. -/
namespace MiniServiceDiscover.JavaReuse
open JavaProtocal JavaProvider JavaRequest JavaSweep JavaCalls KeyedList StepRuns WireFormat
open JavaDaemon (OrgJson getServiceInfo)

section Replies
variable (oj : OrgJson)

/-- A success has all service fields, and any other reply decodes. -/
def Serviced (data : JavaBytes) : Prop := ∃ action, decodeAction data = .ok action ∧
  (action = infoType .actionSucc → ∃ info, FullyDecodes oj data info) ∧
  (action = infoType .actionFail → ∃ reason, getResult oj data = .ok reason)

def Served (_ : State) (a : Act) : Prop := ∀ data, received a = some data → Serviced oj data

/-- The service of a success. -/
def Received (data : JavaBytes) (info : ServiceInfo) : Prop :=
  Accepted .actionSucc data ∧ getServiceInfo oj data = .ok info

def SameNames (x y : ServiceInfo) : Prop := x.dev = y.dev ∧ x.name = y.name

/-- One of the replies brings the service anew. -/
def Renewed (rs : List JavaBytes) (x : ServiceInfo) : Prop :=
  ∃ data ∈ rs, ∃ info, Received oj data info ∧ SameNames info x

/-- No exception has left the object busy. -/
def Whole (s : State) : Prop := s.pc = .idle → s.runSearchFinish = true

/-- The packet of the call can be built, and the call before left at most two services. -/
def Startable (s : State) : Act → Prop
  | .start c => (∃ data, c.packet oj = .ok data) ∧ s.infoList.length ≤ 2
  | _ => True

/-- A continuation without replies and new calls ends the call that runs. -/
def Ends (s : State) : Prop := ∃ more v, (∀ a ∈ more, Within a ∧ received a = none) ∧
  Runs (step oj) (fun _ _ => True) s more v ∧ v.pc = .idle ∧ v.runSearchFinish = true

end Replies

section Lists

/-- The list is that of a registry. -/
def Listed (list : ServiceInfoList) : Prop :=
  ∃ registry, list = infos registry ∧ KeyedList.Unique pairOf registry

theorem listed_nil : Listed [] := ⟨[], rfl, KeyedList.unique_nil pairOf⟩

theorem Listed.tail {list : ServiceInfoList} (h : Listed list) : Listed list.tail := by
  obtain ⟨registry, rfl, hu⟩ := h
  exact ⟨registry.tail, List.map_tail.symm, hu.sublist ((List.tail_sublist registry).map pairOf)⟩

theorem sameNames_iff (i j : NamedInfo) : SameNames i.info j.info ↔ pairOf i = pairOf j := by
  rw [SameNames, i.hasDev, j.hasDev, i.hasName, j.hasName, pairOf, pairOf, Prod.mk.injEq,
    Option.some.injEq, Option.some.injEq]

/-- Adding a named service keeps a listed list, and replaces what has its names. -/
theorem Listed.add {list : ServiceInfoList} (h : Listed list) (i : NamedInfo) :
    ∃ list', JavaProvider.add i.info list = .ok list' ∧ Listed list' ∧
      ∀ x, x ∈ list' ↔ x = i.info ∨ (x ∈ list ∧ ¬ SameNames i.info x) := by
  obtain ⟨registry, rfl, hu⟩ := h
  refine ⟨_, add_eq_putBack hu i, ⟨_, rfl, putBack_unique pairOf hu i⟩, fun x => ?_⟩
  rw [infos, List.mem_map]
  constructor
  · rintro ⟨j, hj, rfl⟩
    rcases List.mem_append.1 hj with hj | hj
    · obtain ⟨hmem, hne⟩ := (mem_delete pairOf).1 hj
      exact .inr ⟨List.mem_map_of_mem hmem, fun hs => hne ((sameNames_iff i j).1 hs).symm⟩
    · exact .inl (congrArg NamedInfo.info (List.mem_singleton.1 hj))
  · rintro (rfl | ⟨hmem, hne⟩)
    · exact ⟨i, List.mem_append_right _ (List.mem_singleton_self i), rfl⟩
    · obtain ⟨j, hj, rfl⟩ := List.mem_map.1 hmem
      refine ⟨j, List.mem_append_left _ ((mem_delete pairOf).2 ⟨hj, fun he => hne ?_⟩), rfl⟩
      exact (sameNames_iff i j).2 he.symm

end Lists

section Steps
variable {oj : OrgJson} {s u : State} {data : JavaBytes}

theorem succeed_added {info : ServiceInfo} {list : ServiceInfoList}
    (hc : s.client = .inquiryClient) (hi : getServiceInfo oj data = .ok info)
    (ha : add info s.infoList = .ok list) :
    succeed oj s data = { s with pc := .reading, succ := true, infoList := list } := by
  rw [succeed]
  simp only [hc, hi, ha]

/-- A reply that is served does not end the call. -/
theorem examine_served (hc : s.client = .inquiryClient) (hl : Listed s.infoList)
    (hb : s.buffer = some data) (hs : Serviced oj data) : (examine oj s).pc = .reading ∧
      (examine oj s).runSearchFinish = s.runSearchFinish ∧ Listed (examine oj s).infoList := by
  obtain ⟨action, ha, hsucc, hfail⟩ := hs
  rw [examine_decoded oj hb ha]
  split
  case isTrue h =>
    obtain ⟨info, hi⟩ := hsucc h
    obtain ⟨i, rfl⟩ := hi.named
    obtain ⟨list, hadd, hlist, -⟩ := hl.add i
    rw [succeed_added hc hi.getServiceInfo hadd]
    exact ⟨rfl, rfl, hlist⟩
  case isFalse =>
    split
    case isTrue h =>
      obtain ⟨reason, hr⟩ := hfail h
      split
      · rename_i he
        cases he.symm.trans hr
      · exact ⟨rfl, rfl, hl⟩
    case isFalse => exact ⟨rfl, rfl, hl⟩

/-- What holds of the object as long as all replies are served. -/
structure Sound (oj : OrgJson) (s : State) : Prop where
  client : s.client = .inquiryClient
  listed : Listed s.infoList
  buffer : s.pc = .received → ∀ data, s.buffer = some data → Serviced oj data
  heard : s.pc = .notice ∨ s.pc = .joining → s.recEnd = true
  packed : s.pc = .packed → s.dataPacket ≠ none

theorem init_sound (isBroadcast : Bool) : Sound oj (init .inquiryClient isBroadcast) where
  client := rfl
  listed := listed_nil
  buffer := fun h => Pc.noConfusion h
  heard := fun h => h.elim Pc.noConfusion Pc.noConfusion
  packed := fun h => Pc.noConfusion h

theorem examine_sound (hc : s.client = .inquiryClient) (hl : Listed s.infoList)
    (hr : s.recEnd = true) (hb : ∀ data, s.buffer = some data → Serviced oj data) :
    Sound oj (examine oj s) ∧ (examine oj s).pc ≠ .idle := by
  cases hbuf : s.buffer with
  | none =>
    rw [examine_none oj hbuf]
    exact ⟨⟨hc, hl, fun hpc => Pc.noConfusion hpc, fun _ => hr, fun hpc => Pc.noConfusion hpc⟩,
      Pc.noConfusion⟩
  | some data =>
    obtain ⟨hpc, -, hlist⟩ := examine_served hc hl hbuf (hb data hbuf)
    refine ⟨⟨(examine_client oj s).trans hc, hlist, fun hrec => ?_, fun hnotice => ?_,
      fun hpack => ?_⟩, ?_⟩
    · exact absurd (hpc.symm.trans hrec) (by decide)
    · rw [hpc] at hnotice
      exact absurd hnotice (by decide)
    · exact absurd (hpc.symm.trans hpack) (by decide)
    · rw [hpc]
      decide

theorem setRecEnd_sound (h : Sound oj s) (hu : setRecEnd oj s = some u) :
    Sound oj u ∧ u.pc ≠ .idle := by
  unfold setRecEnd at hu
  split at hu
  case isFalse => exact absurd hu (Option.some_ne_none u).symm
  case isTrue hp =>
    cases hu
    exact examine_sound h.client h.listed rfl (h.buffer hp)

/-- The thread never empties the field. -/
theorem advance_dataPacket {t : Task} {data : ℕ} {found : Bool} (h : s.dataPacket ≠ none) :
    (advance s t data found).1.dataPacket ≠ none := by
  unfold advance
  split_ifs
  · unfold handOver
    split
    · exact h
    · exact h
  · exact Option.some_ne_none _
  · exact h

theorem task_dataPacket {i : ℕ} {found : Bool} (h : s.dataPacket ≠ none)
    (hu : task s i found = some u) : u.dataPacket ≠ none := by
  unfold task at hu
  split at hu
  · exact absurd hu (Option.some_ne_none u).symm
  split at hu
  · cases hu
    exact h
  split at hu
  · cases hu
    exact h
  · cases hu
    exact advance_dataPacket h

theorem task_sound {i : ℕ} {found : Bool} (h : Sound oj s) (hu : task s i found = some u) :
    Sound oj u ∧ (Whole s → Whole u) := by
  obtain ⟨hp, hb, hc, -, hi, hr, hf⟩ := task_carries hu
  refine ⟨⟨hc.trans h.client, by rw [hi]; exact h.listed, ?_, ?_, ?_⟩, ?_⟩
  · rw [hp, hb]
    exact h.buffer
  · rw [hp, hr]
    exact h.heard
  · rw [hp]
    exact fun hpack => task_dataPacket (h.packed hpack) hu
  · unfold Whole
    rw [hp, hf]
    exact id

/-- A statement that ends in a state of neither kind. -/
theorem Sound.goes (pc : Pc) (hc : s.client = .inquiryClient) (hl : Listed s.infoList)
    (hp : s.pc = pc) (hpc : pc ≠ .received ∧ pc ≠ .notice ∧ pc ≠ .joining ∧ pc ≠ .packed) :
    Sound oj s where
  client := hc
  listed := hl
  buffer := fun h => absurd (hp.symm.trans h) hpc.1
  heard := fun h => h.elim (fun h => absurd (hp.symm.trans h) hpc.2.1)
    fun h => absurd (hp.symm.trans h) hpc.2.2.1
  packed := fun h => absurd (hp.symm.trans h) hpc.2.2.2

/-- A step within a call leaves the object busy only where it was. -/
theorem within_sound {a : Act} (h : Sound oj s) (hs : Served oj s a) (hw : Within a)
    (hu : step oj s a = some u) : Sound oj u ∧ (Whole s → Whole u) := by
  cases a with
  | start c => exact absurd rfl (hw c)
  | task i => exact task_sound h hu
  | unresolved i => exact task_sound h hu
  | clearRecEnd =>
    change JavaSweep.clearRecEnd s = some u at hu
    unfold JavaSweep.clearRecEnd at hu
    split at hu
    case isFalse => exact absurd hu (Option.some_ne_none u).symm
    case isTrue hp =>
      cases hu
      exact ⟨.goes .reading h.client h.listed rfl (by decide), fun _ hpc => Pc.noConfusion hpc⟩
  | newPacket =>
    change JavaSweep.newPacket s = some u at hu
    unfold JavaSweep.newPacket at hu
    split at hu
    case isFalse => exact absurd hu (Option.some_ne_none u).symm
    case isTrue hp =>
      cases hu
      exact ⟨⟨h.client, h.listed, fun hpc => Pc.noConfusion hpc,
        fun hpc => hpc.elim Pc.noConfusion Pc.noConfusion, fun _ => Option.some_ne_none _⟩,
        fun _ hpc => Pc.noConfusion hpc⟩
  | listen =>
    change JavaSweep.listen s = some u at hu
    unfold JavaSweep.listen at hu
    split at hu
    case isFalse => exact absurd hu (Option.some_ne_none u).symm
    case isTrue hp =>
      obtain ⟨packet, -, rfl⟩ := Option.map_eq_some_iff.1 hu
      exact ⟨.goes (.listening packet) h.client h.listed rfl ⟨Pc.noConfusion, Pc.noConfusion,
        Pc.noConfusion, Pc.noConfusion⟩, fun _ hpc => Pc.noConfusion hpc⟩
  | receive reply =>
    obtain ⟨-, _, _, -, rfl⟩ := clientReceive_cases hu
    exact ⟨⟨h.client, h.listed, fun _ data hd => hs data hd,
      fun hpc => hpc.elim Pc.noConfusion Pc.noConfusion, fun hpc => Pc.noConfusion hpc⟩,
      fun _ hpc => Pc.noConfusion hpc⟩
  | setRecEnd =>
    obtain ⟨hsound, hpc⟩ := setRecEnd_sound h hu
    exact ⟨hsound, fun _ hidle => absurd hidle hpc⟩
  | notice =>
    change callNotice s = some u at hu
    unfold callNotice at hu
    split at hu
    case isFalse => exact absurd hu (Option.some_ne_none u).symm
    case isTrue hp =>
      split at hu
      · cases hu
        exact ⟨.goes .idle h.client h.listed rfl (by decide), fun _ _ => rfl⟩
      · cases hu
        exact ⟨⟨h.client, h.listed, fun hpc => Pc.noConfusion hpc, fun _ => h.heard (.inl hp),
          fun hpc => Pc.noConfusion hpc⟩, fun _ hpc => Pc.noConfusion hpc⟩
  | join =>
    change JavaSweep.join s = some u at hu
    unfold JavaSweep.join at hu
    split at hu
    case isFalse => exact absurd hu (Option.some_ne_none u).symm
    case isTrue hp =>
      cases hu
      exact ⟨.goes .idle h.client h.listed rfl (by decide), fun _ _ => rfl⟩

theorem enter_infoList {c : Call} (hc : s.client = .inquiryClient) :
    (enter s c).infoList = s.infoList.tail := by
  change (if s.client = .inquiryClient then (JavaProvider.clear s.infoList).1 else s.infoList) = _
  rw [if_pos hc, clear_eq]

theorem clearThrows_iff (hc : s.client = .inquiryClient) :
    ClearThrows s ↔ 2 < s.infoList.length := by
  unfold ClearThrows
  rw [clear_eq]
  by_cases h : 2 < s.infoList.length
  · simp only [h, if_true, hc, true_and, ne_eq, reduceCtorEq, not_false_eq_true]
  · simp only [h, if_false, ne_eq, not_true_eq_false, and_false]

theorem start_sound {c : Call} (h : Sound oj s) (hu : start oj s c = some u) : Sound oj u := by
  obtain ⟨-, ⟨rfl, -⟩ | ⟨-, hc, -, hi, -, hpc⟩⟩ := start_outcome hu
  · exact h
  · have hidle : u.pc = .idle ∨ u.pc = .launched := hpc.imp And.left And.left
    refine ⟨hc.trans h.client, ?_, fun hrec => ?_, fun hnotice => ?_, fun hpack => ?_⟩
    · rw [hi, enter_infoList h.client]
      exact h.listed.tail
    · rw [hrec] at hidle
      exact absurd hidle (by decide)
    · rcases hnotice with hn | hn
      · rw [hn] at hidle
        exact absurd hidle (by decide)
      · rw [hn] at hidle
        exact absurd hidle (by decide)
    · rw [hpack] at hidle
      exact absurd hidle (by decide)

theorem step_sound {a : Act} (h : Sound oj s) (hs : Served oj s a) (hu : step oj s a = some u) :
    Sound oj u := by
  rcases within_or_start a with hw | ⟨c, rfl⟩
  · exact (within_sound h hs hw hu).1
  · exact start_sound h hu

/-- A call that enters goes on exactly when it is startable. -/
theorem start_whole_iff {c : Call} (h : Sound oj s) (hw : Whole s) (hu : start oj s c = some u) :
    Whole u ↔ Startable oj s (.start c) := by
  have hlen : ¬ ClearThrows s ↔ s.infoList.length ≤ 2 := by
    rw [clearThrows_iff h.client, Nat.not_lt]
  obtain ⟨hidle, ⟨-, hf⟩ | ⟨-, -, -, -, hf, hpc⟩⟩ := start_outcome hu
  · exact absurd ((hw hidle).symm.trans hf) (by decide)
  · rcases hpc with ⟨hp, hthrows⟩ | ⟨hp, hclear, hdata⟩
    · refine iff_of_false (fun h' => absurd (hf.symm.trans (h' hp)) (by decide)) ?_
      rintro ⟨⟨data, hd⟩, hle⟩
      rcases hthrows with ht | ⟨e, he⟩
      · exact hlen.2 hle ht
      · cases he.symm.trans hd
    · exact iff_of_true (fun hp' => absurd (hp.symm.trans hp') (by decide)) ⟨hdata, hlen.1 hclear⟩

theorem step_whole_iff {a : Act} (h : Sound oj s) (hs : Served oj s a) (hw : Whole s)
    (hu : step oj s a = some u) : Whole u ↔ Startable oj s a := by
  rcases within_or_start a with hin | ⟨c, rfl⟩
  · refine iff_of_true ((within_sound h hs hin hu).2 hw) ?_
    cases a with
    | start c => exact absurd rfl (hin c)
    | _ => trivial
  · exact start_whole_iff h hw hu

end Steps

section Unbroken
variable {oj : OrgJson} {isBroadcast : Bool} {acts : List Act} {s : State}

theorem run_sound (h : Runs (step oj) (Served oj) (init .inquiryClient isBroadcast) acts s) :
    Sound oj s :=
  h.invariant (Sound oj) (init_sound isBroadcast) fun _ _ _ hs g hu => step_sound hs g hu

theorem init_whole (isBroadcast : Bool) : Whole (init .inquiryClient isBroadcast) := fun _ => rfl

/-- No call of a run breaks the object exactly when each is startable. -/
theorem run_whole_iff :
    Runs (step oj) (fun s a => Served oj s a ∧ ∀ u, step oj s a = some u → Whole u)
        (init .inquiryClient isBroadcast) acts s ↔
      Runs (step oj) (fun s a => Served oj s a ∧ Startable oj s a)
        (init .inquiryClient isBroadcast) acts s := by
  constructor
  · intro h
    refine h.guard_of_invariant (fun s => Sound oj s ∧ Whole s)
      ⟨init_sound isBroadcast, init_whole isBroadcast⟩ ?_ ?_
    · intro s a u hs g hu
      exact ⟨step_sound hs.1 g.1 hu, g.2 u hu⟩
    · intro s a u hs g hu
      exact ⟨g.1, (step_whole_iff hs.1 g.1 hs.2 hu).1 (g.2 u hu)⟩
  · intro h
    refine h.guard_of_invariant (fun s => Sound oj s ∧ Whole s)
      ⟨init_sound isBroadcast, init_whole isBroadcast⟩ ?_ ?_
    · intro s a u hs g hu
      exact ⟨step_sound hs.1 g.1 hu, (step_whole_iff hs.1 g.1 hs.2 hu).2 g.2⟩
    · intro s a _ hs g _
      exact ⟨g.1, fun u hu => (step_whole_iff hs.1 g.1 hs.2 hu).2 g.2⟩

end Unbroken

section Progress
variable {oj : OrgJson} {s : State} {t : Task}

theorem ends_before {u : State} {a : Act} (ha : Within a ∧ received a = none)
    (hu : step oj s a = some u) (h : Ends oj u) : Ends oj s := by
  obtain ⟨more, v, hmore, hruns, hp, hf⟩ := h
  refine ⟨a :: more, v, fun b hb => ?_, .next trivial hu hruns, hp, hf⟩
  rcases List.mem_cons.1 hb with rfl | hb
  · exact ha
  · exact hmore b hb

theorem ends_idle (hp : s.pc = .idle) (hf : s.runSearchFinish = true) : Ends oj s :=
  ⟨[], s, fun _ ha => absurd ha List.not_mem_nil, .refl s, hp, hf⟩

theorem silent_join : Within .join ∧ received .join = none := ⟨fun _ => Act.noConfusion, rfl⟩

theorem silent_task (i : ℕ) : Within (.task i) ∧ received (.task i) = none :=
  ⟨fun _ => Act.noConfusion, rfl⟩

theorem ends_joined (hp : s.pc = .joining) (ht : s.tasks = []) : Ends oj s := by
  have hu : step oj s .join = some (finish s) :=
    if_pos ⟨hp, fun t hmem => absurd (ht ▸ hmem) List.not_mem_nil⟩
  exact ends_before silent_join hu (ends_idle rfl rfl)

/-- The call waits for its thread, which will find `recEnd` set. -/
structure Waits (s : State) (t : Task) : Prop where
  joining : s.pc = .joining
  recEnd : s.recEnd = true
  tasks : s.tasks = [t]

theorem Waits.task_zero (h : Waits s t) : task s 0 true =
    if t.data = none then some { s with tasks := [{ t with data := some s.sendData }] }
    else if t.loop.pc = .done then some { s with tasks := [], ended := s.ended ++ [t] }
    else some { (advance s t (t.data.getD 0) true).1 with
      tasks := [(advance s t (t.data.getD 0) true).2] } := by
  obtain ⟨call, data, loop, made, datagrams⟩ := t
  rw [task, h.tasks]
  cases data <;> rfl

theorem Waits.ends_done (h : Waits s t) (hd : t.data ≠ none) (hp : t.loop.pc = .done) :
    Ends oj s := by
  have hu := h.task_zero
  rw [if_neg hd, if_pos hp] at hu
  exact ends_before (silent_task 0) hu (ends_joined h.joining rfl)

theorem Waits.ends_moved (h : Waits s t) (hd : t.data ≠ none) (hp : t.loop.pc ≠ .done)
    (hnext : ∀ u t', Waits u t' → t'.data ≠ none →
      t' = (advance s t (t.data.getD 0) true).2 → Ends oj u) : Ends oj s := by
  have hu := h.task_zero
  rw [if_neg hd, if_neg hp] at hu
  obtain ⟨-, hdata⟩ := advance_task s t (t.data.getD 0) true
  obtain ⟨_, _, _, _, he⟩ := advance_eq s t (t.data.getD 0) true
  refine ends_before (silent_task 0) hu (hnext _ _ ⟨?_, ?_, rfl⟩ (by rwa [hdata]) rfl)
  · rw [he]
    exact h.joining
  · rw [he]
    exact h.recEnd

/-- A statement that hands nothing over is one of the loop. -/
theorem Waits.advance_loop (h : Waits s t) (data : ℕ) (hs : sends t.loop.pc = false) :
    (advance s t data true).2.loop = (broadcastData true s.cursor t.loop).2 := by
  rw [advance, if_neg (by rw [hs]; exact Bool.false_ne_true), proceed, h.recEnd]

theorem Waits.ends_check (h : Waits s t) (hd : t.data ≠ none) (hp : t.loop.pc = .check) :
    Ends oj s := by
  refine h.ends_moved hd (by rw [hp]; decide) fun u t' hu hd' ht => hu.ends_done hd' ?_
  rw [ht, h.advance_loop _ (by rw [hp]; rfl)]
  simp only [broadcastData, AddressSweep.step, hp, if_true]

/-- The packet is made; without an address the thread ends, too. -/
theorem Waits.ends_made (h : Waits s t) (hd : t.data ≠ none) (last : Bool)
    (hp : t.loop.pc = .write last) (hm : t.made = true) : Ends oj s := by
  refine h.ends_moved hd (by rw [hp]; exact AddressSweep.Pc.noConfusion) fun u t' hu hd' ht => ?_
  have hs : sends t.loop.pc = true := by rw [hp]; rfl
  obtain ⟨-, hm', -⟩ | ⟨-, -, -, he⟩ | ⟨-, -, _, -, -, he⟩ | ⟨hs', -⟩ :=
    advance_cases s t (t.data.getD 0) true
  · exact absurd (hm'.symm.trans hm) Bool.false_ne_true
  · refine hu.ends_done hd' ?_
    rw [ht, he]
  · rw [he, h.recEnd] at ht
    cases last with
    | true =>
      refine hu.ends_done hd' ?_
      rw [ht]
      simp only [broadcastData, AddressSweep.step, hp, if_true]
    | false =>
      refine hu.ends_check hd' ?_
      rw [ht]
      simp only [broadcastData, AddressSweep.step, hp, Bool.false_eq_true, if_false]
  · exact absurd (hs'.symm.trans hs) Bool.false_ne_true

theorem Waits.ends_write (h : Waits s t) (hd : t.data ≠ none) (last : Bool)
    (hp : t.loop.pc = .write last) : Ends oj s := by
  cases hm : t.made with
  | true => exact h.ends_made hd last hp hm
  | false =>
    refine h.ends_moved hd (by rw [hp]; exact AddressSweep.Pc.noConfusion) fun u t' hu hd' ht => ?_
    have hmade : (advance s t (t.data.getD 0) true).2 = { t with made := true } := by
      rw [advance, hp, hm]
      rfl
    rw [hmade] at ht
    exact hu.ends_made hd' last (by rw [ht]; exact hp) (by rw [ht])

/-- The thread ends, wherever it stands, and the call with it. -/
theorem Waits.ends_read (h : Waits s t) (hd : t.data ≠ none) : Ends oj s := by
  cases hp : t.loop.pc with
  | done => exact h.ends_done hd hp
  | check => exact h.ends_check hd hp
  | write last => exact h.ends_write hd last hp
  | prepare =>
    refine h.ends_moved hd (by rw [hp]; decide) fun u t' hu hd' ht =>
      hu.ends_write hd' (s.cursor.prepare lastHost).1 ?_
    rw [ht, h.advance_loop _ (by rw [hp]; rfl)]
    simp only [broadcastData, AddressSweep.step, hp]
  | reset =>
    refine h.ends_moved hd (by rw [hp]; decide) fun u t' hu hd' ht => hu.ends_check hd' ?_
    rw [ht, h.advance_loop _ (by rw [hp]; rfl)]
    simp only [broadcastData, AddressSweep.step, hp]

theorem Waits.ends (h : Waits s t) : Ends oj s := by
  by_cases hd : t.data = none
  · have hu := h.task_zero
    rw [if_pos hd] at hu
    have hw : Waits { s with tasks := [{ t with data := some s.sendData }] }
        { t with data := some s.sendData } := ⟨h.joining, h.recEnd, rfl⟩
    exact ends_before (silent_task 0) hu (hw.ends_read (Option.some_ne_none _))
  · exact h.ends_read hd

theorem ends_joining (hi : Inv oj s) (h : Sound oj s) (hp : s.pc = .joining) : Ends oj s := by
  rcases hi.sole with ht | ⟨-, -, -, t, ht, -⟩
  · exact ends_joined hp ht
  · exact Waits.ends ⟨hp, h.heard (.inr hp), ht⟩

theorem served_of_none (s : State) {a : Act} (h : received a = none) : Served oj s a :=
  fun _ hd => absurd (h.symm.trans hd) (Option.some_ne_none _).symm

/-- One step of the call itself, to where the call ends. -/
theorem ends_after {a : Act} {u : State} (hi : Inv oj s) (h : Sound oj s)
    (ha : Within a ∧ received a = none) (hu : step oj s a = some u)
    (hnext : Inv oj u → Sound oj u → Ends oj u) : Ends oj s := by
  have hs : Served oj s a := served_of_none s ha.2
  exact ends_before ha hu (hnext (step_inv hi hu) (within_sound h hs ha.1 hu).1)

theorem ends_notice (hi : Inv oj s) (h : Sound oj s) (hp : s.pc = .notice) : Ends oj s := by
  have hu : step oj s .notice =
      some (if s.isBroadcast then finish s else { s with pc := .joining }) := if_pos hp
  refine ends_after hi h ⟨fun _ => Act.noConfusion, rfl⟩ hu fun hi h => ?_
  by_cases hb : s.isBroadcast = true
  · rw [if_pos hb]
    exact ends_idle rfl rfl
  · rw [if_neg hb] at hi h ⊢
    exact ends_joining hi h rfl

theorem setRecEnd_silent : Within .setRecEnd ∧ received .setRecEnd = none :=
  ⟨fun _ => Act.noConfusion, rfl⟩

/-- The read has failed. -/
theorem ends_unanswered (hi : Inv oj s) (h : Sound oj s) (hp : s.pc = .received)
    (hb : s.buffer = none) : Ends oj s := by
  have hu : step oj s .setRecEnd = some (examine oj { s with recEnd := true }) := if_pos hp
  refine ends_after hi h setRecEnd_silent hu fun hi h => ?_
  have he := examine_none oj (s := { s with recEnd := true }) hb
  rw [he] at hi h ⊢
  exact ends_notice hi h rfl

theorem ends_listening {packet : ℕ} (hi : Inv oj s) (h : Sound oj s)
    (hp : s.pc = .listening packet) : Ends oj s := by
  have hu : step oj s (.receive none) = some { s with
      pc := .received, buffer := none, firstReads := s.firstReads ++ [s.call] } := by
    change clientReceive s none = _
    unfold clientReceive
    rw [hp]
  exact ends_after hi h ⟨fun _ => Act.noConfusion, rfl⟩ hu fun hi h => ends_unanswered hi h rfl rfl

theorem ends_packed (hi : Inv oj s) (h : Sound oj s) (hp : s.pc = .packed) : Ends oj s := by
  obtain ⟨packet, hd⟩ := Option.ne_none_iff_exists'.1 (h.packed hp)
  have hu : step oj s .listen = some { s with pc := .listening packet } := by
    change JavaSweep.listen s = _
    rw [JavaSweep.listen, if_pos hp, hd]
    rfl
  exact ends_after hi h ⟨fun _ => Act.noConfusion, rfl⟩ hu fun hi h => ends_listening hi h rfl

theorem ends_reading (hi : Inv oj s) (h : Sound oj s) (hp : s.pc = .reading) : Ends oj s := by
  have hu : step oj s .newPacket = some { assign s s.callBuffer none with pc := .packed } :=
    if_pos hp
  exact ends_after hi h ⟨fun _ => Act.noConfusion, rfl⟩ hu fun hi h => ends_packed hi h rfl

theorem ends_received {data : JavaBytes} (hi : Inv oj s) (h : Sound oj s) (hp : s.pc = .received)
    (hb : s.buffer = some data) : Ends oj s := by
  have hu : step oj s .setRecEnd = some (examine oj { s with recEnd := true }) := if_pos hp
  obtain ⟨hpc, -, -⟩ := examine_served (s := { s with recEnd := true }) h.client h.listed hb
    (h.buffer hp data hb)
  exact ends_after hi h setRecEnd_silent hu fun hi h => ends_reading hi h hpc

/-- From wherever it stands, a call that is not broken ends once no further reply comes. -/
theorem ends_of_whole (hi : Inv oj s) (h : Sound oj s) (hw : Whole s) : Ends oj s := by
  cases hp : s.pc with
  | idle => exact ends_idle hp (hw hp)
  | launched =>
    have hu : step oj s .clearRecEnd = _ := if_pos hp
    exact ends_after hi h ⟨fun _ => Act.noConfusion, rfl⟩ hu fun hi h => ends_reading hi h rfl
  | reading => exact ends_reading hi h hp
  | packed => exact ends_packed hi h hp
  | listening packet => exact ends_listening hi h hp
  | received =>
    cases hb : s.buffer with
    | none => exact ends_unanswered hi h hp hb
    | some data => exact ends_received hi h hp hb
  | notice => exact ends_notice hi h hp
  | joining => exact ends_joining hi h hp

end Progress

section Contents
variable {oj : OrgJson} {old list : ServiceInfoList} {rs : List JavaBytes} {data : JavaBytes}

theorem renewed_concat {x : ServiceInfo} : Renewed oj (rs ++ [data]) x ↔
    Renewed oj rs x ∨ ∃ info, Received oj data info ∧ SameNames info x := by
  constructor
  · rintro ⟨b, hb, hr⟩
    rcases List.mem_append.1 hb with hb | hb
    · exact .inl ⟨b, hb, hr⟩
    · rw [List.mem_singleton.1 hb] at hr
      exact .inr hr
  · rintro (⟨b, hb, hr⟩ | hr)
    · exact ⟨b, List.mem_append_left _ hb, hr⟩
    · exact ⟨data, List.mem_append_right _ (List.mem_singleton_self data), hr⟩

/-- The list holds what the replies brought, and of the old services those that no
reply renewed. -/
structure Kept (oj : OrgJson) (old : ServiceInfoList) (rs : List JavaBytes)
    (list : ServiceInfoList) : Prop where
  listed : Listed list
  origin : ∀ x ∈ list, (∃ data ∈ rs, Received oj data x) ∨ (x ∈ old ∧ ¬ Renewed oj rs x)
  stays : ∀ x ∈ old, ¬ Renewed oj rs x → x ∈ list

theorem kept_start (h : Listed old) : Kept oj old [] old where
  listed := h
  origin := fun _ hx => .inr ⟨hx, fun ⟨_, hd, _⟩ => absurd hd List.not_mem_nil⟩
  stays := fun _ hx _ => hx

theorem Kept.ignored (h : Kept oj old rs list) (hd : ∀ info, ¬ Received oj data info) :
    Kept oj old (rs ++ [data]) list where
  listed := h.listed
  origin := by
    intro x hx
    refine (h.origin x hx).imp ?_ fun ⟨ho, hn⟩ => ⟨ho, fun hr => ?_⟩
    · exact fun ⟨b, hb, hr⟩ => ⟨b, List.mem_append_left _ hb, hr⟩
    · exact (renewed_concat.1 hr).elim hn fun ⟨info, hi, _⟩ => hd info hi
  stays := fun x hx hn => h.stays x hx fun hr => hn (renewed_concat.2 (.inl hr))

theorem Kept.added {i : NamedInfo} {list' : ServiceInfoList} (h : Kept oj old rs list)
    (hd : Received oj data i.info) (ha : add i.info list = .ok list') :
    Kept oj old (rs ++ [data]) list' := by
  obtain ⟨added, hadd, hlist, hmem⟩ := h.listed.add i
  obtain rfl : list' = added := Except.ok.inj (ha.symm.trans hadd)
  refine ⟨hlist, fun x hx => ?_, fun x hx hn => ?_⟩
  · rcases (hmem x).1 hx with rfl | ⟨hx, hne⟩
    · exact .inl ⟨data, List.mem_append_right _ (List.mem_singleton_self data), hd⟩
    · refine (h.origin x hx).imp ?_ fun ⟨ho, hno⟩ => ⟨ho, fun hr => ?_⟩
      · exact fun ⟨b, hb, hr⟩ => ⟨b, List.mem_append_left _ hb, hr⟩
      · rcases renewed_concat.1 hr with hr | ⟨info, hi, hs⟩
        · exact hno hr
        · rw [Except.ok.inj (hi.2.symm.trans hd.2)] at hs
          exact hne hs
  · refine (hmem x).2 (.inr ⟨h.stays x hx fun hr => hn (renewed_concat.2 (.inl hr)), fun hs => ?_⟩)
    exact hn (renewed_concat.2 (.inr ⟨i.info, hd, hs⟩))

/-- Only services of this call are left exactly when each old one has been renewed. -/
theorem Kept.current_iff (h : Kept oj old rs list) :
    (∀ x ∈ list, ∃ data ∈ rs, Received oj data x) ↔ ∀ x ∈ old, Renewed oj rs x := by
  constructor
  · intro hall x hx
    by_contra hn
    obtain ⟨data, hd, hr⟩ := hall x (h.stays x hx hn)
    exact hn ⟨data, hd, x, hr, rfl, rfl⟩
  · intro hall x hx
    exact (h.origin x hx).resolve_right fun ⟨ho, hn⟩ => hn (hall x ho)

theorem Serviced.named {info : ServiceInfo} (h : Serviced oj data)
    (hr : Accepted .actionSucc data) (hi : getServiceInfo oj data = .ok info) :
    ∃ i : NamedInfo, i.info = info := by
  obtain ⟨action, ha, hsucc, -⟩ := h
  obtain ⟨info', hfull⟩ := hsucc (Except.ok.inj (ha.symm.trans hr))
  obtain rfl : info' = info := Except.ok.inj (hfull.getServiceInfo.symm.trans hi)
  exact hfull.named

theorem examine_kept {s : State} (hc : s.client = .inquiryClient) (h : Kept oj old rs s.infoList)
    (hs : Serviced oj data) (hb : s.buffer = some data) (hend : (examine oj s).pc ≠ .idle) :
    Kept oj old (rs ++ [data]) (examine oj s).infoList := by
  obtain hi | ⟨-, hr, -⟩ | ⟨hr, -, info, list, hi, ha, he⟩ | ⟨hr, _, he⟩ | ⟨hn, -, he⟩ :=
    examine_cases oj hb
  · exact absurd hi hend
  · exact absurd (hr.symm.trans hc) (by decide)
  · obtain ⟨i, rfl⟩ := hs.named hr hi
    rw [he]
    exact h.added ⟨hr, hi⟩ ha
  · rw [he]
    exact h.ignored fun info hrec => not_both hrec.1 hr
  · rw [he]
    exact h.ignored fun info hrec => hn hrec.1

end Contents

section Reuse
variable {oj : OrgJson} {isBroadcast : Bool} {acts : List Act} {s : State}

theorem run_served {guard : State → Act → Prop} {s₀ : State}
    (hg : ∀ s a, guard s a → Served oj s a) (h : Runs (step oj) guard s₀ acts s) :
    ∀ data ∈ replies acts, Serviced oj data := by
  induction h with
  | refl _ => exact fun data hd => absurd hd List.not_mem_nil
  | @next s u v a acts g _ _ ih =>
    intro data hd
    obtain ⟨b, hb, hr⟩ := List.mem_filterMap.1 hd
    rcases List.mem_cons.1 hb with rfl | hb
    · exact hg s b g data hr
    · exact ih data (List.mem_filterMap.2 ⟨b, hb, hr⟩)

/-- What a search reports at its notice. -/
theorem notice_kept {before during : List Act} {c : Call}
    (h : Runs (step oj) (Served oj) (init .inquiryClient isBroadcast)
      (before ++ .start c :: during) s) (hw : ∀ a ∈ during, Within a) (hn : s.pc = .notice) :
    ∃ s₀, Runs (step oj) (Served oj) (init .inquiryClient isBroadcast) before s₀ ∧
      Kept oj s₀.infoList.tail (replies during) s.infoList := by
  have hserved : ∀ data ∈ replies during, Serviced oj data := by
    obtain ⟨u, -, hcall⟩ := h.split
    cases hcall with
    | next _ _ tail => exact run_served (fun _ _ => id) tail
  obtain ⟨s₀, hbefore, hk⟩ := notice_told (P := fun u rs _ list => u.client = .inquiryClient →
    Listed u.infoList → (∀ data ∈ rs, Serviced oj data) → Kept oj u.infoList.tail rs list) h hw hn
    (fun u hc hl _ => by
      rw [enter_infoList hc]
      exact kept_start hl.tail)
    fun u s rs data hclient ih hb hend hc hl hs =>
      examine_kept (hclient.trans hc)
        (ih hc hl fun b hb => hs b (List.mem_append_left _ hb))
        (hs data (List.mem_append_right _ (List.mem_singleton_self data))) hb hend
  have hsound := run_sound hbefore
  exact ⟨s₀, hbefore, hk hsound.client hsound.listed hserved⟩

/-- One search object over all its calls, as long as every reply received is served: the
calls leave it whole exactly when each is startable; a call that reaches its notice
reports only services of its own exactly when the service left behind the first of the
last list, if any, has come again; and a whole object's call runs to its end. -/
theorem runSearch_reusable_iff
    (h : Runs (step oj) (Served oj) (init .inquiryClient isBroadcast) acts s) :
    (Runs (step oj) (fun s a => Served oj s a ∧ ∀ u, step oj s a = some u → Whole u)
        (init .inquiryClient isBroadcast) acts s ↔
      Runs (step oj) (fun s a => Served oj s a ∧ Startable oj s a)
        (init .inquiryClient isBroadcast) acts s) ∧
    (∀ before c during, acts = before ++ .start c :: during → (∀ a ∈ during, Within a) →
      s.pc = .notice → ∃ s₀, Runs (step oj) (Served oj) (init .inquiryClient isBroadcast) before s₀ ∧
        ((∀ x ∈ s.infoList, ∃ data ∈ replies during, Received oj data x) ↔
          ∀ x ∈ s₀.infoList.tail, Renewed oj (replies during) x)) ∧
    (Whole s → Ends oj s) := by
  refine ⟨run_whole_iff, ?_, ?_⟩
  · rintro before c during rfl hw hn
    obtain ⟨s₀, hbefore, hk⟩ := notice_kept h hw hn
    exact ⟨s₀, hbefore, hk.current_iff⟩
  · exact ends_of_whole (run_inv (h.mono fun _ _ _ => trivial)) (run_sound h)

end Reuse

section Examples
open JavaDaemon (javaString serviceMap getServicePkt)
open JavaInquiry JavaJsonText

def musicSearch : Call := .runSearch (some playMusicName)

theorem musicSearch_packet : ∃ data, musicSearch.packet textJson = .ok data :=
  getInquiryPkt_ok _ ((textJson_documented.printLength
    (serviceMap ⟨some [], some playMusicName, some [], some [], 0⟩)).trans (by decide))

/-- The reply of a daemon with a music service on this device. -/
def musicReply (dev : String) : JavaBytes :=
  (getServicePkt textJson (service (javaString dev) playMusicName).info).toOption.getD []

/-- A reply of a whole packet that brings the service. -/
def Brings (oj : OrgJson) (r : JavaBytes) (info : ServiceInfo) : Prop :=
  r.length = protocalLen ∧ Received oj r info ∧ Serviced oj r

theorem musicReply_ok {dev : String}
    (h : ReadsBack (service (javaString dev) playMusicName).info) :
    Brings textJson (musicReply dev) (service (javaString dev) playMusicName).info := by
  obtain ⟨pkt, hp, hlen, ha, hd⟩ := h.pkt .actionSucc
  have hr : musicReply dev = pkt := by
    rw [musicReply, getServicePkt, hp]
    rfl
  rw [hr]
  refine ⟨hlen, ⟨ha, hd.getServiceInfo⟩, _, ha, fun _ => ⟨_, hd⟩, fun he => ?_⟩
  exact absurd he (by decide)

theorem examine_received {oj : OrgJson} {s : State} {data : JavaBytes} {info : ServiceInfo}
    {list : ServiceInfoList} (hc : s.client = .inquiryClient) (hb : s.buffer = some data)
    (hr : Received oj data info) (ha : add info s.infoList = .ok list) :
    examine oj s = { s with pc := .reading, succ := true, infoList := list } := by
  rw [examine_decoded oj hb hr.1, if_pos rfl, succeed_added hc hr.2 ha]

theorem start_throws {oj : OrgJson} {s : State} {c : Call} (hp : s.pc = .idle)
    (hc : c.client = s.client) (hf : s.runSearchFinish = true) (hl : ClearThrows s) :
    start oj s c = some (enter s c) := by
  rw [start, if_pos ⟨hp, hc⟩, if_pos hf, if_pos hl]

/-- A search that three daemons answer. -/
def threeActs (r₁ r₂ r₃ : JavaBytes) : List Act :=
  [.start musicSearch, .task 0, .task 0, .clearRecEnd] ++ readActs (some r₁) ++ [.setRecEnd] ++
    readActs (some r₂) ++ [.setRecEnd] ++ readActs (some r₃) ++ [.setRecEnd] ++ readActs none ++
    [.setRecEnd, .notice, .task 0, .task 0, .join]

def threeFound (arrays : List JavaBytes) (packets : List Packet) (dataPacket : Option ℕ)
    (list : ServiceInfoList) : State :=
  { init .inquiryClient false with
    recEnd := true
    arrays := arrays
    packets := packets
    dataPacket := dataPacket
    callBuffer := 1
    infoList := list
    succ := true
    cursor := ⟨1, 0⟩
    thread := some 0
    ended := [⟨0, some 0, ⟨.done, []⟩, false, []⟩]
    calls := [musicSearch]
    firstReads := [0, 0, 0, 0] }

section Three
variable {oj : OrgJson}

/-- A pass of the loop that finds a service in the reply. -/
theorem runs_found {s₀ s : State} {acts : List Act} {r : JavaBytes} {info : ServiceInfo}
    {list : ServiceInfoList} (h : Runs (step oj) (Served oj) s₀ acts s) (hr : Brings oj r info)
    (hp : s.pc = .reading) (hb : Buffered s) (hc : s.client = .inquiryClient)
    (ha : add info s.infoList = .ok list) :
    ∃ arrays packets dataPacket, (arrays.getD s.callBuffer []).length = protocalLen ∧
      Runs (step oj) (Served oj) s₀ (acts ++ readActs (some r) ++ [.setRecEnd]) { s with
        pc := .reading, recEnd := true, arrays := arrays, packets := packets
        dataPacket := dataPacket, buffer := some r, infoList := list, succ := true
        firstReads := s.firstReads ++ [s.call] } := by
  obtain ⟨hlen, hreceived, hserviced⟩ := hr
  have hserved : ∀ (s : State) (a : Act), received a = none ∨ received a = some r →
      Served oj s a := by
    rintro s a (hn | hs)
    · exact served_of_none s hn
    · exact fun _ hd => Option.some.inj (hs.symm.trans hd) ▸ hserviced
  obtain ⟨arrays, packets, dataPacket, hbuf, hread⟩ := runs_read h (some r) hserved hp hb
    fun _ hr => Option.some.inj hr ▸ hlen
  refine ⟨arrays, packets, dataPacket, hbuf, hread.trans (.next (served_of_none _ rfl) ?_
    (.refl _))⟩
  exact congrArg some (examine_received hc rfl hreceived ha)

theorem runs_three {data r₁ r₂ r₃ : JavaBytes} {i₁ i₂ i₃ : ServiceInfo}
    {l₁ l₂ l₃ : ServiceInfoList} (hd : musicSearch.packet oj = .ok data) (h₁ : Brings oj r₁ i₁)
    (h₂ : Brings oj r₂ i₂) (h₃ : Brings oj r₃ i₃) (a₁ : add i₁ [] = .ok l₁)
    (a₂ : add i₂ l₁ = .ok l₂) (a₃ : add i₃ l₂ = .ok l₃) : ∃ arrays packets dataPacket,
    Runs (step oj) (Served oj) (init .inquiryClient false) (threeActs r₁ r₂ r₃)
      (threeFound arrays packets dataPacket l₃) := by
  have hstart := start_eq (s := init .inquiryClient false) (c := musicSearch) rfl rfl rfl
    (fun h => h.2 rfl) rfl hd
  have hcleared : Runs (step oj) (Served oj) (init .inquiryClient false)
      [.start musicSearch, .task 0, .task 0, .clearRecEnd] _ :=
    .next (served_of_none _ rfl) hstart (.next (served_of_none _ rfl) rfl
      (.next (served_of_none _ rfl) rfl (.next (served_of_none _ rfl) rfl (.refl _))))
  obtain ⟨_, _, _, hb₁, hone⟩ := runs_found hcleared h₁ rfl (cleared_buffered _) rfl a₁
  obtain ⟨_, _, _, hb₂, htwo⟩ := runs_found hone h₂ rfl hb₁ rfl a₂
  obtain ⟨_, _, _, hb₃, hthree⟩ := runs_found htwo h₃ rfl hb₂ rfl a₃
  obtain ⟨arrays, packets, dataPacket, -, hlast⟩ := runs_read hthree none
    (fun s a h => served_of_none s (h.elim id id)) rfl hb₃
    fun _ h => absurd h (Option.some_ne_none _).symm
  have hnone : ∀ a ∈ [Act.setRecEnd, .notice, .task 0, .task 0, .join], received a = none := by
    decide
  exact ⟨arrays, packets, dataPacket,
    hlast.trans (runs_of_foldlM (fun a ha s => served_of_none s (hnone a ha)) rfl)⟩

end Three

theorem box1_reads : ReadsBack (service (javaString "box1") playMusicName).info := by decide +kernel

theorem box2_reads : ReadsBack (service (javaString "box2") playMusicName).info := by decide +kernel

theorem box3_reads : ReadsBack (service (javaString "box3") playMusicName).info := by decide +kernel

def boxesActs : List Act := threeActs (musicReply "box1") (musicReply "box2") (musicReply "box3")

def boxes : ServiceInfoList :=
  ["box1", "box2", "box3"].map fun dev => (service (javaString dev) playMusicName).info

theorem runs_boxes : ∃ arrays packets dataPacket, Runs (step textJson) (Served textJson)
    (init .inquiryClient false) boxesActs (threeFound arrays packets dataPacket boxes) := by
  obtain ⟨data, hd⟩ := musicSearch_packet
  exact runs_three hd (musicReply_ok box1_reads) (musicReply_ok box2_reads)
    (musicReply_ok box3_reads) rfl rfl rfl

theorem runSearch_reusable_iff_boxes : ∃ s,
    Runs (step textJson) (Served textJson) (init .inquiryClient false) boxesActs s ∧
    (Runs (step textJson) (fun s a => Served textJson s a ∧
          ∀ u, step textJson s a = some u → Whole u) (init .inquiryClient false) boxesActs s ↔
      Runs (step textJson) (fun s a => Served textJson s a ∧ Startable textJson s a)
        (init .inquiryClient false) boxesActs s) ∧
    (Whole s → Ends textJson s) := by
  obtain ⟨_, _, _, h⟩ := runs_boxes
  obtain ⟨hiff, -, hends⟩ := runSearch_reusable_iff h
  exact ⟨_, h, hiff, hends⟩

/-- The search after it throws, and leaves the object busy. -/
theorem boxes_break : ∃ s u,
    Runs (step textJson) (Served textJson) (init .inquiryClient false) boxesActs s ∧ s.pc = .idle ∧
      s.runSearchFinish = true ∧ step textJson s (.start musicSearch) = some u ∧ u.pc = .idle ∧
      u.runSearchFinish = false := by
  obtain ⟨arrays, packets, dataPacket, h⟩ := runs_boxes
  have hlen : 2 < boxes.length := Nat.lt_succ_self 2
  have hthrows : ClearThrows (threeFound arrays packets dataPacket boxes) :=
    (clearThrows_iff (s := threeFound arrays packets dataPacket boxes) rfl).2 hlen
  have hstart : start textJson (threeFound arrays packets dataPacket boxes) musicSearch =
      some (enter (threeFound arrays packets dataPacket boxes) musicSearch) :=
    start_throws rfl rfl rfl hthrows
  exact ⟨_, _, h, rfl, rfl, hstart, rfl, rfl⟩

end Examples

end MiniServiceDiscover.JavaReuse
