import MiniServiceDiscover.GoInquiry

set_option autoImplicit false

/-! The Go registry as a function of the buffers the daemon has handled. -/
namespace MiniServiceDiscover.GoHistory
open JsonText GoJson GoProtocal GoProvider GoDaemon GoInquiry WireFormat KeyedList

/-- The daemon's registry after handling the buffers in turn. -/
def runBuffers (buffers : List Bytes) : Except GoPanic Provider :=
  buffers.foldlM (fun p data => (processData p data).result) getProvider

/-- The buffer is an accepted request with this action. -/
def Requests (action : Action) (data : Bytes) (info : ServiceInfo) : Prop :=
  ∃ head, decodeData data = .ok (some (head, info)) ∧ head.action = action.code

/-- The buffer is an accepted registration or unregistration of the pair. -/
def Carries (data : Bytes) (k : Key) : Prop :=
  ∃ info, (Requests .registerService data info ∨ Requests .unregisterService data info) ∧
    pairOf info = k

/-- Buffer `i` registered `v`, and no later one carries its pair. -/
def Current (buffers : List Bytes) (i : ℕ) (v : ServiceInfo) : Prop :=
  (∃ data, buffers[i]? = some data ∧ Requests .registerService data v) ∧
    ∀ j data, i < j → buffers[j]? = some data → ¬ Carries data (pairOf v)

structure IsHistory (buffers : List Bytes) (p : Provider) : Prop where
  mem_iff : ∀ v, v ∈ p ↔ ∃ i, Current buffers i v
  unique : Unique pairOf p
  newestFirst : p.Pairwise fun v w => ∃ i j, j < i ∧ Current buffers i v ∧ Current buffers j w

/-- The buffer is turned down by the magic, the checksum, the text or the action. -/
def Rejected (data : Bytes) : Prop :=
  decodeData data = .ok none ∨ ∃ head info, decodeData data = .ok (some (head, info)) ∧
    head.action ≠ Action.registerService.code ∧ head.action ≠ Action.unregisterService.code ∧
      head.action ≠ Action.inquiry.code

structure Handles (p : Provider) (data : Bytes) (h : Handled) : Prop where
  register : ∀ info, Requests .registerService data info → AnswersWith .actionSucc h.sent
  unregister : ∀ info, Requests .unregisterService data info →
    (Present pairOf (pairOf info) p → AnswersWith .actionSucc h.sent) ∧
      (¬ Present pairOf (pairOf info) p → AnswersWith .actionFail h.sent)
  rejected : Rejected data → h.result = .ok p
  inquiry : ∀ info, Requests .inquiry data info → ∀ p', h.result = .ok p' → p' = p

def changeOf (data : Bytes) : Change ServiceInfo Key :=
  match decodeData data with
  | .ok (some (head, info)) =>
    if head.action = Action.registerService.code then .put info
    else if head.action = Action.unregisterService.code then .drop (pairOf info)
    else .keep
  | _ => .keep

section Actions
variable (p : Provider) (action : UInt16) (info : ServiceInfo)

theorem handleAction_register : handleAction p Action.registerService.code info = register p info :=
  rfl

theorem handleAction_unregister :
    handleAction p Action.unregisterService.code info = unregister p info := rfl

theorem handleAction_unknown (h1 : action ≠ Action.registerService.code)
    (h2 : action ≠ Action.unregisterService.code) (h3 : action ≠ Action.inquiry.code) :
    handleAction p action info = ⟨[], .ok p⟩ := by
  rw [handleAction, if_neg h1, if_neg h2, if_neg h3]

theorem inquiry_result {p p' : Provider} {info : ServiceInfo}
    (h : (inquiry p info).result = .ok p') : p' = p := by
  by_cases hm : MatchesFirst (named info.serviceName) p
  · rw [(inquiry_matchesFirst p info hm).noPanic] at h
    exact (Except.ok.inj h).symm
  · rw [inquiry_panics p info hm] at h
    cases h

theorem unregister_sent : (unregister p info).sent =
    [if Present pairOf (pairOf info) p then succData else noFoundData] := by
  change [if (removeByName info.deviceName info.serviceName p).1 = true then _ else _] = _
  congr 1
  exact if_congr (removeByName_fst _ _ p) rfl rfl

end Actions

section Requests
variable {data : Bytes} {info : ServiceInfo}

theorem processData_register (h : Requests .registerService data info) (p : Provider) :
    processData p data = register p info := by
  obtain ⟨head, hd, ha⟩ := h
  rw [processData, hd]
  simp only [ha, handleAction_register]

theorem processData_unregister (h : Requests .unregisterService data info)
    (p : Provider) : processData p data = unregister p info := by
  obtain ⟨head, hd, ha⟩ := h
  rw [processData, hd]
  simp only [ha, handleAction_unregister]

theorem changeOf_register (h : Requests .registerService data info) : changeOf data = .put info := by
  obtain ⟨head, hd, ha⟩ := h
  rw [changeOf, hd]
  exact if_pos ha

theorem changeOf_unregister (h : Requests .unregisterService data info) :
    changeOf data = .drop (pairOf info) := by
  obtain ⟨head, hd, ha⟩ := h
  rw [changeOf, hd]
  simp only [ha]
  rfl

/-- Every buffer is an accepted registration, an accepted unregistration, or
changes nothing. -/
theorem changeOf_cases (data : Bytes) :
    (∃ info, Requests .registerService data info ∧ changeOf data = .put info) ∨
    (∃ info, Requests .unregisterService data info ∧ changeOf data = .drop (pairOf info)) ∨
    (changeOf data = .keep ∧ (∀ info, ¬ Requests .registerService data info) ∧
      ∀ info, ¬ Requests .unregisterService data info) := by
  by_cases hr : ∃ info, Requests .registerService data info
  · obtain ⟨info, hr⟩ := hr
    exact .inl ⟨info, hr, changeOf_register hr⟩
  · by_cases hu : ∃ info, Requests .unregisterService data info
    · obtain ⟨info, hu⟩ := hu
      exact .inr (.inl ⟨info, hu, changeOf_unregister hu⟩)
    · refine .inr (.inr ⟨?_, not_exists.1 hr, not_exists.1 hu⟩)
      unfold changeOf
      split
      · rename_i head i hd
        rw [if_neg fun ha => hr ⟨i, head, hd, ha⟩, if_neg fun ha => hu ⟨i, head, hd, ha⟩]
      · rfl

theorem changeOf_put_iff (data : Bytes) (v : ServiceInfo) :
    changeOf data = .put v ↔ Requests .registerService data v := by
  refine ⟨fun h => ?_, changeOf_register⟩
  rcases changeOf_cases data with ⟨info, hr, hc⟩ | ⟨info, -, hc⟩ | ⟨hc, -, -⟩
  · rw [hc, Change.put.injEq] at h
    exact h ▸ hr
  · rw [hc] at h
    cases h
  · rw [hc] at h
    cases h

theorem changeOf_touches_iff (data : Bytes) (k : Key) :
    (changeOf data).Touches pairOf k ↔ Carries data k := by
  constructor
  · intro h
    rcases changeOf_cases data with ⟨info, hr, hc⟩ | ⟨info, hu, hc⟩ | ⟨hc, -, -⟩
    · rw [hc] at h
      exact ⟨info, .inl hr, h⟩
    · rw [hc] at h
      exact ⟨info, .inr hu, h⟩
    · rw [hc] at h
      exact h.elim
  · rintro ⟨info, hr | hu, hk⟩
    · rw [changeOf_register hr]
      exact hk
    · rw [changeOf_unregister hu]
      exact hk

theorem current_iff_live (buffers : List Bytes) (i : ℕ) (v : ServiceInfo) :
    Current buffers i v ↔ Live pairOf (buffers.map changeOf) i v := by
  simp only [Current, Live, List.getElem?_map, Option.map_eq_some_iff, changeOf_put_iff,
    forall_exists_index, and_imp]
  constructor
  · rintro ⟨h, hlater⟩
    exact ⟨h, fun j c hij d hd hc => hc ▸ (changeOf_touches_iff d _).not.2 (hlater j d hij hd)⟩
  · rintro ⟨h, hlater⟩
    exact ⟨h, fun j d hij hd => (changeOf_touches_iff d _).not.1 (hlater j _ hij d hd rfl)⟩

end Requests

/-- All that one buffer can lead to. -/
theorem processData_cases (p : Provider) (data : Bytes) :
    (∃ e, processData p data = ⟨[], .error e⟩) ∨ processData p data = ⟨[], .ok p⟩ ∨
    (∃ info, Requests .registerService data info ∧ processData p data = register p info) ∨
    (∃ info, Requests .unregisterService data info ∧ processData p data = unregister p info) ∨
    ∃ info, Requests .inquiry data info ∧ processData p data = inquiry p info := by
  cases hd : decodeData data with
  | error e => exact .inl ⟨e, by rw [processData, hd]⟩
  | ok o =>
    cases o with
    | none => exact .inr (.inl (by rw [processData, hd]))
    | some hi =>
      obtain ⟨head, info⟩ := hi
      by_cases h1 : head.action = Action.registerService.code
      · have hr : Requests .registerService data info := ⟨head, hd, h1⟩
        exact .inr (.inr (.inl ⟨info, hr, processData_register hr p⟩))
      by_cases h2 : head.action = Action.unregisterService.code
      · have hu : Requests .unregisterService data info := ⟨head, hd, h2⟩
        exact .inr (.inr (.inr (.inl ⟨info, hu, processData_unregister hu p⟩)))
      by_cases h3 : head.action = Action.inquiry.code
      · exact .inr (.inr (.inr (.inr ⟨info, ⟨head, hd, h3⟩, processData_inquiry hd h3⟩)))
      · refine .inr (.inl ?_)
        rw [processData, hd]
        exact handleAction_unknown p head.action info h1 h2 h3

section Runs

theorem processData_result {p p' : Provider} {data : Bytes} (hu : Unique pairOf p)
    (h : (processData p data).result = .ok p') : p' = applyFront pairOf p (changeOf data) := by
  rcases changeOf_cases data with ⟨info, hr, hc⟩ | ⟨info, hun, hc⟩ | ⟨hc, hr, hun⟩
  · rw [processData_register hr] at h
    rw [hc, ← Except.ok.inj h]
    exact addInfo_eq_putFront hu info
  · rw [processData_unregister hun] at h
    rw [hc, ← Except.ok.inj h]
    exact removeByName_eq_delete hu info.deviceName info.serviceName
  · rw [hc]
    rcases processData_cases p data with ⟨e, hs⟩ | hs | ⟨info, hreq, -⟩ | ⟨info, hreq, -⟩ |
      ⟨info, -, hs⟩
    · rw [hs] at h
      cases h
    · rw [hs] at h
      exact (Except.ok.inj h).symm
    · exact absurd hreq (hr info)
    · exact absurd hreq (hun info)
    · rw [hs] at h
      exact inquiry_result h

theorem runBuffers_append (buffers : List Bytes) (data : Bytes) :
    runBuffers (buffers ++ [data]) =
      runBuffers buffers >>= fun p => (processData p data).result := by
  rw [runBuffers, List.foldlM_append]
  simp only [List.foldlM_cons, List.foldlM_nil, bind_pure]
  rfl

theorem runBuffers_snoc {buffers : List Bytes} {p : Provider} (h : runBuffers buffers = .ok p)
    (data : Bytes) : runBuffers (buffers ++ [data]) = (processData p data).result := by
  rw [runBuffers_append, h]
  rfl

theorem runBuffers_eq_replayFront {buffers : List Bytes} {p : Provider}
    (h : runBuffers buffers = .ok p) : p = replayFront pairOf (buffers.map changeOf) := by
  induction buffers using List.reverseRecOn generalizing p with
  | nil => exact (Except.ok.inj h).symm
  | append_singleton buffers data ih =>
    cases hq : runBuffers buffers with
    | error e =>
      rw [runBuffers_append, hq] at h
      cases h
    | ok q =>
      rw [runBuffers_snoc hq] at h
      have hqe := ih hq
      have hu : Unique pairOf q := hqe ▸ replayFront_unique pairOf _
      rw [List.map_append, List.map_singleton, replayFront_append, ← hqe]
      exact processData_result hu h

theorem runBuffers_isHistory {buffers : List Bytes} {p : Provider}
    (h : runBuffers buffers = .ok p) : IsHistory buffers p := by
  rw [runBuffers_eq_replayFront h]
  refine ⟨?_, replayFront_unique pairOf _, ?_⟩
  · intro v
    rw [mem_replayFront_iff]
    simp only [current_iff_live]
  · refine (replayFront_newest_first pairOf _).imp ?_
    rintro v w ⟨i, j, hij, hi, hj⟩
    exact ⟨i, j, hij, (current_iff_live _ _ _).2 hi, (current_iff_live _ _ _).2 hj⟩

theorem processData_handles (p : Provider) (data : Bytes) : Handles p data (processData p data) := by
  constructor
  · intro info hr
    rw [processData_register hr]
    exact ⟨succData, rfl, succData_accepted⟩
  · intro info hu
    rw [processData_unregister hu, unregister_sent]
    exact ⟨fun hp => ⟨succData, by rw [if_pos hp], succData_accepted⟩,
      fun hp => ⟨noFoundData, by rw [if_neg hp], noFoundData_accepted⟩⟩
  · rintro (hd | ⟨head, info, hd, h1, h2, h3⟩)
    · rw [processData, hd]
    · rw [processData, hd]
      simp only [handleAction_unknown p head.action info h1 h2 h3]
  · rintro info ⟨head, hd, ha⟩ p' hp
    rw [processData_inquiry hd ha] at hp
    exact inquiry_result hp

end Runs

/-- Along every history without a panic the registry holds exactly the current
registrations, newest first, and every next buffer is handled accordingly. -/
theorem registry_equals_history (buffers : List Bytes) (p : Provider)
    (h : runBuffers buffers = .ok p) :
    IsHistory buffers p ∧ ∀ data, Handles p data (processData p data) :=
  ⟨runBuffers_isHistory h, processData_handles p⟩

section Examples

def registerData (i : ServiceInfo) : Bytes := dataBuffer Action.registerService.code i.marshal

theorem requests_registerData {i : ServiceInfo} (h : i.marshal.length ≤ payloadLen) :
    Requests .registerService (registerData i) i.coerce :=
  ⟨_, decodeData_dataBuffer _ h, by rw [headOf_dataBuffer]⟩

theorem runBuffers_registers {infos : List ServiceInfo}
    (h : ∀ i ∈ infos, i.marshal.length ≤ payloadLen) : runBuffers (infos.map registerData) =
      .ok (infos.foldl (fun p i => addInfo i.coerce p) getProvider) := by
  induction infos using List.reverseRecOn with
  | nil => rfl
  | append_singleton infos i ih =>
    have hfront := ih fun j hj => h j (List.mem_append_left _ hj)
    have hi := h i (List.mem_append_right _ (List.mem_singleton_self i))
    rw [List.map_append, List.map_singleton, runBuffers_snoc hfront,
      processData_register (requests_registerData hi), List.foldl_append]
    rfl

def playMusicRegister : Bytes := registerData playMusic

theorem requests_playMusicRegister :
    Requests .registerService playMusicRegister playMusic.coerce :=
  requests_registerData (by decide)

theorem runBuffers_playMusic : runBuffers [playMusicRegister] = .ok [playMusic.coerce] := by
  have h : runBuffers ([playMusic].map registerData) = _ := runBuffers_registers (by decide)
  exact h

theorem registry_equals_history_playMusic : IsHistory [playMusicRegister] [playMusic.coerce] ∧
    ∀ data, Handles [playMusic.coerce] data (processData [playMusic.coerce] data) :=
  registry_equals_history [playMusicRegister] [playMusic.coerce] runBuffers_playMusic

end Examples

end MiniServiceDiscover.GoHistory
