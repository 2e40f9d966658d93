import MiniServiceDiscover.JavaJsonText

set_option autoImplicit false

/-! What the Java daemon makes of a datagram that does not fill the buffer: behind
it lie the bytes of earlier datagrams. -/
namespace MiniServiceDiscover.JavaReceive
open WordSum WireFormat JavaProtocal JavaProvider JavaDaemon JavaJsonText

/-- The short at word `k`; bytes that are missing count as zero. -/
def shortAt (k : ℕ) (b : JavaBytes) : Int16 := shortOf (b.getD (2 * k + 1) 0) (b.getD (2 * k) 0)

def lenOf (b : JavaBytes) : ℤ := (shortAt 2 b).toInt

def counted (b : JavaBytes) : JavaBytes := (b.drop headLen).take (lenOf b).toNat

def sumOf (bytes : JavaBytes) : Int16 := bytes.foldl (fun s b => s + b.toInt16) 0

def SumRight (b : JavaBytes) : Prop := sumOf (counted b) = shortAt 3 b

instance (b : JavaBytes) : Decidable (SumRight b) := by
  unfold SumRight
  infer_instance

/-- The header counts no more bytes than the buffer has. -/
def LenFits (b : JavaBytes) : Prop := lenOf b ≤ payloadLen

instance (b : JavaBytes) : Decidable (LenFits b) := by
  unfold LenFits
  infer_instance

/-- The datagram brings its header and all the bytes the header counts. -/
def Covered (datagram : JavaBytes) : Prop :=
  protocalLen ≤ datagram.length ∨ headLen + (lenOf datagram).toNat ≤ datagram.length

/-- The header counts more bytes than any buffer has. -/
def Overlong (datagram : JavaBytes) : Prop := 6 ≤ datagram.length ∧ ¬ LenFits datagram

/-- Whatever an earlier datagram left behind it, the buffer is rejected. -/
def Hopeless (datagram : JavaBytes) : Prop :=
  ∀ b : JavaBytes, b.length = protocalLen → LenFits b → LenFits (receive datagram b) ∧
    (¬ SumRight (receive datagram b) ∨ shortAt 1 (receive datagram b) = infoTypeActionInvalid)

/-- Two daemons with one registry make the same of the datagram, whatever each
received before. -/
def Independent (oj : OrgJson) (datagram : JavaBytes) : Prop :=
  ∀ before before' : List JavaBytes, (run oj before).running = true →
    (run oj before').running = true → (run oj before).provider = (run oj before').provider →
    handle oj (run oj before).provider (receive datagram (run oj before).buffer) =
      handle oj (run oj before').provider (receive datagram (run oj before').buffer)

section Decoding
variable {b : JavaBytes}

theorem index_eq {i : ℕ} (h : i < b.length) : index b i = .ok (b.getD i 0) := by
  rw [index, List.getD_eq_getElem?_getD, List.getElem?_eq_getElem h]
  rfl

theorem getShort_eq {k : ℕ} (h : 2 * k + 1 < b.length) : getShort b (2 * k) = .ok (shortAt k b) := by
  rw [getShort, index_eq h, index_eq (Nat.lt_of_succ_lt h)]
  rfl

theorem ofBytes_eq (h : headLen ≤ b.length) : ProtocalHead.ofBytes b =
    .ok ⟨shortAt 0 b, shortAt 1 b, shortAt 2 b, shortAt 3 b⟩ := by
  unfold headLen at h
  rw [ProtocalHead.ofBytes, getShort_eq (k := 0) (by omega), getShort_eq (k := 1) (by omega),
    getShort_eq (k := 2) (by omega), getShort_eq (k := 3) (by omega)]
  rfl

theorem checksumFrom_short (sum : Int16) (n : ℕ) (data : JavaBytes) (h : data.length < n) :
    checksumFrom sum n data = .error .arrayIndexOutOfBounds := by
  induction n generalizing sum data with
  | zero => exact absurd h (Nat.not_lt_zero _)
  | succ n ih =>
    cases data with
    | nil => rfl
    | cons b data => exact ih _ _ (Nat.lt_of_succ_lt_succ h)

theorem drop_headLen_length (hb : b.length = protocalLen) : (b.drop headLen).length = payloadLen := by
  rw [List.length_drop, hb]
  rfl

theorem decodeAction_eq (hb : b.length = protocalLen) : decodeAction b =
    if LenFits b then .ok (if SumRight b then shortAt 1 b else infoTypeActionInvalid)
    else .error .arrayIndexOutOfBounds := by
  have hl := drop_headLen_length hb
  rw [decodeAction, ofBytes_eq (by rw [hb]; decide)]
  change (checksumFrom 0 (lenOf b).toNat (b.drop headLen) >>= _) = _
  by_cases hf : LenFits b
  · rw [if_pos hf, checksumFrom_eq _ _ _ (by unfold LenFits at hf; omega)]
    rfl
  · rw [if_neg hf, checksumFrom_short _ _ _ (by unfold LenFits at hf; omega)]
    rfl

theorem getServiceInfo_eq (oj : OrgJson) (hb : b.length = protocalLen) (hf : LenFits b) :
    getServiceInfo oj b = if lenOf b < 0 then .error .stringIndexOutOfBounds
      else .ok (match oj.newJson (oj.newString (counted b)) with
        | none => .fresh
        | some jsonObj => readMembers oj jsonObj) := by
  rw [getServiceInfo, ofBytes_eq (by rw [hb]; decide)]
  change (stringOf oj b headLen (lenOf b) >>= _) = _
  by_cases h : lenOf b < 0
  · rw [stringOf, if_pos (.inl h), if_pos h]
    rfl
  · have hin : ¬ (lenOf b < 0 ∨ (b.length : ℤ) < headLen + lenOf b) := by
      unfold LenFits at hf
      rw [hb]
      simp only [payloadLen, packetLen, headLen, protocalLen] at hf ⊢
      omega
    rw [stringOf, if_neg hin, if_neg h]
    rfl

/-- The loop reads a buffer through its header and the bytes the header counts. -/
theorem handle_congr (oj : OrgJson) (provider : ServiceInfoList) {b' : JavaBytes}
    (hb : b.length = protocalLen) (hb' : b'.length = protocalLen) (hf : LenFits b)
    (hword : ∀ k, k < 4 → shortAt k b = shortAt k b') (hcounted : counted b = counted b') :
    handle oj provider b = handle oj provider b' := by
  have hlen : lenOf b = lenOf b' := congrArg Int16.toInt (hword 2 (by decide))
  have hf' : LenFits b' := by
    unfold LenFits at hf ⊢
    rwa [← hlen]
  have hsum : SumRight b ↔ SumRight b' := by
    rw [SumRight, SumRight, hcounted, hword 3 (by decide)]
  have ha : decodeAction b = decodeAction b' := by
    rw [decodeAction_eq hb, decodeAction_eq hb', if_pos hf, if_pos hf', hword 1 (by decide)]
    simp only [hsum]
  have hi : getServiceInfo oj b = getServiceInfo oj b' := by
    rw [getServiceInfo_eq oj hb hf, getServiceInfo_eq oj hb' hf', hlen, hcounted]
  rw [handle, handle, ha, hi]

theorem handle_overlong (oj : OrgJson) (provider : ServiceInfoList) (hb : b.length = protocalLen)
    (hf : ¬ LenFits b) : handle oj provider b =
      ⟨none, none, provider, ⟨[], some (.codec .arrayIndexOutOfBounds)⟩⟩ := by
  rw [handle, decodeAction_eq hb, if_neg hf]

/-- A buffer that is rejected, or whose action is no case of the switch, changes nothing. -/
theorem handle_quiet (oj : OrgJson) (provider : ServiceInfoList) (hb : b.length = protocalLen)
    (hf : LenFits b) {action : Int16}
    (ha : (if SumRight b then shortAt 1 b else infoTypeActionInvalid) = action)
    (hc : caseOf action = none) :
    handle oj provider b = ⟨some action, none, provider, ⟨[], none⟩⟩ := by
  rw [handle, decodeAction_eq hb, if_pos hf, ha]
  simp only [hc]

theorem handle_rejected (oj : OrgJson) (provider : ServiceInfoList) (hb : b.length = protocalLen)
    (hf : LenFits b) (hr : ¬ SumRight b ∨ shortAt 1 b = infoTypeActionInvalid) :
    handle oj provider b = ⟨some infoTypeActionInvalid, none, provider, ⟨[], none⟩⟩ := by
  refine handle_quiet oj provider hb hf ?_ (by decide)
  rcases hr with hs | ha
  · rw [if_neg hs]
  · rw [ha, ite_self]

theorem handle_action (oj : OrgJson) (provider : ServiceInfoList) (hb : b.length = protocalLen) :
    (handle oj provider b).action =
      if LenFits b then some (if SumRight b then shortAt 1 b else infoTypeActionInvalid)
      else none := by
  rw [handle, decodeAction_eq hb]
  by_cases hf : LenFits b
  · rw [if_pos hf, if_pos hf]
    simp only
    split
    · rfl
    · split <;> rfl
  · rw [if_neg hf, if_neg hf]

end Decoding

section Receive
variable {d b : JavaBytes}

theorem receive_length (d b : JavaBytes) : (receive d b).length = b.length := by
  rw [receive, List.length_append, List.length_take, List.length_drop]
  omega

theorem getD_receive {i : ℕ} (hi : i < b.length) :
    (receive d b).getD i 0 = if i < d.length then d.getD i 0 else b.getD i 0 := by
  rw [receive, List.getD_eq_getElem?_getD, List.getElem?_append, List.length_take]
  by_cases h : i < d.length
  · rw [if_pos (by omega), if_pos h, List.getElem?_take_of_lt hi, List.getD_eq_getElem?_getD]
  · rw [if_neg (by omega), if_neg h, List.getElem?_drop, List.getD_eq_getElem?_getD]
    congr 2
    omega

theorem shortAt_receive_front {k : ℕ} (hk : 2 * k + 1 < b.length) (h : 2 * k + 1 < d.length) :
    shortAt k (receive d b) = shortAt k d := by
  rw [shortAt, shortAt, getD_receive hk, getD_receive (Nat.lt_of_succ_lt hk), if_pos h,
    if_pos (Nat.lt_of_succ_lt h)]

theorem shortAt_receive_back {k : ℕ} (hk : 2 * k + 1 < b.length) (h : d.length ≤ 2 * k) :
    shortAt k (receive d b) = shortAt k b := by
  rw [shortAt, shortAt, getD_receive hk, getD_receive (Nat.lt_of_succ_lt hk),
    if_neg (by omega), if_neg (by omega)]

theorem receive_long (h : b.length ≤ d.length) : receive d b = d.take b.length := by
  rw [receive, List.drop_eq_nil_of_le h, List.append_nil]

theorem receive_set (j : ℕ) (v : Int8) (h : d.length ≤ j) :
    receive d (b.set j v) = (receive d b).set j v := by
  rw [receive, receive, List.length_set, List.drop_set, if_neg (by omega),
    List.set_append_right _ _ (by rw [List.length_take]; omega), List.length_take]
  by_cases hb : d.length ≤ b.length
  · rw [Nat.min_eq_right hb]
  · rw [List.drop_eq_nil_of_le (by omega), List.set_nil, List.set_nil]

theorem lenOf_receive (hb : b.length = protocalLen) (h : 6 ≤ d.length) :
    lenOf (receive d b) = lenOf d :=
  congrArg Int16.toInt (shortAt_receive_front (by rw [hb]; decide) h)

theorem Overlong.receive (hb : b.length = protocalLen) (h : Overlong d) :
    ¬ LenFits (JavaDaemon.receive d b) := by
  unfold LenFits
  rw [lenOf_receive hb h.1]
  exact h.2

theorem counted_receive (hb : b.length = protocalLen) (hd : d.length ≤ protocalLen)
    (hc : headLen + (lenOf d).toNat ≤ d.length) : counted (receive d b) = counted d := by
  have h6 : 6 ≤ d.length := le_trans (by decide) (le_trans (Nat.le_add_right _ _) hc)
  have hr : receive d b = d ++ b.drop d.length := by
    rw [receive, List.take_of_length_le (hb ▸ hd)]
  rw [counted, counted, lenOf_receive hb h6, hr,
    List.drop_append_of_le_length (le_trans (Nat.le_add_right _ _) hc),
    List.take_append_of_le_length]
  rw [List.length_drop]
  omega

/-- A datagram that covers what the loop reads leaves nothing to the earlier ones. -/
theorem handle_covered (oj : OrgJson) (provider : ServiceInfoList) {b' : JavaBytes}
    (hb : b.length = protocalLen) (hb' : b'.length = protocalLen) (hc : Covered d) :
    handle oj provider (receive d b) = handle oj provider (receive d b') := by
  by_cases hd : protocalLen ≤ d.length
  · rw [receive_long (hb ▸ hd), receive_long (hb' ▸ hd), hb, hb']
  have hc := hc.resolve_left hd
  have h8 : headLen ≤ d.length := le_trans (Nat.le_add_right _ _) hc
  have hl := (receive_length d b).trans hb
  have hl' := (receive_length d b').trans hb'
  by_cases hf : LenFits (receive d b)
  · refine handle_congr oj provider hl hl' hf ?_ ?_
    · intro k hk
      have hk8 : 2 * k + 1 < 8 := by omega
      rw [shortAt_receive_front (by rw [hb]; exact lt_trans hk8 (by decide)) (lt_of_lt_of_le hk8 h8),
        shortAt_receive_front (by rw [hb']; exact lt_trans hk8 (by decide)) (lt_of_lt_of_le hk8 h8)]
    · rw [counted_receive hb (le_of_not_ge hd) hc, counted_receive hb' (le_of_not_ge hd) hc]
  · have hf' : ¬ LenFits (receive d b') := by
      have h6 : 6 ≤ d.length := le_trans (by decide) h8
      rwa [LenFits, lenOf_receive hb' h6, ← lenOf_receive hb h6]
    rw [handle_overlong oj provider hl hf, handle_overlong oj provider hl' hf']

end Receive

section Reach
variable (oj : OrgJson)

theorem thrown_of_overlong (provider : ServiceInfoList) {b : JavaBytes}
    (hb : b.length = protocalLen) (h : (handle oj provider b).sending.thrown = none) :
    LenFits b := by
  by_contra hf
  rw [handle_overlong oj provider hb hf] at h
  exact Option.some_ne_none _ h

theorem step_running {s : State} (h : s.running = true) (datagram : JavaBytes) :
    step oj s datagram =
      ⟨receive datagram s.buffer, (handle oj s.provider (receive datagram s.buffer)).provider,
        (handle oj s.provider (receive datagram s.buffer)).sending.thrown.isNone⟩ := by
  rw [step, if_pos h]

/-- A loop that goes on has a buffer whose header counts no more than it has. -/
structure Settled (s : State) : Prop where
  length : s.buffer.length = protocalLen
  fits : s.running = true → LenFits s.buffer

theorem init_settled : Settled init where
  length := List.length_replicate
  fits := fun _ => by decide

theorem step_settled (s : State) (datagram : JavaBytes) (hs : Settled s) :
    Settled (step oj s datagram) := by
  by_cases hr : s.running = true
  · rw [step_running oj hr]
    have hl := (receive_length datagram s.buffer).trans hs.length
    exact ⟨hl, fun h => thrown_of_overlong oj s.provider hl (Option.isNone_iff_eq_none.1 h)⟩
  · rw [step, if_neg hr]
    exact hs

theorem run_settled (datagrams : List JavaBytes) : Settled (run oj datagrams) :=
  List.foldlRecOn datagrams (step oj) init_settled fun s hs d _ => step_settled oj s d hs

/-- A header whose action is no case of the switch. -/
def quieted (b : JavaBytes) : JavaBytes := [0, 0, -1, -1] ++ b.drop 4

theorem quieted_length {b : JavaBytes} (hb : b.length = protocalLen) :
    (quieted b).length = protocalLen := by
  rw [quieted, List.length_append, List.length_drop, hb]
  rfl

theorem getD_quieted {b : JavaBytes} {i : ℕ} (h : 4 ≤ i) : (quieted b).getD i 0 = b.getD i 0 := by
  rw [quieted, List.getD_eq_getElem?_getD, List.getElem?_append_right h, List.getElem?_drop,
    List.getD_eq_getElem?_getD]
  congr 2
  exact Nat.add_sub_cancel' h

theorem shortAt_quieted {b : JavaBytes} {k : ℕ} (hk : 2 ≤ k) : shortAt k (quieted b) = shortAt k b := by
  rw [shortAt, shortAt, getD_quieted (by omega), getD_quieted (by omega)]

/-- The loop ignores such a packet, but it stays in the buffer. -/
theorem run_quieted {b : JavaBytes} (hb : b.length = protocalLen) (hf : LenFits b) :
    run oj [quieted b] = ⟨quieted b, [], true⟩ := by
  have hl := quieted_length hb
  have hq : LenFits (quieted b) := by rwa [LenFits, lenOf, shortAt_quieted (Nat.le_refl 2)]
  have hr : receive (quieted b) init.buffer = quieted b := by
    rw [receive_long (by rw [hl]; exact List.length_replicate.le)]
    exact List.take_of_length_le (by rw [hl]; exact List.length_replicate.ge)
  have ha : shortAt 1 (quieted b) = infoTypeActionInvalid := by
    rw [shortAt]
    change shortOf (-1) (-1) = _
    decide
  change step oj init (quieted b) = _
  rw [step_running oj rfl, hr, handle_rejected oj _ hl hq (.inr ha)]
  rfl

theorem receive_quieted {d b : JavaBytes} (hb : 4 ≤ b.length) (h : 4 ≤ d.length) :
    receive d (quieted b) = receive d b := by
  have hl : (quieted b).length = b.length := by
    rw [quieted, List.length_append, List.length_drop]
    change 4 + _ = _
    omega
  have hdrop : (quieted b).drop d.length = b.drop d.length := by
    rw [quieted, List.drop_append, List.drop_eq_nil_of_le h, List.nil_append, List.drop_drop]
    congr 1
    change 4 + (d.length - 4) = d.length
    omega
  rw [receive, receive, hl, hdrop]

/-- Two buffers an earlier datagram can leave behind, and what they make of it. -/
theorem not_independent {d p q : JavaBytes} (hd : 4 ≤ d.length) (hp : p.length = protocalLen)
    (hf : LenFits p) (hq : q.length = protocalLen) (hf' : LenFits q)
    (h : (handle oj [] (receive d p)).action ≠ (handle oj [] (receive d q)).action) :
    ¬ Independent oj d := by
  intro hi
  have he := hi [quieted p] [quieted q]
  rw [run_quieted oj hp hf, run_quieted oj hq hf'] at he
  have he := he rfl rfl rfl
  change handle oj [] (receive d (quieted p)) = handle oj [] (receive d (quieted q)) at he
  rw [receive_quieted (by rw [hp]; decide) hd, receive_quieted (by rw [hq]; decide) hd] at he
  exact h (congrArg Handled.action he)

end Reach

section Flip

theorem byteShort_injective {x y : Int8} (h : x.toInt16 = y.toInt16) : x = y := by
  rw [← Int8.toInt_inj, ← Int8.toInt_toInt16 x, ← Int8.toInt_toInt16 y, h]

theorem getD_set {b : JavaBytes} {j : ℕ} (hj : j < b.length) (v : Int8) (i : ℕ) :
    (b.set j v).getD i 0 = if j = i then v else b.getD i 0 := by
  rw [List.getD_eq_getElem?_getD, List.getElem?_set, List.getD_eq_getElem?_getD]
  by_cases h : j = i
  · rw [if_pos h, if_pos hj, if_pos h]
    rfl
  · rw [if_neg h, if_neg h]

theorem shortAt_set {b : JavaBytes} {j : ℕ} (hj : j < b.length) (v : Int8) {k : ℕ}
    (h : j < 2 * k ∨ 2 * k + 1 < j) : shortAt k (b.set j v) = shortAt k b := by
  rw [shortAt, shortAt, getD_set hj, getD_set hj, if_neg (by omega), if_neg (by omega)]

theorem sumOf_concat (bytes : JavaBytes) (v : Int8) :
    sumOf (bytes ++ [v]) = sumOf bytes + v.toInt16 := by
  rw [sumOf, List.foldl_append]
  rfl

theorem shortOf_high_injective {x y low : Int8} (h : shortOf x low = shortOf y low) : x = y := by
  have hw := congrArg (fun s : Int16 => s.toUInt16.toNat) h
  simp only [shortOf_toUInt16, word_toNat] at hw
  exact congrArg UInt8.toInt8 (UInt8.toNat_inj.1 (by omega : x.toUInt8.toNat = y.toUInt8.toNat))

theorem shortOf_zero_toInt (low : Int8) : (shortOf 0 low).toInt = low.toUInt8.toNat := by
  have h : (shortOf 0 low).toBitVec.toNat = low.toUInt8.toNat := by
    change (shortOf 0 low).toUInt16.toNat = _
    rw [shortOf_toUInt16, word_toNat]
    rfl
  have hlow := low.toUInt8.toNat_lt
  rw [← h]
  exact BitVec.toInt_eq_toNat_of_lt (by omega)

theorem counted_of_zero {b : JavaBytes} (h : lenOf b = 0) : counted b = [] := by
  rw [counted, h]
  exact List.take_zero

theorem counted_concat {b : JavaBytes} {m : ℕ} (hm : (lenOf b).toNat = m + 1)
    (hj : headLen + m < b.length) :
    counted b = (b.drop headLen).take m ++ [b.getD (headLen + m) 0] := by
  rw [counted, hm, List.take_add_one, List.getElem?_drop, List.getElem?_eq_getElem hj,
    List.getD_eq_getElem?_getD, List.getElem?_eq_getElem hj]
  rfl

/-- A byte other than the one there. -/
def otherThan (v : Int8) : Int8 := if v = 0 then 1 else 0

theorem otherThan_ne (v : Int8) : otherThan v ≠ v := by
  unfold otherThan
  by_cases h : v = 0
  · rw [if_pos h, h]
    decide
  · rw [if_neg h]
    exact fun h' => h h'.symm

/-- Another byte at the end of the payload spoils the sum. -/
theorem sumRight_set_last {b : JavaBytes} {m : ℕ} (hm : (lenOf b).toNat = m + 1)
    (hj : headLen + m < b.length) (h : SumRight b) :
    ¬ SumRight (b.set (headLen + m) (otherThan (b.getD (headLen + m) 0))) := by
  intro h'
  have h8 : 8 ≤ headLen + m := Nat.le_add_right _ _
  have hlen : lenOf (b.set (headLen + m) (otherThan (b.getD (headLen + m) 0))) = lenOf b :=
    congrArg Int16.toInt (shortAt_set hj _ (.inr (by omega)))
  have hfront : ((b.set (headLen + m) (otherThan (b.getD (headLen + m) 0))).drop headLen).take m =
      (b.drop headLen).take m := by
    rw [List.drop_set, if_neg (by omega), List.take_set, List.set_eq_of_length_le]
    rw [List.length_take]
    omega
  rw [SumRight, counted_concat (hlen ▸ hm) (by rwa [List.length_set]), hfront, getD_set hj,
    if_pos rfl, shortAt_set hj _ (.inr (by omega)), ← h, counted_concat hm hj, sumOf_concat,
    sumOf_concat, Int16.add_right_inj] at h'
  exact otherThan_ne _ (byteShort_injective h')

/-- So does another checksum. -/
theorem sumRight_set_checksum {b : JavaBytes} (hb : b.length = protocalLen) (h : SumRight b) :
    ¬ SumRight (b.set 7 (otherThan (b.getD 7 0))) := by
  intro h'
  have hj : 7 < b.length := by
    rw [hb]
    decide
  have hlen : lenOf (b.set 7 (otherThan (b.getD 7 0))) = lenOf b :=
    congrArg Int16.toInt (shortAt_set hj _ (.inr (by decide)))
  have hc : counted (b.set 7 (otherThan (b.getD 7 0))) = counted b := by
    rw [counted, hlen, List.drop_set, if_pos (by decide)]
    rfl
  rw [SumRight, hc, h, shortAt, shortAt, getD_set hj, getD_set hj, if_pos rfl, if_neg (by decide)]
    at h'
  exact otherThan_ne _ (shortOf_high_injective h').symm

theorem lenFits_set {b : JavaBytes} {j : ℕ} (hj : j < b.length) (h6 : 6 ≤ j) (v : Int8) :
    LenFits (b.set j v) ↔ LenFits b := by
  rw [LenFits, LenFits, lenOf, lenOf, shortAt_set hj v (.inr (by omega))]

end Flip

section Dependence
variable (oj : OrgJson) {d p : JavaBytes}

theorem receive_init (d : JavaBytes) : (receive d init.buffer).length = protocalLen :=
  (receive_length d init.buffer).trans List.length_replicate

theorem sumRight_receive_tiny {b : JavaBytes} (hb : b.length = protocalLen) (hd : d.length ≤ 3)
    (hz : lenOf b = 0) :
    LenFits (receive d b) ∧ (SumRight (receive d b) ↔ 0 = shortAt 3 b) := by
  have hback : ∀ k, 2 ≤ k → k < 4 → shortAt k (receive d b) = shortAt k b := by
    intro k hk hk4
    have hk10 : 2 * k + 1 < 10 := by omega
    exact shortAt_receive_back (by rw [hb]; exact lt_trans hk10 (by decide)) (by omega)
  have hlen : lenOf (receive d b) = 0 := by rwa [lenOf, hback 2 (by decide) (by decide)]
  constructor
  · unfold LenFits
    rw [hlen]
    decide
  · rw [SumRight, counted_of_zero hlen, hback 3 (by decide) (by decide)]
    rfl

/-- Up to three bytes: the action itself comes from the buffer. -/
theorem not_independent_tiny (hd : d.length ≤ 3) : ¬ Independent oj d := by
  intro hi
  have hb : init.buffer.length = protocalLen := init_settled.length
  have h7 : 7 < init.buffer.length := by
    rw [hb]
    decide
  have hfits : LenFits (init.buffer.set 7 1) :=
    (lenFits_set h7 (by decide) 1).2 (init_settled.fits rfl)
  have hset : (init.buffer.set 7 1).length = protocalLen := List.length_set.trans hb
  have hq := quieted_length hset
  have hzero : lenOf (quieted (init.buffer.set 7 1)) = 0 := by
    rw [lenOf, shortAt_quieted (Nat.le_refl 2), shortAt_set h7 1 (.inr (by decide))]
    decide
  have hthree : shortAt 3 (quieted (init.buffer.set 7 1)) = 256 := by
    rw [shortAt_quieted (by decide)]
    decide
  obtain ⟨hf, hs⟩ := sumRight_receive_tiny hb hd (by decide)
  obtain ⟨hf', hs'⟩ := sumRight_receive_tiny hq hd hzero
  have he := hi [] [quieted (init.buffer.set 7 1)] rfl
  rw [run_quieted oj (List.length_set.trans hb) hfits] at he
  have ha := congrArg Handled.action (he rfl rfl)
  change (handle oj [] (receive d init.buffer)).action =
    (handle oj [] (receive d (quieted (init.buffer.set 7 1)))).action at ha
  rw [handle_action oj [] (receive_init d), handle_action oj [] ((receive_length d _).trans hq),
    if_pos hf, if_pos hf', if_pos (hs.2 (by decide)),
    if_neg (fun h => absurd (hs'.1 h) (by rw [hthree]; decide))] at ha
  have hhigh : (receive d init.buffer).getD 3 0 = 0 := by
    rw [getD_receive (by rw [hb]; decide), if_neg (by omega)]
    decide
  have hx := congrArg Int16.toInt (Option.some.inj ha)
  rw [shortAt, hhigh, shortOf_zero_toInt] at hx
  have hneg : infoTypeActionInvalid.toInt = -1 := by decide
  omega

/-- The buffer is accepted, and its last byte that is read comes from the buffer. -/
theorem not_independent_accepted (hd : 4 ≤ d.length) (hc : ¬ Covered d) (hp : p.length = protocalLen)
    (hfp : LenFits p) (hf : LenFits (receive d p)) (hs : SumRight (receive d p))
    (ha : shortAt 1 (receive d p) ≠ infoTypeActionInvalid) : ¬ Independent oj d := by
  have hl := (receive_length d p).trans hp
  obtain ⟨j, h6, hj, hdj, hflip⟩ : ∃ j, 6 ≤ j ∧ j < protocalLen ∧ d.length ≤ j ∧
      ¬ SumRight ((receive d p).set j (otherThan ((receive d p).getD j 0))) := by
    by_cases h8 : d.length < 8
    · exact ⟨7, by decide, by decide, by omega, sumRight_set_checksum hl hs⟩
    · have hlen : lenOf (receive d p) = lenOf d := lenOf_receive hp (by omega)
      have hn : ¬ headLen + (lenOf d).toNat ≤ d.length := fun h => hc (.inr h)
      have hfit : (lenOf d).toNat ≤ payloadLen := by
        rw [LenFits, hlen] at hf
        omega
      have hsize : headLen + payloadLen = protocalLen := rfl
      have hhead : headLen = 8 := rfl
      obtain ⟨m, hm⟩ : ∃ m, (lenOf d).toNat = m + 1 := ⟨(lenOf d).toNat - 1, by omega⟩
      refine ⟨headLen + m, by omega, by omega, by omega, sumRight_set_last ?_ (by omega) hs⟩
      rw [hlen, hm]
  have hj' : j < p.length := by rwa [hp]
  have hjr : j < (receive d p).length := by rwa [hl]
  refine not_independent oj hd hp hfp (q := p.set j (otherThan ((receive d p).getD j 0)))
    (by rwa [List.length_set]) ((lenFits_set hj' h6 _).2 hfp) ?_
  rw [receive_set _ _ hdj, handle_action oj [] hl, handle_action oj [] (by rwa [List.length_set]),
    if_pos hf, if_pos ((lenFits_set hjr h6 _).2 hf), if_pos hs, if_neg hflip]
  exact fun h => ha (Option.some.inj h)

/-- Five bytes: half of the length comes from the buffer. -/
theorem not_independent_half (hd : d.length = 5) (hp : p.length = protocalLen)
    (hfp : LenFits p) (hf : ¬ LenFits (receive d p)) : ¬ Independent oj d := by
  have hl := (receive_length d p).trans hp
  have h5 : 5 < p.length := by
    rw [hp]
    decide
  have hsmall : ∀ b : JavaBytes, 5 < b.length → LenFits (b.set 5 0) := by
    intro b hb
    have hlow := (b.getD (2 * 2) 0).toUInt8.toNat_lt
    have hsize : payloadLen = 1016 := rfl
    rw [LenFits, lenOf, shortAt, getD_set hb, getD_set hb, if_pos rfl, if_neg (by decide),
      shortOf_zero_toInt]
    omega
  refine not_independent oj (by omega) hp hfp (q := p.set 5 0) (by rwa [List.length_set])
    (hsmall p h5) ?_
  rw [receive_set _ _ (by omega), handle_action oj [] hl,
    handle_action oj [] (by rwa [List.length_set]), if_neg hf, if_pos (hsmall _ (by rw [hl]; decide))]
  exact fun h => Option.some_ne_none _ h.symm

/-- An empty datagram: the loop reads the buffer as it was. -/
theorem emptyDatagram_dependent : ¬ Independent textJson [] :=
  not_independent_tiny textJson (Nat.zero_le 3)

/-- The loop reads a datagram on its own exactly when the datagram covers what is
read, or counts more than any buffer has, or is rejected with anything behind it. -/
theorem independent_iff (datagram : JavaBytes) :
    Independent oj datagram ↔ Covered datagram ∨ Overlong datagram ∨ Hopeless datagram := by
  constructor
  · intro hi
    by_contra h
    obtain ⟨hc, h⟩ := not_or.1 h
    obtain ⟨ho, hh⟩ := not_or.1 h
    by_cases hd : datagram.length ≤ 3
    · exact not_independent_tiny oj hd hi
    have h4 : 4 ≤ datagram.length := by omega
    unfold Hopeless at hh
    push Not at hh
    obtain ⟨p, hp, hfp, hlive⟩ := hh
    by_cases hf : LenFits (receive datagram p)
    · obtain ⟨hs, ha⟩ := hlive hf
      exact not_independent_accepted oj h4 hc hp hfp hf hs ha hi
    · have hshort : datagram.length < 6 := by
        by_contra h6
        refine ho ⟨Nat.le_of_not_lt h6, ?_⟩
        rwa [LenFits, ← lenOf_receive hp (Nat.le_of_not_lt h6)]
      have h5 : datagram.length = 5 := by
        by_contra h5
        refine hf ?_
        rw [LenFits, lenOf, shortAt_receive_back (by rw [hp]; decide) (by omega)]
        exact hfp
      exact not_independent_half oj h5 hp hfp hf hi
  · rintro h before before' hr hr' hprov
    have hs := run_settled oj before
    have hs' := run_settled oj before'
    have hl := (receive_length datagram _).trans hs.length
    have hl' := (receive_length datagram _).trans hs'.length
    rw [← hprov]
    rcases h with hc | ho | hh
    · exact handle_covered oj _ hs.length hs'.length hc
    · rw [handle_overlong oj _ hl (ho.receive hs.length),
        handle_overlong oj _ hl' (ho.receive hs'.length)]
    · obtain ⟨hf, hq⟩ := hh _ hs.length (hs.fits hr)
      obtain ⟨hf', hq'⟩ := hh _ hs'.length (hs'.fits hr')
      rw [handle_rejected oj _ hl hf hq, handle_rejected oj _ hl' hf' hq']

end Dependence

end MiniServiceDiscover.JavaReceive
