import MiniServiceDiscover.WireFormat
import Mathlib.Data.List.TakeWhile

set_option autoImplicit false

/-! The read loops of the two daemons over a queue of datagrams. One receive call
returns bytes of one datagram, cut to the room that is left, and its sender. -/
namespace MiniServiceDiscover.DatagramFraming
open WireFormat

structure Datagram (β Addr : Type) where
  bytes : List β
  sender : Addr
  deriving DecidableEq, Repr

/-- A filled buffer, and the address its reply goes to. -/
structure Request (β Addr : Type) where
  bytes : List β
  sender : Addr
  deriving DecidableEq, Repr

section Loops
variable {β Addr : Type}

abbrev Queue (β Addr : Type) := List (Datagram β Addr)

/-- `ReadFrom` in Go, with `data[:rLen]` read so far. Without a datagram it blocks. -/
def readFrom (rNeedLen : ℕ) (data : List β) :
    Queue β Addr → Option (Request β Addr × Queue β Addr)
  | [] => none
  | d :: queue =>
    let read := data ++ d.bytes.take (rNeedLen - data.length)
    if read.length ≥ rNeedLen then some (⟨read, d.sender⟩, queue)
    else readFrom rNeedLen read queue

/-- What `udp_server_read` comes back with. -/
inductive Received (β Addr : Type) where
  | blocked
  | failed
  | filled (r : Request β Addr) (queue : Queue β Addr)

/-- `udp_server_read` in C: an empty receive ends it. -/
def udpServerRead (len : ℕ) (data : List β) : Queue β Addr → Received β Addr
  | [] => .blocked
  | d :: queue =>
    let ret := d.bytes.take (len - data.length)
    if ret.length ≤ 0 then .failed
    else if (data ++ ret).length ≥ len then .filled ⟨data ++ ret, d.sender⟩ queue
    else udpServerRead len (data ++ ret) queue

/-- The buffers `DaemonData.Loop` hands to `ProcessData`, with the address `Write`
replies to. -/
def loop : ℕ → Queue β Addr → List (Request β Addr)
  | 0, _ => []
  | fuel + 1, queue =>
    match readFrom packetLen [] queue with
    | none => []
    | some (r, rest) => r :: loop fuel rest

/-- The same for `server_loop`, which a failed read ends. -/
def serverLoop : ℕ → Queue β Addr → List (Request β Addr)
  | 0, _ => []
  | fuel + 1, queue =>
    match udpServerRead packetLen [] queue with
    | .blocked => []
    | .failed => []
    | .filled r rest => r :: serverLoop fuel rest

end Loops

/-- A daemon's read side, for any kind of byte. -/
abbrev Reader := ∀ {β Addr : Type}, Queue β Addr → List (Request β Addr)

/-- Every read consumes a datagram, so their number bounds the reads. -/
def goReader : Reader := fun queue => loop queue.length queue

def cReader : Reader := fun queue => serverLoop queue.length queue

section Framing
variable {β Addr : Type}

/-- Every byte with the number of its datagram. -/
def tagFrom (n : ℕ) : Queue β Addr → Queue (ℕ × β) Addr
  | [] => []
  | d :: queue => ⟨d.bytes.map fun b => (n, b), d.sender⟩ :: tagFrom (n + 1) queue

def whole (d : Datagram β Addr) : Bool := decide (packetLen ≤ d.bytes.length)

def cut (d : Datagram β Addr) : Request β Addr := ⟨d.bytes.take packetLen, d.sender⟩

/-- The requests are the whole datagrams, cut, as if there were no others, and each
comes from one datagram and is answered to its sender. -/
structure Framed (reader : Reader) (queue : Queue β Addr) : Prop where
  exact : reader queue = (queue.filter whole).map cut
  shortIgnored : reader queue = reader (queue.filter whole)
  single : ∀ r ∈ reader (tagFrom 0 queue), ∃ n d, queue[n]? = some d ∧ r.sender = d.sender ∧
    ∀ b ∈ r.bytes, b.1 = n

def total (queue : Queue β Addr) : ℕ := (queue.map fun d => d.bytes.length).sum

/-- The datagrams from the first short one on. -/
def fromShort (queue : Queue β Addr) : Queue β Addr := queue.dropWhile whole

end Framing

section Reads
variable {β Addr : Type} {need : ℕ}

theorem readFrom_whole {d : Datagram β Addr} (h : need ≤ d.bytes.length) (queue : Queue β Addr) :
    readFrom need [] (d :: queue) = some (⟨d.bytes.take need, d.sender⟩, queue) := by
  rw [readFrom]
  simp only [List.nil_append, List.length_nil, Nat.sub_zero, List.length_take]
  rw [if_pos (by omega)]

theorem readFrom_blocks {data : List β} {queue : Queue β Addr}
    (h : data.length + total queue < need) : readFrom need data queue = none := by
  induction queue generalizing data with
  | nil => rfl
  | cons d queue ih =>
    rw [total, List.map_cons, List.sum_cons] at h
    have hl : (data ++ d.bytes.take (need - data.length)).length ≤
        data.length + d.bytes.length := by
      rw [List.length_append, List.length_take]
      omega
    rw [readFrom]
    rw [if_neg (by omega), ih]
    unfold total
    omega

/-- With enough bytes in the queue the buffer is their first `need`, whichever
datagrams they are from. -/
theorem readFrom_fills {data : List β} {queue : Queue β Addr} (hd : data.length < need)
    (h : need ≤ data.length + total queue) :
    ∃ r rest, readFrom need data queue = some (r, rest) ∧
      r.bytes = (data ++ queue.flatMap Datagram.bytes).take need := by
  induction queue generalizing data with
  | nil =>
    simp only [total, List.map_nil, List.sum_nil] at h
    omega
  | cons d queue ih =>
    rw [total, List.map_cons, List.sum_cons] at h
    have hl : (data ++ d.bytes.take (need - data.length)).length =
        data.length + min (need - data.length) d.bytes.length := by
      rw [List.length_append, List.length_take]
    rw [readFrom]
    by_cases hfull : need ≤ data.length + d.bytes.length
    · rw [if_pos (by omega)]
      refine ⟨_, _, rfl, ?_⟩
      rw [List.flatMap_cons, ← List.append_assoc, List.take_append_of_le_length
        (by rw [List.length_append]; omega), List.take_append, List.take_of_length_le hd.le]
    · rw [if_neg (by omega)]
      have ht : d.bytes.take (need - data.length) = d.bytes := List.take_of_length_le (by omega)
      rw [ht] at hl ⊢
      obtain ⟨r, rest, hr, hb⟩ := @ih (data ++ d.bytes) (by omega) (by unfold total; omega)
      exact ⟨r, rest, hr, by rw [hb, List.flatMap_cons, List.append_assoc]⟩

/-- On non-empty datagrams the C loop reads what the Go loop reads. -/
theorem udpServerRead_eq {data : List β} {queue : Queue β Addr} (hd : data.length < need)
    (hne : ∀ d ∈ queue, d.bytes ≠ []) :
    udpServerRead need data queue = match readFrom need data queue with
      | none => .blocked
      | some (r, rest) => .filled r rest := by
  induction queue generalizing data with
  | nil => rfl
  | cons d queue ih =>
    have hpos : 0 < d.bytes.length := List.length_pos_iff.2 (hne d (by simp))
    have hret : ¬ (d.bytes.take (need - data.length)).length ≤ 0 := by
      rw [List.length_take]
      omega
    rw [udpServerRead, readFrom, if_neg hret]
    by_cases hfull : (data ++ d.bytes.take (need - data.length)).length ≥ need
    · rw [if_pos hfull, if_pos hfull]
    · rw [if_neg hfull, if_neg hfull]
      exact ih (Nat.lt_of_not_ge hfull) fun e he => hne e (by simp [he])

theorem readFrom_suffix {data : List β} {queue rest : Queue β Addr} {r : Request β Addr}
    (h : readFrom need data queue = some (r, rest)) : rest.Sublist queue := by
  induction queue generalizing data with
  | nil => cases h
  | cons d queue ih =>
    rw [readFrom] at h
    split_ifs at h
    · obtain ⟨-, rfl⟩ := Prod.mk.inj (Option.some.inj h)
      exact List.sublist_cons_self d queue
    · exact (ih h).cons d

theorem serverLoop_eq_loop (fuel : ℕ) {queue : Queue β Addr} (hne : ∀ d ∈ queue, d.bytes ≠ []) :
    serverLoop fuel queue = loop fuel queue := by
  induction fuel generalizing queue with
  | zero => rfl
  | succ fuel ih =>
    rw [serverLoop, loop, udpServerRead_eq (show 0 < packetLen by decide) hne]
    cases hr : readFrom packetLen [] queue with
    | none => rfl
    | some p =>
      obtain ⟨r, rest⟩ := p
      have hs := readFrom_suffix hr
      exact congrArg (List.cons r) (ih fun d hd => hne d (hs.subset hd))

end Reads

section Requests
variable {β Addr : Type}

theorem loop_whole {front : Queue β Addr} (h : ∀ d ∈ front, whole d = true) (fuel : ℕ)
    (queue : Queue β Addr) :
    loop (fuel + front.length) (front ++ queue) = front.map cut ++ loop fuel queue := by
  induction front with
  | nil => rfl
  | cons d front ih =>
    have hd : packetLen ≤ d.bytes.length := of_decide_eq_true (h d (by simp))
    rw [List.length_cons, ← Nat.add_assoc, loop, List.cons_append, readFrom_whole hd]
    exact congrArg (List.cons (cut d)) (ih fun e he => h e (by simp [he]))

theorem loop_blocks (fuel : ℕ) {queue : Queue β Addr} (h : total queue < packetLen) :
    loop fuel queue = [] := by
  cases fuel with
  | zero => rfl
  | succ fuel => rw [loop, readFrom_blocks (by simpa using h)]

theorem length_le_total {queue : Queue β Addr} {d : Datagram β Addr} (h : d ∈ queue) :
    d.bytes.length ≤ total queue :=
  List.single_le_sum (fun _ _ => Nat.zero_le _) _ (List.mem_map_of_mem h)

/-- The queue is a run of whole datagrams, and what comes from the first short one on. -/
theorem queue_split (queue : Queue β Addr) :
    queue = queue.takeWhile whole ++ fromShort queue ∧
      ∀ d ∈ queue.takeWhile whole, whole d = true :=
  ⟨List.takeWhile_append_dropWhile.symm, fun _ h => List.mem_takeWhile_imp h⟩

theorem loop_split (queue : Queue β Addr) :
    loop queue.length queue = (queue.takeWhile whole).map cut ++
      loop (fromShort queue).length (fromShort queue) := by
  obtain ⟨hq, hw⟩ := queue_split queue
  have h := loop_whole hw (fromShort queue).length (fromShort queue)
  rw [Nat.add_comm, ← List.length_append, ← hq] at h
  exact h

theorem goReader_fits {queue : Queue β Addr} (h : total (fromShort queue) < packetLen) :
    goReader queue = (queue.filter whole).map cut := by
  obtain ⟨hq, hw⟩ := queue_split queue
  have hshort : (fromShort queue).filter whole = [] := by
    rw [List.filter_eq_nil_iff]
    intro d hd hwd
    have hl := length_le_total hd
    have := of_decide_eq_true hwd
    omega
  have hf : queue.filter whole = queue.takeWhile whole := by
    conv_lhs => rw [hq]
    rw [List.filter_append, hshort, List.append_nil, List.filter_eq_self.2 hw]
  rw [goReader, loop_split, loop_blocks _ h, hf, List.append_nil]

end Requests

section Tags
variable {β Addr : Type}

theorem mem_tagFrom {n : ℕ} {queue : Queue β Addr} {e : Datagram (ℕ × β) Addr}
    (h : e ∈ tagFrom n queue) :
    ∃ (k : ℕ) (d : Datagram β Addr), queue[k]? = some d ∧
      e = ⟨d.bytes.map fun b => (n + k, b), d.sender⟩ := by
  induction queue generalizing n with
  | nil => cases h
  | cons d queue ih =>
    rcases List.mem_cons.1 h with rfl | h
    · exact ⟨0, d, rfl, rfl⟩
    · obtain ⟨k, d', hk, rfl⟩ := ih h
      exact ⟨k + 1, d', hk, by rw [Nat.add_assoc, Nat.add_comm 1 k]⟩

theorem whole_tag (n : ℕ) (d : Datagram β Addr) :
    whole (⟨d.bytes.map fun b => (n, b), d.sender⟩ : Datagram (ℕ × β) Addr) = whole d := by
  rw [whole, whole, List.length_map]

theorem total_tagFrom (n : ℕ) (queue : Queue β Addr) : total (tagFrom n queue) = total queue := by
  induction queue generalizing n with
  | nil => rfl
  | cons d queue ih =>
    have h := ih (n + 1)
    unfold total at h ⊢
    rw [tagFrom, List.map_cons, List.sum_cons, h, List.length_map]
    rfl

theorem fromShort_tagFrom (n : ℕ) (queue : Queue β Addr) :
    ∃ m, fromShort (tagFrom n queue) = tagFrom m (fromShort queue) := by
  induction queue generalizing n with
  | nil => exact ⟨n, rfl⟩
  | cons d queue ih =>
    unfold fromShort at ih ⊢
    rw [tagFrom]
    by_cases hw : whole d = true
    · rw [List.dropWhile_cons_of_pos (by rw [whole_tag, hw]), List.dropWhile_cons_of_pos hw]
      exact ih (n + 1)
    · rw [List.dropWhile_cons_of_neg (by rw [whole_tag]; exact hw), List.dropWhile_cons_of_neg hw]
      exact ⟨n, rfl⟩

theorem goReader_single {queue : Queue β Addr} (h : total (fromShort queue) < packetLen) :
    ∀ r ∈ goReader (tagFrom 0 queue), ∃ n d, queue[n]? = some d ∧ r.sender = d.sender ∧
      ∀ b ∈ r.bytes, b.1 = n := by
  obtain ⟨m, hm⟩ := fromShort_tagFrom 0 queue
  have ht : total (fromShort (tagFrom 0 queue)) < packetLen := by
    rw [hm, total_tagFrom]
    exact h
  intro r hr
  rw [goReader_fits ht] at hr
  obtain ⟨e, he, rfl⟩ := List.mem_map.1 hr
  obtain ⟨k, d, hk, rfl⟩ := mem_tagFrom (List.mem_filter.1 he).1
  refine ⟨k, d, hk, rfl, ?_⟩
  intro b hb
  obtain ⟨c, -, rfl⟩ := List.mem_map.1 (List.mem_of_mem_take hb)
  exact Nat.zero_add k

/-- A short datagram and enough behind it end up in one buffer. -/
theorem readFrom_mixes {queue : Queue β Addr} (hne : ∀ d ∈ queue, d.bytes ≠ []) (m : ℕ)
    {short : Datagram β Addr} (hs : ¬ whole short = true) (hs' : short.bytes ≠ [])
    (h : packetLen ≤ total (short :: queue)) :
    ∃ r rest a b, readFrom packetLen [] (tagFrom m (short :: queue)) = some (r, rest) ∧
      (m, a) ∈ r.bytes ∧ (m + 1, b) ∈ r.bytes := by
  have hlen : short.bytes.length < packetLen := Nat.lt_of_not_le fun hle => hs (decide_eq_true hle)
  have htag : packetLen ≤ ([] : List (ℕ × β)).length + total (tagFrom m (short :: queue)) := by
    rw [total_tagFrom, List.length_nil, Nat.zero_add]
    exact h
  obtain ⟨r, rest, hr, hb⟩ := readFrom_fills (show 0 < packetLen by decide) htag
  obtain ⟨a, as, ha⟩ := List.exists_cons_of_ne_nil hs'
  cases queue with
  | nil =>
    simp only [total, List.map_cons, List.map_nil, List.sum_cons, List.sum_nil] at h
    omega
  | cons next queue =>
    obtain ⟨b, bs, hbs⟩ := List.exists_cons_of_ne_nil (hne next (by simp))
    refine ⟨r, rest, a, b, hr, ?_, ?_⟩
    all_goals
      rw [hb, List.nil_append, tagFrom, tagFrom, List.flatMap_cons, List.flatMap_cons,
        List.take_append, List.length_map]
    · apply List.mem_append_left
      rw [List.take_of_length_le (by rw [List.length_map]; omega), ha]
      exact List.mem_cons_self
    · apply List.mem_append_right
      obtain ⟨k, hk⟩ := Nat.exists_eq_add_of_lt hlen
      have hpos : packetLen - short.bytes.length = k + 1 := by omega
      rw [hpos, hbs]
      exact List.mem_cons_self

theorem goReader_mixes {queue : Queue β Addr} (hne : ∀ d ∈ queue, d.bytes ≠ [])
    (h : packetLen ≤ total (fromShort queue)) :
    ∃ r ∈ goReader (tagFrom 0 queue), ∃ m a b, (m, a) ∈ r.bytes ∧ (m + 1, b) ∈ r.bytes := by
  obtain ⟨m, hm⟩ := fromShort_tagFrom 0 queue
  have hsub : (fromShort queue).Sublist queue := List.dropWhile_sublist _
  cases hq : fromShort queue with
  | nil =>
    rw [hq] at h
    exact absurd h (Nat.not_le.2 (show 0 < packetLen by decide))
  | cons short rest =>
    have hshort : ¬ whole short = true := by
      have hn := List.head?_dropWhile_not whole queue
      rw [show queue.dropWhile whole = short :: rest from hq] at hn
      simpa using hn
    obtain ⟨r, rest', a, b, hr, ha, hb⟩ := readFrom_mixes (fun d (hd : d ∈ rest) =>
      hne d (hsub.subset (hq ▸ List.mem_cons_of_mem _ hd))) m hshort
      (hne short (hsub.subset (hq ▸ List.mem_cons_self))) (hq ▸ h)
    refine ⟨r, ?_, m, a, b, ha, hb⟩
    rw [goReader, loop_split, hm, hq]
    apply List.mem_append_right
    have hlen : (tagFrom m (short :: rest)).length = (tagFrom (m + 1) rest).length + 1 := rfl
    rw [hlen, loop, hr]
    exact List.mem_cons_self

theorem fromShort_whole (queue : Queue β Addr) : fromShort (queue.filter whole) = [] :=
  List.dropWhile_eq_nil_iff.2 fun _ h => (List.mem_filter.1 h).2

theorem goReader_framed_iff {queue : Queue β Addr} (hne : ∀ d ∈ queue, d.bytes ≠ []) :
    Framed goReader queue ↔ total (fromShort queue) < packetLen := by
  constructor
  · intro hf
    by_contra hlong
    obtain ⟨r, hr, m, a, b, ha, hb⟩ := goReader_mixes hne (Nat.le_of_not_lt hlong)
    obtain ⟨n, d, -, -, hn⟩ := hf.single r hr
    have h1 : m = n := hn (m, a) ha
    have h2 : m + 1 = n := hn (m + 1, b) hb
    omega
  · intro h
    refine ⟨goReader_fits h, ?_, goReader_single h⟩
    have hw : total (fromShort (queue.filter whole)) < packetLen := by
      rw [fromShort_whole]
      exact (by decide : 0 < packetLen)
    rw [goReader_fits h, goReader_fits hw, List.filter_filter]
    simp

theorem cReader_eq {queue : Queue β Addr} (hne : ∀ d ∈ queue, d.bytes ≠ []) :
    cReader queue = goReader queue := serverLoop_eq_loop queue.length hne

theorem tagFrom_ne {queue : Queue β Addr} (hne : ∀ d ∈ queue, d.bytes ≠ []) (n : ℕ) :
    ∀ d ∈ tagFrom n queue, d.bytes ≠ [] := by
  intro d hd
  obtain ⟨k, e, hk, rfl⟩ := mem_tagFrom hd
  simpa using hne e (List.mem_of_getElem? hk)

theorem cReader_framed_iff {queue : Queue β Addr} (hne : ∀ d ∈ queue, d.bytes ≠ []) :
    Framed cReader queue ↔ Framed goReader queue := by
  have hw : ∀ d ∈ queue.filter whole, d.bytes ≠ [] := fun d hd => hne d (List.mem_filter.1 hd).1
  constructor
  · rintro ⟨h1, h2, h3⟩
    rw [cReader_eq hne] at h1 h2
    rw [cReader_eq hw] at h2
    rw [cReader_eq (tagFrom_ne hne 0)] at h3
    exact ⟨h1, h2, h3⟩
  · rintro ⟨h1, h2, h3⟩
    rw [← cReader_eq hne] at h1 h2
    rw [← cReader_eq hw] at h2
    rw [← cReader_eq (tagFrom_ne hne 0)] at h3
    exact ⟨h1, h2, h3⟩

end Tags

/-- Both daemons frame their requests exactly when the datagrams from the first
short one on do not fill a buffer together. -/
theorem framed_iff {β Addr : Type} (queue : Queue β Addr) (hne : ∀ d ∈ queue, d.bytes ≠ []) :
    (Framed goReader queue ↔ total (fromShort queue) < packetLen) ∧
      (Framed cReader queue ↔ total (fromShort queue) < packetLen) :=
  ⟨goReader_framed_iff hne, (cReader_framed_iff hne).trans (goReader_framed_iff hne)⟩

section Examples

/-- One byte from host `1`, then a whole request from host `2`. -/
def shortThenWhole : Queue UInt8 ℕ := [⟨[0], 1⟩, ⟨List.replicate packetLen 7, 2⟩]

theorem shortThenWhole_ne : ∀ d ∈ shortThenWhole, d.bytes ≠ [] := by
  intro d hd
  rcases List.mem_cons.1 hd with rfl | hd
  · exact List.cons_ne_nil _ _
  · obtain rfl := List.mem_singleton.1 hd
    exact List.ne_nil_of_length_pos (by rw [List.length_replicate]; decide)

theorem shortThenWhole_total : ¬ total (fromShort shortThenWhole) < packetLen := by
  rw [shortThenWhole, fromShort, List.dropWhile_cons_of_neg (by decide), total, List.map_cons,
    List.map_singleton, List.length_replicate]
  decide

theorem framed_iff_shortThenWhole :
    (Framed goReader shortThenWhole ↔ total (fromShort shortThenWhole) < packetLen) ∧
      (Framed cReader shortThenWhole ↔ total (fromShort shortThenWhole) < packetLen) :=
  framed_iff shortThenWhole shortThenWhole_ne

/-- The stray byte becomes the first byte of the other host's request. -/
theorem shortThenWhole_shifted :
    goReader shortThenWhole = [⟨0 :: List.replicate 1023 7, 2⟩] ∧
      ¬ Framed goReader shortThenWhole ∧ ¬ Framed cReader shortThenWhole := by
  have hgo := mt (goReader_framed_iff shortThenWhole_ne).1 shortThenWhole_total
  exact ⟨by decide +kernel, hgo, mt (cReader_framed_iff shortThenWhole_ne).1 hgo⟩

end Examples

end MiniServiceDiscover.DatagramFraming
