import MiniServiceDiscover.JsonRoundTrip
import MiniServiceDiscover.Utf8Runes

set_option autoImplicit false

/-! The part of Go's `encoding/json` the protocol uses: `Marshal` and `Unmarshal`
of a struct whose fields are strings and one `uint16`. -/
namespace MiniServiceDiscover.GoJson
open JsonText JsonRoundTrip Utf8Runes

abbrev Bytes := List UInt8

/-- `Marshal` keeps these ASCII bytes as they are; the HTML characters are not
among them. -/
def htmlSafe (b : UInt8) : Bool :=
  decide (0x20 ≤ b.toNat) && b != quote && b != backslash && b != 0x3C && b != 0x3E && b != 0x26

def shortEscape (b : UInt8) : Bool :=
  b == quote || b == backslash || b == 0x0A || b == 0x0D || b == 0x09

def asciiElem (b : UInt8) : Elem :=
  if htmlSafe b then .byte b
  else if shortEscape b then .escaped b
  else .unit b.toNat

/-- U+2028 and U+2029 are escaped although they are well formed. -/
def lineSeparator : Bytes := [0xE2, 0x80, 0xA8]
def paragraphSeparator : Bytes := [0xE2, 0x80, 0xA9]

def runeElems : Rune → List Elem
  | .invalid _ => [.unit 0xFFFD]
  | .valid [b] => [asciiElem b]
  | .valid bytes =>
    if bytes = lineSeparator then [.unit 0x2028]
    else if bytes = paragraphSeparator then [.unit 0x2029]
    else bytes.map .byte

def marshalString (s : Bytes) : List Elem := (runes s).flatMap runeElems

def encodeRune (u : ℕ) : Bytes :=
  if u < 0x80 then [u.toUInt8]
  else if u < 0x800 then [(0xC0 + u / 64).toUInt8, (0x80 + u % 64).toUInt8]
  else if 0xD800 ≤ u ∧ u < 0xE000 then replacement
  else if u < 0x10000 then
    [(0xE0 + u / 4096).toUInt8, (0x80 + u / 64 % 64).toUInt8, (0x80 + u % 64).toUInt8]
  else [(0xF0 + u / 262144).toUInt8, (0x80 + u / 4096 % 64).toUInt8,
    (0x80 + u / 64 % 64).toUInt8, (0x80 + u % 64).toUInt8]

def isPair (u v : ℕ) : Bool :=
  decide (0xD800 ≤ u) && decide (u < 0xDC00) && decide (0xDC00 ≤ v) && decide (v < 0xE000)

def pairRune (u v : ℕ) : ℕ := 0x10000 + 0x400 * (u - 0xD800) + (v - 0xDC00)

def elemBytes : List Elem → Bytes
  | [] => []
  | .byte b :: es => b :: elemBytes es
  | .escaped b :: es => b :: elemBytes es
  | .unit u :: .unit v :: es =>
    if isPair u v then encodeRune (pairRune u v) ++ elemBytes es
    else encodeRune u ++ elemBytes (.unit v :: es)
  | .unit u :: es => encodeRune u ++ elemBytes es

/-- The Go string of a JSON string: escapes are resolved, and what is not UTF-8
becomes U+FFFD. -/
def unquote (es : List Elem) : Bytes := coerce (elemBytes es)

/-- Key folding: ASCII letters, and the two other runes that fold to one. -/
def foldName : Bytes → Bytes
  | 0xC5 :: 0xBF :: s => 0x73 :: foldName s
  | 0xE2 :: 0x84 :: 0xAA :: s => 0x6B :: foldName s
  | b :: s => (if 0x41 ≤ b.toNat ∧ b.toNat ≤ 0x5A then (b.toNat + 0x20).toUInt8 else b) :: foldName s
  | [] => []

def compact : Layout := ⟨[], [], []⟩

def key (name : String) : List Elem := (ascii name).map .byte

def setString (old : Bytes) : Value → Option Bytes
  | .str es => some (unquote es)
  | .null => some old
  | _ => none

def setUint16 (old : UInt16) : Value → Option UInt16
  | .num literal =>
    if literal.all isDigit ∧ natOf literal < 65536 then some (natOf literal).toUInt16 else none
  | .null => some old
  | _ => none

structure ServiceInfo where
  deviceName : Bytes
  serviceName : Bytes
  ip : Bytes
  port : UInt16
  info : Bytes
  deriving DecidableEq, Repr

structure ResultInfo where
  reason : Bytes
  deriving DecidableEq, Repr

def ServiceInfo.empty : ServiceInfo := ⟨[], [], [], 0, []⟩

def ResultInfo.empty : ResultInfo := ⟨[]⟩

def ServiceInfo.members (i : ServiceInfo) : List (List Elem × Scalar) :=
  [(key "device_name", .str (marshalString i.deviceName)),
    (key "service_name", .str (marshalString i.serviceName)),
    (key "ip", .str (marshalString i.ip)),
    (key "port", .num i.port.toNat),
    (key "info", .str (marshalString i.info))]

def ServiceInfo.marshal (i : ServiceInfo) : Bytes := objectText compact i.members

def ResultInfo.members (r : ResultInfo) : List (List Elem × Scalar) :=
  [(key "reason", .str (marshalString r.reason))]

def ResultInfo.marshal (r : ResultInfo) : Bytes := objectText compact r.members

def ServiceInfo.setMember (i : ServiceInfo) (m : List Elem × Value) : Option ServiceInfo :=
  if foldName (unquote m.1) = ascii "device_name" then
    (setString i.deviceName m.2).map fun v => { i with deviceName := v }
  else if foldName (unquote m.1) = ascii "service_name" then
    (setString i.serviceName m.2).map fun v => { i with serviceName := v }
  else if foldName (unquote m.1) = ascii "ip" then
    (setString i.ip m.2).map fun v => { i with ip := v }
  else if foldName (unquote m.1) = ascii "port" then
    (setUint16 i.port m.2).map fun v => { i with port := v }
  else if foldName (unquote m.1) = ascii "info" then
    (setString i.info m.2).map fun v => { i with info := v }
  else some i

def ResultInfo.setMember (r : ResultInfo) (m : List Elem × Value) : Option ResultInfo :=
  if foldName (unquote m.1) = ascii "reason" then
    (setString r.reason m.2).map fun v => { r with reason := v }
  else some r

/-- `Unmarshal` into a fresh struct; `none` is any error it returns. -/
def unmarshal {α : Type} (empty : α) (setMember : α → List Elem × Value → Option α)
    (text : Bytes) : Option α :=
  match parse text with
  | some (.obj ms) => ms.foldlM setMember empty
  | some .null => some empty
  | _ => none

def ServiceInfo.unmarshal : Bytes → Option ServiceInfo :=
  GoJson.unmarshal ServiceInfo.empty ServiceInfo.setMember

def ResultInfo.unmarshal : Bytes → Option ResultInfo :=
  GoJson.unmarshal ResultInfo.empty ResultInfo.setMember

section Strings

theorem elemBytes_unit {u : ℕ} (h : u < 0xD800 ∨ 0xDC00 ≤ u) (es : List Elem) :
    elemBytes (.unit u :: es) = encodeRune u ++ elemBytes es := by
  have hp : ∀ v, isPair u v = false := by
    intro v
    simp only [isPair, Bool.and_eq_false_iff, decide_eq_false_iff_not]
    omega
  cases es with
  | nil => rfl
  | cons e es =>
    cases e with
    | unit v => rw [elemBytes, hp v]; rfl
    | byte b => rfl
    | escaped b => rfl

theorem elemBytes_bytes (bytes : Bytes) (es : List Elem) :
    elemBytes (bytes.map .byte ++ es) = bytes ++ elemBytes es := by
  induction bytes with
  | nil => rfl
  | cons b bytes ih => rw [List.map_cons, List.cons_append, elemBytes, ih]; rfl

theorem encodeRune_ascii {b : UInt8} (h : b.toNat < 0x80) : encodeRune b.toNat = [b] := by
  rw [encodeRune, if_pos h]
  simp

theorem elemBytes_asciiElem {b : UInt8} (h : b.toNat < 0x80) (es : List Elem) :
    elemBytes (asciiElem b :: es) = b :: elemBytes es := by
  unfold asciiElem
  split_ifs
  · rfl
  · rfl
  · rw [elemBytes_unit (by omega), encodeRune_ascii h]
    rfl

theorem runeElems_valid_cases (bytes : Bytes) :
    (∃ b, bytes = [b] ∧ runeElems (.valid bytes) = [asciiElem b]) ∨
    (bytes = lineSeparator ∧ runeElems (.valid bytes) = [.unit 0x2028]) ∨
    (bytes = paragraphSeparator ∧ runeElems (.valid bytes) = [.unit 0x2029]) ∨
    (bytes ≠ lineSeparator ∧ bytes ≠ paragraphSeparator ∧ (∀ b, bytes ≠ [b]) ∧
      runeElems (.valid bytes) = bytes.map .byte) := by
  by_cases h1 : ∃ b, bytes = [b]
  · obtain ⟨b, rfl⟩ := h1
    exact .inl ⟨b, rfl, rfl⟩
  · have hr : runeElems (.valid bytes) =
        if bytes = lineSeparator then [.unit 0x2028]
        else if bytes = paragraphSeparator then [.unit 0x2029]
        else bytes.map .byte := by
      rw [runeElems]
      exact fun b hb => h1 ⟨b, hb⟩
    by_cases h2 : bytes = lineSeparator
    · exact .inr (.inl ⟨h2, by rw [hr, if_pos h2]⟩)
    · by_cases h3 : bytes = paragraphSeparator
      · exact .inr (.inr (.inl ⟨h3, by rw [hr, if_neg h2, if_pos h3]⟩))
      · exact .inr (.inr (.inr ⟨h2, h3, fun b hb => h1 ⟨b, hb⟩,
          by rw [hr, if_neg h2, if_neg h3]⟩))

theorem elemBytes_rune {r : Rune} (h : IsRune r.bytes) (es : List Elem) :
    elemBytes (runeElems r ++ es) = r.bytes ++ elemBytes es := by
  cases r with
  | invalid b => exact elemBytes_unit (by decide) es
  | valid bytes =>
    rcases runeElems_valid_cases bytes with
      ⟨b, rfl, hr⟩ | ⟨rfl, hr⟩ | ⟨rfl, hr⟩ | ⟨-, -, -, hr⟩
    · rw [hr]
      exact elemBytes_asciiElem (isRune_singleton h) es
    · rw [hr]
      exact elemBytes_unit (by decide) es
    · rw [hr]
      exact elemBytes_unit (by decide) es
    · rw [hr]
      exact elemBytes_bytes bytes es

/-- Reading a marshalled string gives it back coerced to UTF-8. -/
theorem unquote_marshalString (s : Bytes) : unquote (marshalString s) = coerce s := by
  have go : ∀ rs : List Rune, (∀ r ∈ rs, IsRune r.bytes) →
      elemBytes (rs.flatMap runeElems) = rs.flatMap Rune.bytes := by
    intro rs
    induction rs with
    | nil => intro _; rfl
    | cons r rs ih =>
      intro h
      rw [List.flatMap_cons, List.flatMap_cons, elemBytes_rune (h r (by simp)),
        ih fun q hq => h q (by simp [hq])]
  have hb := go (runes s) fun r hr => isRune_bytes hr
  rw [unquote, marshalString, hb]
  exact coerce_isValid s

theorem tail_printable {b : UInt8} (h : 0x80 ≤ b.toNat) : Printable (.byte b) := by
  have hne : ∀ c : UInt8, c.toNat < 0x80 → b ≠ c := by
    rintro c hc rfl
    omega
  exact ⟨by omega, hne _ (by decide), hne _ (by decide)⟩

theorem asciiElem_printable (b : UInt8) : Printable (asciiElem b) := by
  unfold asciiElem
  split_ifs with hsafe hshort
  · simp only [htmlSafe, Bool.and_eq_true, decide_eq_true_eq, bne_iff_ne] at hsafe
    exact ⟨hsafe.1.1.1.1.1, hsafe.1.1.1.1.2, hsafe.1.1.1.2⟩
  · simp only [shortEscape, Bool.or_eq_true, beq_iff_eq] at hshort
    rcases hshort with (((rfl | rfl) | rfl) | rfl) | rfl <;> exact ⟨by decide, by decide⟩
  · have := b.toNat_lt
    simp only [Printable]
    omega

theorem marshalString_printable (s : Bytes) : ∀ e ∈ marshalString s, Printable e := by
  intro e he
  obtain ⟨r, hr, he⟩ := List.mem_flatMap.1 he
  cases r with
  | invalid b =>
    obtain rfl := List.mem_singleton.1 he
    exact (by decide : 0xFFFD < 65536)
  | valid bytes =>
    rcases runeElems_valid_cases bytes with
      ⟨b, rfl, h⟩ | ⟨rfl, h⟩ | ⟨rfl, h⟩ | ⟨-, -, hne, h⟩
    · rw [h] at he
      obtain rfl := List.mem_singleton.1 he
      exact asciiElem_printable b
    · rw [h] at he
      obtain rfl := List.mem_singleton.1 he
      exact (by decide : 0x2028 < 65536)
    · rw [h] at he
      obtain rfl := List.mem_singleton.1 he
      exact (by decide : 0x2029 < 65536)
    · rw [h] at he
      obtain ⟨b, hb, rfl⟩ := List.mem_map.1 he
      exact tail_printable (isRune_high (isRune_of_valid_mem hr) hne b hb)

end Strings

section Structs

theorem fold_key (name : String) (h : foldName (coerce (ascii name)) = ascii name) :
    foldName (unquote (key name)) = ascii name := by
  have hb : elemBytes (key name) = ascii name := by
    have := elemBytes_bytes (ascii name) []
    rwa [List.append_nil, elemBytes, List.append_nil] at this
  rw [unquote, hb, h]

theorem fold_device_name : foldName (unquote (key "device_name")) = ascii "device_name" :=
  fold_key _ (by decide)
theorem fold_service_name : foldName (unquote (key "service_name")) = ascii "service_name" :=
  fold_key _ (by decide)
theorem fold_ip : foldName (unquote (key "ip")) = ascii "ip" := fold_key _ (by decide)
theorem fold_port : foldName (unquote (key "port")) = ascii "port" := fold_key _ (by decide)
theorem fold_info : foldName (unquote (key "info")) = ascii "info" := fold_key _ (by decide)
theorem fold_reason : foldName (unquote (key "reason")) = ascii "reason" := fold_key _ (by decide)

theorem compact_blank : Layout.Blank compact :=
  ⟨by simp [compact], by simp [compact], by simp [compact]⟩

def asciiPrintable (name : String) : Bool :=
  (ascii name).all fun b => decide (0x20 ≤ b.toNat) && b != quote && b != backslash

theorem key_printable {name : String} (h : asciiPrintable name = true) :
    ∀ e ∈ key name, Printable e := by
  intro e he
  obtain ⟨b, hb, rfl⟩ := List.mem_map.1 he
  have := List.all_eq_true.1 h b hb
  simp only [Bool.and_eq_true, decide_eq_true_eq, bne_iff_ne] at this
  exact ⟨this.1.1, this.1.2, this.2⟩

theorem setUint16_decimal (old port : UInt16) :
    setUint16 old (Scalar.value (.num port.toNat)) = some port := by
  have h := decimal_digits port.toNat
  have hall : (decimal port.toNat).all isDigit = true := List.all_eq_true.2 h.digits
  have hlt := port.toNat_lt
  rw [Scalar.value, setUint16, if_pos ⟨hall, by rw [h.value]; exact hlt⟩, h.value]
  simp

def ServiceInfo.coerce (i : ServiceInfo) : ServiceInfo :=
  { i with
    deviceName := Utf8Runes.coerce i.deviceName
    serviceName := Utf8Runes.coerce i.serviceName
    ip := Utf8Runes.coerce i.ip
    info := Utf8Runes.coerce i.info }

theorem ServiceInfo.parse_marshal (i : ServiceInfo) :
    parse i.marshal = some (.obj (i.members.map fun m => (m.1, m.2.value))) := by
  apply parse_objectText compact_blank _ (by simp [ServiceInfo.members])
  · intro m hm
    simp only [ServiceInfo.members, List.mem_cons, List.not_mem_nil, or_false] at hm
    rcases hm with rfl | rfl | rfl | rfl | rfl <;> exact key_printable (by decide)
  · intro m hm
    simp only [ServiceInfo.members, List.mem_cons, List.not_mem_nil, or_false] at hm
    rcases hm with rfl | rfl | rfl | rfl | rfl <;>
      first | exact marshalString_printable _ | exact trivial

/-- `Unmarshal` undoes `Marshal` up to the coercion to UTF-8. -/
theorem ServiceInfo.unmarshal_marshal (i : ServiceInfo) :
    ServiceInfo.unmarshal i.marshal = some i.coerce := by
  have hs : ∀ old s, setString old (Scalar.value (.str (marshalString s))) =
      some (Utf8Runes.coerce s) := by
    intro old s
    rw [Scalar.value, setString, unquote_marshalString]
  rw [ServiceInfo.unmarshal, GoJson.unmarshal, ServiceInfo.parse_marshal]
  simp only [ServiceInfo.members, List.map_cons, List.map_nil, List.foldlM_cons, List.foldlM_nil,
    ServiceInfo.setMember, fold_device_name, fold_service_name, fold_ip, fold_port, fold_info, hs,
    setUint16_decimal, Option.map_some, Option.bind_eq_bind, Option.bind_some, Option.pure_def,
    if_true, show ascii "service_name" ≠ ascii "device_name" by decide,
    show ascii "ip" ≠ ascii "device_name" by decide,
    show ascii "ip" ≠ ascii "service_name" by decide,
    show ascii "port" ≠ ascii "device_name" by decide,
    show ascii "port" ≠ ascii "service_name" by decide,
    show ascii "port" ≠ ascii "ip" by decide,
    show ascii "info" ≠ ascii "device_name" by decide,
    show ascii "info" ≠ ascii "service_name" by decide,
    show ascii "info" ≠ ascii "ip" by decide,
    show ascii "info" ≠ ascii "port" by decide, if_false]
  rfl

theorem ResultInfo.unmarshal_marshal (r : ResultInfo) :
    ResultInfo.unmarshal r.marshal = some ⟨coerce r.reason⟩ := by
  have hp : parse r.marshal = some (.obj (r.members.map fun m => (m.1, m.2.value))) := by
    apply parse_objectText compact_blank _ (by simp [ResultInfo.members])
    · intro m hm
      obtain rfl := List.mem_singleton.1 hm
      exact key_printable (by decide)
    · intro m hm
      obtain rfl := List.mem_singleton.1 hm
      exact marshalString_printable _
  rw [ResultInfo.unmarshal, GoJson.unmarshal, hp]
  simp only [ResultInfo.members, List.map_cons, List.map_nil, List.foldlM_cons, List.foldlM_nil,
    ResultInfo.setMember, fold_reason, if_true, Scalar.value, setString, unquote_marshalString]
  rfl

end Structs

section Bounds

/-- Every string of a decoded struct is UTF-8. -/
structure ServiceInfo.Valid (i : ServiceInfo) : Prop where
  deviceName : IsValid i.deviceName
  serviceName : IsValid i.serviceName
  ip : IsValid i.ip
  info : IsValid i.info

def ServiceInfo.size (i : ServiceInfo) : ℕ :=
  i.deviceName.length + i.serviceName.length + i.ip.length + i.info.length

theorem encodeRune_length (u : ℕ) : (encodeRune u).length ≤ 4 := by
  unfold encodeRune
  split_ifs <;> simp [replacement]

theorem elemBytes_length (es : List Elem) : (elemBytes es).length ≤ elemsLength es := by
  induction es using elemBytes.induct with
  | case1 => exact Nat.le_refl _
  | case2 b es ih | case3 b es ih =>
    simp only [elemBytes, elemsLength, List.flatMap_cons, List.length_append, List.length_cons,
      elemText, List.length_nil] at ih ⊢
    omega
  | case4 u v es hp ih =>
    have hr := encodeRune_length (pairRune u v)
    rw [elemBytes, if_pos hp]
    simp only [elemsLength, List.flatMap_cons, List.length_append, List.length_cons, elemText,
      List.length_nil] at ih ⊢
    omega
  | case5 u v es hp ih =>
    have hr := encodeRune_length u
    rw [elemBytes, if_neg hp]
    simp only [elemsLength, List.flatMap_cons, List.length_append, List.length_cons, elemText,
      List.length_nil] at ih ⊢
    omega
  | case6 u es hne ih =>
    have hr := encodeRune_length u
    rw [elemBytes]
    · simp only [elemsLength, List.flatMap_cons, List.length_append, List.length_cons, elemText,
        List.length_nil] at ih ⊢
      omega
    · exact hne

theorem unquote_length (es : List Elem) : (unquote es).length ≤ 3 * elemsLength es :=
  (coerce_length_le _).trans (Nat.mul_le_mul_left 3 (elemBytes_length es))

theorem setString_bounds {old v : Bytes} {x : Value} (h : setString old x = some v)
    (hold : IsValid old) : IsValid v ∧ v.length ≤ old.length + 3 * strLength x := by
  cases x with
  | str es =>
    obtain rfl := Option.some.inj h
    exact ⟨coerce_isValid _, (unquote_length es).trans (Nat.le_add_left _ _)⟩
  | null =>
    obtain rfl := Option.some.inj h
    exact ⟨hold, Nat.le_add_right _ _⟩
  | bool _ | num _ | arr _ | obj _ => cases h

theorem ServiceInfo.setMember_bounds {i j : ServiceInfo} {m : List Elem × Value}
    (h : i.setMember m = some j) (hi : i.Valid) :
    j.Valid ∧ j.size ≤ i.size + 3 * strLength m.2 := by
  obtain ⟨h1, h2, h3, h4⟩ := hi
  unfold ServiceInfo.setMember at h
  unfold ServiceInfo.size
  split_ifs at h
  · obtain ⟨v, hv, rfl⟩ := Option.map_eq_some_iff.1 h
    obtain ⟨hv, hl⟩ := setString_bounds hv h1
    exact ⟨⟨hv, h2, h3, h4⟩, by simp only; omega⟩
  · obtain ⟨v, hv, rfl⟩ := Option.map_eq_some_iff.1 h
    obtain ⟨hv, hl⟩ := setString_bounds hv h2
    exact ⟨⟨h1, hv, h3, h4⟩, by simp only; omega⟩
  · obtain ⟨v, hv, rfl⟩ := Option.map_eq_some_iff.1 h
    obtain ⟨hv, hl⟩ := setString_bounds hv h3
    exact ⟨⟨h1, h2, hv, h4⟩, by simp only; omega⟩
  · obtain ⟨v, hv, rfl⟩ := Option.map_eq_some_iff.1 h
    exact ⟨⟨h1, h2, h3, h4⟩, by simp only; omega⟩
  · obtain ⟨v, hv, rfl⟩ := Option.map_eq_some_iff.1 h
    obtain ⟨hv, hl⟩ := setString_bounds hv h4
    exact ⟨⟨h1, h2, h3, hv⟩, by simp only; omega⟩
  · obtain rfl := Option.some.inj h
    exact ⟨⟨h1, h2, h3, h4⟩, Nat.le_add_right _ _⟩

theorem ServiceInfo.foldlM_bounds (ms : List (List Elem × Value)) {i j : ServiceInfo}
    (h : ms.foldlM ServiceInfo.setMember i = some j) (hi : i.Valid) :
    j.Valid ∧ j.size ≤ i.size + 3 * membersLength ms := by
  induction ms generalizing i with
  | nil =>
    obtain rfl := Option.some.inj h
    exact ⟨hi, Nat.le_add_right _ _⟩
  | cons m ms ih =>
    obtain ⟨k, hk, hj⟩ := Option.bind_eq_some_iff.1 h
    obtain ⟨hkv, hks⟩ := ServiceInfo.setMember_bounds hk hi
    obtain ⟨hjv, hjs⟩ := ih hj hkv
    refine ⟨hjv, ?_⟩
    simp only [membersLength, List.map_cons, List.sum_cons] at hjs ⊢
    omega

theorem ServiceInfo.empty_valid : ServiceInfo.empty.Valid := ⟨rfl, rfl, rfl, rfl⟩

/-- A decoded struct holds UTF-8 strings, together at most three times as long
as the text: an ill-formed byte becomes three. -/
theorem ServiceInfo.unmarshal_bounds {text : Bytes} {i : ServiceInfo}
    (h : ServiceInfo.unmarshal text = some i) : i.Valid ∧ i.size ≤ 3 * text.length := by
  unfold ServiceInfo.unmarshal GoJson.unmarshal at h
  split at h
  · rename_i ms hp
    have hl := parse_obj_length hp
    obtain ⟨hv, hs⟩ := ServiceInfo.foldlM_bounds ms h ServiceInfo.empty_valid
    refine ⟨hv, hs.trans ?_⟩
    change 0 + 3 * membersLength ms ≤ _
    omega
  · obtain rfl := Option.some.inj h
    exact ⟨ServiceInfo.empty_valid, Nat.zero_le _⟩
  · cases h

end Bounds

end MiniServiceDiscover.GoJson
