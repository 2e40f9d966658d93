import MiniServiceDiscover.JsonRoundTrip

set_option autoImplicit false

/-! IPv4 addresses and their dotted texts: printing, reading, and the text of the network
in front of the last dot. -/
namespace MiniServiceDiscover.DottedQuad
open JsonText JsonRoundTrip

structure Quad where
  a : UInt8
  b : UInt8
  c : UInt8
  d : UInt8
  deriving DecidableEq, Repr

/-- An address and a port. -/
structure Endpoint where
  addr : Quad
  port : ℕ
  deriving DecidableEq, Repr

def dot : UInt8 := 0x2E

def slash : UInt8 := 0x2F

/-- The three leading numbers, with a dot behind each. -/
def Quad.network (q : Quad) : List UInt8 :=
  decimal q.a.toNat ++ dot :: (decimal q.b.toNat ++ dot :: (decimal q.c.toNat ++ [dot]))

def Quad.text (q : Quad) : List UInt8 := q.network ++ decimal q.d.toNat

/-- The address of a host in the network of the first three numbers. -/
def Quad.host (q : Quad) (n : ℕ) : Quad := { q with d := n.toUInt8 }

def readByte (part : List UInt8) : Option UInt8 :=
  if part ≠ [] ∧ part.all isDigit ∧ natOf part < 256 then some (natOf part).toUInt8 else none

/-- Four decimal numbers between dots. -/
def readQuad (text : List UInt8) : Option Quad :=
  match (text.splitOn dot).map readByte with
  | [some a, some b, some c, some d] => some ⟨a, b, c, d⟩
  | _ => none

section Search
variable {α : Type*} [DecidableEq α]

/-- The text up to and with its last separator. -/
def uptoLast (sep : α) (s : List α) : Option (List α) :=
  if sep ∈ s then some (s.reverse.dropWhile (· ≠ sep)).reverse else none

/-- The place of the first occurrence of a mark. -/
def indexOf (mark : List α) : List α → Option ℕ
  | [] => if mark = [] then some 0 else none
  | c :: s => if mark.isPrefixOf (c :: s) then some 0 else (indexOf mark s).map (· + 1)

theorem indexOf_absent {c : α} (mark : List α) {s : List α} (h : c ∉ s) :
    indexOf (c :: mark) s = none := by
  induction s with
  | nil => rw [indexOf, if_neg (List.cons_ne_nil c mark)]
  | cons d s ih =>
    obtain ⟨hd, hs⟩ := not_or.1 (mt List.mem_cons.2 h)
    have hne : ¬ (c :: mark).isPrefixOf (d :: s) = true := fun hp =>
      hd (List.cons_prefix_cons.1 (List.isPrefixOf_iff_prefix.1 hp)).1
    rw [indexOf, if_neg hne, ih hs]
    rfl

/-- A mark whose first letter occurs once is there or nowhere. -/
theorem indexOf_append {c : α} (mark : List α) {s t : List α} (hs : c ∉ s) (ht : c ∉ t) :
    indexOf (c :: mark) (s ++ c :: t) = if mark <+: t then some s.length else none := by
  induction s with
  | nil =>
    have hp : (c :: mark).isPrefixOf (c :: t) = true ↔ mark <+: t := by
      rw [List.isPrefixOf_iff_prefix, List.cons_prefix_cons]
      exact ⟨And.right, And.intro rfl⟩
    rw [List.nil_append, indexOf, indexOf_absent mark ht]
    simp only [hp]
    rfl
  | cons d s ih =>
    obtain ⟨hd, hs⟩ := not_or.1 (mt List.mem_cons.2 hs)
    have hne : ¬ (c :: mark).isPrefixOf (d :: (s ++ c :: t)) = true := fun hp =>
      hd (List.cons_prefix_cons.1 (List.isPrefixOf_iff_prefix.1 hp)).1
    rw [List.cons_append, indexOf, if_neg hne, ih hs, apply_ite (Option.map (· + 1))]
    rfl

theorem uptoLast_append {sep : α} {s t : List α} (h : sep ∉ t) :
    uptoLast sep (s ++ sep :: t) = some (s ++ [sep]) := by
  have hdrop : (t.reverse ++ sep :: s.reverse).dropWhile (· ≠ sep) = sep :: s.reverse := by
    rw [List.dropWhile_append_of_pos]
    · rw [List.dropWhile_cons_of_neg (by simp)]
    · intro x hx
      refine decide_eq_true fun he => h ?_
      exact he ▸ List.mem_reverse.1 hx
  rw [uptoLast, if_pos (by simp), List.reverse_append, List.reverse_cons, List.append_assoc,
    List.singleton_append, hdrop, List.reverse_cons, List.reverse_reverse]

/-- The search commutes with a renaming of the letters. -/
theorem uptoLast_map {β : Type*} [DecidableEq β] {f : α → β} (hf : Function.Injective f) (sep : α)
    (s : List α) : uptoLast (f sep) (s.map f) = (uptoLast sep s).map (List.map f) := by
  have hp : (fun b => decide (b ≠ f sep)) ∘ f = fun a => decide (a ≠ sep) := by
    funext a
    simp only [Function.comp_apply, ne_eq, hf.eq_iff]
  by_cases h : sep ∈ s
  · rw [uptoLast, uptoLast, if_pos h, if_pos (List.mem_map_of_mem h), ← List.map_reverse,
      List.dropWhile_map, hp, Option.map_some, List.map_reverse]
  · rw [uptoLast, uptoLast, if_neg h, if_neg (mt (List.mem_map_of_injective hf).1 h)]
    rfl

end Search

section Decimals

theorem decimal_no_dot (n : ℕ) : dot ∉ decimal n := by
  intro h
  exact absurd ((decimal_digits n).digits dot h) (by decide)

theorem readByte_decimal {n : ℕ} (h : n < 256) : readByte (decimal n) = some n.toUInt8 := by
  have hd := decimal_digits n
  rw [readByte, if_pos ⟨hd.nonempty, List.all_eq_true.2 hd.digits, hd.value.symm ▸ h⟩, hd.value]

theorem byteNumber_length {n : ℕ} (h : n < 256) :
    1 ≤ (decimal n).length ∧ (decimal n).length ≤ 3 := by
  rw [decimal_length]
  refine ⟨Nat.le_add_left _ _, Nat.succ_le_succ (Nat.lt_succ_iff.1 ?_)⟩
  exact Nat.log_lt_of_lt_pow' (by decide) (by omega)

end Decimals

section Masks

/-- A text without a slash and the length of a mask, as `text/length`. -/
structure Net where
  ip : List UInt8
  mask : ℕ
  plain : slash ∉ ip
  short : mask ≤ 128

def Net.string (net : Net) : List UInt8 := net.ip ++ slash :: decimal net.mask

theorem decimal_no_slash (n : ℕ) : slash ∉ decimal n := by
  intro h
  exact absurd ((decimal_digits n).digits slash h) (by decide)

/-- A mark `/digits` stands where the number of the mask begins with these digits. -/
theorem indexOf_string (digits : List UInt8) (net : Net) :
    indexOf (slash :: digits) net.string =
      if digits <+: decimal net.mask then some net.ip.length else none :=
  indexOf_append digits net.plain (decimal_no_slash net.mask)

theorem begins_24 : ∀ n < 129, (ascii "24" <+: decimal n ↔ n = 24) := by decide +kernel

/-- So do the numbers of the eighties. -/
theorem begins_8 : ∀ n < 129, (ascii "8" <+: decimal n ↔ n = 8 ∨ (80 ≤ n ∧ n < 90)) := by
  decide +kernel

end Masks

section Texts
variable (q : Quad)

theorem text_parts : q.text = [dot].intercalate
    [decimal q.a.toNat, decimal q.b.toNat, decimal q.c.toNat, decimal q.d.toNat] := by
  simp [Quad.text, Quad.network, List.intercalate, List.intersperse]

theorem readQuad_text : readQuad q.text = some q := by
  have hsplit : q.text.splitOn dot =
      [decimal q.a.toNat, decimal q.b.toNat, decimal q.c.toNat, decimal q.d.toNat] := by
    rw [text_parts, List.splitOn_intercalate dot _ (List.cons_ne_nil _ _)]
    simp [decimal_no_dot]
  have hbyte : ∀ b : UInt8, readByte (decimal b.toNat) = some b := fun b => by
    rw [readByte_decimal b.toNat_lt]
    exact congrArg some (by simp)
  rw [readQuad, hsplit]
  simp only [List.map_cons, List.map_nil, hbyte]

theorem text_injective {q r : Quad} (h : q.text = r.text) : q = r :=
  Option.some.inj ((readQuad_text q).symm.trans ((congrArg readQuad h).trans (readQuad_text r)))

theorem network_length : 6 ≤ q.network.length ∧ q.network.length ≤ 12 := by
  have ha := byteNumber_length q.a.toNat_lt
  have hb := byteNumber_length q.b.toNat_lt
  have hc := byteNumber_length q.c.toNat_lt
  simp only [Quad.network, List.length_append, List.length_cons, List.length_nil]
  omega

theorem text_length : 7 ≤ q.text.length ∧ q.text.length ≤ 15 := by
  have hn := network_length q
  have hd := byteNumber_length q.d.toNat_lt
  rw [Quad.text, List.length_append]
  omega

theorem text_no_slash : slash ∉ q.text := by
  have hdot : slash ≠ dot := by decide
  simp only [Quad.text, Quad.network, List.mem_append, List.mem_cons, List.not_mem_nil, hdot,
    decimal_no_slash, or_self, not_false_eq_true]

end Texts

def Quad.net (q : Quad) (mask : Fin 33) : Net := ⟨q.text, mask, text_no_slash q, by omega⟩

section Hosts
variable (q : Quad) {n : ℕ}

@[simp] theorem host_network : (q.host n).network = q.network := rfl

theorem host_text (h : n < 256) : (q.host n).text = q.network ++ decimal n := by
  have hn : (q.host n).d.toNat = n := Nat.mod_eq_of_lt h
  rw [Quad.text, hn]
  rfl

theorem host_injective {m : ℕ} (hm : m < 256) (hn : n < 256) (h : q.host m = q.host n) : m = n := by
  have hd : m % 256 = n % 256 := congrArg (fun r : Quad => r.d.toNat) h
  rwa [Nat.mod_eq_of_lt hm, Nat.mod_eq_of_lt hn] at hd

/-- The hosts of two addresses are the same, number by number, if their networks are. -/
theorem host_congr {r : Quad} (h : q.network = r.network) (n : ℕ) : q.host n = r.host n := by
  have htext : (q.host n).text = (r.host n).text := by
    rw [Quad.text, Quad.text, host_network, host_network, h]
    rfl
  exact text_injective htext

/-- What is in front of the last dot of an address is the text of its network. -/
theorem uptoLast_text : uptoLast dot q.text = some q.network := by
  have hsplit : q.text = (decimal q.a.toNat ++ dot :: (decimal q.b.toNat ++
      dot :: decimal q.c.toNat)) ++ dot :: decimal q.d.toNat := by
    simp [Quad.text, Quad.network]
  rw [hsplit, uptoLast_append (decimal_no_dot _)]
  simp [Quad.network]

end Hosts

end MiniServiceDiscover.DottedQuad
