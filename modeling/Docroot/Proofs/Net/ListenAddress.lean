import Docroot.Net.ListenAddress
import Docroot.Proofs.Net.Address
import Docroot.Proofs.Text.Decimal

/-!
Where to listen, read back. Every spelling of an address, with or without brackets, in front of a port gives that
address and that port, blanks around it or not; so the text of every address with its port is read as what it stands
for. What is accepted at all has a number in its last part.
-/
namespace Docroot

namespace Text

theorem not_isBlank {c : Char} (above : 32 < c.toNat) (below : c.toNat < 133) : isBlank c = false := by
  simp only [isBlank, blankRanges, List.any_cons, List.any_nil, Bool.or_false, Bool.or_eq_false_iff,
    Bool.and_eq_false_iff, decide_eq_false_iff_not]
  omega

/-- Blanks around a text that has none at its ends are taken away. -/
theorem trim_around {before cs after : List Char} (blank : ∀ c ∈ before ++ after, isBlank c = true) (isSome : cs ≠ [])
    (solid : ∀ c ∈ cs, isBlank c = false) : trim (before ++ (cs ++ after)) = cs := by
  obtain ⟨isBefore, isAfter⟩ := List.forall_mem_append.mp blank
  have front : ∀ c ∈ (cs ++ after).head?, isBlank c = false := by
    intro c member
    rw [List.head?_append_of_ne_nil _ isSome] at member
    exact solid c (List.mem_of_mem_head? member)
  have back : ∀ c ∈ cs.reverse.head?, isBlank c = false := by
    intro c member
    exact solid c (List.mem_reverse.mp (List.mem_of_mem_head? member))
  have isAfter : ∀ c ∈ after.reverse, isBlank c = true := fun c member => isAfter c (List.mem_reverse.mp member)
  rw [trim, List.dropWhile_append_of_pos isBefore, dropWhile_of_head front, List.reverse_append,
    List.dropWhile_append_of_pos isAfter, dropWhile_of_head back, List.reverse_reverse]

end Text

namespace IpAddress

variable {c : Char}

theorem digitValue?_isSome (isSome : (digitValue? c).isSome = true) :
    (48 ≤ c.toNat ∧ c.toNat ≤ 57) ∨ (97 ≤ c.toNat ∧ c.toNat ≤ 102) ∨ (65 ≤ c.toNat ∧ c.toNat ≤ 70) := by
  unfold digitValue? at isSome
  split at isSome
  · next decimal => exact .inl decimal
  · split at isSome
    · next lower => exact .inr (.inl lower)
    · split at isSome
      · next upper => exact .inr (.inr upper)
      · cases isSome

/-- Neither blanks nor brackets stand in an address. -/
theorem IsLiteral.solid (isLiteral : IsLiteral c) : Text.isBlank c = false ∧ c ≠ '[' ∧ c ≠ ']' := by
  rcases isLiteral with isDigit | rfl | rfl
  · have isSome : (digitValue? c).isSome = true := by
      unfold isDigitIn at isDigit
      split at isDigit
      · next found => exact found ▸ rfl
      · cases isDigit
    have range := digitValue?_isSome isSome
    refine ⟨Text.not_isBlank (by omega) (by omega), ?_, ?_⟩
    · rintro rfl
      cases isDigit
    · rintro rfl
      cases isDigit
  · decide
  · decide

end IpAddress

namespace SocketAddress

section Parts

variable {host port : List Char}

theorem no_colon_reverse (noColon : ':' ∉ port) : ∀ c ∈ port.reverse, (c != ':') = true := by
  intro c member
  rw [bne_iff_ne]
  rintro rfl
  exact noColon (List.mem_reverse.mp member)

theorem splitHost_append (noColon : ':' ∉ port) : splitHost (host ++ ':' :: port) = (host, port) := by
  have passed := no_colon_reverse noColon
  have backwards : (host ++ ':' :: port).reverse = port.reverse ++ ':' :: host.reverse := by simp
  rw [splitHost, backwards, List.takeWhile_append_of_pos passed, List.dropWhile_append_of_pos passed]
  simp

theorem splitHost_port (noColon : ':' ∉ port) : splitHost port = ([], port) := by
  have passed := no_colon_reverse noColon
  rw [splitHost, List.takeWhile_eq_self_iff.mpr passed, List.dropWhile_eq_nil_iff.mpr passed]
  simp

/-- The port stands behind the last colon, or it is all there is. -/
theorem splitHost_cases (spec : List Char) :
    ∃ front port, spec = front ++ port ∧ ':' ∉ port ∧ (front = [] ∨ ∃ host, front = host ++ [':']) ∧
      (splitHost spec).2 = port := by
  by_cases noColon : ':' ∈ spec
  · obtain ⟨behind, before, parts, last⟩ := List.eq_append_cons_of_mem (List.mem_reverse.mpr noColon)
    have parts : spec = before.reverse ++ ':' :: behind.reverse := by
      rw [← List.reverse_reverse spec, parts]
      simp
    have last : ':' ∉ behind.reverse := mt List.mem_reverse.mp last
    refine ⟨before.reverse ++ [':'], behind.reverse, ?_, last, .inr ⟨_, rfl⟩, ?_⟩
    · rw [parts, List.append_assoc]
      rfl
    · rw [parts, splitHost_append last]
  · exact ⟨[], spec, rfl, noColon, .inl rfl, by rw [splitHost_port noColon]⟩

section Brackets

variable (noBracket : ∀ c ∈ host, c ≠ '[' ∧ c ≠ ']')
include noBracket

theorem dropTailWhile_bracket (brackets : List Char) (closing : ∀ c ∈ brackets, c = ']') :
    dropTailWhile (· == ']') (host ++ brackets) = host := by
  have passed : ∀ c ∈ brackets.reverse, (c == ']') = true :=
    fun c member => beq_iff_eq.mpr (closing c (List.mem_reverse.mp member))
  have stops : ∀ c ∈ host.reverse.head?, (c == ']') = false := by
    intro c member
    exact beq_false_of_ne (noBracket c (List.mem_reverse.mp (List.mem_of_mem_head? member))).2
  rw [dropTailWhile, List.reverse_append, List.dropWhile_append_of_pos passed, dropWhile_of_head stops,
    List.reverse_reverse]

/-- Brackets around a host are taken away on either side. -/
theorem bareHost_bracketed (isSome : host ≠ []) {opening closing : List Char} (opens : ∀ c ∈ opening, c = '[')
    (closes : ∀ c ∈ closing, c = ']') : bareHost (opening ++ (host ++ closing)) = host := by
  have passed : ∀ c ∈ opening, (c == '[') = true := fun c member => beq_iff_eq.mpr (opens c member)
  have stops : ∀ c ∈ (host ++ closing).head?, (c == '[') = false := by
    intro c member
    rw [List.head?_append_of_ne_nil _ isSome] at member
    exact beq_false_of_ne (noBracket c (List.mem_of_mem_head? member)).1
  rw [bareHost, List.dropWhile_append_of_pos passed, dropWhile_of_head stops,
    dropTailWhile_bracket noBracket _ closes]
  cases host with
  | nil => exact absurd rfl isSome
  | cons c host => rfl

end Brackets

end Parts

theorem resolve_eq_ok_iff {host : List Char} {ip : IpAddress} :
    resolve host = .ok ip ↔ IpAddress.ofText? host = some ip := by
  unfold resolve
  split
  · next found => rw [found, Except.ok.injEq, Option.some.injEq]
  · next none => exact iff_of_false nofun (by rw [none]; nofun)

/-- What is accepted has a number for its port and an address for its host. -/
theorem ofListen_eq_ok_iff {text : String} {address : SocketAddress} :
    ofListen text = .ok address ↔
      Text.trim text.toList ≠ [] ∧ ∃ n ip,
        Decimal.read maxPort (Utf8.encode (splitHost (Text.trim text.toList)).2) = .ok n ∧
        IpAddress.ofText? (bareHost (splitHost (Text.trim text.toList)).1) = some ip ∧ address = ⟨ip, n.toUInt16⟩ := by
  unfold ofListen
  generalize Text.trim text.toList = spec
  dsimp only
  split
  · next empty =>
    exact iff_of_false nofun fun h => h.1 (List.isEmpty_iff.mp empty)
  · next isSome =>
    rw [and_iff_right (mt List.isEmpty_iff.mpr isSome)]
    simp only [← resolve_eq_ok_iff]
    generalize splitHost spec = parts
    obtain ⟨host, port⟩ := parts
    have octets : port.flatMap String.utf8EncodeChar = Utf8.encode port := rfl
    dsimp only
    rw [octets]
    cases Decimal.read maxPort (Utf8.encode port) with
    | error fault =>
        refine iff_of_false nofun ?_
        rintro ⟨n, ip, read, -⟩
        cases read
    | ok n =>
        cases resolve (bareHost host) with
        | error e =>
            refine iff_of_false nofun ?_
            rintro ⟨n, ip, -, found, -⟩
            cases found
        | ok ip =>
            constructor
            · intro found
              cases found
              exact ⟨n, ip, rfl, rfl, rfl⟩
            · rintro ⟨n', ip', read, found, rfl⟩
              cases read
              cases found
              rfl

/-- What may stand before a port, and the address that it means. -/
inductive Front : List Char → IpAddress → Prop where
  | bare {host : List Char} {ip : IpAddress} (spells : IpAddress.ofText? host = some ip) : Front (host ++ [':']) ip
  | bracketed {host : List Char} {ip : IpAddress} (spells : IpAddress.ofText? host = some ip) :
      Front ('[' :: (host ++ [']', ':'])) ip
  | unnamed : Front [':'] (.v4 0 0 0 0)
  | nothing : Front [] (.v4 0 0 0 0)

section Reading

variable {front digits : List Char} {ip : IpAddress} {port : UInt16}

theorem Front.host (isFront : Front front ip) (noColon : ':' ∉ digits) :
    (splitHost (front ++ digits)).2 = digits ∧
      IpAddress.ofText? (bareHost (splitHost (front ++ digits)).1) = some ip := by
  cases isFront with
  | @bare host _ spells =>
      obtain ⟨isSome, literal⟩ := IpAddress.ofText?_literal spells
      have same : bareHost host = host := by
        have both : bareHost ([] ++ (host ++ [])) = host :=
          bareHost_bracketed (fun c member => (literal c member).solid.2) isSome nofun nofun
        rwa [List.append_nil, List.nil_append] at both
      rw [List.append_assoc, List.singleton_append, splitHost_append noColon, same]
      exact ⟨rfl, spells⟩
  | @bracketed host _ spells =>
      obtain ⟨isSome, literal⟩ := IpAddress.ofText?_literal spells
      have opens : ∀ c ∈ ['['], c = '[' := fun c => List.mem_singleton.mp
      have closes : ∀ c ∈ [']'], c = ']' := fun c => List.mem_singleton.mp
      have same : bareHost ('[' :: (host ++ [']'])) = host :=
        bareHost_bracketed (fun c member => (literal c member).solid.2) isSome opens closes
      have apart : '[' :: (host ++ [']', ':']) ++ digits = '[' :: (host ++ [']']) ++ ':' :: digits := by simp
      rw [apart, splitHost_append noColon, same]
      exact ⟨rfl, spells⟩
  | unnamed =>
      have parts : splitHost ([] ++ ':' :: digits) = ([], digits) := splitHost_append noColon
      rw [List.nil_append] at parts
      rw [List.singleton_append, parts]
      exact ⟨rfl, rfl⟩
  | nothing =>
      rw [List.nil_append, splitHost_port noColon]
      exact ⟨rfl, rfl⟩

theorem Front.solid (isFront : Front front ip) : ∀ c ∈ front, Text.isBlank c = false := by
  have inside : ∀ {host : List Char}, IpAddress.ofText? host = some ip → ∀ c ∈ host, Text.isBlank c = false :=
    fun spells c member => ((IpAddress.ofText?_literal spells).2 c member).solid.1
  cases isFront with
  | bare spells =>
      exact List.forall_mem_append.mpr ⟨inside spells, List.forall_mem_singleton.mpr (by decide)⟩
  | bracketed spells =>
      refine List.forall_mem_cons.mpr ⟨by decide, List.forall_mem_append.mpr ⟨inside spells, ?_⟩⟩
      exact List.forall_mem_cons.mpr ⟨by decide, List.forall_mem_singleton.mpr (by decide)⟩
  | unnamed => exact List.forall_mem_singleton.mpr (by decide)
  | nothing => nofun

theorem solid_of_isDigit {c : Char} (isDigit : c.isDigit = true) : Text.isBlank c = false ∧ c ≠ ':' := by
  obtain ⟨low, high⟩ := Decimal.isDigit_iff.mp isDigit
  refine ⟨Text.not_isBlank (by omega) (by omega), ?_⟩
  rintro rfl
  exact absurd high (by decide)

theorem toNat_le_maxPort (port : UInt16) : port.toNat ≤ maxPort := Nat.le_of_lt_succ port.toNat_lt

theorem ofListen_front (isFront : Front front ip) (isPort : Decimal.natural? digits = some port.toNat)
    {before after : List Char} (blank : ∀ c ∈ before ++ after, Text.isBlank c = true) :
    ofListen (String.ofList (before ++ (front ++ digits ++ after))) = .ok ⟨ip, port⟩ := by
  obtain ⟨⟨isSome, isDigit⟩, -⟩ := Decimal.natural?_eq_some_iff.mp isPort
  have noColon : ':' ∉ digits := fun member => (solid_of_isDigit (isDigit ':' member)).2 rfl
  have solid : ∀ c ∈ front ++ digits, Text.isBlank c = false :=
    List.forall_mem_append.mpr ⟨isFront.solid, fun c member => (solid_of_isDigit (isDigit c member)).1⟩
  have someSpec : front ++ digits ≠ [] := fun empty => isSome (List.append_eq_nil_iff.mp empty).2
  have read : Decimal.read maxPort (Utf8.encode digits) = .ok port.toNat :=
    Decimal.read_eq_ok_iff.mpr ⟨[], digits, rfl, .inl rfl, isPort, toNat_le_maxPort port⟩
  obtain ⟨isLast, isHost⟩ := isFront.host noColon
  rw [ofListen_eq_ok_iff, String.toList_ofList, Text.trim_around blank someSpec solid, isLast]
  refine ⟨someSpec, port.toNat, ip, read, isHost, ?_⟩
  rw [Nat.toUInt16_eq, UInt16.ofNat_toNat]

theorem text_toList (address : SocketAddress) :
    ∃ front, Front front address.ip ∧ address.text.toList = front ++ (toString address.port.toNat).toList := by
  obtain ⟨ip, port⟩ := address
  have spells := IpAddress.ofText?_text ip
  cases ip with
  | v4 a b c d =>
      refine ⟨_, .bare spells, ?_⟩
      rw [text, String.toList_append, String.toList_append]
      rfl
  | v6 groups =>
      refine ⟨_, .bracketed spells, ?_⟩
      simp only [text, String.toList_append, List.append_assoc, List.cons_append]
      rfl

/-- An address with its port is read in every spelling, with blanks around it or not, and so is the text that is
written for it; a port alone is one on every interface. A text that is accepted ends in the number of the port, behind
its last colon if it has one. -/
theorem listen_addresses_read_back :
    (∀ front ip digits (port : UInt16) before after, Front front ip →
      Decimal.natural? digits = some port.toNat → (∀ c ∈ before ++ after, Text.isBlank c = true) →
      ofListen (String.ofList (before ++ (front ++ digits ++ after))) = .ok ⟨ip, port⟩) ∧
    (∀ address, ofListen address.text = .ok address) ∧
    ∀ text address, ofListen text = .ok address → ∃ front sign digits,
      Text.trim text.toList = front ++ (sign ++ digits) ∧ ':' ∉ sign ++ digits ∧
      (front = [] ∨ ∃ host, front = host ++ [':']) ∧ (sign = [] ∨ sign = ['+']) ∧
      Decimal.natural? digits = some address.port.toNat := by
  refine ⟨?_, ?_, ?_⟩
  · intro front ip digits port before after isFront isPort blank
    exact ofListen_front isFront isPort blank
  · intro address
    obtain ⟨front, isFront, isText⟩ := text_toList address
    have read : ofListen (String.ofList ([] ++ (front ++ (toString address.port.toNat).toList ++ []))) =
        .ok ⟨address.ip, address.port⟩ :=
      ofListen_front isFront (Decimal.natural?_toString _) nofun
    rwa [List.nil_append, List.append_nil, ← isText, String.ofList_toList] at read
  · intro text address accepted
    obtain ⟨-, n, ip, read, -, rfl⟩ := ofListen_eq_ok_iff.mp accepted
    obtain ⟨front, port, parts, noColon, isFront, isLast⟩ := splitHost_cases (Text.trim text.toList)
    rw [isLast, Decimal.read_eq_ok_iff] at read
    obtain ⟨sign, digits, rfl, isSign, isNumber, small⟩ := read
    have same : n.toUInt16.toNat = n := by
      rw [Nat.toUInt16_eq, UInt16.toNat_ofNat']
      exact Nat.mod_eq_of_lt (Nat.lt_succ_of_le small)
    exact ⟨front, sign, digits, parts, noColon, isFront, isSign, isNumber.trans (congrArg some same.symm)⟩

theorem listen_addresses_read_back_padded :
    ofListen (String.ofList ([' '] ++ ("1:2::".toList ++ [':'] ++ "0080".toList ++ ['\n']))) =
      .ok ⟨.v6 #v[1, 2, 0, 0, 0, 0, 0, 0], 80⟩ ∧
    ofListen "[::]:+65535" = .ok ⟨.v6 #v[0, 0, 0, 0, 0, 0, 0, 0], 65535⟩ ∧
    ∃ front sign digits, Text.trim "[::]:+65535".toList = front ++ (sign ++ digits) ∧ ':' ∉ sign ++ digits ∧
      (front = [] ∨ ∃ host, front = host ++ [':']) ∧ (sign = [] ∨ sign = ['+']) ∧
      Decimal.natural? digits = some 65535 := by
  have last : ofListen "[::]:+65535" = .ok ⟨.v6 #v[0, 0, 0, 0, 0, 0, 0, 0], 65535⟩ := by decide +kernel
  refine ⟨?_, last, listen_addresses_read_back.2.2 _ _ last⟩
  exact listen_addresses_read_back.1 _ _ _ 80 _ _ (.bare (by decide +kernel)) rfl
    (List.forall_mem_cons.mpr ⟨by decide, List.forall_mem_singleton.mpr (by decide)⟩)

end Reading

end SocketAddress

end Docroot
