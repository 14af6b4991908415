import Mastermind.Players.Display

/-!
# Addresses in the player list

`reconcilePlayers` keeps the address of a line as the pattern finds it, without brackets around it;
`enforceConnectionTools` cuts it at the first colon and asks for the country of what remains. A colon
begins a port after an IPv4 address, but it also stands within every IPv6 address.
`address_agrees_iff` says for which printed addresses both have the bare one.
-/

namespace Mastermind.Players.Addresses

open Regex

/-! ## Printed addresses -/

/-- The units of addresses: hexadecimal digits, colons and dots. -/
def isAddressUnit (u : UInt16) : Bool := Text.isHex u || u = 58 || u = 46

/-- An IPv4 address, of digits and dots. -/
structure IPv4 where
  text : Text
  ne : 1 ≤ text.length
  plain : ∀ u ∈ text, Text.isDigit u ∨ u = 46

/-- An IPv6 address, in which there are colons. -/
structure IPv6 where
  text : Text
  plain : ∀ u ∈ text, isAddressUnit u
  colon : 58 ∈ text

/-- A port, of digits. -/
structure Port where
  text : Text
  plain : ∀ u ∈ text, Text.isDigit u

/-- The forms in which the console prints the address of a player. -/
inductive Printed where
  | ipv4 (a : IPv4)
  | ipv4Port (a : IPv4) (p : Port)
  | ipv6 (a : IPv6)
  | bracketed (a : IPv6)
  | bracketedPort (a : IPv6) (p : Port)

/-- The text of a printed address. -/
def Printed.text : Printed → Text
  | ipv4 a => a.text
  | ipv4Port a p => a.text ++ (58 :: p.text)
  | ipv6 a => a.text
  | bracketed a => Text.of "[" ++ (a.text ++ Text.of "]")
  | bracketedPort a p => Text.of "[" ++ (a.text ++ Text.of "]") ++ (58 :: p.text)

/-- The address without port and brackets. -/
def Printed.bare : Printed → Text
  | ipv4 a => a.text
  | ipv4Port a _ => a.text
  | ipv6 a => a.text
  | bracketed a => a.text
  | bracketedPort a _ => a.text

/-- A line with the field of the address, which is where the pattern first matches: before the field
it does not match, and it is a field of its own. -/
structure AddressLine where
  before : Text
  address : Printed
  after : Text
  edge : ∀ u ∈ before.getLast?, Text.isWord u = false
  ends : ∀ u ∈ after.head?, Text.isSpace u ∨ u = 44
  first : LpLine.ip.within none before (Text.of "ip=" ++ (address.text ++ after)) = none

/-- The text of the line. -/
def AddressLine.text (l : AddressLine) : Text :=
  l.before ++ (Text.of "ip=" ++ (l.address.text ++ l.after))

/-- The address that `enforceConnectionTools` asks about. -/
def checkedAddress (row : LpRow) : Text := (row.ipAddress.getD []).takeWhile (· ≠ Text.unit ':')

/-- Nothing else of the address plays a part in the enforcement. -/
theorem enforceCountry_checked (country : Text → Text) (settings : Protection) (now : ℤ)
    (identifier : Text) (row : LpRow) (w : Watch) :
    enforceCountry country settings now identifier row.ipAddress w =
      enforceCountry country settings now identifier (some (checkedAddress row)) w := by
  have htwice : (checkedAddress row).takeWhile (· ≠ Text.unit ':') = checkedAddress row := by
    rw [List.takeWhile_eq_self_iff]
    exact fun u hu => List.mem_takeWhile_imp (p := fun v => decide (v ≠ Text.unit ':')) hu
  unfold enforceCountry
  rw [Option.getD_some, htwice]
  rfl

/-! ## What is found -/

theorem not_isSpace {u : UInt16} (h : isAddressUnit u) : Text.isSpace u = false := by
  simp only [isAddressUnit, Text.isHex, Bool.or_eq_true, decide_eq_true_eq] at h
  rcases h with ((hdigit | hletter) | rfl) | rfl
  · exact Text.isSpace_of_isDigit hdigit
  · by_contra hspace
    have hnone := isLetter_of_isSpace (by simpa using hspace)
    simp only [Text.isLetter, Bool.and_eq_true, decide_eq_true_eq, Bool.and_eq_false_iff,
      decide_eq_false_iff_not] at hletter hnone
    omega
  · decide
  · decide

theorem addressUnit_ne {u v : UInt16} (h : isAddressUnit u) (hv : isAddressUnit v = false) : u ≠ v := by
  rintro rfl
  rw [h] at hv
  exact absurd hv (by decide)

theorem isAddressUnit_of_digit {u : UInt16} (h : Text.isDigit u) : isAddressUnit u := by
  simp [isAddressUnit, Text.isHex, h]

theorem IPv4.units (a : IPv4) : ∀ u ∈ a.text, isAddressUnit u := by
  intro u hu
  rcases a.plain u hu with hdigit | rfl
  · exact isAddressUnit_of_digit hdigit
  · decide

theorem IPv4.colon (a : IPv4) : 58 ∉ a.text := by
  intro h
  rcases a.plain 58 h with hdigit | hdot
  · exact absurd hdigit (by decide)
  · exact absurd hdot (by decide)

/-- The text of the address that the pattern captures: with the brackets, and without what follows
them. -/
def Printed.captured : Printed → Text
  | bracketedPort a _ => Text.of "[" ++ (a.text ++ Text.of "]")
  | address => address.text

/-- What follows the captured text of an address. -/
def Printed.rest : Printed → Text
  | bracketedPort _ p => 58 :: p.text
  | _ => []

theorem Printed.text_eq (address : Printed) : address.text = address.captured ++ address.rest := by
  cases address <;> simp [text, captured, rest]

/-- The second way of the pattern: up to white space or a comma. -/
def bareAddress : Regex UInt16 :=
  many (fun u => !Text.isSpace u && Text.noneOf "," u) 1 none

/-- The first way of the pattern: up to the closing bracket. -/
def bracketAddress : Regex UInt16 := all [lit "[", many (Text.noneOf "]") 1 none, lit "]"]

theorem takes_alt_left {a b : Regex UInt16} {x y : Text} {c d : List Text} (h : Takes a x y c d) :
    Takes (alt a b) x y c d := by
  intro prev
  obtain ⟨q, hq⟩ := h prev
  exact ⟨q, by rw [run, List.head?_append, hq, Option.some_or]⟩

theorem takes_alt_right {a b : Regex UInt16} {x y : Text} {c d : List Text}
    (ha : ∀ prev, a.run ⟨prev, x, c⟩ = []) (h : Takes b x y c d) : Takes (alt a b) x y c d := by
  intro prev
  obtain ⟨q, hq⟩ := h prev
  exact ⟨q, by rw [run, ha, List.nil_append, hq]⟩

/-- Units of addresses, with nothing else up to the end of the field. -/
theorem takes_plain {text after : Text} (hne : 1 ≤ text.length) (hplain : ∀ u ∈ text, isAddressUnit u)
    (hends : ∀ u ∈ after.head?, Text.isSpace u ∨ u = 44) (caps : List Text) :
    Takes (alt bracketAddress bareAddress) (text ++ after) after caps caps := by
  refine takes_alt_right (fun prev => ?_) (.many (fun u hu => ?_) (fun u hu => ?_) hne)
  · obtain ⟨u, us, rfl⟩ := List.exists_cons_of_length_pos hne
    have hu : u ≠ 91 := addressUnit_ne (hplain u List.mem_cons_self) (by decide)
    have hof : Text.of "[" = [91] := by decide
    simp [bracketAddress, all, lit, hof, run, hu]
  · have hcomma : u ≠ 44 := addressUnit_ne (hplain u hu) (by decide)
    rw [not_isSpace (hplain u hu), (noneOf_comma u).mpr hcomma]
    rfl
  · rcases hends u hu with hspace | rfl
    · rw [hspace]
      rfl
    · decide

/-- An address in brackets, whatever follows. -/
theorem takes_bracketed (a : IPv6) (x : Text) (caps : List Text) :
    Takes (alt bracketAddress bareAddress) (Text.of "[" ++ (a.text ++ (Text.of "]" ++ x))) x caps
      caps := by
  have hof : Text.of "]" = [93] := by decide
  refine takes_alt_left (.seq takes_lit (.seq (.many (fun u hu => ?_) ?_ ?_) (.seq takes_lit .empty)))
  · have hne : u ≠ 93 := addressUnit_ne (a.plain u hu) (by decide)
    simp [Text.noneOf, hof, hne]
  · rw [hof]
    rintro u ⟨⟩
    decide
  · exact List.length_pos_of_mem a.colon

/-- The pattern captures the address of a line. -/
theorem takes_address (l : AddressLine) (caps : List Text) :
    Takes (alt bracketAddress bareAddress) (l.address.captured ++ (l.address.rest ++ l.after))
      (l.address.rest ++ l.after) caps caps := by
  have hport : ∀ p : Port, ∀ u ∈ 58 :: p.text, isAddressUnit u := by
    intro p u hu
    rcases List.mem_cons.mp hu with rfl | hu
    · decide
    · exact isAddressUnit_of_digit (p.plain u hu)
  have hends := l.ends
  generalize l.after = after at hends
  cases l.address with
  | ipv4 a => exact takes_plain a.ne a.units hends caps
  | ipv4Port a p =>
    refine takes_plain (List.length_pos_of_mem (List.mem_append_right _ List.mem_cons_self))
      (fun u hu => ?_) hends caps
    exact (List.mem_append.mp hu).elim (a.units u) (hport p u)
  | ipv6 a => exact takes_plain (List.length_pos_of_mem a.colon) a.plain hends caps
  | bracketed a =>
    have htakes := takes_bracketed a after caps
    simpa [Printed.captured, Printed.text, Printed.rest] using htakes
  | bracketedPort a p =>
    have htakes := takes_bracketed a (58 :: p.text ++ after) caps
    simpa [Printed.captured, Printed.text, Printed.rest] using htakes

/-- The address does not begin with white space. -/
theorem captured_head (address : Printed) (x : Text) :
    ∀ u ∈ (address.captured ++ x).head?, Text.isSpace u = false := by
  have hof : Text.of "[" = [91] := by decide
  have hplain : ∀ (text y : Text), 1 ≤ text.length → (∀ u ∈ text, isAddressUnit u) →
      ∀ u ∈ (text ++ y).head?, Text.isSpace u = false := by
    intro text y hne hunits
    obtain ⟨u, us, rfl⟩ := List.exists_cons_of_length_pos hne
    rintro v ⟨⟩
    exact not_isSpace (hunits u List.mem_cons_self)
  cases address with
  | ipv4 a => exact hplain _ _ a.ne a.units
  | ipv4Port a p =>
    have happend := hplain a.text (58 :: p.text ++ x) a.ne a.units
    rwa [← List.append_assoc] at happend
  | ipv6 a => exact hplain _ _ (List.length_pos_of_mem a.colon) a.plain
  | bracketed a =>
    simp only [Printed.captured, Printed.text, hof, List.cons_append]
    rintro u ⟨⟩
    decide
  | bracketedPort a p =>
    simp only [Printed.captured, hof, List.cons_append]
    rintro u ⟨⟩
    decide

/-- The pattern of the address captures the text of the address. -/
theorem capture_ip (l : AddressLine) : LpLine.ip.capture l.text = some l.address.captured := by
  have hof : Text.of "ip=" = [105, 112, 61] := by decide
  have hfield : Takes (all [liti "ip", LpLine.equals, group (alt bracketAddress bareAddress)])
      (Text.of "ip=" ++ (l.address.captured ++ (l.address.rest ++ l.after)))
      (l.address.rest ++ l.after) [] [l.address.captured] := by
    have hsplit : Text.of "ip=" = Text.of "ip" ++ Text.of "=" := by decide
    have hequals : ∀ x : Text, ∀ u ∈ (Text.of "=" ++ x).head?, Text.isSpace u = false := by
      have hof : Text.of "=" = [61] := by decide
      rw [hof]
      rintro x u ⟨⟩
      decide
    rw [hsplit, List.append_assoc]
    refine .seq takes_liti (.seq (.seq (Takes.many (w := []) ?_ (hequals _) le_rfl)
      (.seq takes_lit (.seq (Takes.many (w := []) ?_ (captured_head _ _) le_rfl) .empty)))
      (.seq (.group (takes_address l [])) .empty))
    · simp
    · simp
  have hhere : LpLine.ip.here (lastOf none l.before) (Text.of "ip=" ++ (l.address.text ++ l.after)) =
      some [l.address.captured] := by
    obtain ⟨q, hq⟩ := hfield (lastOf none l.before)
    have hedge : (lastOf none l.before).any Text.isWord = false := by
      unfold lastOf
      cases hlast : l.before.getLast? with
      | none => rfl
      | some u => exact l.edge u hlast
    have hrun : LpLine.ip.run ⟨lastOf none l.before,
        Text.of "ip=" ++ (l.address.text ++ l.after), []⟩ =
        (all [liti "ip", LpLine.equals, group (alt bracketAddress bareAddress)]).run
          ⟨lastOf none l.before, Text.of "ip=" ++ (l.address.text ++ l.after), []⟩ := by
      have hword : (Text.of "ip=" ++ (l.address.text ++ l.after)).head?.any Text.isWord = true := by
        rw [hof]
        exact (by decide : Text.isWord 105 = true)
      change (run wordEdge _).flatMap _ = _
      rw [wordEdge, run, hedge, hword, if_neg (by decide), List.flatMap_singleton]
      rfl
    rw [here, hrun, Printed.text_eq, List.append_assoc, hq]
    rfl
  have hexec : LpLine.ip.exec (lastOf none l.before)
      (Text.of "ip=" ++ (l.address.text ++ l.after)) = some [l.address.captured] := by
    rw [hof] at hhere ⊢
    rw [List.cons_append] at hhere ⊢
    rw [Regex.exec, hhere]
    rfl
  rw [capture, search, AddressLine.text, exec_append, l.first, hexec]
  rfl

/-! ## The two methods -/

/-- What `reconcilePlayers` keeps of a printed address. -/
def Printed.kept : Printed → Text
  | ipv4Port a p => a.text ++ (58 :: p.text)
  | address => address.bare

theorem unbracket_captured (address : Printed) :
    LpLine.unbracket address.captured = address.kept := by
  have hopen : Text.of "[" = [91] := by decide
  have hclose : Text.of "]" = [93] := by decide
  have hplain : ∀ text : Text, (∀ u ∈ text, isAddressUnit u) → LpLine.unbracket text = text := by
    intro text htext
    have hhead : text.head? ≠ some (Text.unit '[') := fun h =>
      addressUnit_ne (htext _ (List.mem_of_head? h)) (by decide) rfl
    have hlast : text.getLast? ≠ some (Text.unit ']') := fun h =>
      addressUnit_ne (htext _ (List.mem_of_getLast? h)) (by decide) rfl
    unfold LpLine.unbracket
    rw [if_neg hhead]
    dsimp only
    rw [if_neg hlast]
  have hbrackets : ∀ a : IPv6, LpLine.unbracket (Text.of "[" ++ (a.text ++ Text.of "]")) = a.text := by
    intro a
    have hhead : (Text.of "[" ++ (a.text ++ Text.of "]")).head? = some (Text.unit '[') := by
      rw [hopen]
      rfl
    have htail : (Text.of "[" ++ (a.text ++ Text.of "]")).tail = a.text ++ [93] := by
      rw [hopen, hclose]
      rfl
    unfold LpLine.unbracket
    rw [if_pos hhead]
    dsimp only
    rw [htail, List.getLast?_concat, if_pos (by decide), List.dropLast_concat]
  cases address with
  | ipv4 a => exact hplain _ a.units
  | ipv4Port a p =>
    refine hplain _ fun u hu => (List.mem_append.mp hu).elim (a.units u) fun hu => ?_
    rcases List.mem_cons.mp hu with rfl | hu
    · decide
    · exact isAddressUnit_of_digit (p.plain u hu)
  | ipv6 a => exact hplain _ a.plain
  | bracketed a => exact hbrackets a
  | bracketedPort a p => exact hbrackets a

/-- What is kept of the address of a line. -/
theorem ipAddress_eq (l : AddressLine) {row : LpRow} (hrow : LpRow.ofLine l.text = some row) :
    row.ipAddress = some l.address.kept := by
  unfold LpRow.ofLine at hrow
  split at hrow
  · obtain rfl := Option.some.inj hrow
    rw [capture_ip, Option.map_some, unbracket_captured]
  · cases hrow

/-- Both methods have the bare address exactly when it is printed as an IPv4 address without a
port. -/
theorem address_agrees_iff (l : AddressLine) (row : LpRow) (hrow : LpRow.ofLine l.text = some row) :
    row.ipAddress = some l.address.bare ∧ checkedAddress row = l.address.bare ↔
      ∃ a, l.address = .ipv4 a := by
  have hkept := ipAddress_eq l hrow
  have hchecked : checkedAddress row = l.address.kept.takeWhile (· ≠ Text.unit ':') := by
    unfold checkedAddress
    rw [hkept, Option.getD_some]
  -- an IPv6 address is cut at its first colon
  have hcut : ∀ a : IPv6, a.text.takeWhile (· ≠ Text.unit ':') ≠ a.text := by
    intro a h
    have hall := List.takeWhile_eq_self_iff.mp h 58 a.colon
    exact absurd hall (by decide)
  rw [hkept, hchecked]
  cases l.address with
  | ipv4 a =>
    refine iff_of_true ⟨rfl, ?_⟩ ⟨a, rfl⟩
    have hunit : Text.unit ':' = 58 := by decide
    rw [hunit]
    refine List.takeWhile_eq_self_iff.mpr fun u hu => decide_eq_true ?_
    rintro rfl
    exact a.colon hu
  | ipv4Port a p =>
    refine iff_of_false (fun h => ?_) (by simp)
    have hsame := Option.some.inj h.1
    simp [Printed.kept, Printed.bare] at hsame
  | ipv6 a => exact iff_of_false (fun h => hcut a h.2) (by simp)
  | bracketed a => exact iff_of_false (fun h => hcut a h.2) (by simp)
  | bracketedPort a p => exact iff_of_false (fun h => hcut a h.2) (by simp)

/-- A line about a player with a printed address. -/
def eveLine (address : Printed) (h : LpLine.ip.within none (Text.of "1. id=171, Eve, ")
    (Text.of "ip=" ++ (address.text ++ Text.of ", ping=30")) = none) : AddressLine where
  before := Text.of "1. id=171, Eve, "
  address := address
  after := Text.of ", ping=30"
  edge := by
    have hlast : (Text.of "1. id=171, Eve, ").getLast? = some 32 := by decide
    rw [hlast]
    rintro u ⟨⟩
    decide
  ends := by
    have hhead : (Text.of ", ping=30").head? = some 44 := by decide
    rw [hhead]
    rintro u ⟨⟩
    exact .inr rfl
  first := h

/-- An IPv4 address. -/
def someIPv4 : IPv4 where
  text := Text.of "9.8.7.6"
  ne := by decide
  plain := by
    have hall : (Text.of "9.8.7.6").all fun u => Text.isDigit u || u = 46 := by decide
    simpa using hall

/-- An IPv6 address. -/
def someIPv6 : IPv6 where
  text := Text.of "2001:db8::1"
  plain := List.all_eq_true.mp (by decide)
  colon := by decide

theorem address_agrees_iff_ipv4 : ∃ row, LpRow.ofLine
    (eveLine (.ipv4 someIPv4) (by decide +kernel)).text = some row ∧
      (row.ipAddress = some someIPv4.text ∧ checkedAddress row = someIPv4.text ↔
        ∃ a, Printed.ipv4 someIPv4 = .ipv4 a) := by
  have hrow : (LpRow.ofLine (eveLine (.ipv4 someIPv4) (by decide +kernel)).text).isSome := by
    decide +kernel
  obtain ⟨row, hrow⟩ := Option.isSome_iff_exists.mp hrow
  exact ⟨row, hrow, address_agrees_iff (eveLine (.ipv4 someIPv4) (by decide +kernel)) row hrow⟩

/-- The address that is kept and the one that is asked about are not the same host. -/
theorem ipv6_cut : ∃ row, LpRow.ofLine
    (eveLine (.bracketed someIPv6) (by decide +kernel)).text = some row ∧
      row.ipAddress = some someIPv6.text ∧ checkedAddress row = Text.of "2001" ∧
      checkedAddress row ≠ someIPv6.text := by
  have hrow : (LpRow.ofLine (eveLine (.bracketed someIPv6) (by decide +kernel)).text).map
      (fun row => (row.ipAddress, checkedAddress row)) =
        some (some someIPv6.text, Text.of "2001") := by
    decide +kernel
  obtain ⟨row, hrow, hpair⟩ := Option.map_eq_some_iff.mp hrow
  obtain ⟨hkept, hchecked⟩ := Prod.mk.inj hpair
  exact ⟨row, hrow, hkept, hchecked, hchecked ▸ by decide⟩

end Mastermind.Players.Addresses
