import Mathlib
import Mastermind.Platform.Scan
import Mastermind.Platform.Spelling
import Mastermind.Platform.Utf16

/-!
# The land claims on the live map

The route `claims-live` reads `players.xml` with regular expressions: one for the player elements,
one for each attribute of a start tag, and one for the land claims in the content of a player. A
document is modelled apart from that, as what XML allows: the attributes of an element in any order,
their values in either quotes and with references, white space where it may stand, other elements
between the players and the claims.

A document can be read as what it says if the expression for players finds where each of them ends
(`Document.Laid`), if its land claims are in the one form that the expression takes
(`LandClaim.Plain`), and if the first `name="` of a start tag is followed by the value of that
attribute (`Player.Shows`).
-/

namespace Mastermind.LiveMap

open Regex Text

/-! ## The route -/

/-- What a literal finds at a place. -/
def literalHere (pattern text : Text) : Option (Unit × ℕ) :=
  if pattern.isPrefixOf text then some ((), pattern.length) else none

/-- `s.replace(pattern, other)`, for a literal with the flag `g`. -/
def replaceLiteral (pattern other : String) (s : Text) : Text :=
  Scan.replaced (literalHere (of pattern)) (fun _ => of other) s

/-- `decode`. -/
def decode (s : Text) : Text :=
  replaceLiteral "&amp;" "&" (replaceLiteral "&gt;" ">" (replaceLiteral "&lt;" "<"
    (replaceLiteral "&apos;" "'" (replaceLiteral "&quot;" "\"" s))))

/-- `([\s\S]*?)<\/player>`: the text before the first end tag, and the text after it. -/
def untilEnd : Text → Option (Text × Text)
  | [] => none
  | u :: rest =>
    if (of "</player>").isPrefixOf (u :: rest) then
      some ([], (u :: rest).drop (of "</player>").length)
    else (untilEnd rest).map fun (body, after) => (u :: body, after)

/-- `([^>]*?)(?:\/\s*>|>([\s\S]*?)<\/player>)`: the two groups, and the text after the match. The
first group is lazy, so that the alternatives are tried letter by letter. -/
def tagEnd : Text → Option (Text × Text × Text)
  | [] => none
  | u :: rest =>
    let afterSlash := rest.dropWhile isSpace
    if u = 47 ∧ afterSlash.head? = some 62 then some ([], [], afterSlash.tail)
    -- `[^>]` does not go past the letter `>`
    else if u = 62 then (untilEnd rest).map fun (body, after) => ([], body, after)
    else (tagEnd rest).map fun (attrs, found) => (u :: attrs, found)

/-- `<player\s+([^>]*?)(?:\/\s*>|>([\s\S]*?)<\/player>)` at a place: the two groups. The spaces are
taken as far as they go: with fewer of them, the first group would begin with the others, and the
match would end where it does. -/
def playerHere (text : Text) : Option ((Text × Text) × ℕ) :=
  if (of "<player").isPrefixOf text then
    let tail := text.drop (of "<player").length
    let spaced := tail.dropWhile isSpace
    if spaced.length < tail.length then
      (tagEnd spaced).map fun (attrs, body, rest) => ((attrs, body), text.length - rest.length)
    else none
  else none

/-- `${name}="([^"]*)"`. -/
def attrPattern (name : String) : Regex UInt16 :=
  all [lit (name ++ "=\""), group (many (noneOf "\"") 0 none), lit "\""]

/-- `attr(name)`. -/
def attr (attrs : Text) (name : String) : Text :=
  decode ((capture (attrPattern name) attrs).getD [])

/-- `(-?\d+)`. -/
def signed : Regex UInt16 := group (seq (optional (· = 45)) digits)

/-- `<lpblock\s+pos="(-?\d+),(-?\d+),(-?\d+)"\s*\/>`. -/
def blockPattern : Regex UInt16 :=
  all [lit "<lpblock", many isSpace 1 none, lit "pos=\"", signed, lit ",", signed, lit ",", signed,
    lit "\"", spaces, lit "/>"]

/-- What `blocks` finds at a place. -/
def blockHere (text : Text) : Option (List Text × ℕ) :=
  (blockPattern.run ⟨none, text, []⟩).head?.map fun d => (d.caps, text.length - d.rest.length)

/-- `Number(s)`, for a text of digits with a sign and an integer below 2^53, up to which the numbers
of the route are exact. -/
def numberOf : Text → ℤ
  | 45 :: digits => -(Text.number digits : ℤ)
  | digits => Text.number digits

/-- `position`. -/
structure Position where
  x : ℤ
  y : ℤ
  z : ℤ
  deriving DecidableEq

/-- An entry of `claims`. -/
structure Claim where
  id : Text
  owner : Text
  eosId : Text
  steamId : Text
  position : Position
  size : ℕ
  deriving DecidableEq

/-- The entry for a land claim. -/
def claimAt (owner eosId steamId : Text) (p : Position) : Claim where
  id := eosId ++ of ":" ++ of (toString p.x) ++ of ":" ++ of (toString p.y) ++ of ":" ++
    of (toString p.z)
  owner := owner
  eosId := eosId
  steamId := steamId
  position := p
  size := 51

/-- The entries for the land claims in the content of a player. -/
def claimsIn (attrs body : Text) : List Claim :=
  let playername := attr attrs "playername"
  let owner := if playername = [] then of "Unknown player" else playername
  (Scan.found blockHere body).map fun caps =>
    claimAt owner (attr attrs "userid") (attr attrs "nativeuserid")
      ⟨numberOf (caps.getD 0 []), numberOf (caps.getD 1 []), numberOf (caps.getD 2 [])⟩

/-- `replace(/^\uFEFF/, "")`. -/
def withoutBom : Text → Text
  | 0xfeff :: rest => rest
  | xml => xml

/-- The entries that `claims-live` returns for `players.xml`. -/
def claimsLive (xml : Text) : List Claim :=
  (Scan.found playerHere (withoutBom xml)).flatMap fun (attrs, body) => claimsIn attrs body

/-! ## Documents -/

/-- White space in XML. -/
def isXmlSpace (u : UInt16) : Bool := u = 32 || u = 9 || u = 10 || u = 13

/-- What ends the name of an element. -/
def isStop (u : UInt16) : Bool := isSpace u || u = 47 || u = 62

/-- The entities that XML declares. -/
inductive Entity where
  | quot
  | apos
  | lt
  | gt
  | amp
  deriving DecidableEq

/-- The reference to an entity. -/
def Entity.text : Entity → Text
  | quot => of "&quot;"
  | apos => of "&apos;"
  | lt => of "&lt;"
  | gt => of "&gt;"
  | amp => of "&amp;"

/-- What an entity stands for. -/
def Entity.unit : Entity → UInt16
  | quot => 34
  | apos => 39
  | lt => 60
  | gt => 62
  | amp => 38

/-- A piece of an attribute's value: a letter, a reference to an entity, or one to a character by
the digits of its number. -/
inductive Piece where
  | unit (u : UInt16)
  | entity (e : Entity)
  | character (digits : Text) (c : Char)

/-- How a piece is written. -/
def Piece.text : Piece → Text
  | unit u => [u]
  | entity e => e.text
  | character digits _ => of "&#" ++ digits ++ of ";"

/-- The value of a hexadecimal digit. -/
def hexValue (u : UInt16) : ℕ := if isDigit u then u.toNat - 48 else (fold u).toNat - 87

/-- The digits are the number of a character, in decimal, or after an `x` in hexadecimal. -/
def Denotes (digits : Text) (c : Char) : Prop :=
  (digits ≠ [] ∧ (∀ u ∈ digits, isDigit u = true) ∧ number digits = c.toNat) ∨
    ∃ hex, digits = 120 :: hex ∧ hex ≠ [] ∧ (∀ u ∈ hex, isHex u = true) ∧
      hex.foldl (fun n u => 16 * n + hexValue u) 0 = c.toNat

/-- What a piece means. A tab or the end of a line in a value is a blank. -/
def Piece.value : Piece → Text
  | unit u => [if isXmlSpace u then 32 else u]
  | entity e => [e.unit]
  | character _ c => unitsOf c

/-- The white space of an attribute and its quotes. -/
structure Layout where
  lead : Text
  beforeEq : Text
  afterEq : Text
  single : Bool
  lead_ne : lead ≠ []
  lead_spaces : ∀ u ∈ lead, isXmlSpace u = true
  eq_spaces : ∀ u ∈ beforeEq ++ afterEq, isXmlSpace u = true

/-- The quotes. -/
def Layout.quote (layout : Layout) : UInt16 := if layout.single then 39 else 34

/-- An attribute as it is written, with the white space before it. -/
def Layout.write (layout : Layout) (name raw : Text) : Text :=
  layout.lead ++ name ++ layout.beforeEq ++ 61 :: layout.afterEq ++ layout.quote :: raw ++
    [layout.quote]

/-- An attribute. -/
structure Attribute where
  layout : Layout
  name : Text
  pieces : List Piece
  name_ne : name ≠ []
  name_units : ∀ u ∈ name, isStop u = false ∧ u ≠ 60 ∧ u ≠ 61 ∧ u ≠ 34 ∧ u ≠ 39
  legal : ∀ u, .unit u ∈ pieces → u ≠ 60 ∧ u ≠ 38 ∧ u ≠ layout.quote
  denotes : ∀ digits c, .character digits c ∈ pieces → Denotes digits c

/-- The value between the quotes. -/
def Attribute.raw (a : Attribute) : Text := a.pieces.flatMap Piece.text

/-- The value. -/
def Attribute.value (a : Attribute) : Text := a.pieces.flatMap Piece.value

/-- An attribute as it is written. -/
def Attribute.text (a : Attribute) : Text := a.layout.write a.name a.raw

/-- A coordinate in decimal. -/
structure Coordinate where
  negative : Bool
  digits : Text
  digits_ne : digits ≠ []
  digits_units : ∀ u ∈ digits, isDigit u = true

/-- A coordinate as it is written. -/
def Coordinate.text (c : Coordinate) : Text := (if c.negative then [45] else []) ++ c.digits

/-- The number. -/
def Coordinate.value (c : Coordinate) : ℤ :=
  if c.negative then -(number c.digits : ℤ) else number c.digits

/-- A land claim: the attribute `pos`, others before and after it, and either form of an element
without content. -/
structure LandClaim where
  before : List Attribute
  layout : Layout
  x : Coordinate
  y : Coordinate
  z : Coordinate
  after : List Attribute
  trail : Text
  emptyTag : Bool
  unique : ∀ a ∈ before ++ after, a.name ≠ of "pos"
  trail_spaces : ∀ u ∈ trail, isXmlSpace u = true

/-- The value of `pos`. -/
def LandClaim.pos (c : LandClaim) : Text := c.x.text ++ 44 :: c.y.text ++ 44 :: c.z.text

/-- A land claim as it is written. -/
def LandClaim.text (c : LandClaim) : Text :=
  of "<lpblock" ++ c.before.flatMap Attribute.text ++ c.layout.write (of "pos") c.pos ++
    c.after.flatMap Attribute.text ++ c.trail ++
      (if c.emptyTag then of "/>" else of "></lpblock>")

/-- The position. -/
def LandClaim.position (c : LandClaim) : Position := ⟨c.x.value, c.y.value, c.z.value⟩

/-- Text without markup. -/
structure Characters where
  text : Text
  noMarkup : ∀ u ∈ text, u ≠ 60

/-- The start tag or the end tag of another element, or a declaration. -/
structure Tag where
  slash : Bool
  name : Text
  rest : Text
  name_ne : name ≠ []
  name_units : ∀ u ∈ name, isStop u = false ∧ u ≠ 60
  rest_head : ∀ u ∈ rest.head?, isStop u = true
  rest_units : ∀ u ∈ rest, u ≠ 60
  other : name ≠ of "player" ∧ name ≠ of "lpblock"

/-- A tag as it is written. -/
def Tag.text (t : Tag) : Text :=
  60 :: ((if t.slash then [47] else []) ++ t.name ++ t.rest ++ [62])

/-- What stands beside the players and the land claims. -/
inductive Filler where
  | characters (c : Characters)
  | tag (t : Tag)

/-- A filler as it is written. -/
def Filler.text : Filler → Text
  | characters c => c.text
  | tag t => t.text

/-- A part of the content of a player. -/
inductive Content where
  | landClaim (c : LandClaim)
  | filler (f : Filler)

/-- A part of the content as it is written. -/
def Content.text : Content → Text
  | landClaim c => c.text
  | filler f => f.text

/-- The land claim, if the part is one. -/
def Content.landClaim? : Content → Option LandClaim
  | landClaim c => some c
  | filler _ => none

/-- A player element: its attributes, and its content with the white space in its end tag, or
nothing for an empty-element tag. -/
structure Player where
  attributes : List Attribute
  trail : Text
  content : Option (List Content × Text)
  unique : (attributes.map Attribute.name).Nodup
  trail_spaces : ∀ u ∈ trail, isXmlSpace u = true
  end_spaces : ∀ content_space ∈ content, ∀ u ∈ content_space.2, isXmlSpace u = true

/-- The start tag of a player after its name. -/
def Player.head (p : Player) : Text := p.attributes.flatMap Attribute.text ++ p.trail

/-- A player as it is written. -/
def Player.text (p : Player) : Text :=
  of "<player" ++ p.head ++ match p.content with
    | none => of "/>"
    | some (content, space) =>
      62 :: content.flatMap Content.text ++ of "</player" ++ space ++ [62]

/-- The value of an attribute of a player. -/
def Player.valueOf (p : Player) (name : String) : Option Text :=
  (p.attributes.find? fun a => a.name = of name).map Attribute.value

/-- The land claims of a player. -/
def Player.landClaims (p : Player) : List LandClaim :=
  match p.content with
  | none => []
  | some (content, _) => content.filterMap Content.landClaim?

/-- A part of the document. -/
inductive Item where
  | player (p : Player)
  | filler (f : Filler)

/-- A part of the document as it is written. -/
def Item.text : Item → Text
  | player p => p.text
  | filler f => f.text

/-- `players.xml`: perhaps a byte order mark, and the parts of the document. -/
structure Document where
  bom : Bool
  items : List Item

/-- The document as it is written. -/
def Document.text (d : Document) : Text :=
  (if d.bom then [0xfeff] else []) ++ d.items.flatMap Item.text

/-- What there is to show for a land claim of a player. -/
def Player.claim (p : Player) (c : LandClaim) : Claim :=
  claimAt ((p.valueOf "playername").getD (of "Unknown player")) ((p.valueOf "userid").getD [])
    ((p.valueOf "nativeuserid").getD []) c.position

/-- The land claims of the players of a part. -/
def Item.claims : Item → List Claim
  | player p => p.landClaims.map p.claim
  | filler _ => []

/-- The land claims of a document, each with what its player's attributes say. -/
def Document.claims (d : Document) : List Claim := d.items.flatMap Item.claims

/-! ## What the route can read -/

/-- An attribute in double quotes, without white space around `=`. -/
def Layout.Plain (layout : Layout) : Prop :=
  layout.beforeEq = [] ∧ layout.afterEq = [] ∧ layout.single = false

/-- A piece that `decode` turns into what it means. -/
def Piece.Plain : Piece → Prop
  | unit u => isXmlSpace u = true → u = 32
  | entity _ => True
  | character _ _ => False

/-- A land claim in the one form that `blocks` takes. -/
def LandClaim.Plain (c : LandClaim) : Prop :=
  c.before = [] ∧ c.layout.Plain ∧ c.after = [] ∧ c.emptyTag = true

/-- The start tag up to the first `>`, where `[^>]` stops. -/
def Player.cut (p : Player) : Text := p.head.takeWhile fun u => u ≠ 62

/-- What a `>` in a value leaves of the start tag, with its end. -/
def Player.spill (p : Player) : Text := ((p.head ++ [62]).dropWhile fun u => u ≠ 62).tail

/-- A player whose end the expression for players finds: a `>` in the value of an attribute does not
look like the end of an empty-element tag, and the end tag has no white space. -/
structure Player.Laid (p : Player) : Prop where
  closed : (∃ a ∈ p.attributes, 62 ∈ a.raw) →
    p.content ≠ none ∧ ∀ v, 47 :: v <:+ p.cut → ∃ u ∈ v, isSpace u = false
  ended : ∀ content space, p.content = some (content, space) → space = []

/-- A document whose players are all laid out in this way. -/
def Document.Laid (d : Document) : Prop := ∀ p, .player p ∈ d.items → p.Laid

/-- What stands in quotes behind the first `name="` of a text. -/
def firstQuoted (name : String) : Text → Option Text
  | [] => none
  | u :: rest =>
    let value := (u :: rest).drop (of (name ++ "=\"")).length
    if of (name ++ "=\"") <+: u :: rest ∧ 34 ∈ value then some (value.takeWhile (· ≠ 34))
    else firstQuoted name rest

/-- The value that the start tag of a player shows at the first `name="` before any `>`. -/
def Player.shown (p : Player) (name : String) : Text :=
  decode ((firstQuoted name p.cut).getD [])

/-- The start tag of a player shows the values of the three attributes. -/
structure Player.Shows (p : Player) : Prop where
  owner : (if p.shown "playername" = [] then of "Unknown player" else p.shown "playername") =
    (p.valueOf "playername").getD (of "Unknown player")
  eosId : p.shown "userid" = (p.valueOf "userid").getD []
  steamId : p.shown "nativeuserid" = (p.valueOf "nativeuserid").getD []

/-- The land claims are all in plain form, and every player that has one has a start tag with more
than its name, which shows its values. -/
def Document.Shows (d : Document) : Prop :=
  ∀ p, .player p ∈ d.items →
    (∀ c ∈ p.landClaims, c.Plain) ∧ (p.landClaims ≠ [] → p.head ≠ [] ∧ p.Shows)

end Mastermind.LiveMap
