import ModuleSystem.Yaml.Error
import ModuleSystem.Text.Utf16

/-!
# The characters of YAML documents

A document is written in UTF-8, or after a byte order mark in UTF-16.  Its bytes are decoded in
chunks, and a fault in a chunk hides all of the chunk.
-/

namespace ModuleSystem

/-- The characters of a document, up to a fault in its bytes. -/
structure YamlSource where
  chars : List Nat := []
  fault : Option YamlEncodingFault := none
  /-- The number of characters of the first chunk. -/
  first : Nat := 0
deriving DecidableEq, Repr

namespace Yaml

/-- What bytes begin with. -/
inductive Decoded where
  | char (code width : Nat)
  /-- More bytes are needed, and without them there is a fault. -/
  | cut (fault : YamlEncodingFault)
  | bad (fault : YamlEncodingFault)
deriving DecidableEq, Repr

/-- The characters that may stand in a document. -/
def isAllowed (c : Nat) : Bool :=
  c = 9 || c = 10 || c = 13 || (0x20 ≤ c && c ≤ 0x7E) || c = 0x85 || (0xA0 ≤ c && c ≤ 0xD7FF)
    || (0xE000 ≤ c && c ≤ 0xFFFD) || 0x10000 ≤ c

/-- A character that takes so many bytes. -/
def Decoded.ofCode (c width : Nat) : Decoded :=
  if isAllowed c then .char c width else .bad .control

/-- The number of bytes of a sequence, by its first byte. -/
def sequenceWidth? (b : UInt8) : Option Nat :=
  if b < 0x80 then some 1
  else if b < 0xC0 then none
  else if b < 0xE0 then some 2
  else if b < 0xF0 then some 3
  else if b < 0xF8 then some 4
  else none

/-- The least code point that needs so many bytes. -/
def leastOfWidth (width : Nat) : Nat :=
  if width = 1 then 0 else if width = 2 then 0x80 else if width = 3 then 0x800 else 0x10000

/-- Decodes the first character of some UTF-8. -/
def decode8 : Text → Decoded
  | [] => .bad .incompleteSequence
  | b :: t =>
    match sequenceWidth? b with
    | none => .bad .leadingByte
    | some width =>
      let tail := t.take (width - 1)
      if tail.length < width - 1 then .cut .incompleteSequence
      else if !tail.all Utf8.isContinuation then .bad .trailingByte
      else
        let lead := if width = 1 then b.toNat else b.toNat % Nat.pow 2 (7 - width)
        let c := tail.foldl (fun c b => c * 64 + Utf8.payload b) lead
        if c < leastOfWidth width then .bad .overlong
        else if Utf8.isSurrogate c || 0x10FFFF < c then .bad .noCharacter
        else .ofCode c width

/-- Decodes the first character of some UTF-16, where two bytes make a unit. -/
def decode16 (unit : UInt8 → UInt8 → UInt16) : Text → Decoded
  | a :: b :: t =>
    let u := unit a b
    if Utf16.isLow u then .bad .loneLow
    else if Utf16.isHigh u then
      match t with
      | c :: d :: _ =>
        if Utf16.isLow (unit c d) then .ofCode (Utf16.pair u (unit c d)) 4 else .bad .loneHigh
      | _ => .cut .incompletePair
    else .ofCode u.toNat 2
  | _ => .cut .incompleteUnit

/-- What decoding some bytes ends with. -/
inductive Ending where
  | complete
  | cut (fault : YamlEncodingFault) (left : Text)
  | bad (fault : YamlEncodingFault)
deriving DecidableEq, Repr

/-- The characters of a chunk of which the first `skip` bytes are already read. -/
def decodeFrom (decode : Text → Decoded) : Nat → Text → List Nat × Ending
  | _, [] => ([], .complete)
  | skip + 1, _ :: t => decodeFrom decode skip t
  | 0, b :: t =>
    match decode (b :: t) with
    | .char c width =>
      let (cs, ending) := decodeFrom decode (width - 1) t
      (c :: cs, ending)
    | .cut fault => ([], .cut fault (b :: t))
    | .bad fault => ([], .bad fault)

/-- The size of a chunk. -/
def chunkSize : Nat := 512

/-- The characters of at most `fuel` chunks, the first of which has so much room. -/
def chunks (decode : Text → Decoded) : Nat → Nat → Text → YamlSource
  | 0, _, _ => {}
  | _, _, [] => {}
  | fuel + 1, room, t =>
    let (cs, ending) := decodeFrom decode 0 (t.take room)
    let later := t.drop room
    let followedBy (s : YamlSource) : YamlSource :=
      { chars := cs ++ s.chars, fault := s.fault, first := cs.length }
    match ending with
    | .complete => followedBy (chunks decode fuel chunkSize later)
    | .bad fault => { fault }
    | .cut fault left =>
      if later.isEmpty then { chars := cs, fault, first := cs.length }
      else followedBy (chunks decode fuel chunkSize (left ++ later))

/-- The characters of a document. An empty one has a line end. -/
def source (t : Text) : YamlSource :=
  let fuel := t.length
  match t with
  | [] => { chars := [10], first := 1 }
  | 0xFF :: 0xFE :: t =>
    chunks (decode16 fun a b => b.toUInt16 * 256 + a.toUInt16) fuel (chunkSize - 2) t
  | 0xFE :: 0xFF :: t =>
    chunks (decode16 fun a b => a.toUInt16 * 256 + b.toUInt16) fuel (chunkSize - 2) t
  | 0xEF :: 0xBB :: 0xBF :: t => chunks decode8 fuel (chunkSize - 3) t
  | t => chunks decode8 fuel chunkSize t

end Yaml

end ModuleSystem
