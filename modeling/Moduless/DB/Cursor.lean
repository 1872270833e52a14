import Moduless.Go.Base64
import Moduless.Go.Json

/-!
The cursor of a paged query: the sort values and the id of the last row of a
page, written as JSON in base64.

Texts of the database are valid UTF-8; here they are written by their characters.
Reading back what was written gives the same sort values and id for every text.
-/

namespace Moduless.DB
open Go

abbrev Text := List Char

structure CursorPayload where
  keys : List Text
  id : Text
  deriving DecidableEq

namespace CursorPayload

/-- Without sort fields the slice of keys is nil, which is written as `null`. -/
def marshalKeys : List Text → List Char
  | [] => ['n', 'u', 'l', 'l']
  | keys => '[' :: (join (keys.map Json.quote) ',' ++ [']'])

def marshal (c : CursorPayload) : List Char :=
  '\x7b' :: (Json.quote ['k'] ++ ':' :: (marshalKeys c.keys ++
    ',' :: (Json.quote ['i'] ++ ':' :: (Json.quote c.id ++ ['\x7d']))))

/-- `null` in an array of strings leaves the empty string. -/
def stringsOf : List (Json (List Char)) → Option (List Text)
  | [] => some []
  | .str s :: rest => (stringsOf rest).map (s :: ·)
  | .null :: rest => (stringsOf rest).map ([] :: ·)
  | _ :: _ => none

/-- The names `encoding/json` takes for the member of a field: case does not count. -/
def namesKeys (name : List Char) : Bool := name = ['k'] ∨ name = ['K'] ∨ name = ['\u212a']

def namesID (name : List Char) : Bool := name = ['i'] ∨ name = ['I']

def setKeys (c : CursorPayload) : Json (List Char) → Option CursorPayload
  | .null => some { c with keys := [] }
  | .arr items => (stringsOf items).map fun keys => { c with keys }
  | _ => none

def setID (c : CursorPayload) : Json (List Char) → Option CursorPayload
  | .null => some c
  | .str s => some { c with id := s }
  | _ => none

def setMember (c : CursorPayload) (m : List Char × Json (List Char)) : Option CursorPayload :=
  if namesKeys m.1 then c.setKeys m.2 else if namesID m.1 then c.setID m.2 else some c

def unmarshal : Json (List Char) → Option CursorPayload
  | .null => some ⟨[], []⟩
  | .obj members => members.foldlM setMember ⟨[], []⟩
  | _ => none

end CursorPayload

def encodeCursor (c : CursorPayload) : Str :=
  Base64.encode (c.marshal.flatMap String.utf8EncodeChar)

/-- `none` is the error of a malformed cursor. -/
def decodeCursor (s : Str) : Option CursorPayload := do
  let raw ← Base64.decode s
  let text ← raw.toByteArray.utf8Decode?
  let value ← Json.parse text.toList
  CursorPayload.unmarshal value

namespace CursorPayload

def keysValue : List Text → Json (List Char)
  | [] => .null
  | k :: keys => .arr ((k :: keys).map .str)

theorem stringsOf_str (keys : List Text) : stringsOf (keys.map .str) = some keys := by
  induction keys with
  | nil => rfl
  | cons k keys ih => rw [List.map_cons, stringsOf, ih]; rfl

theorem parseItems_join (k : Text) (keys : List Text) (rest : List Char) (fuel : Nat)
    (hFuel : keys.length < fuel) :
    Json.parseItems (fuel + 1) (join ((k :: keys).map Json.quote) ',' ++ ']' :: rest) =
      some ((k :: keys).map .str, rest) := by
  induction keys generalizing k fuel with
  | nil =>
    obtain ⟨fuel, rfl⟩ := Nat.exists_eq_succ_of_ne_zero (Nat.ne_of_gt hFuel)
    have hText : join ([k].map Json.quote) ',' = Json.quote k := by simp [join]
    rw [hText]
    exact Json.parseItems_last (Json.parseValue_quote fuel k _)
  | cons k' keys ih =>
    obtain ⟨fuel, rfl⟩ := Nat.exists_eq_succ_of_ne_zero (Nat.ne_of_gt (Nat.zero_lt_of_lt hFuel))
    have hText : join ((k :: k' :: keys).map Json.quote) ',' ++ ']' :: rest =
        Json.quote k ++ ',' :: (join ((k' :: keys).map Json.quote) ',' ++ ']' :: rest) := by
      simp [join, List.intercalate]
    rw [hText, Json.parseItems_cons (Json.parseValue_quote fuel k _),
      ih k' fuel (Nat.lt_of_succ_lt_succ hFuel)]
    rfl

theorem join_quotes (k : Text) (keys : List Text) (rest : List Char) :
    ∃ cs, join ((k :: keys).map Json.quote) ',' ++ rest = '\x22' :: cs := by
  cases keys <;> simp [join, List.intercalate, Json.quote]

theorem parseValue_keys (keys : List Text) (rest : List Char) (fuel : Nat)
    (hFuel : keys.length < fuel) :
    Json.parseValue (fuel + 1) (marshalKeys keys ++ rest) = some (keysValue keys, rest) := by
  cases keys with
  | nil => rfl
  | cons k keys =>
    obtain ⟨fuel, rfl⟩ := Nat.exists_eq_succ_of_ne_zero (Nat.ne_of_gt (Nat.zero_lt_of_lt hFuel))
    have hText : marshalKeys (k :: keys) ++ rest =
        '[' :: (join ((k :: keys).map Json.quote) ',' ++ ']' :: rest) := by
      simp [marshalKeys]
    have hItems := parseItems_join k keys rest fuel (Nat.lt_of_succ_lt_succ hFuel)
    obtain ⟨cs, hcs⟩ := join_quotes k keys (']' :: rest)
    rw [hcs] at hItems
    rw [hText, hcs]
    exact Json.parseValue_arr hItems

theorem length_le_join (keys : List Text) :
    keys.length ≤ (join (keys.map Json.quote) ',').length := by
  induction keys with
  | nil => exact Nat.zero_le _
  | cons k keys ih =>
    have hQuote : 1 ≤ (Json.quote k).length := Nat.le_add_left 1 _
    cases keys with
    | nil => simpa [join] using hQuote
    | cons k' keys =>
      have hText : join ((k :: k' :: keys).map Json.quote) ',' =
          Json.quote k ++ ',' :: join ((k' :: keys).map Json.quote) ',' := by
        simp [join, List.intercalate]
      simp only [hText, List.length_append, List.length_cons] at ih ⊢
      omega

theorem length_lt_marshal (c : CursorPayload) : c.keys.length < c.marshal.length := by
  have hKeys : c.keys.length ≤ (marshalKeys c.keys).length := by
    cases c.keys with
    | nil => exact Nat.zero_le _
    | cons k keys =>
      have hJoin := length_le_join (k :: keys)
      simp only [marshalKeys, List.length_cons, List.length_append] at hJoin ⊢
      omega
  simp only [marshal, List.length_cons, List.length_append]
  omega

theorem depth_keysValue (keys : List Text) : (keysValue keys).depth ≤ 1 := by
  have hItems : Json.depthItems (keys.map fun k => (.str k : Json (List Char))) = 0 := by
    induction keys with
    | nil => rfl
    | cons k keys ih => rw [List.map_cons, Json.depthItems, ih]; rfl
  cases keys with
  | nil => exact Nat.zero_le _
  | cons k keys => rw [keysValue, Json.depth, hItems]

theorem parse_marshal (c : CursorPayload) :
    Json.parse c.marshal = some (.obj [(['k'], keysValue c.keys), (['i'], .str c.id)]) := by
  apply Json.parse_of_parseValue
  · have hLength := c.length_lt_marshal
    obtain ⟨fuel, hFuel⟩ : ∃ fuel, 2 * c.marshal.length + 2 = fuel + 4 :=
      ⟨2 * c.marshal.length - 2, by omega⟩
    rw [hFuel]
    have hID := Json.parseMembers_last ['i'] (Json.parseValue_quote fuel c.id ['\x7d'])
    have hKeys := Json.parseMembers_cons ['k'] (parseValue_keys c.keys
      (',' :: (Json.quote ['i'] ++ ':' :: (Json.quote c.id ++ ['\x7d']))) (fuel + 1) (by omega))
    rw [hID] at hKeys
    exact Json.parseValue_obj hKeys
  · have hDepth := depth_keysValue c.keys
    simp only [Json.depth, Json.depthMembers, Json.depthMember]
    rw [Json.maxNestingDepth]
    omega

theorem unmarshal_marshal (c : CursorPayload) :
    unmarshal (.obj [(['k'], keysValue c.keys), (['i'], .str c.id)]) = some c := by
  have hKeys : setMember ⟨[], []⟩ (['k'], keysValue c.keys) = some ⟨c.keys, []⟩ := by
    change setKeys ⟨[], []⟩ (keysValue c.keys) = _
    cases c.keys with
    | nil => rfl
    | cons k keys => rw [keysValue, setKeys, stringsOf_str]; rfl
  rw [unmarshal, List.foldlM_cons, hKeys]
  rfl

end CursorPayload

theorem decodeCursor_encodeCursor (c : CursorPayload) :
    decodeCursor (encodeCursor c) = some c := by
  have hText : (c.marshal.flatMap String.utf8EncodeChar).toByteArray.utf8Decode? =
      some c.marshal.toArray := List.utf8Decode?_utf8Encode
  rw [decodeCursor, encodeCursor, Base64.decode_encode]
  simp only [Option.bind_eq_bind, Option.bind_some, hText, CursorPayload.parse_marshal]
  exact c.unmarshal_marshal

theorem encodeCursor_ne_nil (c : CursorPayload) : encodeCursor c ≠ [] := by
  intro h
  have hDecoded := decodeCursor_encodeCursor c
  rw [h] at hDecoded
  have hText : ([] : List UInt8).toByteArray.utf8Decode? = some #[] :=
    List.utf8Decode?_utf8Encode (l := [])
  have hBytes : Base64.decode [] = some [] := rfl
  have hEmpty : decodeCursor [] = none := by
    rw [decodeCursor, hBytes]
    simp only [Option.bind_eq_bind, Option.bind_some, hText]
    rfl
  rw [hEmpty] at hDecoded
  cases hDecoded

end Moduless.DB
