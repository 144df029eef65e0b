import Cmsframe.Json.Numeral

/-!
# Parsing JSON

`ecma_builtin_json_parse_buffer`. The objects and arrays it builds are reached through their
parents only, so a value is the tree below it; the members of an object are in the order of
their creation. A text of the serialiser is parsed to the tree it was written for.
-/

namespace Cmsframe

open Unicode (CodeUnit cesu8 cesu8_cons cesu8_nil cesu8_append)

/-- `ecma_builtin_json_define_value_property`: a new property is created last, an existing one
keeps its place. -/
def defineValueProperty (members : List (List CodeUnit × Json)) (name : List CodeUnit)
    (value : Json) : List (List CodeUnit × Json) :=
  if name ∈ members.map Prod.fst then
    members.map fun member => if member.1 = name then (name, value) else member
  else
    members ++ [(name, value)]

/-- The string of a finalised builder. -/
def builderUnits (bytes : List UInt8) : List CodeUnit := cesu8Units bytes.length bytes

mutual

/-- `ecma_builtin_json_parse_value`, with the position after the token. -/
def ecmaBuiltinJsonParseValue (numbers : NumberConversion) :
    ℕ → JsonToken → List UInt8 → Except ParseStop (Json × List UInt8)
  | 0, _, _ => throw .outOfFuel
  | fuel + 1, token, rest =>
      match token with
      | .number value => return (.number value, rest)
      | .string bytes => return (.string (builderUnits bytes), rest)
      | .null => return (.null, rest)
      | .true => return (.boolean true, rest)
      | .false => return (.boolean false, rest)
      | .leftBrace => do
          let (token, rest) ← ecmaBuiltinJsonParseNextToken numbers rest true
          match token with
          | .rightBrace => return (.object [], rest)
          | _ => parseMembers numbers fuel [] token rest
      | .leftSquare => do
          let (token, rest) ← ecmaBuiltinJsonParseNextToken numbers rest true
          match token with
          | .rightSquare => return (.array [], rest)
          | _ => parseItems numbers fuel [] token rest
      | _ => throw (.empty token)

/-- The loop over the members of an object. -/
def parseMembers (numbers : NumberConversion) :
    ℕ → List (List CodeUnit × Json) → JsonToken → List UInt8 →
      Except ParseStop (Json × List UInt8)
  | 0, _, _, _ => throw .outOfFuel
  | fuel + 1, members, token, rest => do
      match token with
      | .string name =>
          let (token, rest) ← ecmaBuiltinJsonParseNextToken numbers rest false
          match token with
          | .colon =>
              let (token, rest) ← ecmaBuiltinJsonParseNextToken numbers rest true
              let (value, rest) ← ecmaBuiltinJsonParseValue numbers fuel token rest
              let members := defineValueProperty members (builderUnits name) value
              let (token, rest) ← ecmaBuiltinJsonParseNextToken numbers rest false
              match token with
              | .rightBrace => return (.object members, rest)
              | .comma =>
                  let (token, rest) ← ecmaBuiltinJsonParseNextToken numbers rest true
                  parseMembers numbers fuel members token rest
              | _ => throw (.empty token)
          | _ => throw (.empty token)
      | _ => throw (.empty token)

/-- The loop over the items of an array. An empty value is never read off a string token. -/
def parseItems (numbers : NumberConversion) :
    ℕ → List Json → JsonToken → List UInt8 → Except ParseStop (Json × List UInt8)
  | 0, _, _, _ => throw .outOfFuel
  | fuel + 1, items, token, rest =>
      match ecmaBuiltinJsonParseValue numbers fuel token rest with
      | .error (.empty (.string _)) => throw .assertion
      | .error stop => throw stop
      | .ok (value, rest) => do
          let items := items ++ [value]
          let (token, rest) ← ecmaBuiltinJsonParseNextToken numbers rest false
          match token with
          | .rightSquare => return (.array items, rest)
          | .comma =>
              let (token, rest) ← ecmaBuiltinJsonParseNextToken numbers rest true
              parseItems numbers fuel items token rest
          | .string _ => throw .assertion
          | _ => throw (.empty token)

end

/-- `ecma_builtin_json_parse_buffer`; `none` is the error for an invalid format. -/
def ecmaBuiltinJsonParseBuffer (numbers : NumberConversion) (fuel : ℕ) (buffer : List UInt8) :
    Except ParseStop (Option Json) := do
  let (token, rest) ← ecmaBuiltinJsonParseNextToken numbers buffer true
  match ecmaBuiltinJsonParseValue numbers fuel token rest with
  | .error (.empty _) => return none
  | .error stop => throw stop
  | .ok (result, rest) => do
      let (token, _) ← ecmaBuiltinJsonParseNextToken numbers rest false
      match token with
      | .endOfStream => return some result
      | _ => return none

section Tokens

variable (numbers : NumberConversion) {rest : List UInt8}

theorem nextToken_string (units : List CodeUnit) :
    ecmaBuiltinJsonParseNextToken numbers (cesu8 (quotedUnits units) ++ rest) true =
      .ok (.string (cesu8 units), rest) := by
  have scanned := @parseStringLoop_escapeUnits [] [] units rest
  have quoted : cesu8 (quotedUnits units) ++ rest =
      0x22 :: (cesu8 (escapeUnits units) ++ 0x22 :: rest) := by
    simp [quotedUnits, cesu8_append, Unicode.encode]
  rw [quoted]
  change ecmaBuiltinJsonParseString _ = _
  rw [ecmaBuiltinJsonParseString, scanned]
  rfl

end Tokens

end Cmsframe
