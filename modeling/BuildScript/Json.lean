import BuildScript.Text.Cut

/-!
# JSON output

Values and their text without blanks. Only what has to be escaped is escaped.
-/

namespace BuildScript

inductive JsonValue where
  | null
  | boolean (value : Bool)
  | string (text : String)
  | array (items : List JsonValue)
  | object (fields : List (String × JsonValue))

namespace JsonValue

def hexDigit (n : Nat) : Char := if n < 10 then Char.ofNat (48 + n) else Char.ofNat (87 + n)

def escapedChar (c : Char) : List Char :=
  match c with
  | '"' => ['\\', '"']
  | '\\' => ['\\', '\\']
  | '\n' => ['\\', 'n']
  | '\r' => ['\\', 'r']
  | '\t' => ['\\', 't']
  | '\x08' => ['\\', 'b']
  | '\x0c' => ['\\', 'f']
  | c =>
    if c.toNat < 0x20 then
      ['\\', 'u', '0', '0', hexDigit (c.toNat / 16), hexDigit (c.toNat % 16)]
    else [c]

def quoted (text : String) : String :=
  "\"" ++ String.ofList (text.toList.flatMap escapedChar) ++ "\""

mutual

def render : JsonValue → String
  | null => "null"
  | boolean value => if value then "true" else "false"
  | string text => quoted text
  | array items => "[" ++ Text.joinWith "," (renderItems items) ++ "]"
  | object fields => "\x7b" ++ Text.joinWith "," (renderFields fields) ++ "\x7d"

def renderItems : List JsonValue → List String
  | [] => []
  | item :: rest => render item :: renderItems rest

def renderFields : List (String × JsonValue) → List String
  | [] => []
  | (key, value) :: rest => (quoted key ++ ":" ++ render value) :: renderFields rest

end

end JsonValue

end BuildScript
