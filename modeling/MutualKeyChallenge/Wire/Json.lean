import MutualKeyChallenge.Wire.Base64
import MutualKeyChallenge.Server.Types

/-! Parsed JSON as the two packages read it, and node's `Buffer.from`. -/
namespace MutualKeyChallenge

abbrev Bytes := List UInt8

/-- A value that `JSON.parse` gives. A number is the 64 bits of its double. -/
inductive Json
  | null
  | bool (b : Bool)
  | number (bits : UInt64)
  | string (s : List Char)
  | array (elements : List Json)
  | object (fields : List (String × Json))

namespace Json

/-- `value[name]` for a value other than `null` and a name that neither arrays, strings nor
`Object.prototype` have; `none` is `undefined`. -/
def property (value : Json) (name : String) : Option Json :=
  match value with
  | .object fields => fields.lookup name
  | _ => none

/-- `value[name]` for any value, which throws on `undefined` and `null`. -/
def member (value : Option Json) (name : String) : Except Thrown (Option Json) :=
  match value with
  | none => .error .typeError
  | some .null => .error .typeError
  | some value => .ok (value.property name)

/-- JavaScript's truthiness. A JSON number is falsy when it is one of the two zeros. -/
def truthy : Json → Bool
  | .null => false
  | .bool b => b
  | .number bits => bits ≠ 0 ∧ bits ≠ 0x8000000000000000
  | .string s => s ≠ []
  | .array _ => true
  | .object _ => true

end Json

/-- A response's body: a value sent as JSON, or a text sent as it is. -/
inductive ResponseBody
  | json (value : Json)
  | text (message : String)

structure HttpResponse where
  status : ℕ
  body : ResponseBody

/-- `JSON.parse` on a text that nothing has stringified. No JSON text starts with a capital. -/
structure JsonParser where
  parse : List Char → Except Thrown Json
  parse_capital : ∀ c text, 'A' ≤ c → c ≤ 'Z' → parse (c :: text) = .error .syntaxError

/-- `JSON.parse(body.toString())`. -/
def JsonParser.parseBody (json : JsonParser) : ResponseBody → Except Thrown Json
  | .json value => .ok value
  | .text message => json.parse message.toList

/-- `Buffer.from` on arrays and objects, which converts some and throws on others. -/
structure NodeBuffer where
  fromObject : Json → Except Thrown Bytes

/-- `Buffer.from(value, "base64")`. -/
def NodeBuffer.fromBase64 (node : NodeBuffer) : Option Json → Except Thrown Bytes
  | some (.string s) => .ok (Base64.decode s)
  | some (.array elements) => node.fromObject (.array elements)
  | some (.object fields) => node.fromObject (.object fields)
  | _ => .error .typeError

/-- `buffer.toString("base64")`. -/
def toBase64 (buffer : Bytes) : Json := .string (Base64.encode buffer)

@[simp] theorem fromBase64_toBase64 (node : NodeBuffer) (buffer : Bytes) :
    node.fromBase64 (some (toBase64 buffer)) = .ok buffer := by
  simp [NodeBuffer.fromBase64, toBase64]

end MutualKeyChallenge
