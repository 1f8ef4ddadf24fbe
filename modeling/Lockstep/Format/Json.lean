import Lockstep.Format.Digest
import Lockstep.Format.Notation

/-! # JSON text

How bytes and scalars are written in JSON, with nothing between the tokens. Numbers that a double cannot
hold exactly, and the bits of floating-point numbers, stand in quotes.
-/

namespace Lockstep

namespace JsonText

/-- A character between quotes. Five control characters have a letter, the others four digits. -/
def escape (c : Char) : String :=
  match c with
  | '"' => "\\\""
  | '\\' => "\\\\"
  | '\x08' => "\\b"
  | '\x0c' => "\\f"
  | '\n' => "\\n"
  | '\r' => "\\r"
  | '\t' => "\\t"
  | c => if c.toNat < 32 then "\\u" ++ Hex.ofNat 4 c.toNat else String.singleton c

def quote (text : String) : String := "\"" ++ String.join (text.toList.map escape) ++ "\""

def array (items : List String) : String := "[" ++ ",".intercalate items ++ "]"

/-- An object; its fields are given in the order of their names. -/
def object (fields : List (String × String)) : String :=
  "\x7b" ++ ",".intercalate (fields.map fun field => quote field.1 ++ ":" ++ field.2) ++ "\x7d"

/-- An object with one field. -/
def tagged (name text : String) : String := object [(name, text)]

end JsonText

open JsonText

/-- Up to a kilobyte is written out, and more is told by its digest, its first bytes and its length. -/
def Bytes.json (bytes : Bytes) : String :=
  if bytes.length ≤ 1024 then quote (Hex.ofBytes bytes)
  else object [("fnv", quote (Hex.ofNat 16 (Digest.ofBytes bytes).toNat)),
    ("head", quote (Hex.ofBytes (bytes.take 16))), ("len", toString bytes.length)]

/-- A scalar without its kind. -/
def Scalar.json : Scalar → String
  | bytes v => v.json
  | v => match v.kind with
    | .u64 | .i64 | .f32 | .f64 | .string => quote v.text
    | _ => v.text

end Lockstep
