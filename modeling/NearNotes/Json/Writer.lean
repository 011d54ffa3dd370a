import NearNotes.Vector.Blob

/-!
# Writing the JSON notation

* `quoted`: a text as a string: quotes, backslashes and control characters are escaped;
* `array`, `object`: values put together.
-/

namespace NearNotes.Json

def writtenChar (c : Char) : String :=
  match c with
  | '"' => "\\\""
  | '\\' => "\\\\"
  | '\n' => "\\n"
  | '\r' => "\\r"
  | '\t' => "\\t"
  | '\x08' => "\\b"
  | '\x0c' => "\\f"
  | c =>
    if c.toNat < 0x20 then "\\u00" ++ Blob.hexByte (UInt8.ofNat c.toNat)
    else c.toString

def quoted (s : String) : String := "\"" ++ String.join (s.toList.map writtenChar) ++ "\""

def array (items : List String) : String := "[" ++ ",".intercalate items ++ "]"

def object (fields : List (String × String)) : String :=
  "\x7b" ++ ",".intercalate (fields.map fun (name, value) => quoted name ++ ":" ++ value) ++ "\x7d"

end NearNotes.Json
