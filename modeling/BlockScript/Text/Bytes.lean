/-! # Byte text

Source text, names and string values are sequences of bytes. Nothing asks them to be well-formed UTF-8, so a text is
the list of its bytes and characters are a view on it. -/

namespace BlockScript

abbrev Bytes := List UInt8

def ascii (text : String) : Bytes := text.toList.map fun c => UInt8.ofNat c.toNat

namespace Bytes

def ofNat (n : Nat) : Bytes := ascii (toString n)

def ofInt (n : Int) : Bytes := ascii (toString n)

def join (separator : Bytes) (parts : List Bytes) : Bytes := separator.intercalate parts

def less : Bytes → Bytes → Bool
  | _, [] => false
  | [], _ :: _ => true
  | a :: as, b :: bs => a < b || (a == b && less as bs)

def cut? (byte : UInt8) : Bytes → Option (Bytes × Bytes)
  | [] => none
  | b :: rest => if b = byte then some ([], rest) else (cut? byte rest).map fun (before, after) => (b :: before, after)

end Bytes

end BlockScript
