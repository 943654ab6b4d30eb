/-!
# Text between quotes

Reading what stands after an opening quote, up to and including the closing one. Every reader yields
the text and the rest of the input, or nothing if the quote is never closed.
-/

namespace QuerySteps.Sql.Quoted

/-- What a backslash and the next character stand for. The backslash before a wildcard of LIKE
stays. -/
def escape (c : Char) : List Char :=
  match c with
  | '0' => ['\x00']
  | 'a' => ['\x07']
  | 'b' => ['\x08']
  | 'f' => ['\x0c']
  | 'n' => ['\n']
  | 'r' => ['\r']
  | 't' => ['\t']
  | 'Z' => ['\x1a']
  | '%' => ['\\', '%']
  | '_' => ['\\', '_']
  | c => [c]

/-- Text up to the quote `q`, which stands for itself when doubled; `backslash` turns escapes on. -/
def read (q : Char) (backslash : Bool) : List Char → Option (List Char × List Char)
  | [] => none
  | [c] => if c = q then some ([], []) else none
  | c :: c' :: rest =>
    if c = q then
      if c' = q then (read q backslash rest).map fun (text, rest) => (q :: text, rest)
      else some ([], c' :: rest)
    else if backslash && c == '\\' then
      (read q backslash rest).map fun (text, rest) => (escape c' ++ text, rest)
    else (read q backslash (c' :: rest)).map fun (text, rest) => (c :: text, rest)

def hexValue? (c : Char) : Option Nat :=
  if c.isDigit then some (c.toNat - '0'.toNat)
  else if 'a' ≤ c && c ≤ 'f' then some (c.toNat - 'a'.toNat + 10)
  else if 'A' ≤ c && c ≤ 'F' then some (c.toNat - 'A'.toNat + 10)
  else none

def octalValue? (c : Char) : Option Nat :=
  if '0' ≤ c && c ≤ '7' then some (c.toNat - '0'.toNat) else none

/-- Up to `count` digits in the given base, added to the value so far. -/
def digits (value? : Char → Option Nat) (base : Nat) :
    Nat → Nat → List Char → Nat × List Char
  | 0, value, rest => (value, rest)
  | _ + 1, value, [] => (value, [])
  | count + 1, value, c :: rest =>
    match value? c with
    | some v => digits value? base count (base * value + v) rest
    | none => (value, c :: rest)

/-- The character of a code that is neither zero nor unassigned to characters. -/
def charOf? (code : Nat) : Option Char :=
  if code == 0 then none
  else if code < 0xD800 || (0xDFFF < code && code < 0x110000) then some (Char.ofNat code)
  else none

/-- The character of a byte, which has to be ASCII. -/
def byteChar? (byte : Nat) : Option Char :=
  if byte % 256 < 128 then charOf? (byte % 256) else none

def codeChar? (count : Nat) (rest : List Char) : Option (Char × List Char) :=
  let (code, after) := digits hexValue? 16 count 0 rest
  if after.length + count == rest.length then (charOf? code).map (·, after) else none

/-- The character that a backslash introduces in a string with the mark `E`. -/
def escaped? : List Char → Option (Char × List Char)
  | [] => none
  | 'b' :: rest => some ('\x08', rest)
  | 'f' :: rest => some ('\x0c', rest)
  | 'n' :: rest => some ('\n', rest)
  | 'r' :: rest => some ('\r', rest)
  | 't' :: rest => some ('\t', rest)
  | 'u' :: rest => codeChar? 4 rest
  | 'U' :: rest => codeChar? 8 rest
  | 'x' :: rest =>
    let (byte, after) := digits hexValue? 16 2 0 rest
    if after.length == rest.length then some ('x', rest) else (byteChar? byte).map (·, after)
  | c :: rest =>
    match octalValue? c with
    | some v =>
      let (byte, after) := digits octalValue? 8 2 v rest
      (byteChar? byte).map (·, after)
    | none => if c == '\x00' then none else some (c, rest)

/-- Text of a string with the mark `E`, up to the closing quote. The bound has to exceed the
length of the input. -/
def readEscapes : Nat → List Char → Option (List Char × List Char)
  | 0, _ => none
  | _ + 1, [] => none
  | bound + 1, '\'' :: '\'' :: rest =>
    (readEscapes bound rest).map fun (text, rest) => ('\'' :: text, rest)
  | _ + 1, '\'' :: rest => some ([], rest)
  | bound + 1, '\\' :: rest =>
    match escaped? rest with
    | none => none
    | some (c, rest) => (readEscapes bound rest).map fun (text, rest) => (c :: text, rest)
  | bound + 1, c :: rest => (readEscapes bound rest).map fun (text, rest) => (c :: text, rest)

/-- Text up to the closing mark, which may have several characters. -/
def readUntil (mark : List Char) : List Char → Option (List Char × List Char)
  | [] => none
  | c :: rest =>
    if mark.isPrefixOf (c :: rest) then some ([], (c :: rest).drop mark.length)
    else (readUntil mark rest).map fun (text, rest) => (c :: text, rest)

/-- The rest of the input after a comment, of which `depth` more have to be closed than this
one. -/
def skipComment (nestable : Bool) : Nat → List Char → Option (List Char)
  | _, [] => none
  | _, [_] => none
  | depth, '*' :: '/' :: rest =>
    match depth with
    | 0 => some rest
    | depth + 1 => skipComment nestable depth rest
  | depth, '/' :: '*' :: rest =>
    if nestable then skipComment nestable (depth + 1) rest
    else skipComment nestable depth ('*' :: rest)
  | depth, _ :: c :: rest => skipComment nestable depth (c :: rest)

end QuerySteps.Sql.Quoted
