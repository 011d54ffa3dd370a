import NearNotes.Pattern.Syntax
import NearNotes.Text.Letter

/-!
# Reading patterns

The written form of a pattern, read from left to right with the groups that are open kept on a
stack.

* `Flags`: the switches that change how the rest of a group is read;
* `Part`: a pattern with its nesting and the room that its program takes, both of which are
  limited (`nestLimit`, `sizeLimit`);
* `parse`: the pattern, or what is wrong with its text (`PatternFault`).
-/

namespace NearNotes.Pattern

inductive PatternFault
  | unclosedGroup | unopenedGroup | badGroupName | duplicateGroupName | lookAround
  | badFlags | badEscape | badClass | badRepetition | nesting | tooLarge
deriving DecidableEq, Repr

def PatternFault.message : PatternFault → String
  | unclosedGroup => "found an open group without a closing ')'"
  | unopenedGroup => "found a closing ')' without an open group"
  | badGroupName => "invalid group name"
  | duplicateGroupName => "duplicate group name"
  | lookAround => "look-around is not supported"
  | badFlags => "invalid flags"
  | badEscape => "invalid escape sequence"
  | badClass => "invalid character class"
  | badRepetition => "invalid repetition"
  | nesting => "pattern has too much nesting"
  | tooLarge => "compiled pattern exceeds the size limit"

structure Flags where
  ignoreCase : Bool := false
  multiLine : Bool := false
  dotAll : Bool := false
  swapGreed : Bool := false
  crlf : Bool := false
  freeSpacing : Bool := false

def nestLimit : Nat := 50

/-- How many bytes a program may take: ten mebibytes. -/
def sizeLimit : Nat := 10 * 1024 * 1024

def nodeSize : Nat := 32

/-- A pattern with its height, leaves having none, and the room of its program. -/
structure Part where
  ast : Ast
  height : Nat := 0
  size : Nat := nodeSize

namespace Part

def ofLook (condition : Look) : Part := { ast := .look condition }

/-- Parts in a row. A single part is that part. -/
def row : List Part → Part
  | [] => { ast := .empty }
  | [part] => part
  | part :: rest =>
    { ast := rest.foldl (fun ast p => .seq ast p.ast) part.ast
      height := 1 + (part :: rest).foldl (fun h p => max h p.height) 0
      size := ((part :: rest).map Part.size).foldr (· + ·) 0 }

/-- Alternatives, the preferred one first. A single alternative is that part. -/
def alternatives : List Part → Part
  | [part] => part
  | parts =>
    { ast := .eitherAll (parts.map Part.ast)
      height := 1 + parts.foldl (fun h p => max h p.height) 0
      size := (parts.map fun p => p.size + 4).foldr (· + ·) 0 + 2 * nodeSize }

def group (index : Nat) (body : Part) : Part :=
  { ast := .group index body.ast, height := 1 + body.height, size := body.size + 2 * nodeSize }

/-- The room of a repetition: the body as often as it is written out, and the nodes that decide
whether to go on. -/
def repeatedSize (least : Nat) (most : Option Nat) (body : Part) : Nat :=
  let decide := nodeSize + 8
  match least, most with
  | 0, some 1 => body.size + decide + nodeSize
  | 0, none => if body.ast.nullable then body.size + 2 * decide + nodeSize else body.size + decide
  | least, none => least * body.size + decide
  | least, some most =>
    if least = most then least * body.size
    else max (least * body.size) (if least = 0 then nodeSize else 0) + nodeSize
      + (most - least) * (body.size + decide)

/-- A repetition. None at all is the empty pattern, and exactly one is the body. -/
def repeated (least : Nat) (most : Option Nat) (greedy : Bool) (body : Part) : Part :=
  match least, most with
  | 0, some 0 => { ast := .empty }
  | 1, some 1 => body
  | _, _ =>
    { ast := .repeated least most greedy body.ast
      height := 1 + body.height
      size := repeatedSize least most body }

end Part

/-! ## Reading under free spacing -/

/-- Skips blanks and comments, a comment running from a hash to the end of its line. -/
def skipFree : (inComment : Bool) → List Char → List Char
  | _, [] => []
  | true, c :: cs => skipFree (c != '\n') cs
  | false, c :: cs =>
    if Text.isBlank c then skipFree false cs
    else if c = '#' then skipFree true cs
    else c :: cs

/-- Skips what free spacing lets stand between the parts of a pattern. -/
def Flags.skip (flags : Flags) (cs : List Char) : List Char :=
  if flags.freeSpacing then skipFree false cs else cs

/-- The next character that counts after the first one, which stays unread. -/
def Flags.peek (flags : Flags) (cs : List Char) : Option Char :=
  if flags.freeSpacing then
    match cs.tail.dropWhile Text.isBlank with
    | '#' :: rest => (rest.dropWhile Text.isBlank).head?.or cs.tail.head?
    | rest => rest.head?.or cs.tail.head?
  else cs.tail.head?

/-- The characters of a kind at the head, with the spacing between them skipped. -/
def Flags.collect (flags : Flags) (kind : Char → Bool) :
    (most : Nat) → List Char → List Char × List Char
  | 0, cs => ([], cs)
  | _, [] => ([], [])
  | most + 1, c :: cs =>
    if kind c then
      let (taken, rest) := flags.collect kind most (flags.skip cs)
      (c :: taken, rest)
    else ([], c :: cs)

/-! ## Escapes -/

inductive Item
  | char (c : Char)
  | set (chars : CharSet)
  | look (condition : Look)

/-- The set of both cases of a letter, or the character itself. -/
def Flags.charItem (flags : Flags) (c : Char) : Item :=
  if flags.ignoreCase then
    match CharSet.otherCase? (c.toNat, c.toNat) with
    | some other => .set (.ofSpans [(c.toNat, c.toNat), other])
    | none => .char c
  else .char c

def Item.toPart : Item → Part
  | .char c => { ast := .set (.single c) }
  | .set chars =>
    { ast := if chars.spans.isEmpty then .never else .set chars
      size := nodeSize + 8 * chars.spans.length }
  | .look condition => .ofLook condition

def hexValue (digits : List Char) : Nat :=
  digits.foldl (fun n c =>
    n * 16 + (if c.isDigit then c.toNat - 48 else (c.toNat ||| 32) - 87)) 0

def isHex (c : Char) : Bool :=
  c.isDigit || ('a' ≤ c && c ≤ 'f') || ('A' ≤ c && c ≤ 'F')

def charOfCode? (n : Nat) : Option Char :=
  if n < 0xD800 || (0xE000 ≤ n && n ≤ 0x10FFFF) then some (Char.ofNat n) else none

/-- A number of hexadecimal digits, with the spacing before each but the first skipped. -/
def Flags.hexDigits (flags : Flags) : (count : Nat) → List Char →
    Except PatternFault (List Char × List Char)
  | 0, cs => .ok ([], cs)
  | _ + 1, [] => .error .badEscape
  | count + 1, c :: cs =>
    if isHex c then do
      let (digits, rest) ← flags.hexDigits count (flags.skip cs)
      return (c :: digits, rest)
    else .error .badEscape

/-- A character given by its code: digits in braces, or a fixed number of them. -/
def Flags.hexEscape (flags : Flags) (width : Nat) (cs : List Char) :
    Except PatternFault (Item × List Char) := do
  let (digits, rest) ←
    match flags.skip cs with
    | '\x7b' :: inner =>
      match flags.collect isHex inner.length (flags.skip inner) with
      | (digits, '\x7d' :: rest) =>
        if digits.isEmpty then .error .badEscape else .ok (digits, flags.skip rest)
      | _ => .error PatternFault.badEscape
    | inner => flags.hexDigits width inner
  match charOfCode? (hexValue digits) with
  | some c => return (flags.charItem c, rest)
  | none => .error .badEscape

/-- A named word boundary in braces, after its opening brace. Something that is no name is left
for the reader of repetitions. -/
def Flags.namedBoundary (flags : Flags) (cs : List Char) :
    Except PatternFault (Option (Look × List Char)) :=
  let isName (c : Char) := c.isAlpha || c == '-'
  match flags.skip cs with
  | [] => .error .badEscape
  | c :: rest =>
    if isName c then
      match flags.collect isName cs.length (c :: rest) with
      | (name, '\x7d' :: rest) =>
        match String.ofList name with
        | "start" => .ok (some (.wordStart, rest))
        | "end" => .ok (some (.wordEnd, rest))
        | "start-half" => .ok (some (.wordStartHalf, rest))
        | "end-half" => .ok (some (.wordEndHalf, rest))
        | _ => .error .badEscape
      | _ => .error .badEscape
    else .ok none

/-- Characters that a backslash turns into themselves: all of the basic set but letters, digits
and angle brackets. -/
def isEscapable (c : Char) : Bool :=
  c.toNat < 128 && !c.isAlphanum && c != '<' && c != '>'

def Flags.escape (flags : Flags) : List Char → Except PatternFault (Item × List Char)
  | [] => .error .badEscape
  | 'x' :: cs => flags.hexEscape 2 cs
  | 'u' :: cs => flags.hexEscape 4 cs
  | 'U' :: cs => flags.hexEscape 8 cs
  | 'd' :: cs => .ok (.set .digits, cs)
  | 'D' :: cs => .ok (.set CharSet.digits.complement, cs)
  | 's' :: cs => .ok (.set .spaces, cs)
  | 'S' :: cs => .ok (.set CharSet.spaces.complement, cs)
  | 'w' :: cs => .ok (.set .wordChars, cs)
  | 'W' :: cs => .ok (.set CharSet.wordChars.complement, cs)
  | 'a' :: cs => .ok (flags.charItem '\x07', cs)
  | 'f' :: cs => .ok (flags.charItem '\x0c', cs)
  | 't' :: cs => .ok (flags.charItem '\t', cs)
  | 'n' :: cs => .ok (flags.charItem '\n', cs)
  | 'r' :: cs => .ok (flags.charItem '\r', cs)
  | 'v' :: cs => .ok (flags.charItem '\x0b', cs)
  | 'A' :: cs => .ok (.look .textStart, cs)
  | 'z' :: cs => .ok (.look .textEnd, cs)
  | 'B' :: cs => .ok (.look .notWordBoundary, cs)
  | '<' :: cs => .ok (.look .wordStart, cs)
  | '>' :: cs => .ok (.look .wordEnd, cs)
  | 'b' :: '\x7b' :: cs => do
    match ← flags.namedBoundary cs with
    | some (condition, rest) => return (.look condition, rest)
    | none => return (.look .wordBoundary, '\x7b' :: cs)
  | 'b' :: cs => .ok (.look .wordBoundary, cs)
  | c :: cs => if isEscapable c then .ok (flags.charItem c, cs) else .error .badEscape

/-! ## Character classes -/

/-- A class named between colons, after its opening bracket. -/
def namedClass? : List Char → Option (CharSet × List Char)
  | ':' :: cs =>
    let (negated, cs) :=
      match cs with
      | '^' :: rest => (true, rest)
      | _ => (false, cs)
    match cs.dropWhile (· != ':') with
    | ':' :: ']' :: rest =>
      (CharSet.named? (String.ofList (cs.takeWhile (· != ':')))).map fun chars =>
        (if negated then chars.complement else chars, rest)
    | _ => none
  | _ => none

def Flags.classItem (flags : Flags) : List Char → Except PatternFault (Item × List Char)
  | [] => .error .badClass
  | '\\' :: cs => flags.escape cs
  | c :: cs => .ok (.char c, cs)

/-- An item of a class or a span between two, as spans. -/
def Flags.classSpan (flags : Flags) (cs : List Char) :
    Except PatternFault (List (Nat × Nat) × List Char) := do
  let (first, rest) ← flags.classItem cs
  let rest := flags.skip rest
  if rest.isEmpty then throw .badClass
  let next := flags.peek rest
  if rest.head? != some '-' || next == some ']' || next == some '-' then
    match first with
    | .char c => return ([(c.toNat, c.toNat)], rest)
    | .set chars => return (chars.spans, rest)
    | .look _ => throw .badClass
  else
    let rest := flags.skip rest.tail
    if rest.isEmpty then throw .badClass
    let (second, rest) ← flags.classItem rest
    match first, second with
    | .char lo, .char hi =>
      if hi < lo then throw .badClass
      return ([(lo.toNat, hi.toNat)], rest)
    | _, _ => throw .badClass

/-- The items of a class up to its closing bracket. -/
def Flags.classItems (flags : Flags) : (most : Nat) → List (Nat × Nat) → List Char →
    Except PatternFault (CharSet × List Char)
  | 0, _, _ => .error .badClass
  | most + 1, spans, cs =>
    match flags.skip cs with
    | [] => .error .badClass
    | '[' :: rest =>
      match namedClass? rest with
      | some (chars, rest) => flags.classItems most (spans ++ chars.spans) rest
      | none => .error .badClass
    | ']' :: rest =>
      let chars := CharSet.ofSpans spans
      .ok (if flags.ignoreCase then chars.foldCase else chars, rest)
    | '&' :: '&' :: _ | '-' :: '-' :: _ | '~' :: '~' :: _ => .error .badClass
    | rest => do
      let (more, rest) ← flags.classSpan rest
      flags.classItems most (spans ++ more) rest

/-- Leading dashes of a class, which stand for themselves. -/
def Flags.leadingDashes (flags : Flags) : (most : Nat) → List Char → List (Nat × Nat) × List Char
  | most + 1, '-' :: cs =>
    let (spans, rest) := flags.leadingDashes most (flags.skip cs)
    ((0x2D, 0x2D) :: spans, rest)
  | _, cs => ([], cs)

/-- A class, after its opening bracket. A closing bracket that comes first stands for itself, so
no class is written empty. -/
def Flags.charClass (flags : Flags) (cs : List Char) : Except PatternFault (Item × List Char) := do
  let cs := flags.skip cs
  let (negated, cs) :=
    match cs with
    | '^' :: rest => (true, flags.skip rest)
    | _ => (false, cs)
  let (dashes, cs) := flags.leadingDashes cs.length cs
  let (spans, cs) :=
    match dashes, cs with
    | [], ']' :: rest => ([(0x5D, 0x5D)], flags.skip rest)
    | _, _ => (dashes, cs)
  let (chars, rest) ← flags.classItems (cs.length + 1) spans cs
  return (.set (if negated then chars.complement else chars), rest)

/-! ## Groups and repetitions -/

def Flags.switch (flags : Flags) (on : Bool) : Char → Option Flags
  | 'i' => some { flags with ignoreCase := on }
  | 'm' => some { flags with multiLine := on }
  | 's' => some { flags with dotAll := on }
  | 'U' => some { flags with swapGreed := on }
  | 'R' => some { flags with crlf := on }
  | 'x' => some { flags with freeSpacing := on }
  | 'u' => some flags
  | _ => none

/-- Flags up to the colon or parenthesis that ends them, where a dash turns off those after it and
no flag stands twice. -/
def Flags.read (flags : Flags) (on : Bool) (used : List Char) (dangling : Bool) :
    List Char → Except PatternFault (Flags × List Char)
  | [] => .error .badFlags
  | c :: cs =>
    if c = ':' ∨ c = ')' then if dangling then .error .badFlags else .ok (flags, c :: cs)
    else if c = '-' then if on then flags.read false used true cs else .error .badFlags
    else
      match flags.switch on c with
      | some flags =>
        if used.contains c then .error .badFlags else flags.read on (c :: used) false cs
      | none => .error .badFlags

/-- The name of a group up to its closing angle bracket. -/
def groupName (cs : List Char) : Except PatternFault (String × List Char) :=
  let name := cs.takeWhile (· != '>')
  let follows (c : Char) :=
    c == '_' || c == '.' || c == '[' || c == ']' || Text.isAlphanumeric c
  match name, cs.drop name.length with
  | first :: others, '>' :: rest =>
    if (first == '_' || Text.isAlphabetic first) && others.all follows then
      .ok (String.ofList name, rest)
    else .error .badGroupName
  | _, _ => .error .badGroupName

/-- A decimal count below 2^32, with blanks around it. -/
def Flags.count (flags : Flags) (cs : List Char) : Except PatternFault (Nat × List Char) :=
  match flags.collect Char.isDigit cs.length (cs.dropWhile Text.isBlank) with
  | (digits, rest) =>
    let n := digits.foldl (fun n c => n * 10 + (c.toNat - 48)) 0
    if digits.isEmpty || 0x100000000 ≤ n then .error .badRepetition
    else .ok (n, flags.skip (rest.dropWhile Text.isBlank))

/-- A mark of laziness after a repetition, and the greed that it leaves. -/
def Flags.greed (flags : Flags) : List Char → Bool × List Char
  | '?' :: cs => (flags.swapGreed, cs)
  | cs => (!flags.swapGreed, cs)

/-- The bounds of a counted repetition, after its opening brace. -/
def Flags.bounds (flags : Flags) (cs : List Char) :
    Except PatternFault (Nat × Option Nat × List Char) := do
  let (least, rest) ← flags.count (flags.skip cs)
  match rest with
  | '\x7d' :: rest => return (least, some least, flags.skip rest)
  | ',' :: rest =>
    match flags.skip rest with
    | '\x7d' :: rest => return (least, none, flags.skip rest)
    | rest =>
      let (most, rest) ← flags.count rest
      match rest with
      | '\x7d' :: rest =>
        if most < least then throw .badRepetition
        return (least, some most, flags.skip rest)
      | _ => throw .badRepetition
  | _ => throw .badRepetition

/-- An open group: what stands before it in the group around it, the flags to come back to and
its number, if it has one. -/
structure Frame where
  alternatives : List Part
  row : List Part
  flags : Flags
  index : Option Nat

/-- How far a pattern has been read. The last part of a row stands first. -/
structure Reader where
  stack : List Frame := []
  alternatives : List Part := []
  row : List Part := []
  flags : Flags := {}
  groups : Nat := 0
  names : List String := []

namespace Reader

def push (r : Reader) (part : Part) : Reader := { r with row := part :: r.row }

def inner (r : Reader) : Part :=
  .alternatives (Part.row r.row.reverse :: r.alternatives).reverse

/-- Opens a group, under flags that end with it. -/
def openGroup (r : Reader) (index : Option Nat) (flags : Flags) : Except PatternFault Reader :=
  if r.stack.length ≥ nestLimit then .error .nesting
  else .ok { r with
    stack := ⟨r.alternatives, r.row, r.flags, index⟩ :: r.stack
    alternatives := [], row := [], flags
    groups := r.groups + (if index.isSome then 1 else 0) }

def closeGroup (r : Reader) : Except PatternFault Reader :=
  match r.stack with
  | [] => .error .unopenedGroup
  | frame :: stack =>
    let part :=
      match frame.index with
      | some index => Part.group index r.inner
      | none => r.inner
    .ok { r with
      stack, alternatives := frame.alternatives, row := part :: frame.row, flags := frame.flags }

def openNamed (r : Reader) (cs : List Char) : Except PatternFault (Reader × List Char) := do
  let (name, rest) ← groupName cs
  if r.names.contains name then throw .duplicateGroupName
  let r ← { r with names := name :: r.names }.openGroup (some (r.groups + 1)) r.flags
  return (r, rest)

/-- What stands after an opening parenthesis: a group, or a change of flags. -/
def readGroup (r : Reader) (cs : List Char) : Except PatternFault (Reader × List Char) := do
  match r.flags.skip cs with
  | '?' :: '=' :: _ | '?' :: '!' :: _ | '?' :: '<' :: '=' :: _ | '?' :: '<' :: '!' :: _ =>
    throw .lookAround
  | '?' :: 'P' :: '<' :: rest => r.openNamed rest
  | '?' :: '<' :: rest => r.openNamed rest
  | '?' :: rest =>
    let (flags, after) ← r.flags.read true [] false rest
    match after with
    | ')' :: after =>
      if rest.head? == some ')' then throw .badFlags
      return ({ r with flags }, after)
    | _ => return (← r.openGroup none flags, after.tail)
  | rest => return (← r.openGroup (some (r.groups + 1)) r.flags, rest)

def repeatLast (r : Reader) (least : Nat) (most : Option Nat) (greedy : Bool) :
    Except PatternFault Reader :=
  match r.row with
  | [] => .error .badRepetition
  | part :: row => .ok { r with row := Part.repeated least most greedy part :: row }

def readMark (r : Reader) (least : Nat) (most : Option Nat) (cs : List Char) :
    Except PatternFault (Reader × List Char) := do
  let (greedy, rest) := r.flags.greed cs
  return (← r.repeatLast least most greedy, rest)

def step (r : Reader) : List Char → Except PatternFault (Reader × List Char)
  | [] => .ok (r, [])
  | '(' :: cs => r.readGroup cs
  | ')' :: cs => do return (← r.closeGroup, cs)
  | '|' :: cs =>
    .ok ({ r with alternatives := Part.row r.row.reverse :: r.alternatives, row := [] }, cs)
  | '[' :: cs => do
    let (item, rest) ← r.flags.charClass cs
    return (r.push item.toPart, rest)
  | '?' :: cs => r.readMark 0 (some 1) cs
  | '*' :: cs => r.readMark 0 none cs
  | '+' :: cs => r.readMark 1 none cs
  | '\x7b' :: cs => do
    if r.row.isEmpty then throw .badRepetition
    let (least, most, rest) ← r.flags.bounds cs
    r.readMark least most rest
  | '\\' :: cs => do
    let (item, rest) ← r.flags.escape cs
    return (r.push item.toPart, rest)
  | '.' :: cs =>
    let chars := if r.flags.dotAll then CharSet.all
      else if r.flags.crlf then .notLineBreak else .notNewline
    .ok (r.push (Item.set chars).toPart, cs)
  | '^' :: cs =>
    .ok (r.push (.ofLook (if !r.flags.multiLine then .textStart
      else if r.flags.crlf then .lineStartCrlf else .lineStart)), cs)
  | '$' :: cs =>
    .ok (r.push (.ofLook (if !r.flags.multiLine then .textEnd
      else if r.flags.crlf then .lineEndCrlf else .lineEnd)), cs)
  | c :: cs => .ok (r.push (r.flags.charItem c).toPart, cs)

/-- Reads to the end; every step takes at least one character. -/
def readAll (r : Reader) : (most : Nat) → List Char → Except PatternFault Reader
  | 0, _ => .ok r
  | most + 1, cs =>
    match r.flags.skip cs with
    | [] => .ok r
    | cs => do
      let (r, rest) ← r.step cs
      r.readAll most rest

end Reader

def parse (text : String) : Except PatternFault Ast := do
  let r ← Reader.readAll {} (text.toList.length + 1) text.toList
  if !r.stack.isEmpty then throw .unclosedGroup
  let part := r.inner
  if part.height > nestLimit then throw .nesting
  let room := part.size + 3 * nodeSize + 16 * (r.groups + 1)
  if room > sizeLimit then throw .tooLarge
  return part.ast

end NearNotes.Pattern
