import NearNotes.Pattern.Syntax

/-!
# Programs

A pattern compiled to a graph of nodes, every one of which knows where to go on.

* `Node`: reading a character, checking a condition, noting a place, branching in order of
  preference, accepting;
* `Ast.compile`: the nodes of a pattern in front of a given continuation;
* `Program.ofAst`: the whole program, which notes where a match starts and ends.

A star over a body that may match nothing is compiled as an optional plus, so that the order of
preference stays that of the pattern.
-/

namespace NearNotes.Pattern

/-- A node of a program; targets are indices of nodes. -/
inductive Node
  | read (chars : CharSet) (next : Nat)
  | check (condition : Look) (next : Nat)
  | mark (slot : Nat) (next : Nat)
  | branch (first second : Nat)
  | accept
  | stuck
deriving Repr

abbrev Nodes := Array Node

/-- A fragment of a program: given the nodes so far and the node to go on with, all nodes and the
node to start with. -/
abbrev Fragment := Nodes → Nat → Nodes × Nat

def addNode (nodes : Nodes) (node : Node) : Nodes × Nat := (nodes.push node, nodes.size)

/-- A choice between going into a body and going on, in the order that greed asks for. -/
def choice (greedy : Bool) (body next : Nat) : Node :=
  if greedy then .branch body next else .branch next body

def Fragment.times (body : Fragment) : Nat → Fragment
  | 0, nodes, next => (nodes, next)
  | n + 1, nodes, next =>
    let (nodes, next) := Fragment.times body n nodes next
    body nodes next

/-- A fragment up to a number of times, every further time inside the one before. -/
def Fragment.upTo (body : Fragment) (greedy : Bool) : Nat → Fragment
  | 0, nodes, next => (nodes, next)
  | n + 1, nodes, next =>
    let (nodes, inner) := Fragment.upTo body greedy n nodes next
    let (nodes, entry) := body nodes inner
    addNode nodes (choice greedy entry next)

/-- A fragment one or more times: the entry of the body and the node that decides after it. -/
def Fragment.loop (body : Fragment) (greedy : Bool) (nodes : Nodes) (next : Nat) :
    Nodes × Nat × Nat :=
  let (nodes, decide) := addNode nodes .stuck
  let (nodes, entry) := body nodes decide
  (nodes.setIfInBounds decide (choice greedy entry next), entry, decide)

def Ast.compile : Ast → Fragment
  | empty, nodes, next => (nodes, next)
  | never, nodes, _ => addNode nodes .stuck
  | set chars, nodes, next => addNode nodes (.read chars next)
  | look condition, nodes, next => addNode nodes (.check condition next)
  | seq a b, nodes, next =>
    let (nodes, next) := b.compile nodes next
    a.compile nodes next
  | either a b, nodes, next =>
    let (nodes, first) := a.compile nodes next
    let (nodes, second) := b.compile nodes next
    addNode nodes (.branch first second)
  | group index body, nodes, next =>
    let (nodes, close) := addNode nodes (.mark (2 * index + 1) next)
    let (nodes, entry) := body.compile nodes close
    addNode nodes (.mark (2 * index) entry)
  | repeated least (some most) greedy body, nodes, next =>
    let (nodes, next) := Fragment.upTo body.compile greedy (most - least) nodes next
    Fragment.times body.compile least nodes next
  | repeated 0 none greedy body, nodes, next =>
    let (nodes, entry, decide) := Fragment.loop body.compile greedy nodes next
    if body.nullable then addNode nodes (choice greedy entry next) else (nodes, decide)
  | repeated (least + 1) none greedy body, nodes, next =>
    let (nodes, entry, _) := Fragment.loop body.compile greedy nodes next
    Fragment.times body.compile least nodes entry

/-- A program: its nodes and where to start. -/
structure Program where
  nodes : Nodes
  start : Nat

def Program.ofAst (ast : Ast) : Program :=
  let (nodes, accept) := addNode #[] .accept
  let (nodes, start) := (Ast.group 0 ast).compile nodes accept
  ⟨nodes, start⟩

end NearNotes.Pattern
