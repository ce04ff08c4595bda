import Dialectic.Notation.Yaml.Token

/-
  This file defines the nodes that the tokens of a YAML
  document describe.  An alias stands for the node of its
  anchor.

  Key definitions include:
    * `Yaml.Node`
    * `Yaml.Stream`
    * `Yaml.Graph`
    * `Yaml.Graph.ofTokens?`
-/

namespace Dialectic.Yaml

------------------------------------------------------------
-- Nodes
------------------------------------------------------------

/-
  A node is a scalar, a list or a record, each with the tag
  that is written before it, or an alias, which gives the
  number of an anchor.
-/
inductive Node where
| scalar (tag : Option Tag) (text : String) (plain : Bool)
| list (tag : Option Tag) (items : List Node)
| record (tag : Option Tag) (fields : List (Node × Node))
| alias (number : Nat)
deriving Repr, Inhabited

namespace Node

/- The node where none is written. -/
def empty : Node :=
  .scalar none "" true

mutual

/-
  The number of parts of a node: its scalars and aliases, and
  the starts and the ends of its collections.
-/
def size : Node → Nat
| .scalar _ _ _ => 1
| .alias _ => 1
| .list _ items => sizeOfItems items + 2
| .record _ fields => sizeOfFields fields + 2

/- The number of parts of the items of a list. -/
def sizeOfItems : List Node → Nat
| [] => 0
| node :: rest => node.size + sizeOfItems rest

/- The number of parts of the fields of a record. -/
def sizeOfFields : List (Node × Node) → Nat
| [] => 0
| (key, node) :: rest =>
    key.size + node.size + sizeOfFields rest

end

end Node

------------------------------------------------------------
-- Streams
------------------------------------------------------------

/-
  The tokens that are left, the handles of tags with what they
  stand for, and the anchors.  Each name of an anchor has a
  number, each number that is given to an anchor has a place,
  the last one first, and the nodes are those of the places.
-/
structure Stream where
  tokens : List Token
  handles : List (String × Tag)
  names : List (String × Nat)
  places : List (Nat × Nat)
  nodes : List (Nat × Node)
deriving Repr, Inhabited

/- The handles that every document knows. -/
def standardHandles : List (String × Tag) :=
  [("!", [Tag.mark]), ("!!", Tag.schema)]

namespace Stream

/- The next token. -/
def peek? (s : Stream) : Option Token :=
  s.tokens.head?

/- The stream after the next token. -/
def next (s : Stream) : Stream :=
  { s with tokens := s.tokens.drop 1 }

/- The next token is one of the given ones. -/
def atOne (s : Stream) (ts : List Token) : Bool :=
  match s.peek? with
  | some t => ts.contains t
  | none => false

/- The number of the anchor that a name stands for. -/
def numberOf? (s : Stream) (name : String) : Option Nat :=
  (s.names.find? (fun n => n.1 = name)).map Prod.snd

/-
  Bind an anchor, if one is given, before its node is read.
  Its number is the number of names bound before.  A name that
  is bound again counts once, so that the next new name takes
  its number over.
-/
def bind (s : Stream) (name : Option String) : Stream :=
  match name with
  | none => s
  | some name =>
      let number := s.names.length
      { s with
        names :=
          (name, number) :: s.names.filter (fun n => n.1 != name)
        places := (number, s.places.length) :: s.places }

/- Give the node of a place, if there is one. -/
def settle
    (s : Stream)
    (place : Option Nat)
    (node : Node) : Stream :=
  match place with
  | some place => { s with nodes := (place, node) :: s.nodes }
  | none => s

/- The full tag of a handle and a suffix. -/
def expand? (s : Stream) (handle : String) (suffix : Tag) :
    Option Tag :=
  if handle = "" then
    some suffix
  else
    (s.handles.find? (fun h => h.1 = handle)).map
      (fun h => h.2 ++ suffix)

end Stream

------------------------------------------------------------
-- Properties
------------------------------------------------------------

/-
  The anchor and the tag before a node, in either order.
-/
def readProperties? (s : Stream) :
    Option (Option String × Option Tag × Stream) :=
  match s.tokens with
  | .anchor name :: .tag handle suffix :: rest
  | .tag handle suffix :: .anchor name :: rest =>
      (s.expand? handle suffix).map
        (fun tag => (some name, some tag, { s with tokens := rest }))
  | .anchor name :: rest =>
      some (some name, none, { s with tokens := rest })
  | .tag handle suffix :: rest =>
      (s.expand? handle suffix).map
        (fun tag => (none, some tag, { s with tokens := rest }))
  | _ => some (none, none, s)

------------------------------------------------------------
-- Collections
------------------------------------------------------------

/- Read the comma that stands before all items but the first. -/
def readComma? (first : Bool) (s : Stream) : Option Stream :=
  if first then
    some s
  else if s.peek? = some .flowEntry then
    some s.next
  else
    none

mutual

/-
  Read a node.  In a block it may be a block collection, and
  in a block record also a list that is not indented.
-/
def readNode? (block inRecord : Bool) : (fuel : Nat) →
    Stream → Option (Node × Stream)
| 0, _ => none
| fuel + 1, s =>
    match s.tokens with
    | .alias name :: _ =>
        (s.numberOf? name).map
          (fun number => (.alias number, s.next))
    | _ =>
        match readProperties? s with
        | none => none
        | some (name, tag, s) =>
            let described := name.isSome || tag.isSome
            let place := name.map (fun _ => s.places.length)
            (readContent? block inRecord described tag fuel
              (s.bind name)).map
                (fun (node, s) => (node, s.settle place node))

/-
  Read the content of a node after its properties.  A node
  that is described by some property may be empty.
-/
def readContent?
    (block inRecord described : Bool)
    (tag : Option Tag) : (fuel : Nat) →
      Stream → Option (Node × Stream)
| 0, _ => none
| fuel + 1, s =>
    match s.tokens with
    | .scalar text plain :: _ =>
        some (.scalar tag text plain, s.next)
    | .flowListStart :: _ =>
        (readFlowItems? true [] fuel s.next).map
          (fun (items, s) => (.list tag items, s))
    | .flowRecordStart :: _ =>
        (readFlowFields? true [] fuel s.next).map
          (fun (fields, s) => (.record tag fields, s))
    | t :: _ =>
        if inRecord && t = .blockEntry then
          (readLooseItems? [] fuel s).map
            (fun (items, s) => (.list tag items, s))
        else if block && t = .blockListStart then
          (readBlockItems? [] fuel s.next).map
            (fun (items, s) => (.list tag items, s))
        else if block && t = .blockRecordStart then
          (readBlockFields? [] fuel s.next).map
            (fun (fields, s) => (.record tag fields, s))
        else if described then
          some (.scalar tag "" true, s)
        else
          none
    | [] => none

/- Read the items of a block list, after those read so far. -/
def readBlockItems? (read : List Node) : (fuel : Nat) →
    Stream → Option (List Node × Stream)
| 0, _ => none
| fuel + 1, s =>
    match s.peek? with
    | some .blockEntry =>
        match readUnless? [.blockEntry, .blockEnd] true false fuel
            s.next with
        | none => none
        | some (node, s) => readBlockItems? (node :: read) fuel s
    | some .blockEnd => some (read.reverse, s.next)
    | _ => none

/-
  Read the items of a list that is not indented, after those
  read so far.
-/
def readLooseItems? (read : List Node) : (fuel : Nat) →
    Stream → Option (List Node × Stream)
| 0, _ => none
| fuel + 1, s =>
    match s.peek? with
    | some .blockEntry =>
        match readUnless? [.blockEntry, .key, .value, .blockEnd]
            true false fuel s.next with
        | none => none
        | some (node, s) => readLooseItems? (node :: read) fuel s
    | _ => some (read.reverse, s)

/- Read the fields of a block record, after those read so far. -/
def readBlockFields? (read : List (Node × Node)) :
    (fuel : Nat) → Stream →
      Option (List (Node × Node) × Stream)
| 0, _ => none
| fuel + 1, s =>
    let ends := [Token.key, .value, .blockEnd]
    match s.peek? with
    | some .key =>
        match readUnless? ends true true fuel s.next with
        | none => none
        | some (key, s) =>
            if s.peek? = some .value then
              match readUnless? ends true true fuel s.next with
              | none => none
              | some (value, s) =>
                  readBlockFields? ((key, value) :: read) fuel s
            else
              readBlockFields? ((key, .empty) :: read) fuel s
    | some .blockEnd => some (read.reverse, s.next)
    | _ => none

/- Read the items of a flow list, after those read so far. -/
def readFlowItems? (first : Bool) (read : List Node) :
    (fuel : Nat) → Stream → Option (List Node × Stream)
| 0, _ => none
| fuel + 1, s =>
    if s.peek? = some .flowListEnd then
      some (read.reverse, s.next)
    else
      match readComma? first s with
      | none => none
      | some s =>
          match s.peek? with
          | some .flowListEnd => some (read.reverse, s.next)
          | some .key =>
              match readPair? fuel s.next with
              | none => none
              | some (node, s) =>
                  readFlowItems? false (node :: read) fuel s
          | _ =>
              match readNode? false false fuel s with
              | none => none
              | some (node, s) =>
                  readFlowItems? false (node :: read) fuel s

/- Read a record of one field, which is an item of a list. -/
def readPair? : (fuel : Nat) → Stream →
    Option (Node × Stream)
| 0, _ => none
| fuel + 1, s =>
    let ends := [Token.flowEntry, .flowListEnd]
    let readKey :=
      if s.atOne (.value :: ends) then
        some (Node.empty, s.next)
      else
        readNode? false false fuel s
    match readKey with
    | none => none
    | some (key, s) =>
        if s.peek? = some .value then
          (readUnless? ends false false fuel s.next).map
            (fun (value, s) => (.record none [(key, value)], s))
        else
          some (.record none [(key, .empty)], s)

/- Read the fields of a flow record, after those read so far. -/
def readFlowFields? (first : Bool) (read : List (Node × Node)) :
    (fuel : Nat) → Stream →
      Option (List (Node × Node) × Stream)
| 0, _ => none
| fuel + 1, s =>
    let ends := [Token.flowEntry, .flowRecordEnd]
    if s.peek? = some .flowRecordEnd then
      some (read.reverse, s.next)
    else
      match readComma? first s with
      | none => none
      | some s =>
          match s.peek? with
          | some .flowRecordEnd => some (read.reverse, s.next)
          | some .key =>
              match readUnless? (.value :: ends) false false fuel
                  s.next with
              | none => none
              | some (key, s) =>
                  if s.peek? = some .value then
                    match readUnless? ends false false fuel
                        s.next with
                    | none => none
                    | some (value, s) =>
                        readFlowFields? false
                          ((key, value) :: read) fuel s
                  else
                    readFlowFields? false
                      ((key, .empty) :: read) fuel s
          | _ =>
              match readNode? false false fuel s with
              | none => none
              | some (key, s) =>
                  readFlowFields? false
                    ((key, .empty) :: read) fuel s

/- Read a node, or an empty one before one of the given tokens. -/
def readUnless?
    (ends : List Token)
    (block inRecord : Bool) : (fuel : Nat) →
      Stream → Option (Node × Stream)
| 0, _ => none
| fuel + 1, s =>
    if s.atOne ends then
      some (.empty, s)
    else
      readNode? block inRecord fuel s

end

------------------------------------------------------------
-- Documents
------------------------------------------------------------

/- The tokens before which an explicit document is empty. -/
def emptyBefore : Token → Bool
| .version _ _ | .tagDirective _ _ => true
| .documentStart | .documentEnd | .streamEnd => true
| _ => false

/-
  Read the directives of a document and the mark of its start.
  The version may be given once, as 1.1 or 1.2, and each
  handle may be given once.
-/
def readDirectives?
    (hasVersion : Bool)
    (handles : List (String × Tag)) :
    List Token → Option (List (String × Tag) × List Token)
| .version major minor :: rest =>
    if hasVersion || major != 1 || !(minor = 1 || minor = 2) then
      none
    else
      readDirectives? true handles rest
| .tagDirective handle lead :: rest =>
    if handles.any (fun h => h.1 = handle) then
      none
    else
      readDirectives? hasVersion (handles ++ [(handle, lead)]) rest
| .documentStart :: rest => some (handles, rest)
| _ => none

/-
  The node of a document, and the nodes of its anchors by
  their numbers.
-/
structure Graph where
  root : Node
  places : List (Nat × Nat)
  nodes : List (Nat × Node)
deriving Repr, Inhabited

namespace Graph

/- The graph of the empty document. -/
def empty : Graph :=
  ⟨.empty, [], []⟩

/- The node that the last anchor with a number has. -/
def target? (g : Graph) (number : Nat) : Option Node :=
  (g.places.find? (fun p => p.1 = number)).bind
    (fun p => (g.nodes.find? (fun n => n.1 = p.2)).map Prod.snd)

/- Read the graph of a document without the marks around it. -/
def readBare?
    (handles : List (String × Tag))
    (tokens : List Token) : Option (Graph × List Token) :=
  let stream : Stream :=
    { tokens, handles, names := [], places := [], nodes := [] }
  (readNode? true false (5 * tokens.length + 10) stream).map
    (fun (node, s) => (⟨node, s.places, s.nodes⟩, s.tokens))

/- Read the first document of a stream that is not empty. -/
def readDocument? (tokens : List Token) :
    Option (Graph × List Token) :=
  match tokens with
  | .version _ _ :: _ | .tagDirective _ _ :: _
  | .documentStart :: _ =>
      match readDirectives? false [] tokens with
      | none => none
      | some (handles, rest) =>
          let handles := handles ++ standardHandles
          if (rest.head?.map emptyBefore).getD true then
            some (.empty, rest)
          else
            readBare? handles rest
  | _ => readBare? standardHandles tokens

/-
  The graph of a stream of at most one document; the empty one
  if there is none.
-/
def ofTokens? (tokens : List Token) : Option Graph :=
  if tokens = [.streamEnd] then
    some .empty
  else
    match readDocument? tokens with
    | none => none
    | some (graph, rest) =>
        if rest.dropWhile (· = .documentEnd) = [.streamEnd] then
          some graph
        else
          none

end Graph

end Dialectic.Yaml
