import Dataflow.Graph.Basic
import Dataflow.Graph.Error
import Dataflow.Number.Increasing
import Dataflow.Table

/-!
Tables beside a graph that is being edited: where each node stands, and who produces and reads
each value. Nodes have names of their own, which stay when the body changes. `Index.build` makes
the tables from a graph; the other functions keep them up to date, change by change.
-/

namespace Dataflow

-----------------------------------------------------------------------------------------
-- Entries
-----------------------------------------------------------------------------------------

/-- The name of a node in a session. As for values, numbers have no limit. -/
structure NodeId where
  number : Nat
  deriving DecidableEq

/-- Versions of nodes stay below this limit: they are words of 32 bits. -/
def versionLimit : Nat := 1 <<< 32

/-- What is known about a node. -/
structure NodeEntry where
  value : ValueId
  position : Nat
  /-- The number of times that the node was marked as changed. Behind the last word comes zero. -/
  version : Nat
  deriving DecidableEq

/-- What is known about a value. -/
structure ValueEntry where
  type : ValueType
  /-- The node that produces the value; inputs have none. -/
  producer : Option NodeId
  /-- The nodes that read the value, one entry per operand. -/
  readers : List NodeId
  deriving DecidableEq

/-- The tables. -/
structure Index where
  nodes : Table NodeId NodeEntry
  values : Table ValueId ValueEntry
  /-- The next free number of a node. -/
  nextNode : Nat
  /-- The next free number of a value. -/
  nextValue : Nat
  deriving DecidableEq

namespace Index

-----------------------------------------------------------------------------------------
-- Questions
-----------------------------------------------------------------------------------------

/-- Where a node stands. -/
def position? (index : Index) (node : NodeId) : Option Nat :=
  (index.nodes.get? node).map (·.position)

/-- The version of a node. -/
def version? (index : Index) (node : NodeId) : Option Nat :=
  (index.nodes.get? node).map (·.version)

/-- Whether the node exists. -/
def contains (index : Index) (node : NodeId) : Bool := index.nodes.has node

/-- The type of a value. -/
def type? (index : Index) (value : ValueId) : Option ValueType :=
  (index.values.get? value).map (·.type)

/-- The node that produces a value. -/
def producer? (index : Index) (value : ValueId) : Option NodeId :=
  (index.values.get? value).bind (·.producer)

/-- Whether a value is an input. -/
def isInput (index : Index) (value : ValueId) : Bool :=
  match index.values.get? value with
  | some entry => entry.producer.isNone
  | none => false

/-- The nodes that read a value, one entry per operand. -/
def readers (index : Index) (value : ValueId) : List NodeId :=
  match index.values.get? value with
  | some entry => entry.readers
  | none => []

/-- The nodes that read a value, in increasing order, each one once. -/
def distinctReaders (index : Index) (value : ValueId) : List NodeId :=
  (increasing ((index.readers value).map (·.number))).map NodeId.mk

/-- The node at a position. -/
def nodeAt? (index : Index) (position : Nat) : Option NodeId :=
  (index.nodes.find? fun (_, entry) => entry.position = position).map (·.1)

/-- All nodes in the order of the body. -/
def ordered (index : Index) : List NodeId :=
  (List.range index.nodes.length).filterMap index.nodeAt?

-----------------------------------------------------------------------------------------
-- Single changes
-----------------------------------------------------------------------------------------

/-- Adds a value that nothing reads yet. -/
def define (index : Index) (value : ValueId) (type : ValueType) (producer : Option NodeId)
    : Except GraphError Index :=
  if index.values.has value then .error (.redefined value)
  else .ok { index with values := index.values.set value ⟨type, producer, []⟩ }

/-- Changes what is known about a value. -/
def modifyValue (index : Index) (value : ValueId) (change : ValueEntry → ValueEntry) : Index :=
  { index with values := index.values.modify value change }

/-- Changes what is known about a node. -/
def modifyNode (index : Index) (node : NodeId) (change : NodeEntry → NodeEntry) : Index :=
  { index with nodes := index.nodes.modify node change }

/-- Adds a reader. -/
def addReader (index : Index) (value : ValueId) (reader : NodeId) : Index :=
  index.modifyValue value fun entry => { entry with readers := entry.readers ++ [reader] }

/-- Drops the first entry of a reader. -/
def dropReader (index : Index) (value : ValueId) (reader : NodeId) : Index :=
  index.modifyValue value fun entry => { entry with readers := entry.readers.erase reader }

/-- Lets one operand read another value. -/
def moveRead (index : Index) (reader : NodeId) (source target : ValueId) : Index :=
  (index.addReader target reader).dropReader source reader

/-- Adds a reader to all values that it reads; each one must be known. -/
def addReads (reader : NodeId) (index : Index) : List ValueId → Except GraphError Index
  | [] => .ok index
  | value :: rest =>
    if index.values.has value then addReads reader (index.addReader value reader) rest
    else .error (.unknownValue value)

/-- Marks a node as changed. -/
def bump (index : Index) (node : NodeId) : Index :=
  index.modifyNode node fun entry =>
    { entry with version := (entry.version + 1) % versionLimit }

/-- Moves a node. -/
def setPosition (index : Index) (node : NodeId) (position : Nat) : Index :=
  index.modifyNode node fun entry => { entry with position }

/-- Changes the type of a value. -/
def setType (index : Index) (value : ValueId) (type : ValueType) : Index :=
  index.modifyValue value fun entry => { entry with type }

-----------------------------------------------------------------------------------------
-- Nodes
-----------------------------------------------------------------------------------------

/-- Moves all nodes from a position on one place back. -/
def openGap (index : Index) (position : Nat) : Index :=
  { index with
    nodes := index.nodes.map fun (node, entry) =>
      (node,
        if position ≤ entry.position then { entry with position := entry.position + 1 }
        else entry) }

/-- Moves all nodes behind a position one place forward. -/
def closeGap (index : Index) (position : Nat) : Index :=
  { index with
    nodes := index.nodes.map fun (node, entry) =>
      (node,
        if position < entry.position then { entry with position := entry.position - 1 }
        else entry) }

/-- Takes the next numbers of a node and of a value. -/
def reserve (index : Index) : Index :=
  { index with nextNode := index.nextNode + 1, nextValue := index.nextValue + 1 }

/-- Adds a node at a position, with new numbers for the node and its value. All that it reads must
be known.
-/
def insert (index : Index) (position : Nat) (node : Node) : Except GraphError Index :=
  match node.reads.find? fun value => !index.values.has value with
  | some value => .error (.unknownValue value)
  | none => do
    let id : NodeId := ⟨index.nextNode⟩
    let index ← index.reserve.define node.value node.type (some id)
    let index := index.openGap position
    let index := { index with nodes := index.nodes.set id ⟨node.value, position, 0⟩ }
    addReads id index node.reads

/-- Forgets a node. -/
def remove (index : Index) (id : NodeId) (node : Node) : Index :=
  match index.nodes.get? id with
  | none => index
  | some entry =>
    let index := { index with nodes := index.nodes.erase id }
    let index := index.closeGap entry.position
    let index := { index with values := index.values.erase entry.value }
    node.reads.foldl (fun index value => index.dropReader value id) index

-----------------------------------------------------------------------------------------
-- Building
-----------------------------------------------------------------------------------------

/-- Adds the inputs of a graph. -/
def addInputs (index : Index) : List (ValueId × ValueType) → Except GraphError Index
  | [] => .ok index
  | (value, type) :: rest => do
    let index ← index.define value type none
    index.addInputs rest

/-- Adds the nodes of a body, without their reads; `position` is the one of the first node. -/
def addNodes (index : Index) : Nat → List Node → Except GraphError Index
  | _, [] => .ok index
  | position, node :: rest => do
    let index ← index.define node.value node.type (some ⟨position⟩)
    let index :=
      { index with nodes := index.nodes.set ⟨position⟩ ⟨node.value, position, 0⟩ }
    index.addNodes (position + 1) rest

/-- Adds the reads of a body; `position` is the one of the first node. -/
def addBodyReads (index : Index) : Nat → List Node → Except GraphError Index
  | _, [] => .ok index
  | position, node :: rest => do
    let index ← addReads ⟨position⟩ index node.reads
    index.addBodyReads (position + 1) rest

/-- The first number above all values. -/
def firstFree (values : Table ValueId ValueEntry) : Nat :=
  values.foldl (fun next (value, _) => max next (value.number + 1)) 0

/-- The tables of a graph. Values may be defined once only, and every operand and output must
name one; the order of the body does not matter.
-/
def build (graph : Graph) : Except GraphError Index := do
  let index : Index := ⟨[], [], 0, 0⟩
  let index ← index.addInputs (graph.inputs.zip graph.inputTypes)
  let index ← index.addNodes 0 graph.body
  let index ← index.addBodyReads 0 graph.body
  match graph.outputs.find? fun value => !index.values.has value with
  | some value => .error (.unknownValue value)
  | none =>
    .ok { index with nextNode := graph.body.length, nextValue := firstFree index.values }

end Index

end Dataflow
