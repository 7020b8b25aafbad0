import Dataflow.Graph.Order
import Dataflow.Rewrite.Index
import Dataflow.Typing.Infer

/-!
Editing sessions. A session holds a graph and its tables, and every edit changes both. An edit
that fails says what it left behind.
-/

namespace Dataflow

/-- A graph that is being edited, with its tables. -/
structure Session where
  graph : Graph
  index : Index

/-- A step of an editing session: a result or an error, and the session after it. -/
abbrev Edit (α : Type) := EStateM GraphError Session α

namespace Session

/-- Starts a session. -/
def start (graph : Graph) : Except GraphError Session := do
  let index ← Index.build graph
  .ok ⟨graph, index⟩

-----------------------------------------------------------------------------------------
-- Questions
-----------------------------------------------------------------------------------------

/-- The node of some name, unless it was erased. -/
def node? (session : Session) (id : NodeId) : Option Node :=
  (session.index.position? id).bind (session.graph.body[·]?)

/-- The node that produces a value. -/
def producer? (session : Session) (value : ValueId) : Option Node :=
  (session.index.producer? value).bind session.node?

/-- Whether a value is an output. -/
def isOutput (session : Session) (value : ValueId) : Bool :=
  session.graph.outputs.contains value

/-- The number of nodes that read a value, and of outputs that show it. -/
def useCount (session : Session) (value : ValueId) : Nat :=
  (session.index.distinctReaders value).length + session.graph.outputs.count value

/-- The type of an operand. -/
def operandType? (session : Session) : Operand → Option ValueType
  | .value value => session.index.type? value
  | .literal literal => some (.tensor literal.type)

/-- Whether the graph has tables and its body is in order. -/
def verify (session : Session) : Bool :=
  (Index.build session.graph).toBool && session.graph.checkOrder.toBool

/-- The values that the producer of a value reads. -/
def readsOf (session : Session) (value : ValueId) : List ValueId :=
  (session.producer? value).elim [] Node.reads

/-- Adds a value to some others, unless it is among them. -/
def addNew (values : List ValueId) (value : ValueId) : List ValueId :=
  if values.contains value then values else values ++ [value]

/-- Adds what the producers of some values read, a number of times. -/
def sources (session : Session) : Nat → List ValueId → List ValueId
  | 0, values => values
  | rounds + 1, values =>
    session.sources rounds ((values.flatMap session.readsOf).foldl addNew values)

/-- Whether a value is computed from another one, or is the other one. No chain of reads passes
a node twice, so the number of nodes bounds its length.
-/
def dependsOn (session : Session) (value target : ValueId) : Bool :=
  (session.sources session.graph.body.length [value]).contains target

-----------------------------------------------------------------------------------------
-- Edits
-----------------------------------------------------------------------------------------

/-- Requires the node of some name. -/
def node (id : NodeId) : Edit Node := do
  match (← get).node? id with
  | some node => return node
  | none => throw (.breach .erasedNode)

/-- Requires the position of a node; without one, `missing` is the error. -/
def position (id : NodeId) (missing : GraphError) : Edit Nat := do
  match (← get).index.position? id with
  | some position => return position
  | none => throw missing

/-- Requires the type of a value. -/
def typeOf (value : ValueId) : Edit ValueType := do
  match (← get).index.type? value with
  | some type => return type
  | none => throw (.unknownValue value)

/-- Changes the tables. -/
def modifyIndex (change : Index → Index) : Edit Unit :=
  modify fun session => { session with index := change session.index }

/-- Changes the graph. -/
def modifyGraph (change : Graph → Graph) : Edit Unit :=
  modify fun session => { session with graph := change session.graph }

/-- Marks a node as changed. -/
def bump (id : NodeId) : Edit Unit := modifyIndex (·.bump id)

-----------------------------------------------------------------------------------------
-- Order
-----------------------------------------------------------------------------------------

/-- Gives nodes new positions: the node that stood at each position of `order` now stands where
that position is listed.
-/
def reposition (nodes : List NodeId) (index : Index) : Nat → List Nat → Index
  | _, [] => index
  | target, source :: rest =>
    match nodes[source]? with
    | some id => reposition nodes (index.setPosition id target) (target + 1) rest
    | none => reposition nodes index (target + 1) rest

/-- Puts the body in order. -/
def sort : Edit Unit := do
  let session ← get
  match session.graph.sortedPositions with
  | .error error => throw error
  | .ok order =>
    if order = List.range order.length then return ()
    else
      let ids := session.index.ordered
      modifyGraph fun graph => { graph with body := Graph.permute graph.body order }
      modifyIndex (reposition ids · 0 order)

-----------------------------------------------------------------------------------------
-- Replacing values
-----------------------------------------------------------------------------------------

/-- Lets the operand of a node at `place` read `target` instead of `source`. -/
def redirectRead (source target : ValueId) (id : NodeId) (position place : Nat) : Edit Unit := do
  modifyGraph fun graph =>
    { graph with
      body := graph.body.modify position fun node =>
        { node with operands := node.operands.set place (.value target) } }
  if !(← get).index.values.has target then throw (.unknownValue target)
  modifyIndex (·.moveRead id source target)

/-- Lets operands of a node read `target` instead of `source`, one after the other. The first of
them is the one at `place`.
-/
def redirectReads (source target : ValueId) (id : NodeId) (position : Nat)
    : Nat → List Operand → Edit Unit
  | _, [] => return ()
  | place, operand :: rest => do
    if operand = .value source then redirectRead source target id position place
    redirectReads source target id position (place + 1) rest

/-- Lets one reader of `source` read `target`. -/
def redirectReader (source target : ValueId) (id : NodeId) : Edit Unit := do
  let position ← position id (.unknownValue source)
  let reader ← node id
  redirectReads source target id position 0 reader.operands
  bump id

/-- Whether some node stands before the producer of a value. -/
def precedesProducer (session : Session) (value : ValueId) (readers : List NodeId) : Bool :=
  match (session.index.producer? value).bind session.index.position? with
  | some produced =>
    readers.any fun id =>
      match session.index.position? id with
      | some position => position < produced
      | none => false
  | none => false

/-- Lets outputs show `target` instead of `source`, with the type of `target`. Every output that
changes must have a declared type.
-/
def redirectOutputs (source target : ValueId) (type : ValueType)
    : List ValueId → List ValueType → Option (List ValueId × List ValueType)
  | [], types => some ([], types)
  | output :: outputs, [] =>
    if output = source then none
    else (redirectOutputs source target type outputs []).map fun (outputs, types) =>
      (output :: outputs, types)
  | output :: outputs, declared :: types =>
    (redirectOutputs source target type outputs types).map fun (outputs, types) =>
      if output = source then (target :: outputs, type :: types)
      else (output :: outputs, declared :: types)

/-- Lets everything that reads or shows `source` read or show `target`. The two must have
compatible types, and `target` must not depend on `source`.
-/
def replace (source target : ValueId) : Edit Unit := do
  if source = target then return ()
  let sourceType ← typeOf source
  let targetType ← typeOf target
  if !sourceType.compatibleWith targetType then throw (.incompatible source target)
  if (← get).dependsOn target source then throw (.cycle source target)
  let readers := (← get).index.distinctReaders source
  let reorder := (← get).precedesProducer target readers
  readers.forM (redirectReader source target)
  let graph := (← get).graph
  match redirectOutputs source target targetType graph.outputs graph.outputTypes with
  | none => throw (.breach .untypedOutput)
  | some (outputs, outputTypes) => modifyGraph fun graph => { graph with outputs, outputTypes }
  if reorder then sort

-----------------------------------------------------------------------------------------
-- Single nodes
-----------------------------------------------------------------------------------------

/-- Removes a node that nothing reads or shows. -/
def erase (id : NodeId) : Edit Unit := do
  let old ← node id
  let session ← get
  if !(session.index.readers old.value).isEmpty || session.isOutput old.value then
    throw (.stillUsed old.value)
  let position ← position id (.unknownValue old.value)
  modifyGraph fun graph => { graph with body := graph.body.eraseIdx position }
  modifyIndex (·.remove id old)

/-- Requires the type of an operand. -/
def operandType : Operand → Edit ValueType
  | .value value => typeOf value
  | .literal literal => return .tensor literal.type

/-- Requires the type of an operation. -/
def resultType (operation : Operation) (types : List ValueType) : Edit ValueType :=
  match operation.resultType types with
  | .ok type => return type
  | .error error => throw (.type error)

/-- Adds a node in front of another one. Its type comes from its operands. -/
def insertBefore (before : NodeId) (operation : Operation) (operands : List Operand)
    : Edit ValueId := do
  let types ← operands.mapM operandType
  let type ← resultType operation types
  let position ← position before (.breach .erasedNode)
  let session ← get
  let node : Node := ⟨⟨session.index.nextValue⟩, operation, operands, type⟩
  match session.index.insert position node with
  | .error error =>
    -- The numbers stay taken.
    modifyIndex Index.reserve
    throw error
  | .ok index =>
    modifyIndex fun _ => index
    modifyGraph fun graph => { graph with body := graph.body.insertIdx position node }
    return node.value

/-- Adds a constant in front of a node. -/
def insertConstant (before : NodeId) (literal : Literal) : Edit ValueId :=
  insertBefore before (.constant literal) []

/-- Changes the operation of a node. The new type must be compatible with the old one. -/
def setOperation (id : NodeId) (operation : Operation) : Edit Unit := do
  let old ← node id
  let session ← get
  match old.operands.mapM session.operandType? with
  | none => throw (.unknownValue old.value)
  | some types =>
    let type ← resultType operation types
    if !old.type.compatibleWith type then throw (.incompatible old.value old.value)
    let position ← position id (.unknownValue old.value)
    modifyGraph fun graph =>
      { graph with
        body := graph.body.modify position fun node => { node with operation, type } }
    modifyIndex (·.setType old.value type)
    bump id

end Session

end Dataflow
