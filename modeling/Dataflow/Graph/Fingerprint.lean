import Dataflow.Graph.Basic

/-! Fingerprints that do not change between builds: the 64-bit FNV-1a hash of some bytes. -/

namespace Dataflow.Fingerprint

/-- The hash of no bytes. -/
def offset : UInt64 := 0xcbf29ce484222325

/-- The factor of each step. -/
def prime : UInt64 := 0x00000100000001b3

/-- The hash of some bytes. -/
def ofBytes (bytes : List UInt8) : UInt64 :=
  bytes.foldl (fun hash byte => (hash ^^^ byte.toUInt64) * prime) offset

/-- The bytes that stand for an operation's meaning: its name, an end mark and its revision. -/
def revisionBytes (operation : Operation) : List UInt8 :=
  operation.name.toUTF8.toList ++ 0xff :: littleEndian 4 operation.revision

/-- The fingerprint of the meaning of all operations of a program. -/
def revisions (program : Program) : UInt64 :=
  ofBytes (program.graphs.flatMap fun graph =>
    graph.body.flatMap fun node => revisionBytes node.operation)

end Dataflow.Fingerprint
