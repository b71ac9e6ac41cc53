import ClassLang.Registry.Record
import ClassLang.Hashing.Word
import ClassLang.Hashing.Buckets

namespace ClassLang

open Hashing

def Prim.hashTag : Prim → UInt64
  | .int => 0
  | .float => 1
  | .bool => 2
  | .string => 3
  | .void => 4

def Ty.hashInto : WordHash → Ty → WordHash
  | h, .prim p => (h.add 0).add p.hashTag
  | h, .array e n => (Ty.hashInto (h.add 1) e).add n.toUInt64
  | h, .cls n => (h.add 2).addText n
  | h, .ref t => Ty.hashInto (h.add 3) t
  | h, .nil => h.add 4
  | h, .error => h.add 5

def Signature.hash (s : Signature) : UInt64 :=
  (s.types.foldl Ty.hashInto (({} : WordHash).add s.types.length.toUInt64)).finish

/-- The constructors of a class in the order a scan of its table sees them: the buckets of a
table into which they were added in declaration order. -/
def ClassInfo.ctorsInBucketOrder (c : ClassInfo) : List CtorInfo :=
  (Buckets.ofList (c.ctors.map fun k ↦ (k.sig.hash, k))).toList

end ClassLang
