import ClassLang.Registry.Record

namespace ClassLang.Console

def className : String := "IO"

def binding : String := "io"

/-- Who carries out a console method. -/
inductive Target where
  | runtime (method : String)
  | host (path : String)
  deriving DecidableEq, Repr

/-- A console method: its name, parameter kinds, result kind and who carries it out. -/
structure Builtin where
  name : String
  params : List Prim
  ret : Prim
  target : Target
  deriving Repr

def builtins : List Builtin := [
  ⟨"writeInt", [.int], .void, .runtime "writeInt"⟩,
  ⟨"writeFloat", [.float], .void, .runtime "writeFloat"⟩,
  ⟨"writeBool", [.bool], .void, .runtime "writeBool"⟩,
  ⟨"writeString", [.string], .void, .runtime "writeStr"⟩,
  ⟨"writeStr", [.string], .void, .runtime "writeStr"⟩,
  ⟨"writeIntLn", [.int], .void, .runtime "writeIntLn"⟩,
  ⟨"writeFloatLn", [.float], .void, .runtime "writeFloatLn"⟩,
  ⟨"writeBoolLn", [.bool], .void, .runtime "writeBoolLn"⟩,
  ⟨"writeStringLn", [.string], .void, .runtime "writeStrLn"⟩,
  ⟨"writeStrLn", [.string], .void, .runtime "writeStrLn"⟩,
  ⟨"readInt", [], .int, .runtime "readInt"⟩,
  ⟨"readFloat", [], .float, .runtime "readFloat"⟩,
  ⟨"readBool", [], .bool, .runtime "readBool"⟩,
  ⟨"readString", [], .string, .runtime "readStr"⟩,
  ⟨"print", [.string], .void, .runtime "writeStr"⟩,
  ⟨"println", [.string], .void, .runtime "writeStrLn"⟩,
  ⟨"printInt", [.int], .void, .runtime "writeInt"⟩,
  ⟨"printFloat", [.float], .void, .runtime "writeFloat"⟩,
  ⟨"printBool", [.bool], .void, .runtime "writeBool"⟩,
  ⟨"int2str", [.int], .string, .host "java/lang/String/valueOf"⟩,
  ⟨"float2str", [.float], .string, .host "java/lang/String/valueOf"⟩,
  ⟨"bool2str", [.bool], .string, .host "java/lang/String/valueOf"⟩]

def builtin? (n : String) : Option Builtin := builtins.find? (·.name == n)

def record : ClassInfo :=
  { ClassInfo.empty className none Span.origin with
    builtin := true
    methods := builtins.map fun b ↦ ⟨b.name, .prim b.ret, b.params.map .prim, true, Span.origin⟩ }

end ClassLang.Console
