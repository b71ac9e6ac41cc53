namespace ClassLang

/-- Options of a build. -/
structure Options where
  requireEntry : Bool := true
  defaultSuper : String := "java/lang/Object"
  consoleRuntime : String := "io"
  sourceExt : String := "java"
  unitExt : String := "j"
  deriving DecidableEq, Repr, Inhabited

end ClassLang
