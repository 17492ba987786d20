import FilterQuery.Schema.Error
import FilterQuery.Param.Error
import FilterQuery.Filter.Conditions
/-!
# Faults of an engine

A fault of an engine is one of its own or one of a part of it.
-/

namespace FilterQuery.Engine

inductive Error where
  /-- the configuration cannot be read -/
  | malformedConfig
  /-- a file cannot be read -/
  | unreadable (file : String)
  /-- no definition has the name -/
  | unknownFilter (name : String)
  | schema (cause : Schema.Error)
  | binding (cause : BindError)
  | nesting (cause : NestingError)
deriving DecidableEq

def Error.message : Error → String
  | malformedConfig => "Configuration error"
  | unreadable file => "I/O error: " ++ file
  | unknownFilter name => "Unknown filter: " ++ name
  | schema cause => "Parser error: " ++ cause.message
  | binding cause => "Parser error: " ++ cause.message
  | nesting cause => "Compiler error: " ++ cause.message

end FilterQuery.Engine
