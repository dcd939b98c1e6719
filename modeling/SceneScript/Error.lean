import SceneScript.Value.Message

/-!
# Errors

Every failure of the library is one of these, named for its cause. The wording is in
`Unsupported.reason` and `Error.message`.
-/

namespace SceneScript

/-- Why a value has no place in scene text or in a scene. -/
inductive Unsupported
  /-- Nothing stands where a value is needed. -/
  | null
  /-- A tuple holds something other than a scalar. -/
  | tupleMember (member : Value)
  | notFinite (number : Number)
  /-- A map has a key that is neither a text nor a number. -/
  | tableKey (key : Value)
  /-- A value that is neither a number, a text, a tuple nor an identifier is to be published. -/
  | published (value : Value)
  | other (reason : String)

namespace Unsupported

def reason : Unsupported → String
  | .null => "null has no text outside of a table entry"
  | .tupleMember v => "tuple members must be scalars, found " ++ v.message
  | .notFinite n => "non-finite number " ++ n.text
  | .tableKey v => "table keys must be names or frame numbers, found " ++ v.message
  | .published v => "cannot publish " ++ v.message
  | .other reason => reason

end Unsupported

/-- What is known by name but cannot be made. -/
inductive Missing
  | smoothCurve
  | pathModifier
  | other (feature : String)

namespace Missing

def feature : Missing → String
  | .smoothCurve => "smooth curve (auto tangents from neighbouring slope)"
  | .pathModifier => "Path modifier for animated positions"
  | .other feature => feature

end Missing

/-- A failure of the library. -/
inductive Error
  | unsupported (cause : Unsupported)
  | notImplemented (missing : Missing)
  | unknownTool (name : String)
  | emptyComposition
  | io (reason : String)
  | custom (reason : String)

namespace Error

/-- What a failure tells its reader. -/
def message : Error → String
  | .unsupported cause => "Unsupported value: " ++ cause.reason
  | .notImplemented missing => "Not implemented: " ++ missing.feature
  | .unknownTool name =>
    "Unknown tool: " ++ name ++ " is not one of the tools in this composition"
  | .emptyComposition => "Composition is empty: add at least one tool before rendering"
  | .io reason => "IO error: " ++ reason
  | .custom reason => "Error: " ++ reason

end Error

end SceneScript
