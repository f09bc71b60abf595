/-! Options of a compilation unit, read from command line arguments. -/
namespace ContextCodegen

structure UnitOptions where
  className : String := "Unit"
  package : Option String := none
  /-- Whether functions may be generated independently of each other. -/
  parallel : Bool := true
  /-- Whether each function is preceded by its source location. -/
  locationComments : Bool := false
  deriving DecidableEq, Repr

namespace UnitOptions

def after? (marker arg : String) : Option String :=
  if marker.toList.isPrefixOf arg.toList then
    some (String.ofList (arg.toList.drop marker.length))
  else none

/-- Takes one argument into account; an unknown one changes nothing. -/
def applyArg (o : UnitOptions) (arg : String) : UnitOptions :=
  match after? "--class=" arg, after? "--package=" arg with
  | some name, _ => { o with className := name }
  | none, some name => { o with package := if name = "" then none else some name }
  | none, none =>
    if arg = "--parallel" then { o with parallel := true }
    else if arg = "--no-parallel" then { o with parallel := false }
    else if arg = "--location-comments" then { o with locationComments := true }
    else o

/-- Reads arguments in order, so that later ones win. -/
def ofArgs (args : List String) : UnitOptions := args.foldl applyArg {}

end UnitOptions

end ContextCodegen
