import CilPatch.Code.Label
import CilPatch.Types.CilType

/-!
# Protected regions

A guarded stretch of code and its handler, each given by the label of its first instruction and
the label of the first instruction behind it.
-/

namespace CilPatch

inductive HandlerKind where
  | catch (type : CilType)
  | filter
  | finally
  | fault
deriving DecidableEq

def HandlerKind.text : HandlerKind → String
  | .catch type => "catch " ++ type.text
  | .filter => "filter"
  | .finally => "finally"
  | .fault => "fault"

structure Region where
  kind : HandlerKind
  tryStart : Label
  tryEnd : Label
  handlerStart : Label
  handlerEnd : Label
deriving DecidableEq

namespace Region

def text (r : Region) : String :=
  ".try " ++ r.tryStart.text ++ " to " ++ r.tryEnd.text ++ " " ++ r.kind.text ++ " handler " ++
    r.handlerStart.text ++ " to " ++ r.handlerEnd.text

/-- the labels that delimit the region -/
def labels (r : Region) : List Label := [r.tryStart, r.tryEnd, r.handlerStart, r.handlerEnd]

end Region

end CilPatch
