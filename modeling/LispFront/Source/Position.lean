import LispFront.Source.Token

namespace LispFront
namespace Source

/-!
# Positions

Where a place of a source is, as a line and a column.  Lines are ended by line feeds, columns are
counted in characters, and both begin at one.
-/

/-- The position after these characters from the beginning of a source. -/
def positionAfter (consumed : List Char) : Position where
  line := (consumed.count '\n' + 1).toUInt32
  column := ((consumed.reverse.takeWhile (· != '\n')).length + 1).toUInt32

/-- The position of a place of a source, the place being given by what follows it. -/
def positionOf (source start : List Char) : Position :=
  positionAfter (source.take (source.length - start.length))

/-- A fault of a source as an error. -/
def Fault.toError (source : List Char) (fault : Fault) : Error :=
  .read (positionOf source fault.start) fault.kind

end Source
end LispFront
