/-! What can be wrong with a memory access. -/
namespace PixelMachine

/-- Why memory cannot be accessed. `max` is the last valid index, `-1` where there is none. -/
inductive MemoryError where
  | frameOutOfBounds (frame max : Int)
  | locationOutOfBounds (location max : Int)
  | rangeOutOfBounds (first last max : Int)
  | uninitialised (offset frame : Int)
  deriving DecidableEq, Repr

/-- The wording of an error. -/
def MemoryError.message : MemoryError → String
  | .frameOutOfBounds frame max =>
    "access to out of bounds frame " ++ frame.repr ++ ", valid range is [0, " ++ max.repr ++ "]"
  | .locationOutOfBounds location max =>
    "access to out of bounds location " ++ location.repr ++ ", valid range is [0, " ++ max.repr ++ "]"
  | .rangeOutOfBounds first last max =>
    "access to out of bounds location range [" ++ first.repr ++ ", " ++ last.repr
      ++ "], valid range is [0, " ++ max.repr ++ "]"
  | .uninitialised offset frame =>
    "memory access to undefined location [" ++ offset.repr ++ ":" ++ frame.repr ++ "]"

end PixelMachine
