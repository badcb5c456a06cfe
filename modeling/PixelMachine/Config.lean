/-! The settings of a machine. -/
namespace PixelMachine

/-- Screen size, poll interval in milliseconds, the seed of the random source, and limits on what one
instruction may ask for. -/
structure Config where
  width : UInt32 := 100
  height : UInt32 := 100
  pollInterval : UInt64 := 200
  seed : Option UInt64 := none
  stackLimit : UInt64 := 1048576
  frameLimit : UInt64 := 1048576
  deriving DecidableEq, Repr

end PixelMachine
