import PixelMachine.Config
import PixelMachine.Saved.Value

/-! The saved form of settings. -/
namespace PixelMachine

namespace Config

/-- The saved form of settings. -/
def toJson (c : Config) : Json :=
  .obj [("width", .ofUInt32 c.width), ("height", .ofUInt32 c.height),
    ("key_poll_interval", .ofUInt64 c.pollInterval),
    ("rng_seed", match c.seed with | some seed => .ofUInt64 seed | none => .null),
    ("stack_limit", .ofUInt64 c.stackLimit), ("frame_limit", .ofUInt64 c.frameLimit)]

/-- Reads saved settings; a missing one has its default. -/
def ofJson? (j : Json) : Option Config :=
  match j.record? ["width", "height", "key_poll_interval", "rng_seed", "stack_limit", "frame_limit"] with
  | some [width, height, pollInterval, seed, stackLimit, frameLimit] => do
    let defaults : Config := {}
    let width ← Json.optional defaults.width Json.uint32? width
    let height ← Json.optional defaults.height Json.uint32? height
    let pollInterval ← Json.optional defaults.pollInterval Json.uint64? pollInterval
    let seed ← Json.optional defaults.seed (Json.nullable? Json.uint64?) seed
    let stackLimit ← Json.optional defaults.stackLimit Json.uint64? stackLimit
    let frameLimit ← Json.optional defaults.frameLimit Json.uint64? frameLimit
    return ⟨width, height, pollInterval, seed, stackLimit, frameLimit⟩
  | _ => none

end Config

end PixelMachine
