import PixelMachine.Screen.Surface

/-! Pictures as binary images: a short header, then three bytes to a pixel. -/
namespace PixelMachine

/-- The red, green and blue bytes of a packed colour. -/
def channels (rgb : UInt32) : List UInt8 := [(rgb >>> 16).toUInt8, (rgb >>> 8).toUInt8, rgb.toUInt8]

/-- The bytes of ASCII text. -/
def asciiBytes (text : String) : List UInt8 := text.toList.map fun c => c.toNat.toUInt8

/-- What an image is made of: a size, and a colour at each place from the top left. -/
structure Picture where
  width : Nat
  height : Nat
  colour : Nat → Nat → UInt32

namespace Picture

/-- The text of the header: the format's mark, the size and the largest channel value. -/
def headerText (p : Picture) : String :=
  "P6\n" ++ p.width.repr ++ " " ++ p.height.repr ++ "\n255\n"

/-- The colours of a row. -/
def row (p : Picture) (y : Nat) : List UInt32 := (List.range p.width).map fun x => p.colour x y

/-- The channels of all pixels, row after row. -/
def body (p : Picture) : List UInt8 := (List.range p.height).flatMap fun y => (p.row y).flatMap channels

/-- The whole image. -/
def image (p : Picture) : List UInt8 := asciiBytes p.headerText ++ p.body

end Picture

namespace Surface

/-- The picture that a surface shows. -/
def picture (s : Surface) : Picture := ⟨s.width, s.height, s.read⟩

/-- The image of a surface. -/
def image (s : Surface) : List UInt8 := s.picture.image

end Surface

end PixelMachine
