import Mathlib.Data.List.Basic
import PixelMachine.Proofs.Numerals
import PixelMachine.Proofs.Surfaces
import PixelMachine.Screen.Image

/-! Images lose nothing: the channels of each pixel stand at a place that the width and the pixel's
coordinates give, and the header ends where its text says, so that a surface of packed colours is known
from its image. -/
namespace PixelMachine

/-! Lists made of parts of one length. -/

section

variable {α β : Type} {part : α → List β} {size : Nat}

theorem length_flatMap_of_size (h : ∀ a, (part a).length = size) (as : List α) :
    (as.flatMap part).length = size * as.length := by
  induction as with
  | nil => rfl
  | cons a as ih =>
    rw [List.flatMap_cons, List.length_append, h, ih, List.length_cons, Nat.mul_succ, Nat.add_comm]

/-- The part at a place is found again by its place. -/
theorem take_drop_flatMap (h : ∀ a, (part a).length = size) {as : List α} {i : Nat} {a : α}
    (ha : as[i]? = some a) : ((as.flatMap part).drop (size * i)).take size = part a := by
  induction as generalizing i with
  | nil => cases ha
  | cons b as ih =>
    cases i with
    | zero =>
      cases ha
      exact List.take_left' (h a)
    | succ i =>
      rw [List.flatMap_cons, Nat.mul_succ, Nat.add_comm, ← List.drop_drop, List.drop_left' (h b)]
      exact ih ha

/-- What comes before the first mark, and what after it. -/
theorem append_mark_inj {mark : β} {front front' rest rest' : List β} (hfront : mark ∉ front)
    (hfront' : mark ∉ front') (h : front ++ mark :: rest = front' ++ mark :: rest') :
    front = front' ∧ rest = rest' := by
  induction front generalizing front' with
  | nil =>
    cases front' with
    | nil =>
      cases h
      exact ⟨rfl, rfl⟩
    | cons b front' =>
      cases h
      exact absurd List.mem_cons_self hfront'
  | cons b front ih =>
    cases front' with
    | nil =>
      cases h
      exact absurd List.mem_cons_self hfront
    | cons b' front' =>
      rw [List.mem_cons, not_or] at hfront hfront'
      obtain ⟨rfl, htail⟩ := List.cons_eq_cons.mp h
      obtain ⟨rfl, hrest⟩ := ih hfront.2 hfront'.2 htail
      exact ⟨rfl, hrest⟩

end

/-! Text in bytes. -/

/-- All characters are among the first 128. -/
def IsAscii (text : String) : Prop := ∀ c ∈ text.toList, c.toNat < 128

theorem isAscii_of_all {text : String} (h : (text.toList.all fun c => decide (c.toNat < 128)) = true) :
    IsAscii text :=
  fun c hc => of_decide_eq_true (List.all_eq_true.mp h c hc)

theorem IsAscii.append {a b : String} (ha : IsAscii a) (hb : IsAscii b) : IsAscii (a ++ b) := by
  intro c hc
  rw [String.toList_append, List.mem_append] at hc
  rcases hc with hc | hc
  · exact ha c hc
  · exact hb c hc

theorem digit_of_mem_repr {n : Nat} {c : Char} (hc : c ∈ n.repr.toList) :
    48 ≤ c.toNat ∧ c.toNat ≤ 57 := by
  rw [toList_repr_nat] at hc
  have hdigit := isDigit_of_mem_toDigits hc
  simp only [Char.isDigit, Bool.and_eq_true, decide_eq_true_eq] at hdigit
  exact hdigit

theorem isAscii_repr (n : Nat) : IsAscii n.repr := by
  intro c hc
  have hdigit := digit_of_mem_repr hc
  omega

theorem asciiBytes_append (a b : String) : asciiBytes (a ++ b) = asciiBytes a ++ asciiBytes b := by
  simp only [asciiBytes, String.toList_append, List.map_append]

/-- The bytes of ASCII text are those of its encoding. -/
theorem asciiBytes_eq_toUTF8 {text : String} (h : IsAscii text) :
    asciiBytes text = text.toUTF8.data.toList := by
  have hchars : ∀ c ∈ text.toList, String.utf8EncodeChar c = [c.toNat.toUInt8] := by
    intro c hc
    have hval : c.val ≤ 127 := UInt32.le_iff_toNat_le.mpr (Nat.le_of_lt_succ (h c hc))
    rw [String.utf8EncodeChar_eq_singleton (Char.utf8Size_eq_one_iff.mpr hval)]
    rfl
  have hbytes : text.toUTF8 = text.toList.utf8Encode := by
    rw [← String.toByteArray_ofList, String.ofList_toList]
    rfl
  rw [hbytes, List.utf8Encode, List.toList_data_toByteArray, List.flatMap_congr hchars,
    ← List.map_eq_flatMap]
  rfl

/-- Numbers are known from the bytes of their digits. -/
theorem asciiBytes_repr_inj {m n : Nat} (h : asciiBytes m.repr = asciiBytes n.repr) : m = n := by
  rw [asciiBytes_eq_toUTF8 (isAscii_repr m), asciiBytes_eq_toUTF8 (isAscii_repr n)] at h
  have hbytes : m.repr.toUTF8 = n.repr.toUTF8 := ByteArray.ext (Array.toList_inj.mp h)
  have hdigits : Nat.toDigits 10 m = Nat.toDigits 10 n := by
    rw [← toList_repr_nat, ← toList_repr_nat, String.toByteArray_inj.mp hbytes]
  have hread : some m = some n := by
    rw [← readDigits?_toDigits m, hdigits, readDigits?_toDigits n]
  exact Option.some.inj hread

/-- Only digits stand in a number. -/
theorem not_mem_asciiBytes_repr {n : Nat} {b : UInt8} (hb : b.toNat < 48) :
    b ∉ asciiBytes n.repr := by
  intro hmem
  obtain ⟨c, hc, rfl⟩ := List.mem_map.mp hmem
  have hdigit := digit_of_mem_repr hc
  have hbyte : c.toNat.toUInt8.toNat = c.toNat % 256 := UInt8.toNat_ofNat'
  omega

/-! Channels. -/

@[simp] theorem length_channels (rgb : UInt32) : (channels rgb).length = 3 := rfl

/-- The channels are the digits of the lower three bytes. -/
theorem map_toNat_channels (rgb : UInt32) : (channels rgb).map UInt8.toNat =
    [rgb.toNat % 16777216 / 65536, rgb.toNat % 16777216 / 256 % 256, rgb.toNat % 16777216 % 256] := by
  have hred : (rgb >>> 16).toUInt8.toNat = rgb.toNat % 16777216 / 65536 := by
    rw [UInt32.toNat_toUInt8, UInt32.toNat_shiftRight, Nat.shiftRight_eq_div_pow]
    change rgb.toNat / 65536 % 256 = _
    omega
  have hgreen : (rgb >>> 8).toUInt8.toNat = rgb.toNat % 16777216 / 256 % 256 := by
    rw [UInt32.toNat_toUInt8, UInt32.toNat_shiftRight, Nat.shiftRight_eq_div_pow]
    change rgb.toNat / 256 % 256 = _
    omega
  have hblue : rgb.toUInt8.toNat = rgb.toNat % 16777216 % 256 := by
    rw [UInt32.toNat_toUInt8]
    omega
  rw [← hred, ← hgreen, ← hblue]
  rfl

/-- A packed colour is known from its channels. -/
theorem eq_of_channels {rgb rgb' : UInt32} (hrgb : rgb.toNat ≤ 16777215) (hrgb' : rgb'.toNat ≤ 16777215)
    (h : channels rgb = channels rgb') : rgb = rgb' := by
  have hdigits := congrArg (List.map UInt8.toNat) h
  rw [map_toNat_channels, map_toNat_channels] at hdigits
  simp only [List.cons.injEq, and_true] at hdigits
  apply UInt32.toNat_inj.mp
  omega

namespace Picture

variable {p q : Picture} {x y : Nat}

theorem isAscii_headerText (p : Picture) : IsAscii p.headerText := by
  have hmark : IsAscii "P6\n" := isAscii_of_all rfl
  have hblank : IsAscii " " := isAscii_of_all rfl
  have hend : IsAscii "\n255\n" := isAscii_of_all rfl
  exact (((hmark.append (isAscii_repr _)).append hblank).append (isAscii_repr _)).append hend

theorem length_row (p : Picture) (y : Nat) : ((p.row y).flatMap channels).length = 3 * p.width := by
  rw [length_flatMap_of_size length_channels, row, List.length_map, List.length_range]

theorem length_body (p : Picture) : p.body.length = 3 * (p.width * p.height) := by
  rw [body, length_flatMap_of_size p.length_row, List.length_range, Nat.mul_assoc]

/-- The channels of a pixel in the body of an image. -/
theorem channels_in_body (hx : x < p.width) (hy : y < p.height) :
    (p.body.drop (3 * (y * p.width + x))).take 3 = channels (p.colour x y) := by
  have hrow : (p.body.drop (3 * p.width * y)).take (3 * p.width) = (p.row y).flatMap channels :=
    take_drop_flatMap p.length_row (by simp [hy])
  have hpixel : (((p.row y).flatMap channels).drop (3 * x)).take 3 = channels (p.colour x y) :=
    take_drop_flatMap length_channels (by simp [row, hx])
  have hplace : 3 * (y * p.width + x) = 3 * p.width * y + 3 * x := by
    rw [Nat.mul_add, Nat.mul_comm y, Nat.mul_assoc]
  rw [hplace, ← List.drop_drop, ← hpixel, ← hrow, List.drop_take, List.take_take,
    Nat.min_eq_left (by omega)]

/-- The sizes and the body are known from an image. -/
theorem image_inj (h : p.image = q.image) :
    (p.width = q.width ∧ p.height = q.height) ∧ p.body = q.body := by
  have hparts (r : Picture) : r.image = asciiBytes "P6\n" ++ (asciiBytes r.width.repr ++
      32 :: (asciiBytes r.height.repr ++ 10 :: ([50, 53, 53, 10] ++ r.body))) := by
    have hblank : asciiBytes " " = [32] := by decide
    have hend : asciiBytes "\n255\n" = [10, 50, 53, 53, 10] := by decide
    simp only [image, headerText, asciiBytes_append, hblank, hend, List.append_assoc,
      List.cons_append, List.nil_append]
  rw [hparts, hparts, List.append_right_inj] at h
  obtain ⟨hwidth, h⟩ :=
    append_mark_inj (not_mem_asciiBytes_repr (by decide)) (not_mem_asciiBytes_repr (by decide)) h
  obtain ⟨hheight, h⟩ :=
    append_mark_inj (not_mem_asciiBytes_repr (by decide)) (not_mem_asciiBytes_repr (by decide)) h
  exact ⟨⟨asciiBytes_repr_inj hwidth, asciiBytes_repr_inj hheight⟩, List.append_cancel_left h⟩

end Picture

namespace Surface

variable {s t : Surface}

theorem read_le {limit : Nat} (h : ∀ c ∈ s.pixels, c.toNat ≤ limit) (x y : Nat) :
    (s.read x y).toNat ≤ limit := by
  unfold read
  split
  · rw [Array.getD_eq_getD_getElem?]
    rcases hpixel : s.pixels[y * s.width + x]? with _ | c
    · exact Nat.zero_le limit
    · exact h c (Array.mem_of_getElem? hpixel)
  · exact Nat.zero_le limit

/-- Packed colours are known from an image. -/
theorem eq_of_image (hs : ∀ c ∈ s.pixels, c.toNat ≤ colourLimit)
    (ht : ∀ c ∈ t.pixels, c.toNat ≤ colourLimit) (h : s.image = t.image) : s = t := by
  obtain ⟨⟨hwidth, hheight⟩, hbody⟩ := Picture.image_inj h
  have hwidth : s.width = t.width := hwidth
  have hheight : s.height = t.height := hheight
  apply eq_of_read hwidth hheight
  intro x y hx hy
  have hx' : x < t.width := hwidth ▸ hx
  have hy' : y < t.height := hheight ▸ hy
  have hpixel : (s.picture.body.drop (3 * (y * s.width + x))).take 3 = channels (s.read x y) :=
    @Picture.channels_in_body s.picture x y hx hy
  have hpixel' : (t.picture.body.drop (3 * (y * t.width + x))).take 3 = channels (t.read x y) :=
    @Picture.channels_in_body t.picture x y hx' hy'
  rw [hbody, hwidth, hpixel'] at hpixel
  exact (eq_of_channels (read_le ht x y) (read_le hs x y) hpixel).symm

/-- Images lose nothing. An image is its header, the encoded text with the size in decimal, and three
bytes to a pixel: at three times the pixel's index stand its red, green and blue, the digits of its
colour without the uppermost byte. Two surfaces of packed colours have one image just if their sizes
and their pixels are the same. -/
theorem images_lose_nothing :
    (∀ p : Picture, ∃ body,
      p.image = ("P6\n" ++ toString p.width ++ " " ++ toString p.height ++ "\n255\n").toUTF8.data.toList
        ++ body ∧
      body.length = 3 * (p.width * p.height) ∧
      ∀ x y, x < p.width → y < p.height →
        ((body.drop (3 * (y * p.width + x))).take 3).map UInt8.toNat =
          [(p.colour x y).toNat % 0x1000000 / 0x10000, (p.colour x y).toNat % 0x1000000 / 0x100 % 0x100,
            (p.colour x y).toNat % 0x1000000 % 0x100]) ∧
    ∀ s t : Surface, (∀ c ∈ s.pixels, c.toNat ≤ 0xFFFFFF) → (∀ c ∈ t.pixels, c.toNat ≤ 0xFFFFFF) →
      (s.image = t.image ↔ (s.width = t.width ∧ s.height = t.height) ∧ s.pixels = t.pixels) := by
  constructor
  · intro p
    refine ⟨p.body, ?_, p.length_body, ?_⟩
    · have hheader := asciiBytes_eq_toUTF8 p.isAscii_headerText
      exact congrArg (· ++ p.body) hheader
    · intro x y hx hy
      rw [Picture.channels_in_body hx hy, map_toNat_channels]
  · intro s t hs ht
    constructor
    · intro h
      obtain rfl := eq_of_image hs ht h
      exact ⟨⟨rfl, rfl⟩, rfl⟩
    · rintro ⟨⟨hwidth, hheight⟩, hpixels⟩
      cases s
      cases t
      cases hwidth
      cases hheight
      cases hpixels
      rfl

/-- Two pixels side by side, the second of them with something in its uppermost byte. -/
def pair : Picture := ⟨2, 1, fun x _ => if x = 1 then 0x12345678 else 0⟩

/-- The channels of the second pixel, and two black surfaces that differ in nothing but their sides. -/
theorem turned_image_differs :
    (∃ body, pair.image = "P6\n2 1\n255\n".toUTF8.data.toList ++ body ∧
      ((body.drop 3).take 3).map UInt8.toNat = [0x34, 0x56, 0x78]) ∧
    (∀ c ∈ (black 1 12).pixels, c.toNat ≤ 0xFFFFFF) ∧
    (∀ c ∈ (black 12 1).pixels, c.toNat ≤ 0xFFFFFF) ∧
    (black 1 12).pixels = (black 12 1).pixels ∧ (black 1 12).image ≠ (black 12 1).image := by
  obtain ⟨hpictures, hsurfaces⟩ := images_lose_nothing
  obtain ⟨body, himage, _, hpixels⟩ := hpictures pair
  have hblack (n : Nat) : ∀ c ∈ Array.replicate n (0 : UInt32), c.toNat ≤ 0xFFFFFF := by
    intro c hc
    rw [Array.eq_of_mem_replicate hc]
    decide
  refine ⟨⟨body, himage, hpixels 1 0 (by decide) (by decide)⟩, hblack _, hblack _, rfl, fun h => ?_⟩
  obtain ⟨⟨hwidth, _⟩, _⟩ := (hsurfaces _ _ (hblack _) (hblack _)).mp h
  cases hwidth

end Surface

end PixelMachine
