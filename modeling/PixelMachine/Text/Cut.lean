/-! Cutting a text at its front, at its end, or at the first place where a mark stands. -/
namespace PixelMachine

/-- What follows `mark` when the text starts with it. -/
def after? (mark : List Char) (text : List Char) : Option (List Char) :=
  match mark, text with
  | [], text => some text
  | _ :: _, [] => none
  | m :: mark, c :: text => if m = c then after? mark text else none

/-- What stands before `mark` when the text ends with it. -/
def before? (mark : List Char) (text : List Char) : Option (List Char) :=
  (after? mark.reverse text.reverse).map List.reverse

/-- The parts on either side of the first place where `mark` stands. -/
def cut? (mark : List Char) : List Char → Option (List Char × List Char)
  | [] => (after? mark []).map ([], ·)
  | c :: text =>
    match after? mark (c :: text) with
    | some rest => some ([], rest)
    | none => (cut? mark text).map fun (front, rest) => (c :: front, rest)

/-- The text between `[` and `]` when it starts and ends with them. -/
def bracketed? (text : List Char) : Option (List Char) :=
  (after? ['['] text).bind (before? [']'])

end PixelMachine
