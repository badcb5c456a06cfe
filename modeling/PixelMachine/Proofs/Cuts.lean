import Mathlib.Data.List.TakeWhile
import PixelMachine.Text.Blank
import PixelMachine.Text.Cut

/-! Texts that are cut at a mark or trimmed of blanks: what is cut off, and that nothing else is. -/
namespace PixelMachine

theorem after?_eq_some_iff {mark text rest : List Char} :
    after? mark text = some rest ↔ text = mark ++ rest := by
  induction mark generalizing text with
  | nil => simp [after?]
  | cons m mark ih =>
    cases text with
    | nil => simp [after?]
    | cons c text =>
      by_cases hc : m = c
      · subst hc
        simp [after?, ih]
      · have hne : c ≠ m := fun h => hc h.symm
        simp [after?, hc, hne]

theorem after?_append (mark rest : List Char) : after? mark (mark ++ rest) = some rest :=
  after?_eq_some_iff.mpr rfl

/-- A text that starts otherwise does not start with the mark. -/
theorem after?_cons_of_ne {m c : Char} (h : m ≠ c) (mark text : List Char) :
    after? (m :: mark) (c :: text) = none :=
  if_neg h

theorem before?_eq_some_iff {mark text front : List Char} :
    before? mark text = some front ↔ text = front ++ mark := by
  have hreverse (rest : List Char) :
      (text.reverse = mark.reverse ++ rest ∧ rest.reverse = front) ↔
        (rest = front.reverse ∧ text = front ++ mark) := by
    constructor
    · rintro ⟨htext, rfl⟩
      have htext := congrArg List.reverse htext
      simp only [List.reverse_reverse, List.reverse_append] at htext
      exact ⟨(List.reverse_reverse rest).symm, htext⟩
    · rintro ⟨rfl, rfl⟩
      exact ⟨List.reverse_append, List.reverse_reverse front⟩
  simp only [before?, Option.map_eq_some_iff, after?_eq_some_iff, hreverse, exists_eq_left]

theorem before?_append (front mark : List Char) : before? mark (front ++ mark) = some front :=
  before?_eq_some_iff.mpr rfl

/-- A text that ends otherwise does not end with the mark. -/
theorem before?_append_of_ne {m c : Char} (h : m ≠ c) (mark text : List Char) :
    before? (mark ++ [m]) (text ++ [c]) = none := by
  simp [before?, after?, h]

theorem bracketed?_eq_some_iff {text inner : List Char} :
    bracketed? text = some inner ↔ text = '[' :: (inner ++ [']']) := by
  simp only [bracketed?, Option.bind_eq_some_iff, after?_eq_some_iff, before?_eq_some_iff,
    exists_eq_right, List.cons_append, List.nil_append]

/-- Text between brackets. -/
def bracketed (inner : List Char) : List Char := '[' :: (inner ++ [']'])

theorem bracketed?_bracketed (inner : List Char) : bracketed? (bracketed inner) = some inner :=
  bracketed?_eq_some_iff.mpr rfl

theorem bracketed_solid {inner : List Char} (h : ∀ c ∈ inner, isBlank c = false) :
    ∀ c ∈ bracketed inner, isBlank c = false := by
  intro c hc
  simp only [bracketed, List.mem_cons, List.mem_append, List.not_mem_nil, or_false] at hc
  rcases hc with rfl | hc | rfl
  · rfl
  · exact h c hc
  · rfl

/-- The parts on either side of a mark, with the mark between them, are the text. -/
theorem eq_append_of_cut? {mark text front rest : List Char}
    (h : cut? mark text = some (front, rest)) : text = front ++ (mark ++ rest) := by
  induction text generalizing front with
  | nil =>
    obtain ⟨tail, htail, hparts⟩ := Option.map_eq_some_iff.mp h
    cases hparts
    rw [List.nil_append]
    exact after?_eq_some_iff.mp htail
  | cons c text ih =>
    unfold cut? at h
    split at h
    · next tail htail =>
      cases h
      rw [List.nil_append]
      exact after?_eq_some_iff.mp htail
    · obtain ⟨⟨part, tail⟩, hcut, hparts⟩ := Option.map_eq_some_iff.mp h
      cases hparts
      rw [ih hcut, List.cons_append]

/-- The first place where a mark stands comes after a part without the character that begins the
mark. -/
theorem cut?_append_mark {m : Char} {front : List Char} (h : m ∉ front) (mark rest : List Char) :
    cut? (m :: mark) (front ++ (m :: mark ++ rest)) = some (front, rest) := by
  induction front with
  | nil => simp [cut?, after?, after?_append]
  | cons c front ih =>
    rw [List.mem_cons, not_or] at h
    rw [List.cons_append, cut?, after?_cons_of_ne h.1]
    simp only [ih h.2, Option.map_some]

theorem cut?_append {mark : Char} {front : List Char} (h : mark ∉ front) (rest : List Char) :
    cut? [mark] (front ++ mark :: rest) = some (front, rest) :=
  cut?_append_mark h [] rest

theorem cut?_eq_none {m : Char} {text : List Char} (h : m ∉ text) (mark : List Char) :
    cut? (m :: mark) text = none := by
  rcases hcut : cut? (m :: mark) text with _ | ⟨front, rest⟩
  · rfl
  · rw [eq_append_of_cut? hcut] at h
    simp at h

/-! Blanks. -/

/-- A text of blanks only. -/
def AllBlank (cs : List Char) : Prop := ∀ c ∈ cs, isBlank c = true

theorem AllBlank.append {cs ds : List Char} (hcs : AllBlank cs) (hds : AllBlank ds) :
    AllBlank (cs ++ ds) := by
  intro c hc
  rcases List.mem_append.mp hc with hc | hc
  · exact hcs c hc
  · exact hds c hc

theorem AllBlank.not_mem {cs : List Char} (h : AllBlank cs) {c : Char} (hc : isBlank c = false) :
    c ∉ cs := by
  intro hmem
  rw [h c hmem] at hc
  cases hc

theorem dropWhile_isBlank_of_solid {cs : List Char} (h : ∀ c ∈ cs, isBlank c = false) :
    cs.dropWhile isBlank = cs := by
  cases cs with
  | nil => rfl
  | cons c cs => simp [h c List.mem_cons_self]

/-- Blanks at the ends are dropped from around characters that are not blank. -/
theorem trimBlanks_append {left core right : List Char} (hleft : AllBlank left)
    (hcore : ∀ c ∈ core, isBlank c = false) (hright : AllBlank right) :
    trimBlanks (left ++ (core ++ right)) = core := by
  have hback : ((core ++ right).reverse).dropWhile isBlank = core.reverse := by
    rw [List.reverse_append,
      List.dropWhile_append_of_pos fun c hc => hright c (List.mem_reverse.mp hc)]
    exact dropWhile_isBlank_of_solid fun c hc => hcore c (List.mem_reverse.mp hc)
  unfold trimBlanks
  rw [List.dropWhile_append_of_pos hleft]
  cases core with
  | nil =>
    have hfront : right.dropWhile isBlank = [] := List.dropWhile_eq_nil_iff.mpr hright
    rw [List.nil_append, hfront]
    rfl
  | cons c core =>
    have hfront : (c :: core ++ right).dropWhile isBlank = c :: core ++ right := by
      rw [List.cons_append, List.dropWhile_cons_of_neg]
      simp [hcore c List.mem_cons_self]
    rw [hfront, hback, List.reverse_reverse]

theorem trimBlanks_of_solid {cs : List Char} (h : ∀ c ∈ cs, isBlank c = false) :
    trimBlanks cs = cs := by
  have htrim := @trimBlanks_append [] cs [] nofun h nofun
  rwa [List.append_nil, List.nil_append] at htrim

theorem allBlank_takeWhile (cs : List Char) : AllBlank (cs.takeWhile isBlank) :=
  fun c hc => List.all_eq_true.mp List.all_takeWhile c hc

/-- What is trimmed off a text are blanks at its ends. -/
theorem exists_eq_append_trimBlanks (cs : List Char) : ∃ left right,
    cs = left ++ (trimBlanks cs ++ right) ∧ AllBlank left ∧ AllBlank right := by
  have hfront : cs = cs.takeWhile isBlank ++ cs.dropWhile isBlank :=
    List.takeWhile_append_dropWhile.symm
  have hback : cs.dropWhile isBlank =
      trimBlanks cs ++ ((cs.dropWhile isBlank).reverse.takeWhile isBlank).reverse := by
    rw [trimBlanks, ← List.reverse_append, List.takeWhile_append_dropWhile, List.reverse_reverse]
  have hright : AllBlank ((cs.dropWhile isBlank).reverse.takeWhile isBlank).reverse :=
    fun c hc => allBlank_takeWhile _ c (List.mem_reverse.mp hc)
  refine ⟨cs.takeWhile isBlank, _, ?_, allBlank_takeWhile cs, hright⟩
  rw [← hback]
  exact hfront

theorem trimBlanks_eq_nil_iff {cs : List Char} : trimBlanks cs = [] ↔ AllBlank cs := by
  constructor
  · intro h
    obtain ⟨left, right, hcs, hleft, hright⟩ := exists_eq_append_trimBlanks cs
    rw [hcs, h]
    exact hleft.append hright
  · intro h
    have htrim := @trimBlanks_append cs [] [] h nofun nofun
    rwa [List.append_nil, List.append_nil] at htrim

theorem AllBlank.isEmpty_trimBlanks {cs : List Char} (h : AllBlank cs) :
    (trimBlanks cs).isEmpty = true :=
  List.isEmpty_iff.mpr (trimBlanks_eq_nil_iff.mpr h)

end PixelMachine
