import PixelMachine.Proofs.Guards
import PixelMachine.Proofs.Reversal

/-! Ranges of cells are checked exactly. The check finds a range if and only if all of its cells are in a
frame that is there, as whole numbers tell it; an error tells where the range would have ended, as far
as signed words can. After a check that succeeds, what is read and what is written stays in the frame,
and no value is lost. -/
namespace PixelMachine

namespace FrameStack

open Checked

variable {fs : FrameStack} {frame first : Int} {count i : Nat} {f : Frame}

/-- The last index of a range as an error tells it. Where the count or the sum is no signed word, the
greatest signed word stands for it. -/
def endTold (first : Int) (count : Nat) : Int :=
  if count < 9223372036854775808 ∧ first + count < 9223372036854775808 then first + count - 1
  else 9223372036854775807

/-- A sum with a signed word can only be too large for a signed word, never too small. -/
theorem rangeEnd?_getD (hfirst : FitsInt64 first) :
    (rangeEnd? first count).getD 9223372036854775807 = endTold first count := by
  unfold rangeEnd? endTold
  by_cases hfits : FitsInt64 count ∧ FitsInt64 (first + count)
  · have htold : count < 9223372036854775808 ∧ first + count < 9223372036854775808 :=
      ⟨by omega, hfits.2.2⟩
    rw [if_pos hfits, if_pos htold]
    rfl
  · -- The sum is no less than `first`, so that only its upper bound can fail.
    have htold : ¬ (count < 9223372036854775808 ∧ first + count < 9223372036854775808) := by
      rintro ⟨hcount, hsum⟩
      apply hfits
      exact ⟨⟨by omega, by omega⟩, by omega, hsum⟩
    rw [if_neg hfits, if_neg htold]
    rfl

/-- In memory that signed words can count, no range in a frame is missed because of its end. -/
theorem checkRange_eq_ok_iff_within (hsmall : Guarded.Small fs) :
    fs.checkRange frame first count = .ok (i, f) ↔
      (i : Int) = frame ∧ fs[i]? = some f ∧ 0 ≤ first ∧ first + count ≤ f.length := by
  rw [checkRange_eq_ok_iff]
  constructor
  · rintro ⟨⟨⟨hpos, hf⟩, rfl⟩, hfirst, hle, _⟩
    exact ⟨Int.toNat_of_nonneg hpos, hf, hfirst, hle⟩
  · rintro ⟨rfl, hf, hfirst, hle⟩
    -- The end is at most the length of the frame, and so it is a signed word as well.
    have hlength := hsmall.slots f (List.mem_of_getElem? hf)
    exact ⟨⟨⟨Int.natCast_nonneg i, hf⟩, rfl⟩, hfirst, hle, by omega, by omega⟩

theorem checkRange_of_missing (h : ¬ (0 ≤ frame ∧ frame < fs.length)) :
    fs.checkRange frame first count = .error (.frameOutOfBounds frame ((fs.length : Int) - 1)) := by
  unfold checkRange
  rw [frameAt_of_missing h]
  rfl

/-- Where the frame is there but the range is not all in it, the error tells the range. -/
theorem checkRange_of_beyond (hf : fs.IsFrame frame f) (hfirst : FitsInt64 first)
    (hout : ¬ (0 ≤ first ∧ first + count ≤ f.length)) :
    fs.checkRange frame first count =
      .error (.rangeOutOfBounds first (endTold first count) ((f.length : Int) - 1)) := by
  have hframe : fs.frameAt frame = .ok (frame.toNat, f) := frameAt_eq_ok_iff.mpr ⟨hf, rfl⟩
  have hend (last : Int) := @rangeEnd?_eq_some_iff first last count
  rw [← rangeEnd?_getD hfirst]
  unfold checkRange
  -- Kept opaque, lest its bounds are evaluated.
  generalize rangeEnd? first count = last? at hend ⊢
  rw [hframe, ok_bind]
  cases last? with
  | none => rfl
  | some last =>
    obtain ⟨_, rfl⟩ := (hend last).mp rfl
    have hbeyond : ¬ (0 ≤ first ∧ first + count - 1 < f.length) := by omega
    dsimp only
    rw [if_neg hbeyond]
    rfl

/-- A range is checked exactly, and what is done after the check stays within the range. -/
structure DecidesContainment (fs : FrameStack) (frame first : Int) (count : Nat) : Prop where
  /-- The range is found if and only if the frame is there and all of the range is in it. -/
  found_iff : ∀ i f, fs.checkRange frame first count = .ok (i, f) ↔
    (i : Int) = frame ∧ fs[i]? = some f ∧ 0 ≤ first ∧ first + count ≤ f.length
  missing : ¬ (0 ≤ frame ∧ frame < fs.length) →
    fs.checkRange frame first count = .error (.frameOutOfBounds frame ((fs.length : Int) - 1))
  beyond : ∀ f, fs.IsFrame frame f → ¬ (0 ≤ first ∧ first + count ≤ f.length) →
    fs.checkRange frame first count =
      .error (.rangeOutOfBounds first (endTold first count) ((f.length : Int) - 1))
  /-- On machine words, where each sum and difference has to fit, the check comes to the same. -/
  onWords : Guarded.checkRange fs frame first count =
    safe ((fs.checkRange frame first count).map (·.1))
  /-- The slots that are read are a slice of the frame, as long as was asked for. -/
  reads : ∀ i f, fs.checkRange frame first count = .ok (i, f) → ∃ slots,
    Guarded.slice f first.toNat (first.toNat + count) = some slots ∧ slots.length = count ∧
      (∀ k < count, slots[k]? = f[first.toNat + k]?) ∧
      fs.readRange first frame count = slotValues frame first slots ∧
      Guarded.readRange fs first frame count = safe (slotValues frame first slots)
  /-- All values that are written are stored in the range, and nothing is stored elsewhere. -/
  stores : ∀ i f, fs.checkRange frame first count = .ok (i, f) →
    ∀ vs : List Value, vs.length = count → ∃ g : Frame,
      fs.writeRange first frame vs = .ok (fs.set i g) ∧
      Guarded.writeRange fs first frame vs = safe (.ok (fs.set i g)) ∧
      g.length = f.length ∧
      (∀ k, g[k]? = if first.toNat ≤ k ∧ k < first.toNat + count then (vs[k - first.toNat]?).map some
        else f[k]?) ∧
      FrameStack.readRange (fs.set i g) first frame count = .ok vs

/-- In memory that signed words can count, every range is checked exactly, but for one that is empty and
begins at the least address: its last index is no signed word. -/
theorem checkRange_decides_containment (hsmall : Guarded.Small fs) (hfirst : FitsInt64 first)
    (hne : ¬ (first = -9223372036854775808 ∧ count = 0)) :
    DecidesContainment fs frame first count where
  found_iff i f := checkRange_eq_ok_iff_within hsmall
  missing := checkRange_of_missing
  beyond f hf hout := checkRange_of_beyond hf hfirst hout
  onWords := Guarded.checkRange_eq hsmall hfirst hne
  reads i f h := by
    obtain ⟨_, _, hpos, hle⟩ := (checkRange_eq_ok_iff_within hsmall).mp h
    have hread := readRange_of_checkRange h
    refine ⟨(f.drop first.toNat).take count, Guarded.slice_of_le (by omega), ?_, ?_, hread, ?_⟩
    · rw [List.length_take, List.length_drop]
      omega
    · intro k hk
      rw [List.getElem?_take_of_lt hk, List.getElem?_drop]
    · rw [Guarded.readRange_eq hsmall hfirst hne, hread]
  stores i f h vs hlength := by
    subst hlength
    obtain ⟨_, _, hpos, hle⟩ := (checkRange_eq_ok_iff_within hsmall).mp h
    have hroom : first.toNat + vs.length ≤ f.length := by omega
    have hwrite := writeRange_of_checkRange h
    refine ⟨storeAt f first.toNat vs, hwrite, ?_, length_storeAt hroom, ?_, ?_⟩
    · rw [Guarded.writeRange_eq hsmall hfirst hne, hwrite]
    · intro k
      exact getElem?_storeAt hroom
    · exact readRange_of_writeRange hwrite

/-- A frame of three slots, and inside of it one without slots. -/
def threeSlots : FrameStack := [[], [none, some (.number 7.0), none]]

theorem containment_at_word_limits :
    Guarded.Small threeSlots ∧ DecidesContainment threeSlots 1 3 0 ∧
      (∃ f, threeSlots.checkRange 1 3 0 = .ok (1, f)) ∧
      threeSlots.checkRange 1 9223372036854775807 1 =
        .error (.rangeOutOfBounds 9223372036854775807 9223372036854775807 2) ∧
      threeSlots.checkRange 1 0 9223372036854775808 =
        .error (.rangeOutOfBounds 0 9223372036854775807 2) ∧
      threeSlots.checkRange 1 (-9223372036854775808) 1 =
        .error (.rangeOutOfBounds (-9223372036854775808) (-9223372036854775808) 2) ∧
      ∃ fs, threeSlots.writeRange 1 1 [.number 8.0, .number 9.0] = .ok fs ∧
        fs.readRange 1 1 2 = .ok [.number 8.0, .number 9.0] := by
  have hsmall : Guarded.Small threeSlots := ⟨by decide, by decide⟩
  have hexact (first : Int) (count : Nat) (hfirst : FitsInt64 first)
      (hne : ¬ (first = -9223372036854775808 ∧ count = 0)) :=
    @checkRange_decides_containment threeSlots 1 first count hsmall hfirst hne
  have hframe : threeSlots.IsFrame 1 [none, some (.number 7.0), none] := ⟨by decide, rfl⟩
  -- The range is empty and begins behind the last slot.
  have hbehind := hexact 3 0 ⟨by decide, by decide⟩ (by decide)
  have hwithin := hexact 1 2 ⟨by decide, by decide⟩ (by decide)
  have hlast := hexact 9223372036854775807 1 ⟨by decide, by decide⟩ (by decide)
  have hlong := hexact 0 9223372036854775808 ⟨by decide, by decide⟩ (by decide)
  have hleast := hexact (-9223372036854775808) 1 ⟨by decide, by decide⟩ (by decide)
  refine ⟨hsmall, hbehind, ⟨_, (hbehind.found_iff 1 _).mpr ⟨rfl, rfl, by decide, by decide⟩⟩,
    hlast.beyond _ hframe (by decide), hlong.beyond _ hframe (by decide),
    hleast.beyond _ hframe (by decide), ?_⟩
  have hfound := (hwithin.found_iff 1 _).mpr ⟨rfl, hframe.2, by decide, by decide⟩
  obtain ⟨g, hwrite, _, _, _, hread⟩ :=
    hwithin.stores 1 _ hfound [.number 8.0, .number 9.0] rfl
  exact ⟨_, hwrite, hread⟩

end FrameStack

end PixelMachine
