import PixelMachine.Json.Reader
import PixelMachine.Json.Writer
import PixelMachine.Proofs.Numerals
import PixelMachine.Proofs.Tables
import PixelMachine.Saved.Config
import PixelMachine.Saved.Event
import PixelMachine.Saved.Snapshot
import PixelMachine.Saved.Trace

/-! Saved state reads back: what is saved is read as it was when all numbers in it are finite, and
refused when one is not. -/
namespace PixelMachine

namespace Json

mutual

/-- Documents of texts, 64-bit words and finite floats. -/
def plain : Json → Bool
  | .int n => decide (FitsInt64 n ∨ 0 ≤ n ∧ FitsUInt64 n.toNat)
  | .float x => x.isFinite
  | .arr items => itemsPlain items
  | .obj fields => fieldsPlain fields
  | .unreadable => false
  | .null | .bool _ | .str _ => true

def itemsPlain : List Json → Bool
  | [] => true
  | item :: items => plain item && itemsPlain items

def fieldsPlain : List (String × Json) → Bool
  | [] => true
  | (_, item) :: fields => plain item && fieldsPlain fields

end

theorem itemsPlain_map {α : Type} {save : α → Json} {xs : List α}
    (h : ∀ a ∈ xs, (save a).plain = true) : itemsPlain (xs.map save) = true := by
  induction xs with
  | nil => rfl
  | cons a xs ih =>
    obtain ⟨ha, hxs⟩ := List.forall_mem_cons.mp h
    rw [List.map_cons, itemsPlain, ha, ih hxs, Bool.and_self]

theorem fieldsPlain_map {α : Type} {save : α → String × Json} {xs : List α}
    (h : ∀ a ∈ xs, (save a).2.plain = true) : fieldsPlain (xs.map save) = true := by
  induction xs with
  | nil => rfl
  | cons a xs ih =>
    obtain ⟨ha, hxs⟩ := List.forall_mem_cons.mp h
    rw [List.map_cons, fieldsPlain, ha, ih hxs, Bool.and_self]

end Json

/-- `read` takes back what `save` makes of a thing if the numbers inside are finite and refuses it
otherwise. -/
def TakesBack {α β : Type} (save : α → β) (read : β → Option α) (finite : α → Bool) : Prop :=
  ∀ a, read (save a) = if finite a then some a else none

/-- A saved form that is a plain document and is taken back. -/
structure Codec {α : Type} (save : α → Json) (read : Json → Option α) (finite : α → Bool) : Prop where
  plain : ∀ a, (save a).plain = true
  takesBack : TakesBack save read finite

theorem TakesBack.mapM {α β : Type} {save : α → β} {read : β → Option α} {finite : α → Bool}
    (h : TakesBack save read finite) :
    TakesBack (List.map save) (List.mapM read) (List.all · finite) := by
  intro xs
  induction xs with
  | nil => rfl
  | cons a xs ih =>
    dsimp only at ih ⊢
    rw [List.map_cons, List.mapM_cons, h a, ih]
    by_cases ha : finite a = true
    · by_cases hxs : xs.all finite = true
      · simp [ha, hxs]
      · simp [ha, hxs]
    · simp [ha]

theorem Codec.list {α : Type} {save : α → Json} {read : Json → Option α} {finite : α → Bool}
    (h : Codec save read finite) :
    Codec (Json.ofList save) (Json.list? read) (List.all · finite) where
  plain _ := Json.itemsPlain_map fun a _ => h.plain a
  takesBack := h.takesBack.mapM

/-- Everything reads back of a thing without numbers. -/
def anyway {α : Type} (_ : α) : Bool := true

theorem TakesBack.eq_some {α β : Type} {save : α → β} {read : β → Option α}
    (h : TakesBack save read anyway) (a : α) : read (save a) = some a := h a

theorem TakesBack.mapM_eq_some {α β : Type} {save : α → β} {read : β → Option α}
    (h : TakesBack save read anyway) (xs : List α) : (xs.map save).mapM read = some xs := by
  have hall : xs.all anyway = true := List.all_eq_true.mpr fun _ _ => rfl
  have hxs := h.mapM xs
  simpa only [hall, if_true] using hxs

/-! Words. -/

theorem codec_uint64 : Codec Json.ofUInt64 Json.uint64? anyway where
  plain n := by
    have hlt : n.toNat < 18446744073709551616 := n.toNat_lt
    simp [Json.ofUInt64, Json.plain]
    omega
  takesBack n := by
    have hlt : n.toNat < 18446744073709551616 := n.toNat_lt
    simp [Json.ofUInt64, Json.uint64?, anyway, FitsUInt64, hlt]

theorem codec_uint32 : Codec Json.ofUInt32 Json.uint32? anyway where
  plain n := by
    have hlt : n.toNat < 4294967296 := n.toNat_lt
    simp [Json.ofUInt32, Json.plain]
    omega
  takesBack n := by
    have hlt : n.toNat < 4294967296 := n.toNat_lt
    simp [Json.ofUInt32, Json.uint32?, anyway, FitsUInt32, hlt]

theorem codec_int64 : Codec Json.ofInt64 Json.int64? anyway where
  plain n := by
    simp [Json.ofInt64, Json.plain, fitsInt64_toInt n]
  takesBack n := by
    simp [Json.ofInt64, Json.int64?, anyway, fitsInt64_toInt n]

/-! Values. -/

namespace Value

mutual

/-- All numbers inside are finite. -/
def finite : Value → Bool
  | .number x => x.isFinite
  | .array slots => slotsFinite slots
  | _ => true

def slotsFinite : List (Option Value) → Bool
  | [] => true
  | none :: slots => slotsFinite slots
  | some v :: slots => finite v && slotsFinite slots

end

theorem parts?_tagged (reading : Reading) (kind : ValueKind) (content : Json) :
    parts? reading (tagged kind content) = some ⟨kind, content, reading⟩ := by
  cases kind <;> rfl

theorem cell?_savedCell (offset frame : Int64) :
    cell? (savedCell offset frame) = some (offset, frame) := by
  have hoffset : (Json.ofInt64 offset).int64? = some offset := codec_int64.takesBack offset
  have hframe : (Json.ofInt64 frame).int64? = some frame := codec_int64.takesBack frame
  simp [cell?, savedCell, Json.fields?, Json.field?, hoffset, hframe]

theorem float?_ofFloat (x : Float) :
    (Json.ofFloat x).float? = if x.isFinite then some x else none := by
  unfold Json.ofFloat
  split <;> rfl

theorem nullable?_toJson {α : Type} (read : Json → Option α) (v : Value) :
    Json.nullable? read v.toJson = (read v.toJson).map some := by
  cases v <;> rfl

/-- What stands around a value's content makes its document one higher. -/
theorem height_tagged (kind : ValueKind) (content : Json) :
    content.height < (tagged kind content).height := by
  simp only [tagged, Json.height, Json.fieldsHeight]
  omega

mutual

/-- A value is taken back with as much fuel as its document is high. -/
theorem ofJsonWithin?_toJson (v : Value) (reading : Reading) {fuel : Nat}
    (h : v.toJson.height ≤ fuel) :
    ofJsonWithin? fuel reading v.toJson = if v.finite then some v else none := by
  obtain ⟨fuel, rfl⟩ : ∃ n, fuel = n + 1 := by
    have hpos : 0 < v.toJson.height := by cases v <;> exact Nat.succ_pos _
    exact ⟨fuel - 1, by omega⟩
  cases v with
  | number x =>
    simp only [toJson, ofJsonWithin?, parts?_tagged, float?_ofFloat, Option.map_if]
    rfl
  | label offset frame =>
    simp only [toJson, ofJsonWithin?, parts?_tagged, cell?_savedCell, Option.map_some, finite, if_true]
  | shiftedLabel offset frame =>
    simp only [toJson, ofJsonWithin?, parts?_tagged, cell?_savedCell, Option.map_some, finite, if_true]
  | counterOffset offset =>
    have hoffset : (Json.ofInt64 offset).int64? = some offset := codec_int64.takesBack offset
    simp only [toJson, ofJsonWithin?, parts?_tagged, hoffset, Option.map_some, finite, if_true]
  | function name =>
    simp only [toJson, ofJsonWithin?, parts?_tagged, Json.str?, Option.map_some, finite, if_true]
  | array slots =>
    have hcontent := height_tagged .array (.arr (slotsToJson slots))
    have hfuel : Json.itemsHeight (slotsToJson slots) ≤ fuel := by
      simp only [toJson] at h
      simp only [Json.height] at hcontent
      omega
    simp only [toJson, ofJsonWithin?, parts?_tagged, Json.list?, Json.items?, Option.bind_some,
      mapM_slotsToJson slots reading hfuel, Option.map_if]
    rfl

/-- Slots are taken back in their order; `null` is an empty one. -/
theorem mapM_slotsToJson (slots : List (Option Value)) (reading : Reading) {fuel : Nat}
    (h : Json.itemsHeight (slotsToJson slots) ≤ fuel) :
    (slotsToJson slots).mapM (Json.nullable? (ofJsonWithin? fuel reading))
      = if slotsFinite slots then some slots else none := by
  match slots with
  | [] => rfl
  | none :: slots =>
    have hrest : Json.itemsHeight (slotsToJson slots) ≤ fuel := by
      simp only [slotsToJson, Json.itemsHeight] at h
      omega
    rw [slotsToJson, List.mapM_cons, mapM_slotsToJson slots reading hrest, slotsFinite]
    split <;> rfl
  | some v :: slots =>
    simp only [slotsToJson, Json.itemsHeight] at h
    have hfirst : v.toJson.height ≤ fuel := by omega
    have hrest : Json.itemsHeight (slotsToJson slots) ≤ fuel := by omega
    rw [slotsToJson, List.mapM_cons, nullable?_toJson, ofJsonWithin?_toJson v reading hfirst,
      mapM_slotsToJson slots reading hrest, slotsFinite]
    by_cases hv : v.finite = true
    · by_cases hslots : slotsFinite slots = true
      · simp [hv, hslots]
      · simp [hv, hslots]
    · simp [hv]

end

mutual

/-- A value's document is plain, whatever numbers are inside. -/
theorem plain_toJson (v : Value) : v.toJson.plain = true := by
  have hcell (offset frame : Int64) : (savedCell offset frame).plain = true := by
    simp only [savedCell, Json.plain, Json.fieldsPlain, codec_int64.plain, Bool.and_self]
  have htagged {kind : ValueKind} {content : Json} (h : content.plain = true) :
      (tagged kind content).plain = true := by
    simp only [tagged, Json.plain, Json.fieldsPlain, h, Bool.and_self]
  cases v with
  | number x =>
    apply htagged
    unfold Json.ofFloat
    split
    · next hfinite => exact hfinite
    · rfl
  | label offset frame => exact htagged (hcell offset frame)
  | shiftedLabel offset frame => exact htagged (hcell offset frame)
  | counterOffset offset => exact htagged (codec_int64.plain offset)
  | function name => exact htagged rfl
  | array slots => exact htagged (itemsPlain_slotsToJson slots)

theorem itemsPlain_slotsToJson (slots : List (Option Value)) :
    Json.itemsPlain (slotsToJson slots) = true := by
  match slots with
  | [] => rfl
  | none :: slots =>
    rw [slotsToJson, Json.itemsPlain, itemsPlain_slotsToJson slots]
    rfl
  | some v :: slots =>
    rw [slotsToJson, Json.itemsPlain, plain_toJson v, itemsPlain_slotsToJson slots]
    rfl

end

theorem codec (reading : Reading) : Codec toJson (ofJsonFrom? reading) finite where
  plain := plain_toJson
  takesBack v := ofJsonWithin?_toJson v reading (Nat.le_refl _)

end Value

/-! Frames. -/

/-- All numbers in a frame are finite. -/
def Frame.finite (f : Frame) : Bool := Value.slotsFinite f

/-- All numbers in the frames are finite. -/
def FrameStack.finite (fs : FrameStack) : Bool := fs.all Frame.finite

/-- A slot's saved form; a frame's is the list of them. -/
def Value.slotToJson : Option Value → Json
  | none => .null
  | some v => v.toJson

theorem Value.slotsToJson_eq_map (slots : List (Option Value)) :
    slotsToJson slots = slots.map slotToJson := by
  induction slots with
  | nil => rfl
  | cons slot slots ih => cases slot <;> simp [slotsToJson, slotToJson, ih]

theorem Value.slotsFinite_eq_all (slots : List (Option Value)) :
    slotsFinite slots = slots.all fun slot => slot.all finite := by
  induction slots with
  | nil => rfl
  | cons slot slots ih => cases slot <;> simp [slotsFinite, ih]

theorem Value.takesBack_slot (reading : Reading) :
    TakesBack slotToJson (Json.nullable? (ofJsonFrom? reading)) (·.all finite) := by
  intro slot
  cases slot with
  | none => rfl
  | some v =>
    have hv := (Value.codec reading).takesBack v
    rw [slotToJson, nullable?_toJson, hv, Option.map_if]
    rfl

theorem Frame.codec : Codec Frame.toJson Frame.ofJson? Frame.finite where
  plain f := Value.itemsPlain_slotsToJson f
  takesBack f := by
    have hslots := (Value.takesBack_slot .direct).mapM f
    rw [Frame.toJson, Frame.finite, Value.slotsToJson_eq_map, Value.slotsFinite_eq_all]
    exact hslots

theorem FrameStack.codec : Codec FrameStack.toJson FrameStack.ofJson? FrameStack.finite :=
  Frame.codec.list

/-! Programs. -/

theorem Opcode.ofMnemonic?_mnemonic (op : Opcode) : ofMnemonic? op.mnemonic = some op := by
  cases op <;> rfl

theorem Opcode.codec : Codec Opcode.toJson Opcode.ofJson? anyway where
  plain _ := rfl
  takesBack op := Opcode.ofMnemonic?_mnemonic op

/-- The number of the operand, if there is one, is finite, and so are those inside it. -/
def Instruction.finite (i : Instruction) : Bool := i.operand.all Value.finite

theorem Instruction.codec (reading : Reading) :
    Codec Instruction.toJson (Instruction.ofJsonFrom? reading) Instruction.finite where
  plain i := by
    obtain ⟨op, _ | v⟩ := i
    · rfl
    · simp only [Instruction.toJson, Json.plain, Json.fieldsPlain, Opcode.codec.plain op,
        (Value.codec reading).plain v, Bool.and_self]
  takesBack i := by
    obtain ⟨op, operand⟩ := i
    have hop : Opcode.ofJson? op.toJson = some op := Opcode.codec.takesBack.eq_some op
    cases operand with
    | none =>
      simp [Instruction.toJson, Instruction.ofJsonFrom?, Json.record?, Json.field?, Json.required,
        Json.optional, hop, finite]
    | some v =>
      have hv := (Value.codec reading).takesBack v
      by_cases hfinite : v.finite = true
      · rw [if_pos hfinite] at hv
        simp [Instruction.toJson, Instruction.ofJsonFrom?, Json.record?, Json.field?, Json.required,
          Json.optional, hop, Value.nullable?_toJson, hv, finite, hfinite]
      · rw [if_neg hfinite] at hv
        simp [Instruction.toJson, Instruction.ofJsonFrom?, Json.record?, Json.field?, Json.required,
          Json.optional, hop, Value.nullable?_toJson, hv, finite, hfinite]

/-- The numbers in all instructions are finite. -/
def Program.finite (p : Program) : Bool := p.instructions.toList.all Instruction.finite

theorem FunctionTable.codec : Codec FunctionTable.toJson FunctionTable.ofJson? anyway where
  plain t := Json.fieldsPlain_map fun e _ => codec_uint64.plain e.2
  takesBack t := by
    have hentry : TakesBack (fun e : String × UInt64 => (e.1, Json.ofUInt64 e.2))
        (fun f : String × Json => f.2.uint64?.map (f.1, ·)) anyway := by
      intro e
      simp [codec_uint64.takesBack.eq_some e.2, anyway]
    have hentries := hentry.mapM_eq_some t.entries
    have htable : Table.ofList t.entries = t := Table.ofList_entries t
    simp only [FunctionTable.ofJson?, FunctionTable.toJson, Json.fields?]
    simp only [Option.bind_eq_bind, Option.bind_some, hentries, htable]
    rfl

theorem Program.codec (reading : Reading) :
    Codec Program.toJson (Program.ofJsonFrom? reading) Program.finite where
  plain p := by
    have hinstructions := (Instruction.codec reading).list.plain p.instructions.toList
    simp only [Program.toJson, Json.plain, Json.fieldsPlain, hinstructions,
      FunctionTable.codec.plain p.functions, Bool.and_self]
  takesBack p := by
    have hinstructions : Json.list? (Instruction.ofJsonFrom? reading)
        (Json.ofList Instruction.toJson p.instructions.toList)
          = if p.finite then some p.instructions.toList else none :=
      (Instruction.codec reading).list.takesBack p.instructions.toList
    have hfunctions := FunctionTable.codec.takesBack.eq_some p.functions
    by_cases hfinite : p.finite = true
    · rw [if_pos hfinite] at hinstructions
      simp [Program.toJson, Program.ofJsonFrom?, Json.record?, Json.field?, Json.required,
        Json.optional, hinstructions, hfunctions, hfinite]
    · rw [if_neg hfinite] at hinstructions
      simp [Program.toJson, Program.ofJsonFrom?, Json.record?, Json.field?, Json.required,
        hinstructions, hfinite]

/-! Snapshots, statistics, settings, events and keys. -/

/-- The numbers on the work stack and in the frames are finite. -/
def Snapshot.finite (s : Snapshot) : Bool :=
  s.workStack.all Value.finite && FrameStack.finite s.frames

theorem Snapshot.codec : Codec Snapshot.toJson Snapshot.ofJson? Snapshot.finite where
  plain s := by
    have hstack := (Value.codec .direct).list.plain s.workStack
    have hcalls := codec_uint64.list.plain s.returnStack
    simp only [Snapshot.toJson, Json.plain, Json.fieldsPlain, codec_int64.plain, codec_uint32.plain,
      hstack, hcalls, FrameStack.codec.plain, Bool.and_self]
  takesBack s := by
    have hstack : Json.list? Value.ofJson? (Json.ofList Value.toJson s.workStack)
        = if s.workStack.all Value.finite then some s.workStack else none :=
      (Value.codec .direct).list.takesBack s.workStack
    have hframes := FrameStack.codec.takesBack s.frames
    have hcalls : Json.list? Json.uint64? (Json.ofList .ofUInt64 s.returnStack)
        = some s.returnStack := codec_uint64.takesBack.mapM_eq_some s.returnStack
    have hread : Snapshot.ofJson? s.toJson
        = (Json.list? Value.ofJson? (Json.ofList Value.toJson s.workStack)).bind fun workStack =>
          (FrameStack.ofJson? s.frames.toJson).bind fun frames =>
            some { s with workStack := workStack, frames := frames } := by
      simp [Snapshot.toJson, Snapshot.ofJson?, Json.record?, Json.field?, Json.required, Json.bool?,
        codec_int64.takesBack.eq_some, codec_uint32.takesBack.eq_some, hcalls]
    rw [hread, hstack, hframes, Snapshot.finite]
    cases s.workStack.all Value.finite
    · rfl
    · cases s.frames.finite <;> rfl

theorem SavedTrace.codec_counts : Codec countsToJson countsOfJson? anyway where
  plain t := Json.fieldsPlain_map fun e _ => codec_uint64.plain e.2
  takesBack t := by
    have hentry : TakesBack (fun e : Opcode × UInt64 => (e.1.mnemonic, Json.ofUInt64 e.2))
        (fun f : String × Json => do return (← Opcode.ofMnemonic? f.1, ← f.2.uint64?)) anyway := by
      intro e
      simp [Opcode.ofMnemonic?_mnemonic, codec_uint64.takesBack.eq_some e.2, anyway]
    have hentries := hentry.mapM_eq_some t.entries
    have htable : Table.ofList t.entries = t := Table.ofList_entries t
    simp only [Option.bind_eq_bind] at hentries
    simp only [countsOfJson?, countsToJson, Json.fields?, Option.bind_eq_bind, Option.bind_some,
      hentries, htable]
    rfl

theorem SavedTrace.codec : Codec SavedTrace.toJson SavedTrace.ofJson? anyway where
  plain t := by
    have hcoverage := codec_uint64.list.plain t.coverage
    simp only [SavedTrace.toJson, Json.plain, Json.fieldsPlain, codec_uint64.plain,
      codec_counts.plain, hcoverage, Bool.and_self]
  takesBack t := by
    have hcoverage : Json.list? Json.uint64? (Json.ofList .ofUInt64 t.coverage)
        = some t.coverage := codec_uint64.takesBack.mapM_eq_some t.coverage
    simp [SavedTrace.toJson, SavedTrace.ofJson?, Json.record?, Json.field?, Json.required,
      codec_uint64.takesBack.eq_some, codec_counts.takesBack.eq_some, hcoverage, anyway]

theorem Config.codec : Codec Config.toJson Config.ofJson? anyway where
  plain c := by
    obtain ⟨width, height, pollInterval, _ | seed, stackLimit, frameLimit⟩ := c <;>
    simp only [Config.toJson, Json.plain, Json.fieldsPlain, codec_uint64.plain, codec_uint32.plain,
      Bool.and_self]
  takesBack c := by
    have hseed (n : UInt64) : Json.nullable? Json.uint64? (Json.ofUInt64 n) = some (some n) :=
      congrArg (Option.map some) (codec_uint64.takesBack.eq_some n)
    have hnone : Json.nullable? Json.uint64? .null = some none := rfl
    obtain ⟨width, height, pollInterval, _ | seed, stackLimit, frameLimit⟩ := c
    · simp [Config.toJson, Config.ofJson?, Json.record?, Json.field?, Json.optional,
        codec_uint64.takesBack.eq_some, codec_uint32.takesBack.eq_some, hnone, anyway]
    · simp [Config.toJson, Config.ofJson?, Json.record?, Json.field?, Json.optional,
        codec_uint64.takesBack.eq_some, codec_uint32.takesBack.eq_some, hseed, anyway]

theorem Event.codec : Codec Event.toJson Event.ofJson? anyway where
  plain e := by
    cases e with
    | breakpointHit address =>
      simp only [Event.toJson, Json.plain, Json.fieldsPlain, codec_uint64.plain, Bool.and_self]
    | _ => rfl
  takesBack e := by
    cases e with
    | breakpointHit address =>
      simp [Event.toJson, Event.ofJson?, Json.variant?, Json.record?, Json.field?, Json.required,
        codec_uint64.takesBack.eq_some, anyway]
    | _ => rfl

theorem Key.codec : Codec Key.toJson Key.ofJson? anyway where
  plain k := by cases k <;> rfl
  takesBack k := by
    cases k with
    | char c => simp [Key.toJson, Key.ofJson?, Json.variant?, Json.str?, Key.oneChar?, anyway]
    | _ => rfl

/-! Saved text. -/

/-- How documents are written as text and read from it, without loss for the plain documents that are
admitted, which are those that do not nest too deep. -/
structure TextLayer where
  write : Json → String
  read? : String → Option Json
  Admits : Json → Prop
  lossless : ∀ j, j.plain = true → Admits j → read? (write j) = some j

namespace TextLayer

/-- What is saved as text is restored if its numbers are finite, and refused if one is not. -/
def Restores (layer : TextLayer) {α : Type} (save : α → Json) (read : Json → Option α)
    (finite : α → Bool) : Prop :=
  ∀ a, layer.Admits (save a) →
    (finite a = true → (layer.read? (layer.write (save a))).bind read = some a) ∧
    (finite a = false → (layer.read? (layer.write (save a))).bind read = none)

theorem restores_of_codec {α : Type} {save : α → Json} {read : Json → Option α} {finite : α → Bool}
    (h : Codec save read finite) (layer : TextLayer) : layer.Restores save read finite := by
  intro a hadmits
  have htext : layer.read? (layer.write (save a)) = some (save a) :=
    layer.lossless (save a) (h.plain a) hadmits
  have hread := h.takesBack a
  rw [htext, Option.bind_some, hread]
  exact ⟨fun hfinite => if_pos hfinite, fun hfinite => if_neg (by rw [hfinite]; decide)⟩

/-- Everything that is saved reads back. -/
theorem restores_saved_state (layer : TextLayer) :
    layer.Restores Program.toJson Program.ofJson? Program.finite ∧
    layer.Restores Instruction.toJson Instruction.ofJson? Instruction.finite ∧
    layer.Restores Value.toJson Value.ofJson? Value.finite ∧
    layer.Restores FrameStack.toJson FrameStack.ofJson? FrameStack.finite ∧
    layer.Restores Snapshot.toJson Snapshot.ofJson? Snapshot.finite ∧
    layer.Restores SavedTrace.toJson SavedTrace.ofJson? anyway ∧
    layer.Restores Event.toJson Event.ofJson? anyway ∧
    layer.Restores Key.toJson Key.ofJson? anyway ∧
    layer.Restores Config.toJson Config.ofJson? anyway :=
  ⟨restores_of_codec (Program.codec .direct) layer,
    restores_of_codec (Instruction.codec .direct) layer,
    restores_of_codec (Value.codec .direct) layer,
    restores_of_codec FrameStack.codec layer,
    restores_of_codec Snapshot.codec layer,
    restores_of_codec SavedTrace.codec layer,
    restores_of_codec Event.codec layer,
    restores_of_codec Key.codec layer,
    restores_of_codec Config.codec layer⟩

end TextLayer

namespace Json

mutual

/-- Tests whether two documents are the same. -/
def same : Json → Json → Bool
  | .null, .null => true
  | .bool a, .bool b => a == b
  | .int a, .int b => a == b
  | .float a, .float b => decide (a = b)
  | .str a, .str b => a == b
  | .arr xs, .arr ys => itemsSame xs ys
  | .obj xs, .obj ys => fieldsSame xs ys
  | .unreadable, .unreadable => true
  | _, _ => false

def itemsSame : List Json → List Json → Bool
  | [], [] => true
  | x :: xs, y :: ys => same x y && itemsSame xs ys
  | _, _ => false

def fieldsSame : List (String × Json) → List (String × Json) → Bool
  | [], [] => true
  | (a, x) :: xs, (b, y) :: ys => a == b && same x y && fieldsSame xs ys
  | _, _ => false

end

mutual

theorem eq_of_same {a b : Json} (h : same a b = true) : a = b := by
  -- Documents of different kinds are never the same, so only eight pairs are left.
  cases a <;> cases b <;> simp only [same, reduceCtorEq, beq_iff_eq, decide_eq_true_eq] at h ⊢
  case bool | int | float | str => rw [h]
  case arr xs ys => rw [eq_of_itemsSame h]
  case obj xs ys => rw [eq_of_fieldsSame h]

theorem eq_of_itemsSame {xs ys : List Json} (h : itemsSame xs ys = true) : xs = ys := by
  match xs, ys with
  | [], [] => rfl
  | x :: xs, y :: ys =>
    simp only [itemsSame, Bool.and_eq_true] at h
    rw [eq_of_same h.1, eq_of_itemsSame h.2]

theorem eq_of_fieldsSame {xs ys : List (String × Json)} (h : fieldsSame xs ys = true) : xs = ys := by
  match xs, ys with
  | [], [] => rfl
  | (a, x) :: xs, (b, y) :: ys =>
    simp only [fieldsSame, Bool.and_eq_true, beq_iff_eq] at h
    rw [h.1.1, eq_of_same h.1.2, eq_of_fieldsSame h.2]

end

end Json

namespace TextLayer

/-- Documents on one line, as `Json.text` writes and `Json.read?` reads them. -/
def oneLine : TextLayer where
  write := Json.text
  read? := Json.read?
  Admits j := Json.read? j.text = some j
  lossless _ _ h := h

theorem oneLine_admits {j : Json} (h : (Json.read? j.text).any (Json.same j) = true) :
    oneLine.Admits j := by
  obtain ⟨j', hread, hsame⟩ := (Option.any_eq_true _ _).mp h
  rw [← Json.eq_of_same hsame] at hread
  exact hread

theorem restores_saved_state_oneLine :
    (oneLine.read? (oneLine.write (Value.array [some (.number 0.5), none]).toJson)).bind Value.ofJson?
      = some (.array [some (.number 0.5), none]) ∧
    (oneLine.read? (oneLine.write (Value.number (0.0 / 0.0)).toJson)).bind Value.ofJson? = none := by
  have hfinite : oneLine.Admits (Value.array [some (.number 0.5), none]).toJson :=
    oneLine_admits (by decide +kernel)
  have hnan : oneLine.Admits (Value.number (0.0 / 0.0)).toJson := oneLine_admits (by decide +kernel)
  obtain ⟨_, _, hvalue, _⟩ := restores_saved_state oneLine
  exact ⟨(hvalue _ hfinite).1 (by decide +kernel), (hvalue _ hnan).2 (by decide +kernel)⟩

end TextLayer

end PixelMachine
