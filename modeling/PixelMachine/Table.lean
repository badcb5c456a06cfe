/-! Tables and sets that keep their keys in ascending order, so that equal contents are equal values. -/
namespace PixelMachine

/-- An association list in strictly ascending order of its keys. -/
structure Table (κ ν : Type) [Ord κ] where
  entries : List (κ × ν)
  ascending : entries.Pairwise (fun a b => compare a.1 b.1 = .lt)

namespace Table

variable {κ ν : Type} [Ord κ]

/-- The table without keys. -/
def empty : Table κ ν := ⟨[], .nil⟩

/-- Puts a key's value in its place, over the one it had. -/
def insertEntry (k : κ) (v : ν) : List (κ × ν) → List (κ × ν)
  | [] => [(k, v)]
  | (k', v') :: rest =>
    match compare k k' with
    | .lt => (k, v) :: (k', v') :: rest
    | .eq => (k, v) :: rest
    | .gt => (k', v') :: insertEntry k v rest

/-- Inserting adds no key but the one given. -/
theorem key_of_mem_insertEntry {k : κ} {v : ν} {e : κ × ν} :
    ∀ {es : List (κ × ν)}, e ∈ insertEntry k v es → e = (k, v) ∨ e ∈ es
  | [], h => by simpa [insertEntry] using h
  | (k', v') :: rest, h => by
    simp only [insertEntry] at h
    split at h
    · simpa using h
    · rcases List.mem_cons.mp h with h | h
      · exact .inl h
      · exact .inr (List.mem_cons_of_mem _ h)
    · rcases List.mem_cons.mp h with h | h
      · exact .inr (by simp [h])
      · rcases key_of_mem_insertEntry h with h | h
        · exact .inl h
        · exact .inr (List.mem_cons_of_mem _ h)

variable [Std.TransOrd κ]

/-- Inserting keeps the order. -/
theorem ascending_insertEntry (k : κ) (v : ν) : ∀ {es : List (κ × ν)},
    es.Pairwise (fun a b => compare a.1 b.1 = .lt) →
      (insertEntry k v es).Pairwise (fun a b => compare a.1 b.1 = .lt)
  | [], _ => by simp [insertEntry]
  | (k', v') :: rest, h => by
    obtain ⟨hhead, hrest⟩ := List.pairwise_cons.mp h
    simp only [insertEntry]
    split
    · next hlt =>
      refine List.pairwise_cons.mpr ⟨fun e he => ?_, h⟩
      rcases List.mem_cons.mp he with rfl | he
      · exact hlt
      · exact Std.TransCmp.lt_trans hlt (hhead e he)
    · next heq =>
      refine List.pairwise_cons.mpr ⟨fun e he => ?_, hrest⟩
      exact Std.TransCmp.lt_of_eq_of_lt heq (hhead e he)
    · next hgt =>
      refine List.pairwise_cons.mpr ⟨fun e he => ?_, ascending_insertEntry k v hrest⟩
      rcases key_of_mem_insertEntry he with rfl | he
      · exact Std.OrientedCmp.lt_of_gt hgt
      · exact hhead e he

/-- The table with a key's value set. -/
def insert (t : Table κ ν) (k : κ) (v : ν) : Table κ ν :=
  ⟨insertEntry k v t.entries, ascending_insertEntry k v t.ascending⟩

/-- The table of a list of pairs; of two with one key the later counts. -/
def ofList (es : List (κ × ν)) : Table κ ν := es.foldl (fun t e => t.insert e.1 e.2) empty

omit [Std.TransOrd κ] in
/-- The value of a key. -/
def find? (t : Table κ ν) (k : κ) : Option ν :=
  (t.entries.find? fun e => compare k e.1 == .eq).map (·.2)

end Table

/-- A set of indices, listed in strictly ascending order. -/
structure IndexSet where
  members : List Nat
  ascending : members.Pairwise (· < ·)
  deriving Repr

namespace IndexSet

/-- The set without members. -/
def empty : IndexSet := ⟨[], .nil⟩

/-- Puts an index in its place. -/
def insertMember (n : Nat) : List Nat → List Nat
  | [] => [n]
  | m :: rest => if n < m then n :: m :: rest else if n = m then m :: rest else m :: insertMember n rest

theorem mem_insertMember {n x : Nat} : ∀ {ms : List Nat}, x ∈ insertMember n ms ↔ x = n ∨ x ∈ ms
  | [] => by simp [insertMember]
  | m :: rest => by
    have ih := @mem_insertMember n x rest
    simp only [insertMember]
    split
    · simp
    · split
      · simp_all
      · simp only [List.mem_cons, ih]
        grind

/-- Inserting keeps the order. -/
theorem ascending_insertMember (n : Nat) : ∀ {ms : List Nat},
    ms.Pairwise (· < ·) → (insertMember n ms).Pairwise (· < ·)
  | [], _ => by simp [insertMember]
  | m :: rest, h => by
    obtain ⟨hhead, hrest⟩ := List.pairwise_cons.mp h
    simp only [insertMember]
    split
    · next hlt =>
      refine List.pairwise_cons.mpr ⟨fun x hx => ?_, h⟩
      rcases List.mem_cons.mp hx with rfl | hx
      · exact hlt
      · exact Nat.lt_trans hlt (hhead x hx)
    · split
      · exact h
      · refine List.pairwise_cons.mpr ⟨fun x hx => ?_, ascending_insertMember n hrest⟩
        rcases mem_insertMember.mp hx with rfl | hx
        · omega
        · exact hhead x hx

/-- Whether an index is in the set. -/
def contains (s : IndexSet) (n : Nat) : Bool := s.members.contains n

/-- The set with one more index. -/
def insert (s : IndexSet) (n : Nat) : IndexSet :=
  ⟨insertMember n s.members, ascending_insertMember n s.ascending⟩

/-- The set without an index. -/
def erase (s : IndexSet) (n : Nat) : IndexSet :=
  ⟨s.members.erase n, s.ascending.sublist List.erase_sublist⟩

end IndexSet

end PixelMachine
