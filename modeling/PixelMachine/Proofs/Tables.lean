import PixelMachine.Table

/-! Tables rebuilt from their own entries. -/
namespace PixelMachine
namespace Table

variable {κ ν : Type} [Ord κ] [Std.TransOrd κ]

omit [Std.TransOrd κ] in
@[ext]
theorem ext {s t : Table κ ν} (h : s.entries = t.entries) : s = t := by
  cases s
  cases t
  cases h
  rfl

/-- A key above all others goes to the end. -/
theorem insertEntry_of_above {k : κ} (v : ν) {es : List (κ × ν)}
    (h : ∀ e ∈ es, compare e.1 k = .lt) : insertEntry k v es = es ++ [(k, v)] := by
  induction es with
  | nil => rfl
  | cons e es ih =>
    obtain ⟨hhead, hrest⟩ := List.forall_mem_cons.mp h
    have hgt : compare k e.1 = .gt := Std.OrientedCmp.gt_of_lt hhead
    simp only [insertEntry, hgt, ih hrest, List.cons_append]

/-- Entries in ascending order, all above those of a table, are put behind them one after another. -/
theorem entries_foldl_insert {es : List (κ × ν)} {t : Table κ ν}
    (hes : es.Pairwise fun a b => compare a.1 b.1 = .lt)
    (habove : ∀ e ∈ es, ∀ e' ∈ t.entries, compare e'.1 e.1 = .lt) :
    (es.foldl (fun t e => t.insert e.1 e.2) t).entries = t.entries ++ es := by
  induction es generalizing t with
  | nil => simp
  | cons e es ih =>
    obtain ⟨hhead, hrest⟩ := List.pairwise_cons.mp hes
    have hinsert : (t.insert e.1 e.2).entries = t.entries ++ [e] :=
      insertEntry_of_above e.2 (habove e List.mem_cons_self)
    have hnext : ∀ x ∈ es, ∀ y ∈ (t.insert e.1 e.2).entries, compare y.1 x.1 = .lt := by
      intro x hx y hy
      rw [hinsert, List.mem_append, List.mem_singleton] at hy
      rcases hy with hy | rfl
      · exact habove x (List.mem_cons_of_mem _ hx) y hy
      · exact hhead x hx
    calc ((e :: es).foldl (fun t e => t.insert e.1 e.2) t).entries
        = (t.insert e.1 e.2).entries ++ es := ih hrest hnext
      _ = t.entries ++ (e :: es) := by rw [hinsert, List.append_assoc, List.singleton_append]

/-- The entries of a table give the table again. -/
@[simp] theorem ofList_entries (t : Table κ ν) : ofList t.entries = t := by
  apply ext
  have hempty : ∀ e ∈ t.entries, ∀ e' ∈ (empty : Table κ ν).entries, compare e'.1 e.1 = .lt :=
    fun e _ e' he' => absurd he' List.not_mem_nil
  exact entries_foldl_insert t.ascending hempty

end Table
end PixelMachine
