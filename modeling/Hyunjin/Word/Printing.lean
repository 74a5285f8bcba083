import Hyunjin.Word.Strings

/-!
# Printing into a block

A text is printed piece by piece behind the string that a block holds. A step `Appends` its piece if
the block has room for it and the NUL, and writes out of range if it has not. Steps that are done
one after the other append their pieces together, so what is printed in the end is in range exactly
if the whole text is.
-/

namespace Hyunjin.Memory

variable {f g : List U8 → Option (List U8)} {m s s' t : List U8}

/-- The step puts `s` behind whatever string a block holds. -/
structure Appends (f : List U8 → Option (List U8)) (s : List U8) : Prop where
  nul : 0#8 ∉ s
  fits : ∀ m t, Memory.Holds m (t ++ [0#8]) → 0#8 ∉ t → t.length + s.length < m.length →
    ∃ m', f m = some m' ∧ m'.length = m.length ∧ Memory.Holds m' (t ++ s ++ [0#8])
  bursts : ∀ m t, Memory.Holds m (t ++ [0#8]) → 0#8 ∉ t → m.length ≤ t.length + s.length →
    f m = none

theorem appends_nil : Appends some [] where
  nul := List.not_mem_nil
  fits m t ht _ _ := ⟨m, rfl, rfl, by rwa [List.append_nil]⟩
  bursts m t ht _ hle := by
    have hlen := ht.length_le
    rw [List.length_append, List.length_singleton] at hlen
    rw [List.length_nil] at hle
    omega

theorem appends_strcat (hs : 0#8 ∉ s) : Appends (strcat · s) s where
  nul := hs
  fits _ _ ht hnul hlt := strcat_of_lt ht hnul hlt
  bursts m t ht hnul hle := by
    rw [strcat, cstr_of_holds ht hnul]
    exact if_neg (not_lt.mpr hle)

/-- **Steps one after the other** append their pieces together. -/
theorem Appends.bind (hf : Appends f s) (hg : Appends g s') :
    Appends (fun m ↦ (f m).bind g) (s ++ s') where
  nul h := (List.mem_append.mp h).elim hf.nul hg.nul
  fits m t ht hnul hlt := by
    rw [List.length_append] at hlt
    obtain ⟨m₁, hm₁, hlen₁, hheld₁⟩ := hf.fits m t ht hnul (by omega)
    have hnul₁ : 0#8 ∉ t ++ s := fun h ↦ (List.mem_append.mp h).elim hnul hf.nul
    obtain ⟨m₂, hm₂, hlen₂, hheld₂⟩ := hg.fits m₁ (t ++ s) hheld₁ hnul₁
      (by rw [List.length_append, hlen₁]; omega)
    refine ⟨m₂, by rw [hm₁, Option.bind_some, hm₂], hlen₂.trans hlen₁, ?_⟩
    rwa [← List.append_assoc]
  bursts m t ht hnul hle := by
    rw [List.length_append] at hle
    by_cases hlt : t.length + s.length < m.length
    · obtain ⟨m₁, hm₁, hlen₁, hheld₁⟩ := hf.fits m t ht hnul hlt
      have hnul₁ : 0#8 ∉ t ++ s := fun h ↦ (List.mem_append.mp h).elim hnul hf.nul
      rw [hm₁, Option.bind_some]
      exact hg.bursts m₁ (t ++ s) hheld₁ hnul₁ (by rw [List.length_append, hlen₁]; omega)
    · rw [hf.bursts m t ht hnul (not_lt.mp hlt), Option.bind_none]

/-- A text that is copied in and appended to. -/
theorem Appends.strcpy (hg : Appends g s') (hs : 0#8 ∉ s) (m : List U8) :
    ((s ++ s').length < m.length → ∃ m', (strcpy m s).bind g = some m' ∧ m'.length = m.length
        ∧ cstr m' = some (s ++ s'))
      ∧ (m.length ≤ (s ++ s').length → (strcpy m s).bind g = none) := by
  rw [List.length_append]
  constructor
  · intro hlt
    obtain ⟨m₁, hm₁, hlen₁, hheld₁⟩ := strcpy_of_lt (m := m) (s := s) (by omega)
    obtain ⟨m₂, hm₂, hlen₂, hheld₂⟩ := hg.fits m₁ s hheld₁ hs (by rw [hlen₁]; exact hlt)
    refine ⟨m₂, by rw [hm₁, Option.bind_some, hm₂], hlen₂.trans hlen₁, cstr_of_holds hheld₂ ?_⟩
    exact fun h ↦ (List.mem_append.mp h).elim hs hg.nul
  · intro hle
    by_cases hlt : s.length < m.length
    · obtain ⟨m₁, hm₁, hlen₁, hheld₁⟩ := strcpy_of_lt hlt
      rw [hm₁, Option.bind_some]
      exact hg.bursts m₁ s hheld₁ hs (by rw [hlen₁]; exact hle)
    · rw [Memory.strcpy, if_neg hlt, Option.bind_none]

/-- A string is copied as far as it goes, and ended at the last place that is copied to. -/
theorem strncpy_cut {n : ℕ} (hn : n < m.length) :
    ∃ m' m'', strncpy m s (n + 1) = some m' ∧ store m' n 0#8 = some m'' ∧ m''.length = m.length
      ∧ m''.drop (n + 1) = m.drop (n + 1) ∧ Memory.Holds m'' (s.take n ++ [0#8]) := by
  have hcut : (s.take (n + 1)).length ≤ n + 1 := List.length_take_le _ s
  have hpad : ((s.take (n + 1)).rightpad (n + 1) 0#8).length = n + 1 := by
    rw [List.length_rightpad]
    omega
  have hlt : n < ((s.take (n + 1)).rightpad (n + 1) 0#8 ++ m.drop (n + 1)).length := by
    rw [List.length_append, hpad]
    omega
  refine ⟨_, _, if_pos hn, store_of_lt hlt 0#8, ?_, ?_, ?_⟩
  · rw [List.length_set, List.length_append, hpad, List.length_drop]
    omega
  · rw [List.set_append_left _ _ (by omega), List.drop_append_of_le_length
      (by rw [List.length_set]; omega), List.drop_of_length_le (by rw [List.length_set]; omega),
      List.nil_append]
  · rw [List.set_append_left _ _ (by omega)]
    refine List.IsPrefix.trans ?_ (List.prefix_append _ _)
    rw [List.rightpad]
    by_cases hlong : n < s.length
    · have htake : (s.take (n + 1)).length = n + 1 := List.length_take_of_le hlong
      rw [htake, Nat.sub_self, List.replicate_zero, List.append_nil,
        List.set_eq_take_append_cons_drop, if_pos (by omega), List.take_take,
        Nat.min_eq_left n.le_succ]
      exact (List.prefix_append_right_inj _).mpr ⟨_, rfl⟩
    · rw [List.take_of_length_le (by omega), List.take_of_length_le (by omega),
        List.set_append_right _ _ (by omega), show n + 1 - s.length = n - s.length + 1 by omega,
        List.replicate_succ]
      refine (List.prefix_append_right_inj _).mpr ?_
      cases n - s.length <;> exact ⟨_, rfl⟩

end Hyunjin.Memory
