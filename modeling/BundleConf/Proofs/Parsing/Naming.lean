import BundleConf.Session.Basic

/-!
# Free names

The number of a generated name is the first one, from the next number of the session on, whose name is not taken
(`isFirstFree_freshNumber`).  There is one among as many numbers as there are names taken and one more, because
different numbers have different names (`Package.generatedName_injective`).
-/

namespace BundleConf

/-- The number of the next generated name. -/
def freshNumber (taken : List String) (generated : Nat) : Nat :=
  firstFree taken taken.length generated

/-- The number is the first one from `start` on whose name is not taken. -/
def IsFirstFree (taken : List String) (start number : Nat) : Prop :=
  start ≤ number ∧ Package.generatedName number ∉ taken ∧
    ∀ n, start ≤ n → n < number → Package.generatedName n ∈ taken

/-- Different numbers are written differently. -/
theorem toString_injective {m n : Nat} (h : toString m = toString n) : m = n := by
  have digits : Nat.toDigits 10 m = Nat.toDigits 10 n := by
    have := congrArg String.toList h
    simpa [Nat.toString_eq_ofList_toDigits] using this
  rw [← Nat.ofDigitChars_ten_toDigits (n := m), digits, Nat.ofDigitChars_ten_toDigits]

theorem Package.generatedName_injective {m n : Nat} (h : generatedName m = generatedName n) : m = n :=
  toString_injective ((String.append_right_inj generatedStem).1 h)

theorem IsFirstFree.unique {taken : List String} {start m n : Nat} (hm : IsFirstFree taken start m)
    (hn : IsFirstFree taken start n) : m = n := by
  rcases Nat.lt_trichotomy m n with h | h | h
  · exact absurd (hn.2.2 m hm.1 h) hm.2.1
  · exact h
  · exact absurd (hm.2.2 n hn.1 h) hn.2.1

/-! ### Looking for a free number -/

private theorem le_firstFree (taken : List String) (tries number : Nat) : number ≤ firstFree taken tries number := by
  induction tries generalizing number with
  | zero => exact Nat.le_refl _
  | succ tries ih =>
    rw [firstFree]
    split
    · exact Nat.le_trans (Nat.le_succ number) (ih (number + 1))
    · exact Nat.le_refl _

private theorem mem_of_lt_firstFree {taken : List String} {tries number n : Nat} (hn : number ≤ n)
    (h : n < firstFree taken tries number) : Package.generatedName n ∈ taken := by
  induction tries generalizing number with
  | zero =>
    rw [firstFree] at h
    omega
  | succ tries ih =>
    rw [firstFree] at h
    split at h
    · rcases Nat.eq_or_lt_of_le hn with rfl | hlt
      · assumption
      · exact ih hlt h
    · omega

/-- If the number that is found is taken too, then all tries were made in vain. -/
private theorem firstFree_eq_of_mem {taken : List String} {tries number : Nat}
    (h : Package.generatedName (firstFree taken tries number) ∈ taken) :
    firstFree taken tries number = number + tries := by
  induction tries generalizing number with
  | zero => rfl
  | succ tries ih =>
    rw [firstFree] at h ⊢
    split at h
    · rw [if_pos (by assumption), ih h]
      omega
    · contradiction

theorem isFirstFree_freshNumber (taken : List String) (generated : Nat) :
    IsFirstFree taken generated (freshNumber taken generated) := by
  refine ⟨le_firstFree .., fun h => ?_, fun n hn hlt => mem_of_lt_firstFree hn hlt⟩
  have last := firstFree_eq_of_mem h
  have all : (List.range (taken.length + 1)).map (fun k => Package.generatedName (generated + k)) ⊆ taken := by
    intro name hname
    rw [List.mem_map] at hname
    obtain ⟨k, hk, rfl⟩ := hname
    rw [List.mem_range] at hk
    rcases Nat.eq_or_lt_of_le (Nat.le_of_lt_succ hk) with rfl | hlt
    · rw [← last]
      exact h
    · exact mem_of_lt_firstFree (Nat.le_add_right ..) (by rw [last]; omega)
  have distinct : ((List.range (taken.length + 1)).map fun k => Package.generatedName (generated + k)).Nodup := by
    rw [List.nodup_iff_pairwise_ne, List.pairwise_map]
    refine List.nodup_range.imp fun hne e => hne ?_
    have := Package.generatedName_injective e
    omega
  have hlength := distinct.length_le_of_subset all
  rw [List.length_map, List.length_range] at hlength
  omega

end BundleConf
