import BundleConf.Proofs.Parsing.Naming
import Mathlib.Order.Interval.Finset.Nat

/-!
# Drawing names

A package without a name gets the first name that is free among those drawn from the session, one after the other
(`Session.Draws`).  Nothing limits the draws.  They come to an end because the names that are passed over are different
names that are taken: there is at most one draw more than there are names (`Session.Draws.le_card`), and what comes out
is the fresh name of the session (`Session.draws_iff`).

A counter that does nothing but draw such names goes from one number to the next one (`DrawnInTurn`), so the numbers of
the names grow, whatever else was taken at each of them (`DrawnInTurn.pairwise`).
-/

namespace BundleConf

/-! ### First free numbers -/

namespace IsFirstFree

variable {taken : List String} {start number : Nat}

theorem of_notMem (h : Package.generatedName start ∉ taken) : IsFirstFree taken start start :=
  ⟨Nat.le_refl start, h, fun _ hle hlt => absurd hle (Nat.not_le.2 hlt)⟩

/-- A number whose name is taken is passed over. -/
theorem of_mem (h : Package.generatedName start ∈ taken) (hnumber : IsFirstFree taken (start + 1) number) :
    IsFirstFree taken start number := by
  obtain ⟨hle, hfree, htaken⟩ := hnumber
  refine ⟨Nat.le_of_succ_le hle, hfree, fun n hn hlt => ?_⟩
  rcases Nat.eq_or_lt_of_le hn with rfl | hlt'
  · exact h
  · exact htaken n hlt' hlt

/-- Unless it is free itself, the number to start from can be passed over. -/
theorem succ (h : IsFirstFree taken start number) (hlt : start < number) : IsFirstFree taken (start + 1) number :=
  ⟨hlt, h.2.1, fun n hn => h.2.2 n (Nat.le_of_succ_le hn)⟩

/-- The numbers that are passed over have different names, all of which are taken. -/
theorem sub_le_card (h : IsFirstFree taken start number) : number - start ≤ taken.toFinset.card := by
  have distinct : Function.Injective Package.generatedName := fun _ _ => Package.generatedName_injective
  have passed : (Finset.Ico start number).image Package.generatedName ⊆ taken.toFinset := by
    intro name hname
    obtain ⟨n, hn, rfl⟩ := Finset.mem_image.1 hname
    rw [Finset.mem_Ico] at hn
    exact List.mem_toFinset.2 (h.2.2 n hn.1 hn.2)
  calc number - start = (Finset.Ico start number).card := (Nat.card_Ico start number).symm
    _ = ((Finset.Ico start number).image Package.generatedName).card :=
      (Finset.card_image_of_injective _ distinct).symm
    _ ≤ taken.toFinset.card := Finset.card_le_card passed

end IsFirstFree

/-! ### Drawing until a name is free -/

namespace Session

/-- Names are drawn from a session until one is not taken: so many draws yield this name, and the session after the last
of them. -/
inductive Draws (taken : List String) : Session → Nat → String × Session → Prop
  | free {s : Session} (h : s.nextName.1 ∉ taken) : Draws taken s 1 s.nextName
  | again {s : Session} {n : Nat} {drawn : String × Session} (h : s.nextName.1 ∈ taken)
      (rest : Draws taken s.nextName.2 n drawn) : Draws taken s (n + 1) drawn

variable {taken : List String} {s : Session} {n number : Nat} {drawn : String × Session}

/-- However many draws it takes, the number of the name that comes out is the first free one. -/
theorem Draws.exists_isFirstFree (h : s.Draws taken n drawn) :
    ∃ number, IsFirstFree taken s.generated number ∧ number + 1 = s.generated + n ∧
      drawn = (Package.generatedName number, { s with generated := number + 1 }) := by
  induction h with
  | @free s hfree => exact ⟨s.generated, .of_notMem hfree, rfl, rfl⟩
  | @again s n drawn htaken rest ih =>
    obtain ⟨number, hnumber, hcount, hdrawn⟩ := ih
    refine ⟨number, hnumber.of_mem htaken, ?_, hdrawn⟩
    rw [hcount, nextName, Nat.add_assoc, Nat.add_comm 1 n]

/-- Where there is a free number, drawing comes to an end. -/
theorem draws_of_isFirstFree (h : IsFirstFree taken s.generated number) :
    s.Draws taken (number - s.generated + 1)
      (Package.generatedName number, { s with generated := number + 1 }) := by
  -- by induction on how many numbers are passed over
  induction hk : number - s.generated generalizing s with
  | zero =>
    obtain rfl : s.generated = number := Nat.le_antisymm h.1 (Nat.le_of_sub_eq_zero hk)
    exact .free h.2.1
  | succ k ih =>
    have hlt : s.generated < number := by omega
    have rest : number - (s.generated + 1) = k := by omega
    exact .again (h.2.2 _ (Nat.le_refl _) hlt) (ih (s := s.nextName.2) (h.succ hlt) rest)

theorem freshName_eq (s : Session) (taken : List String) : s.freshName taken =
    (Package.generatedName (freshNumber taken s.generated),
      { s with generated := freshNumber taken s.generated + 1 }) := rfl

/-- Drawing names until one is free yields the fresh name of the session. -/
theorem draws_iff : s.Draws taken n drawn ↔
    n = freshNumber taken s.generated - s.generated + 1 ∧ drawn = s.freshName taken := by
  have fresh := isFirstFree_freshNumber taken s.generated
  constructor
  · intro h
    obtain ⟨number, hnumber, hcount, rfl⟩ := h.exists_isFirstFree
    obtain rfl := hnumber.unique fresh
    have := hnumber.1
    exact ⟨by omega, rfl⟩
  · rintro ⟨rfl, rfl⟩
    exact draws_of_isFirstFree fresh

/-- There is at most one draw more than there are names taken. -/
theorem Draws.le_card (h : s.Draws taken n drawn) : n ≤ taken.toFinset.card + 1 := by
  obtain ⟨rfl, -⟩ := draws_iff.1 h
  exact Nat.succ_le_succ (isFirstFree_freshNumber taken s.generated).sub_le_card

end Session

/-! ### One name after the other -/

/-- A name that a parse has generated: its number, and the names that are declared before it in that parse. -/
structure Draw where
  number : Nat
  declared : List String
  deriving DecidableEq, Repr

def Draw.name (d : Draw) : String :=
  Package.generatedName d.number

/-- A counter goes from one number to another by drawing names, each of which is free among the names that are declared
before it. -/
inductive DrawnInTurn : Nat → List Draw → Nat → Prop
  | nil (start : Nat) : DrawnInTurn start [] start
  | cons {start last : Nat} {d : Draw} {ds : List Draw} (first : IsFirstFree d.declared start d.number)
      (rest : DrawnInTurn (d.number + 1) ds last) : DrawnInTurn start (d :: ds) last

namespace DrawnInTurn

variable {start middle last : Nat} {ds ds' : List Draw}

theorem append (h : DrawnInTurn start ds middle) (h' : DrawnInTurn middle ds' last) :
    DrawnInTurn start (ds ++ ds') last := by
  induction h with
  | nil => exact h'
  | cons first _ ih => exact .cons first (ih h')

theorem le (h : DrawnInTurn start ds last) : start ≤ last := by
  induction h with
  | nil => exact Nat.le_refl _
  | cons first _ ih => exact Nat.le_trans (Nat.le_succ_of_le first.1) ih

theorem bounds (h : DrawnInTurn start ds last) {d : Draw} (hd : d ∈ ds) : start ≤ d.number ∧ d.number < last := by
  induction h with
  | nil => simp at hd
  | @cons start last d' ds first rest ih =>
    have hle := first.1
    rcases List.mem_cons.1 hd with rfl | hd
    · exact ⟨hle, rest.le⟩
    · obtain ⟨hlower, hupper⟩ := ih hd
      exact ⟨by omega, hupper⟩

/-- No name is declared before it is generated. -/
theorem name_notMem (h : DrawnInTurn start ds last) {d : Draw} (hd : d ∈ ds) : d.name ∉ d.declared := by
  induction h with
  | nil => simp at hd
  | cons first _ ih =>
    rcases List.mem_cons.1 hd with rfl | hd
    · exact first.2.1
    · exact ih hd

/-- The numbers of the names grow. -/
theorem pairwise (h : DrawnInTurn start ds last) : (ds.map Draw.number).Pairwise (· < ·) := by
  induction h with
  | nil => exact .nil
  | @cons start last d ds first rest ih =>
    rw [List.map_cons, List.pairwise_cons]
    refine ⟨fun number hnumber => ?_, ih⟩
    obtain ⟨d', hd', rfl⟩ := List.mem_map.1 hnumber
    exact (rest.bounds hd').1

end DrawnInTurn

end BundleConf
