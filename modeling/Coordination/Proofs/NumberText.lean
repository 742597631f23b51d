import Mathlib.Data.List.Induction
import Mathlib.Data.List.TakeWhile
import Mathlib.Data.Nat.Digits.Defs
import Coordination.Settings.Load

/-!
Numbers written in environment values. A value counts as the number `n` between two bounds
exactly when, the blanks around it aside, it is an optional plus sign followed by one or more
ASCII digits that write `n` in decimal, `n` fits in 64 bits and lies between the bounds
(`boundedOfText_eq_some_iff`). So a minus sign, a blank between digits, an empty value and a
number past 64 bits all count for nothing.

Trimming is taken apart first: every text is its trimmed part between two runs of blanks
(`exists_blank_around`), and a part without blanks between two such runs is what trimming
leaves (`trimBlankList_append`).
-/

namespace Coordination

namespace Text

theorem exists_blank_around (cs : List Char) :
    ∃ lead trail, cs = lead ++ trimBlankList cs ++ trail ∧
      (∀ c ∈ lead, isBlank c = true) ∧ (∀ c ∈ trail, isBlank c = true) := by
  set rest := cs.dropWhile isBlank
  refine ⟨cs.takeWhile isBlank, (rest.reverse.takeWhile isBlank).reverse, ?_,
    fun c hc => List.mem_takeWhile_imp hc,
    fun c hc => List.mem_takeWhile_imp (List.mem_reverse.mp hc)⟩
  -- the blanks cut from the end of `rest` are the first ones of its reverse
  have hrest : rest = trimBlankList cs ++ (rest.reverse.takeWhile isBlank).reverse := by
    have hsplit := congrArg List.reverse
      (List.takeWhile_append_dropWhile (p := isBlank) (l := rest.reverse))
    rw [List.reverse_append, List.reverse_reverse] at hsplit
    exact hsplit.symm
  rw [List.append_assoc, ← hrest]
  exact (List.takeWhile_append_dropWhile).symm

theorem trimBlankList_append {lead mid trail : List Char} (hlead : ∀ c ∈ lead, isBlank c = true)
    (htrail : ∀ c ∈ trail, isBlank c = true) (hmid : ∀ c ∈ mid, isBlank c = false) :
    trimBlankList (lead ++ mid ++ trail) = mid := by
  cases mid with
  | nil =>
    -- only blanks: nothing is left
    rw [List.append_nil, trimBlankList, List.dropWhile_append_of_pos hlead,
      List.dropWhile_eq_nil_iff.mpr htrail]
    rfl
  | cons c rest =>
    have hfront : (lead ++ c :: rest ++ trail).dropWhile isBlank = c :: rest ++ trail := by
      rw [List.append_assoc, List.dropWhile_append_of_pos hlead]
      simp [hmid c List.mem_cons_self]
    -- the last character of the part is not a blank either
    have hback : (c :: rest ++ trail).reverse.dropWhile isBlank = (c :: rest).reverse := by
      rw [List.reverse_append, List.dropWhile_append_of_pos (by simpa using htrail)]
      cases h : (c :: rest).reverse with
      | nil => simp at h
      | cons d ds =>
        have hd : d ∈ c :: rest := List.mem_reverse.mp (h ▸ List.mem_cons_self)
        simp [hmid d hd]
    rw [trimBlankList, hfront, hback, List.reverse_reverse]

end Text

namespace Settings

/-- The number a text of decimal digits writes, most significant digit first. -/
def decimalValue (ds : List Char) : Nat :=
  Nat.ofDigits 10 (ds.reverse.map fun c => c.toNat - '0'.toNat)

/-- A text writes the unsigned number `n`: an optional plus sign, then one or more ASCII digits
whose decimal value is `n`. -/
def WritesUnsigned (t : List Char) (n : Nat) : Prop :=
  ∃ sign ds, t = sign ++ ds ∧ (sign = [] ∨ sign = ['+']) ∧ ds ≠ [] ∧
    (∀ c ∈ ds, c.isDigit = true) ∧ decimalValue ds = n

/-- Reading digits from the left, ten times the number so far plus the next digit, gives their
decimal value. -/
theorem foldl_digits_eq_decimalValue (cs : List Char) :
    cs.foldl (fun n c => 10 * n + (c.toNat - '0'.toNat)) 0 = decimalValue cs := by
  induction cs using List.reverseRecOn with
  | nil => rfl
  | append_singleton cs c ih =>
    rw [List.foldl_append, ih]
    simp [decimalValue, Nat.ofDigits_cons]
    omega

theorem toNat_of_isDigit {c : Char} (h : c.isDigit = true) : 48 ≤ c.toNat ∧ c.toNat ≤ 57 := by
  simp only [Char.isDigit, Bool.and_eq_true, decide_eq_true_eq, UInt32.le_iff_toNat_le] at h
  exact h

theorem WritesUnsigned.not_blank {t : List Char} {n : Nat} (h : WritesUnsigned t n) :
    ∀ c ∈ t, Text.isBlank c = false := by
  obtain ⟨sign, ds, rfl, hsign, -, hdigits, -⟩ := h
  intro c hc
  rcases List.mem_append.mp hc with hc | hc
  · rcases hsign with rfl | rfl
    · simp at hc
    · simp only [List.mem_singleton] at hc
      subst hc
      decide
  · have hd := toNat_of_isDigit (hdigits c hc)
    simp only [Text.isBlank, Bool.or_eq_false_iff, Bool.and_eq_false_iff, decide_eq_false_iff_not,
      beq_eq_false_iff_ne]
    omega

theorem unsignedOfDigits_eq_some_iff {cs : List Char} {n : Nat} :
    unsignedOfDigits cs = some n ↔
      cs ≠ [] ∧ (∀ c ∈ cs, c.isDigit = true) ∧ decimalValue cs = n ∧ n ≤ 2 ^ 64 - 1 := by
  have hmax : Json.maxUnsigned = 2 ^ 64 - 1 := rfl
  unfold unsignedOfDigits
  simp only [foldl_digits_eq_decimalValue, hmax]
  split
  · -- no digits, or a character that is not one
    rename_i hbad
    simp only [Bool.or_eq_true, List.isEmpty_iff, Bool.not_eq_true', List.all_eq_false] at hbad
    simp only [reduceCtorEq, false_iff]
    rintro ⟨hne, hall, -⟩
    rcases hbad with hnil | ⟨c, hc, hd⟩
    · exact hne hnil
    · exact hd (hall c hc)
  · rename_i hgood
    simp only [Bool.or_eq_true, List.isEmpty_iff, Bool.not_eq_true', List.all_eq_false,
      not_or, not_exists, not_and, not_not] at hgood
    obtain ⟨hne, hall⟩ := hgood
    split
    · rename_i hle
      simp only [Option.some.injEq]
      constructor
      · rintro rfl
        exact ⟨hne, hall, rfl, hle⟩
      · rintro ⟨-, -, h, -⟩
        exact h
    · rename_i hgt
      simp only [reduceCtorEq, false_iff]
      rintro ⟨-, -, rfl, hle⟩
      exact hgt hle

theorem unsignedOfText_eq_some_iff {s : String} {n : Nat} :
    unsignedOfText s = some n ↔ WritesUnsigned s.toList n ∧ n ≤ 2 ^ 64 - 1 := by
  unfold unsignedOfText
  split
  · -- a leading plus sign is the sign: as a digit it would not be one
    rename_i rest hs
    rw [unsignedOfDigits_eq_some_iff, hs]
    constructor
    · rintro ⟨hne, hall, hval, hmax⟩
      exact ⟨⟨['+'], rest, rfl, .inr rfl, hne, hall, hval⟩, hmax⟩
    · rintro ⟨⟨sign, ds, heq, hsign | hsign, hne, hall, hval⟩, hmax⟩ <;> subst hsign
      · have hplus : '+' ∈ ds := by
          rw [← List.nil_append ds, ← heq]
          exact List.mem_cons_self
        exact absurd (hall '+' hplus) (by decide)
      · obtain rfl : rest = ds := by simpa using heq
        exact ⟨hne, hall, hval, hmax⟩
  · -- no plus sign, so the whole text is the digits
    rename_i hs
    rw [unsignedOfDigits_eq_some_iff]
    constructor
    · rintro ⟨hne, hall, hval, hmax⟩
      exact ⟨⟨[], s.toList, rfl, .inl rfl, hne, hall, hval⟩, hmax⟩
    · rintro ⟨⟨sign, ds, heq, hsign | hsign, hne, hall, hval⟩, hmax⟩ <;> subst hsign
      · rw [heq]
        exact ⟨hne, hall, hval, hmax⟩
      · exact absurd heq (hs ds)

theorem boundedOfText_eq_some {v : String} {lo hi n : Nat} :
    boundedOfText v lo hi = some n ↔
      unsignedOfText (Text.trimBlank v) = some n ∧ lo ≤ n ∧ n ≤ hi := by
  unfold boundedOfText
  cases unsignedOfText (Text.trimBlank v) with
  | none => simp
  | some m =>
    dsimp only
    split_ifs with hb
    · simp only [Option.some.injEq]
      exact ⟨fun h => ⟨h, h ▸ hb⟩, fun h => h.1⟩
    · simp only [Option.some.injEq, false_iff]
      rintro ⟨rfl, hb'⟩
      exact hb hb'

/-- An environment value counts as the number `n` exactly when, the blanks around it aside, it
is an optional plus sign and one or more ASCII digits writing `n` in decimal, `n` fits in 64
bits, and `n` lies between the bounds. -/
theorem boundedOfText_eq_some_iff {v : String} {lo hi n : Nat} :
    boundedOfText v lo hi = some n ↔
      (∃ lead t trail, v.toList = lead ++ t ++ trail ∧ (∀ c ∈ lead, Text.isBlank c = true) ∧
        (∀ c ∈ trail, Text.isBlank c = true) ∧ WritesUnsigned t n) ∧
      n ≤ 2 ^ 64 - 1 ∧ lo ≤ n ∧ n ≤ hi := by
  have htrim : (Text.trimBlank v).toList = Text.trimBlankList v.toList := String.toList_ofList
  rw [boundedOfText_eq_some, unsignedOfText_eq_some_iff, htrim]
  constructor
  · rintro ⟨⟨hw, hmax⟩, hlo, hhi⟩
    obtain ⟨lead, trail, hv, hlead, htrail⟩ := Text.exists_blank_around v.toList
    exact ⟨⟨lead, _, trail, hv, hlead, htrail, hw⟩, hmax, hlo, hhi⟩
  · -- the part between the blanks holds none, so it is what trimming leaves
    rintro ⟨⟨lead, t, trail, hv, hlead, htrail, hw⟩, hmax, hlo, hhi⟩
    rw [hv, Text.trimBlankList_append hlead htrail hw.not_blank]
    exact ⟨⟨hw, hmax⟩, hlo, hhi⟩

example : boundedOfText " +0042\n" 1 100 = some 42 ∧ boundedOfText "-5" 0 10 = none ∧
    boundedOfText "1 0" 0 100 = none := by
  decide

end Settings

end Coordination
