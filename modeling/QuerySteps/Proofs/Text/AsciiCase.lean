import QuerySteps.Text.Lowercase

/-!
# The case of ASCII letters

The ASCII lower case changes the 26 capitals only, so a fact about it is checked for these and is
trivial elsewhere. The full lower case sees no difference: letters count as cased in either case,
and the characters with rules of their own are beyond ASCII (`lowercase_toLower`).
-/

namespace QuerySteps.Text

def capital (place : Nat) : Char :=
  Char.ofNat (65 + place)

theorem toLower_eq_self_or (c : Char) : c.toLower = c ∨ ∃ n < 26, c = capital n := by
  unfold Char.toLower
  split
  · rename_i h
    have hrange : 65 ≤ c.toNat ∧ c.toNat ≤ 90 := by
      simpa [UInt32.le_iff_toNat_le] using h
    refine .inr ⟨c.toNat - 65, by omega, ?_⟩
    rw [capital, Nat.add_sub_cancel' hrange.1, Char.ofNat_toNat]
  · exact .inl rfl

/-- What does not change for the capitals does not change with the ASCII lower case. -/
theorem eq_toLower {α : Type} {f : Char → α} (h : ∀ n < 26, f (capital n).toLower = f (capital n))
    (c : Char) : f c.toLower = f c := by
  obtain heq | ⟨n, hn, rfl⟩ := toLower_eq_self_or c
  · rw [heq]
  · exact h n hn

theorem isCased_toLower : ∀ c : Char, isCased c.toLower = isCased c :=
  eq_toLower (by decide)

theorem isCaseIgnorable_toLower : ∀ c : Char, isCaseIgnorable c.toLower = isCaseIgnorable c :=
  eq_toLower (by decide)

theorem lowerChar_toLower : ∀ c : Char, lowerChar c.toLower = lowerChar c :=
  eq_toLower (by decide)

theorem toLower_toLower : ∀ c : Char, c.toLower.toLower = c.toLower :=
  eq_toLower (by decide)

theorem meetsCased_map_toLower (s : List Char) :
    meetsCased (s.map Char.toLower) = meetsCased s := by
  unfold meetsCased
  induction s with
  | nil => rfl
  | cons c rest ih =>
    rw [List.map_cons, List.dropWhile_cons, List.dropWhile_cons, isCaseIgnorable_toLower]
    cases isCaseIgnorable c with
    | true => exact ih
    | false => exact isCased_toLower c

theorem toLower_ne {c other : Char} (hne : c ≠ other)
    (hcapitals : ∀ n < 26, (capital n).toLower ≠ other) : c.toLower ≠ other := by
  obtain heq | ⟨n, hn, rfl⟩ := toLower_eq_self_or c
  · rwa [heq]
  · exact hcapitals n hn

theorem toLower_ne_newline {c : Char} (h : c ≠ '\n') : c.toLower ≠ '\n' :=
  toLower_ne h (by decide)

theorem lowerSigma_map_toLower (before after : List Char) :
    lowerSigma (before.map Char.toLower) (after.map Char.toLower) = lowerSigma before after := by
  rw [lowerSigma, meetsCased_map_toLower, meetsCased_map_toLower, lowerSigma]

/-- Neither of the two characters that are mapped by a rule of their own is made or lost. -/
theorem lowerFrom_map_toLower (before after : List Char) :
    lowerFrom (before.map Char.toLower) (after.map Char.toLower) = lowerFrom before after := by
  fun_induction lowerFrom before after with
  | case1 => rfl
  | case2 before rest ih => exact congrArg ('i' :: '\u0307' :: ·) ih
  | case3 before rest ih =>
    rw [← lowerSigma_map_toLower, ← ih]
    rfl
  | case4 before c rest hdotted hsigma ih =>
    rw [List.map_cons, lowerFrom.eq_4, lowerChar_toLower, ← List.map_cons, ih]
    · exact toLower_ne hdotted (by decide)
    · exact toLower_ne hsigma (by decide)

theorem toList_toLower (words : String) : words.toLower.toList = words.toList.map Char.toLower :=
  String.toList_map

/-- The ASCII lower case of a text has the same full lower case. -/
theorem lowercase_toLower (words : String) : lowercase words.toLower = lowercase words := by
  rw [lowercase, toList_toLower]
  exact congrArg String.ofList (lowerFrom_map_toLower [] words.toList)

theorem toLower_eq_toLower_iff {words other : String} : words.toLower = other.toLower ↔
    words.toList.map Char.toLower = other.toList.map Char.toLower := by
  rw [← String.toList_inj, toList_toLower, toList_toLower]

theorem toLower_idem (words : String) : words.toLower.toLower = words.toLower := by
  rw [toLower_eq_toLower_iff, toList_toLower, List.map_map]
  exact List.map_congr_left fun c _ => toLower_toLower c

end QuerySteps.Text
