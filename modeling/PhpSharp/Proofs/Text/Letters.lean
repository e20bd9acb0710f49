/-
  Letter case.

  * within ASCII: capitals have their small letters 32 code points behind (`toLower_cases`), and
    texts that differ in them alone are the same letters (`sameLetters_append`);
  * what letter case leaves alone: the blanks and the point. They are their own upper and lower
    case, and of nothing else.
-/
import PhpSharp.Text.Blank
import PhpSharp.Text.Letters

namespace PhpSharp.Text

/-! ## ASCII -/

/-- What holds of all characters of ASCII can be checked one by one. -/
theorem forall_ascii {P : Char → Prop} {c : Char} (hall : ∀ n : Fin 128, P (Char.ofNat n))
    (hc : c.toNat < 128) : P c := by
  have h := hall ⟨c.toNat, hc⟩
  rwa [Char.ofNat_toNat] at h

/-! ## Small letters of ASCII -/

/-- A character is its own small letter, or a capital. -/
theorem toLower_cases (c : Char) :
    c.toLower = c ∧ ¬(65 ≤ c.toNat ∧ c.toNat ≤ 90) ∨
      (65 ≤ c.toNat ∧ c.toNat ≤ 90) ∧ c.toLower.toNat = c.toNat + 32 := by
  unfold Char.toLower
  split
  · rename_i hc
    have hbounds : 65 ≤ c.toNat ∧ c.toNat ≤ 90 := hc
    have hval : (c.val + 32).toNat = (c.toNat + 32) % 4294967296 := UInt32.toNat_add ..
    refine .inr ⟨hbounds, ?_⟩
    show (c.val + 32).toNat = _
    omega
  · rename_i hc
    exact .inl ⟨rfl, hc⟩

theorem toLower_toLower (c : Char) : c.toLower.toLower = c.toLower := by
  rcases toLower_cases c with ⟨hsame, -⟩ | ⟨hcapital, hnat⟩
  · exact congrArg Char.toLower hsame
  · rcases toLower_cases c.toLower with ⟨hsame, -⟩ | ⟨hcapital', -⟩
    · exact hsame
    · omega

/-- What is no letter is the small letter of itself alone. -/
theorem toLower_eq_iff {c d : Char} (hcapital : ¬(65 ≤ d.toNat ∧ d.toNat ≤ 90))
    (hsmall : ¬(97 ≤ d.toNat ∧ d.toNat ≤ 122)) : c.toLower = d ↔ c = d := by
  constructor
  · intro h
    rcases toLower_cases c with ⟨hsame, -⟩ | ⟨hc, hnat⟩
    · rw [← hsame, h]
    · rw [h] at hnat
      omega
  · rintro rfl
    rcases toLower_cases c with ⟨hsame, -⟩ | ⟨hc, -⟩
    · exact hsame
    · exact absurd hc hcapital

theorem toLower_eq_backslash {c : Char} : c.toLower = '\\' ↔ c = '\\' :=
  toLower_eq_iff (by decide) (by decide)

theorem sameLetters_refl (s : String) : sameLetters s s = true := beq_self_eq_true _

theorem sameLetters_append {s s' t t' : String} (h : sameLetters s t = true)
    (h' : sameLetters s' t' = true) : sameLetters (s ++ s') (t ++ t') = true := by
  rw [sameLetters, beq_iff_eq] at h h' ⊢
  rw [String.toList_append, String.toList_append, List.map_append, List.map_append, h, h']

/-! ## Blanks and the point -/

/-- A blank or a point. -/
def isUncased (c : Char) : Bool := isBlank c || c == '.'

theorem isUncased_of_isBlank {c : Char} (h : isBlank c = true) : isUncased c = true := by
  rw [isUncased, h, Bool.true_or]

/-- The code points of the blanks and of the point. -/
def uncasedPoints : List Nat :=
  [9, 10, 11, 12, 13, 0x20, 0x2E, 0x85, 0xA0, 0x1680, 0x2000, 0x2001, 0x2002, 0x2003, 0x2004,
    0x2005, 0x2006, 0x2007, 0x2008, 0x2009, 0x200A, 0x2028, 0x2029, 0x202F, 0x205F, 0x3000]

theorem mem_uncasedPoints {c : Char} (h : isUncased c = true) : c.toNat ∈ uncasedPoints := by
  simp only [isUncased, isBlank, Bool.or_eq_true, Bool.and_eq_true, decide_eq_true_eq,
    beq_iff_eq] at h
  simp only [uncasedPoints, List.mem_cons, List.not_mem_nil, or_false]
  rcases h with h | rfl
  · omega
  · decide

/-- A blank or a point has the code point that it is made of. -/
theorem toNat_ofNat_of_isUncased {n : Nat} (h : isUncased (Char.ofNat n) = true) :
    (Char.ofNat n).toNat = n := by
  by_cases hn : n.isValidChar
  · rw [Char.ofNat, dif_pos hn]
    rfl
  · rw [Char.ofNat, dif_neg hn] at h
    exact absurd h (by decide)

/-! ## Tables -/

section
variable {expansions : List (Nat × List Nat)} {shifts : List Shift} {c d : Char}

/-- No image in the tables is a blank or a point. -/
def isClear (expansions : List (Nat × List Nat)) (shifts : List Shift) : Bool :=
  expansions.all (fun (_, image) => image.all fun n => !isUncased (Char.ofNat n)) &&
    shifts.all fun (first, last, _, target) =>
      uncasedPoints.all fun n => n < target || target + (last - first) < n

/-- The image of a range is as long as the range. -/
theorem image?_bounds {first last step target n m : Nat}
    (h : Shift.image? (first, last, step, target) n = some m) :
    target ≤ m ∧ m ≤ target + (last - first) := by
  rw [Shift.image?] at h
  split at h
  · rename_i hrange
    simp only [Range.contains, Bool.and_eq_true, decide_eq_true_eq] at hrange
    cases h
    omega
  · cases h

theorem eq_of_mem_mapCase (hclear : isClear expansions shifts = true)
    (hd : d ∈ mapCase expansions shifts c) (hu : isUncased d = true) : d = c := by
  obtain ⟨hexpansions, hshifts⟩ := Bool.and_eq_true_iff.1 hclear
  rw [mapCase] at hd
  split at hd
  · rename_i image himage
    obtain ⟨n, hn, rfl⟩ := List.mem_map.1 hd
    obtain ⟨before, after, hentries, -⟩ := List.lookup_eq_some_iff.1 himage
    have hentry := List.all_eq_true.1 hexpansions (c.toNat, image) (by simp [hentries])
    have hnone := List.all_eq_true.1 hentry n hn
    simp [hu] at hnone
  · rw [List.mem_singleton] at hd
    cases himage : shifts.findSome? (Shift.image? · c.toNat) with
    | none =>
      rw [himage] at hd
      exact hd
    | some m =>
      rw [himage] at hd
      obtain rfl : d = Char.ofNat m := hd
      obtain ⟨⟨first, last, step, target⟩, hmem, hm⟩ := List.exists_of_findSome?_eq_some himage
      obtain ⟨hfirst, hlast⟩ := image?_bounds hm
      have hpoint := mem_uncasedPoints hu
      rw [toNat_ofNat_of_isUncased hu] at hpoint
      have houtside := List.all_eq_true.1 (List.all_eq_true.1 hshifts _ hmem) m hpoint
      simp only [Bool.or_eq_true, decide_eq_true_eq] at houtside
      omega

theorem mapCase_ne_nil (hfull : expansions.all (fun (_, image) => image ≠ []) = true) :
    mapCase expansions shifts c ≠ [] := by
  rw [mapCase]
  split
  · rename_i image himage
    obtain ⟨before, after, hentries, -⟩ := List.lookup_eq_some_iff.1 himage
    have hentry := List.all_eq_true.1 hfull (c.toNat, image) (by simp [hentries])
    simpa using hentry
  · exact List.cons_ne_nil _ _

end

/-! ## Upper and lower case -/

section
variable {c d : Char}

theorem eq_of_mem_upper (hd : d ∈ upper c) (hu : isUncased d = true) : d = c := by
  rw [upper] at hd
  split at hd
  · rename_i hascii
    rw [List.mem_singleton] at hd
    rw [hd] at hu ⊢
    exact forall_ascii (P := fun c => isUncased c.toUpper = true → c.toUpper = c)
      (by decide +kernel) hascii hu
  · exact eq_of_mem_mapCase (by decide +kernel) hd hu

theorem eq_of_mem_lower (hd : d ∈ lower c) (hu : isUncased d = true) : d = c := by
  rw [lower] at hd
  split at hd
  · rename_i hascii
    rw [List.mem_singleton] at hd
    rw [hd] at hu ⊢
    exact forall_ascii (P := fun c => isUncased c.toLower = true → c.toLower = c)
      (by decide +kernel) hascii hu
  · exact eq_of_mem_mapCase (by decide +kernel) hd hu

theorem upper_of_isUncased (h : isUncased c = true) : upper c = [c] := by
  have hall : ∀ n ∈ uncasedPoints, upper (Char.ofNat n) = [Char.ofNat n] := by decide +kernel
  simpa only [Char.ofNat_toNat] using hall _ (mem_uncasedPoints h)

theorem upper_ne_nil (c : Char) : upper c ≠ [] := by
  rw [upper]
  split
  · exact List.cons_ne_nil _ _
  · exact mapCase_ne_nil (by decide +kernel)

end

end PhpSharp.Text
