/-
  Texts that are cut at a character.

  * `not_mem_of_mem_splitOn`: the pieces between the characters hold none, nor do lines feeds
    (`feed_notMem_of_mem_lines`);
  * `takeWhile_ne_eq_iff`: the part of a text before the first such character;
  * `dropAround_eq_iff`: what is left of a text without the character at both ends.
-/
import Mathlib.Data.List.DropRight
import Mathlib.Data.List.TakeWhile
import PhpSharp.Text.Blank

namespace PhpSharp.Text

variable {c : Char} {cs part : List Char}

/-! ## Pieces -/

theorem not_mem_of_mem_splitOn (h : part ∈ cs.splitOn c) : c ∉ part := by
  induction cs generalizing part with
  | nil => simp_all
  | cons d cs ih =>
    rw [List.splitOn_cons_eq_if_modifyHead] at h
    split at h
    · rcases List.mem_cons.1 h with rfl | h
      · exact List.not_mem_nil
      · exact ih h
    · rename_i hd
      obtain ⟨first, rest, he⟩ := List.exists_cons_of_ne_nil (List.splitOn_ne_nil c cs)
      rw [he, List.modifyHead_cons] at h
      rcases List.mem_cons.1 h with rfl | h
      · intro hm
        rcases List.mem_cons.1 hm with rfl | hm
        · exact hd (by simp)
        · exact ih (he ▸ List.mem_cons_self ..) hm
      · exact ih (he ▸ List.mem_cons_of_mem _ h)

theorem feed_notMem_of_mem_lines (h : part ∈ lines cs) : '\n' ∉ part := by
  have hreturn : ∀ piece, dropReturn piece <+: piece := fun piece => by
    rw [dropReturn]
    split
    · exact List.dropLast_prefix _
    · exact List.prefix_rfl
  rcases List.mem_append.1 h with h | h
  · obtain ⟨piece, hpiece, rfl⟩ := List.mem_map.1 h
    exact fun hm => not_mem_of_mem_splitOn ((List.dropLast_prefix _).subset hpiece)
      ((hreturn piece).subset hm)
  · exact not_mem_of_mem_splitOn ((List.drop_suffix _ _).subset (List.mem_filter.1 h).1)

/-! ## At the end -/

theorem dropEndWhile_concat (p : Char → Bool) (cs : List Char) (c : Char) :
    dropEndWhile p (cs ++ [c]) = if p c then dropEndWhile p cs else cs ++ [c] :=
  List.rdropWhile_concat ..

theorem dropEndWhile_isPrefix (p : Char → Bool) (cs : List Char) : dropEndWhile p cs <+: cs :=
  List.rdropWhile_prefix ..

theorem dropEndWhile_eq_nil_iff {p : Char → Bool} :
    dropEndWhile p cs = [] ↔ ∀ c ∈ cs, p c = true :=
  List.rdropWhile_eq_nil_iff

theorem of_mem_getLast?_dropEndWhile {p : Char → Bool}
    (h : c ∈ (dropEndWhile p cs).getLast?) : p c = false := by
  have hne : cs.rdropWhile p ≠ [] := fun hnil => by
    rw [dropEndWhile, ← List.rdropWhile, hnil] at h
    cases h
  have hlast : (cs.rdropWhile p).getLast hne = c :=
    Option.some.inj ((List.getLast?_eq_some_getLast hne).symm.trans h)
  exact Bool.eq_false_iff.2 (hlast ▸ List.rdropWhile_last_not p cs hne)

/-! ## Up to a character -/

/-- The part of a text that stands before the first `c`, or all of it. -/
def IsBefore (c : Char) (part cs : List Char) : Prop :=
  c ∉ part ∧ (cs = part ∨ ∃ rest, cs = part ++ c :: rest)

theorem takeWhile_ne_eq_iff : cs.takeWhile (· ≠ c) = part ↔ IsBefore c part cs := by
  constructor
  · rintro rfl
    refine ⟨fun hc => by simpa using List.mem_takeWhile_imp hc, ?_⟩
    have hsplit := List.takeWhile_append_dropWhile (p := (· ≠ c)) (l := cs)
    have hhead := List.head?_dropWhile_not (· ≠ c) cs
    cases hrest : cs.dropWhile (· ≠ c) with
    | nil =>
      rw [hrest, List.append_nil] at hsplit
      exact .inl hsplit.symm
    | cons d rest =>
      rw [hrest] at hsplit hhead
      obtain rfl : d = c := by simpa using hhead
      exact .inr ⟨rest, hsplit.symm⟩
  · rintro ⟨hc, hcs⟩
    have hpart : ∀ d ∈ part, decide (d ≠ c) = true := fun d hd => by
      simpa using fun he : d = c => hc (he ▸ hd)
    rcases hcs with rfl | ⟨rest, rfl⟩
    · exact List.takeWhile_eq_self_iff.2 hpart
    · rw [List.takeWhile_append_of_pos hpart, List.takeWhile_cons_of_neg (by simp),
        List.append_nil]

/-! ## Around a text -/

/-- The part of a text that is left without the `c` around it. -/
structure IsInside (c : Char) (part cs : List Char) : Prop where
  eq_around : ∃ m n, cs = List.replicate m c ++ part ++ List.replicate n c
  head_ne : part.head? ≠ some c
  last_ne : part.getLast? ≠ some c

/-- The text without the `c` around it. -/
def dropAround (c : Char) (cs : List Char) : List Char :=
  dropEndWhile (· = c) (cs.dropWhile (· = c))

theorem isInside_dropAround (c : Char) (cs : List Char) : IsInside c (dropAround c cs) cs := by
  have hcut : ∀ ds : List Char, (∀ d ∈ ds, decide (d = c) = true) →
      ds = List.replicate ds.length c := fun ds h =>
    List.eq_replicate_of_mem fun d hd => of_decide_eq_true (h d hd)
  have hhead := List.head?_dropWhile_not (· = c) cs
  have hfront := List.takeWhile_append_dropWhile (p := (· = c)) (l := cs)
  have hfirst := hcut (cs.takeWhile (· = c)) fun _ => List.mem_takeWhile_imp
  have hpart : dropAround c cs = (cs.dropWhile (· = c)).rdropWhile (· = c) := rfl
  generalize cs.dropWhile (· = c) = rest at hpart hhead hfront
  have hback := List.rdropWhile_append_rtakeWhile (p := (· = c)) (l := rest)
  have hlast := hcut (rest.rtakeWhile (· = c)) fun _ => List.mem_rtakeWhile_imp
  rw [hpart]
  refine ⟨⟨(cs.takeWhile (· = c)).length, (rest.rtakeWhile (· = c)).length, ?_⟩,
    fun hstart => ?_, fun hend => ?_⟩
  · rw [← hfirst, ← hlast, List.append_assoc, hback, hfront]
  · rw [← hback, List.head?_append, hstart] at hhead
    simp at hhead
  · have hmem : c ∈ (dropEndWhile (· = c) rest).getLast? := hend
    have hstop := of_mem_getLast?_dropEndWhile hmem
    simp at hstop

theorem dropAround_eq_iff : dropAround c cs = part ↔ IsInside c part cs := by
  constructor
  · rintro rfl
    exact isInside_dropAround c cs
  · rintro ⟨⟨m, n, rfl⟩, hhead, hlast⟩
    have hall : ∀ k, ∀ d ∈ List.replicate k c, decide (d = c) = true := fun k d hd =>
      decide_eq_true (List.eq_of_mem_replicate hd)
    have hstop : ∀ ds : List Char, ds.head? ≠ some c → ds.dropWhile (· = c) = ds := by
      intro ds hds
      cases ds with
      | nil => rfl
      | cons d ds => exact List.dropWhile_cons_of_neg (by simpa using hds)
    rw [dropAround, List.append_assoc, List.dropWhile_append_of_pos (hall m)]
    cases part with
    | nil =>
      have hnone : (List.replicate n c).dropWhile (· = c) = [] :=
        List.dropWhile_eq_nil_iff.2 (hall n)
      rw [List.nil_append, hnone]
      rfl
    | cons d ds =>
      have hcons : (d :: ds ++ List.replicate n c).dropWhile (· = c) =
          d :: ds ++ List.replicate n c := hstop _ hhead
      rw [hcons, dropEndWhile, List.reverse_append, List.reverse_replicate,
        List.dropWhile_append_of_pos (hall n), hstop _ (by rwa [List.head?_reverse]),
        List.reverse_reverse]

end PhpSharp.Text
