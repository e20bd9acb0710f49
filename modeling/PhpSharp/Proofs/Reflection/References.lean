/-
  The classes that the facts of an object may refer to: their names stand in its source, so that
  they are names of files and never lead to another directory.

  * `IsSimple name`: the name is made of the characters of names without backslashes;
  * `isSimple_neededClasses`: so is every name of such a class. None has a slash
    (`noSlash_neededClasses`).
-/
import PhpSharp.Proofs.Php.Provenance
import PhpSharp.Reflection.Reflect

namespace PhpSharp.Reflection

open Php (Token MethodDecl ClassDecl)

variable {ts arguments : List Token} {name : String}

/-! ## Arguments -/

theorem argumentsFrom_subset {depth : Nat} {current argument : List Token}
    (h : argument ∈ argumentsFrom depth current ts) : ∀ u ∈ argument, u ∈ current ∨ u ∈ ts := by
  induction ts generalizing depth current with
  | nil => cases h
  | cons t ts ih =>
    -- what was read of an argument is the token and what was read before it
    have hpush : ∀ {depth : Nat}, argument ∈ argumentsFrom depth (t :: current) ts →
        ∀ u ∈ argument, u ∈ current ∨ u ∈ t :: ts := by
      intro depth h u hu
      rcases ih h u hu with hu | hu
      · rcases List.mem_cons.1 hu with rfl | hu
        · exact .inr (List.mem_cons_self ..)
        · exact .inl hu
      · exact .inr (List.mem_cons_of_mem _ hu)
    have hdone : argument = current.reverse → ∀ u ∈ argument, u ∈ current ∨ u ∈ t :: ts := by
      rintro rfl u hu
      exact .inl (List.mem_reverse.1 hu)
    rw [argumentsFrom] at h
    split at h
    · exact hpush h
    split at h
    · split at h
      · split at h
        · cases h
        · exact hdone (List.mem_singleton.1 h)
      · exact hpush h
    split at h
    · rcases List.mem_cons.1 h with he | h
      · exact hdone he
      · intro u hu
        rcases ih h u hu with hn | hu
        · cases hn
        · exact .inr (List.mem_cons_of_mem _ hu)
    · exact hpush h

/-- The arguments of a call are tokens of the source. -/
theorem splitArguments_subset {argument : List Token} (h : argument ∈ splitArguments ts) :
    argument ⊆ ts := by
  intro u hu
  rcases argumentsFrom_subset h u hu with hn | hm
  · cases hn
  · exact hm

theorem connectionCall_subset {kind : Sdk.ConnectionKind} {arguments : List (List Token)}
    (h : connectionCall? ts = some (kind, arguments)) : ∀ a ∈ arguments, a ⊆ ts := by
  induction ts with
  | nil => cases h
  | cons t ts ih =>
    rw [connectionCall?, Option.or_eq_some_iff] at h
    rcases h with h | ⟨-, h⟩
    · unfold connectionCallAt? at h
      split at h
      · rename_i he
        split at h
        · obtain ⟨kind', -, hpair⟩ := Option.map_eq_some_iff.1 h
          cases hpair
          intro a ha
          rw [he]
          refine List.Subset.trans (splitArguments_subset ha) ?_
          exact fun u hu => by simp [hu]
        · cases h
      · cases h
    · exact fun a ha => List.subset_cons_of_subset _ (ih h a ha)

/-! ## Names -/

/-- **A name of letters and digits of ASCII, underscores and characters beyond ASCII.** -/
def IsSimple (name : String) : Prop :=
  ∀ c ∈ name.toList, c.isAlphanum = true ∨ c = '_' ∨ 128 ≤ c.toNat

/-- Nothing that leads to another place stands in such a name. -/
theorem IsSimple.not_mem (h : IsSimple name) {c : Char} (hc : c ∈ ['/', '.', '\\', '\x00']) :
    c ∉ name.toList := by
  intro hm
  have hnot : ∀ c ∈ ['/', '.', '\\', '\x00'],
      ¬(c.isAlphanum = true ∨ c = '_' ∨ 128 ≤ c.toNat) := by simp
  exact hnot c hc (h c hm)

/-- The last segment of a name is simple. -/
theorem isSimple_unqualified {text : String} (h : text.toList.all Php.isNameChar = true) :
    IsSimple (Php.unqualified text) := by
  intro c hm
  rw [Php.unqualified, String.toList_ofList, List.mem_reverse] at hm
  have hname := List.all_eq_true.1 h c (List.mem_reverse.1 ((List.takeWhile_prefix _).subset hm))
  have hplain : c ≠ '\\' := by simpa using List.all_eq_true.1 List.all_takeWhile c hm
  simp only [Php.isNameChar, Bool.or_eq_true, beq_iff_eq, decide_eq_true_eq] at hname
  rcases hname with ((halpha | hunderscore) | hbackslash) | hbeyond
  · exact .inl halpha
  · exact .inr (.inl hunderscore)
  · exact absurd hbackslash hplain
  · exact .inr (.inr hbeyond)

theorem isSimple_referencedClass {argument : List Token} (ha : ∀ t ∈ argument, t.Named)
    (h : referencedClass? argument = some name) : IsSimple name := by
  have hscope : ∀ {scope : Token}, scope ∈ argument →
      scope.name?.map Php.unqualified = some name → IsSimple name := by
    intro scope hm he
    obtain ⟨text, htext, rfl⟩ := Option.map_eq_some_iff.1 he
    exact isSimple_unqualified (ha scope hm text htext)
  unfold referencedClass? at h
  split at h
  · split at h
    · exact hscope (List.mem_cons_self ..) h
    · cases h
  · split at h
    · exact hscope (List.mem_cons_self ..) h
    · cases h
  · cases h

theorem isSimple_otherClasses {c : ClassDecl} (ht : ∀ t ∈ ts, t.Named)
    (hbodies : ∀ m ∈ c.methods, ∀ body ∈ m.body?, body ⊆ ts) :
    ∀ name ∈ otherClasses c, IsSimple name := by
  intro name hname
  rw [otherClasses, List.mem_eraseDups, List.mem_filterMap] at hname
  obtain ⟨m, hm, hother⟩ := hname
  obtain ⟨⟨kind, source⟩, hedge, hother⟩ := Option.bind_eq_some_iff.1 hother
  obtain ⟨body, hbody, hedge⟩ := Option.bind_eq_some_iff.1 hedge
  have hsub := hbodies m hm body (Option.mem_filter_iff.1 hbody).1
  unfold edgeSource? at hedge
  split at hedge
  · rename_i kind' arguments hcall
    split at hedge
    · cases hedge
      cases hother
    · cases hedge
      obtain ⟨href, -⟩ := Option.filter_eq_some_iff.1 hother
      obtain ⟨argument, hhead, href⟩ := Option.bind_eq_some_iff.1 href
      have harg := connectionCall_subset hcall argument (List.mem_of_mem_head? hhead)
      exact isSimple_referencedClass (fun t hmem => ht t (hsub (harg hmem))) href
  · obtain ⟨arguments, -, hpair⟩ := Option.map_eq_some_iff.1 hedge
    cases hpair
    cases hother

/-- **The classes that an object may refer to** have simple names, whatever its source is. -/
theorem isSimple_neededClasses (d : Sdk.Descriptor) (source : String) :
    ∀ name ∈ neededClasses d source, IsSimple name := by
  unfold neededClasses
  split
  · cases hc : findClass? (some source) d.shortName with
    | none => exact fun name hname => nomatch hname
    | some c =>
      rw [findClass?, Option.bind_some] at hc
      obtain ⟨file, hfile, hclass⟩ := Option.bind_eq_some_iff.1 hc
      have hok : Php.ClassFile.ofSource source = .ok file := by
        cases hs : Php.ClassFile.ofSource source with
        | error e =>
          rw [hs] at hfile
          cases hfile
        | ok file' =>
          rw [hs] at hfile
          cases hfile
          rfl
      obtain ⟨ts, hts, hbodies⟩ := Php.ofSource_bodies hok
      exact isSimple_otherClasses (Php.tokenize_named hts)
        (hbodies c (List.mem_of_find?_eq_some hclass))
  · exact fun name hname => nomatch hname
  · exact fun name hname => nomatch hname

theorem noSlash_neededClasses (d : Sdk.Descriptor) (source : String) :
    ∀ name ∈ neededClasses d source, '/' ∉ name.toList := fun name hname =>
  (isSimple_neededClasses d source name hname).not_mem (List.mem_cons_self ..)

end PhpSharp.Reflection
