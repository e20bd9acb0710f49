/-
  What the text of a path says of its names.

  * `names_entry`: an entry of a directory has one name more than the directory;
  * `join_assoc`: it does not matter in which order paths are put one behind the other;
  * `Ascent p ps`: `ps` are shorter and shorter paths to the directories on the way to `p`. Each
    loses one name, and points behind and before it (`ascent_parents`).
-/
import Mathlib.Data.List.Basic
import Mathlib.Data.List.TakeWhile
import PhpSharp.Files.Path
import PhpSharp.Proofs.Text.Cut

namespace PhpSharp.Path

/-! ## Segments -/

/-- The names among the segments of a text. -/
def wordsOf (segments : List (List Char)) : List String :=
  (segments.filter (· ≠ [])).map String.ofList

theorem names_eq (p : Path) : p.names = wordsOf (p.text.toList.splitOn '/') := rfl

@[simp] theorem wordsOf_append (xs ys : List (List Char)) :
    wordsOf (xs ++ ys) = wordsOf xs ++ wordsOf ys := by
  simp [wordsOf]

theorem wordsOf_singleton {word : List Char} (h : word ≠ []) :
    wordsOf [word] = [String.ofList word] := by
  simp [wordsOf, h]

/-- Names are not empty and have no slashes. -/
theorem of_mem_names {p : Path} {name : String} (h : name ∈ p.names) :
    name ≠ "" ∧ '/' ∉ name.toList := by
  obtain ⟨segment, hs, rfl⟩ := List.mem_map.1 h
  obtain ⟨hmem, hne⟩ := List.mem_filter.1 hs
  rw [String.toList_ofList]
  refine ⟨fun he => ?_, Text.not_mem_of_mem_splitOn hmem⟩
  have hnil : segment = [] := by
    have := congrArg String.toList he
    rwa [String.toList_ofList] at this
  simp [hnil] at hne

/-! ## Fronts -/

section
variable {p q : Path}

/-- What stands before a relative path that is put behind `p`. -/
def front (p : Path) : String := if p.needsSlash then p.text ++ "/" else p.text

theorem front_of_needs (h : p.needsSlash = true) : p.front = p.text ++ "/" := if_pos h

theorem front_of_not_needs (h : p.needsSlash = false) : p.front = p.text := by
  rw [front, h, if_neg Bool.false_ne_true]

/-- A front is nothing, or it ends with a slash. -/
theorem front_cases (p : Path) : p.text = "" ∧ p.front = "" ∨
    ∃ cs, p.front.toList = cs ++ ['/'] ∧
      (p.text.toList = cs ∧ cs ≠ [] ∨ p.text.toList = cs ++ ['/']) := by
  cases hl : p.text.toList.getLast? with
  | none =>
    have hempty : p.text = "" := String.toList_inj.1 (List.getLast?_eq_none_iff.1 hl)
    have hneeds : p.needsSlash = false := by rw [needsSlash, hl]
    exact .inl ⟨hempty, by rw [front_of_not_needs hneeds, hempty]⟩
  | some c =>
    obtain ⟨cs, hcs⟩ := List.getLast?_eq_some_iff.1 hl
    right
    by_cases hc : c = '/'
    · subst hc
      have hneeds : p.needsSlash = false := by simp only [needsSlash, hl]; rfl
      exact ⟨cs, by rw [front_of_not_needs hneeds, hcs], .inr hcs⟩
    · have hneeds : p.needsSlash = true := by simp [needsSlash, hl, hc]
      exact ⟨p.text.toList, by simp [front_of_needs hneeds], .inl ⟨rfl, by simp [hcs]⟩⟩

/-- A front needs no slash. -/
theorem needsSlash_front (p : Path) : (⟨p.front⟩ : Path).needsSlash = false := by
  rcases front_cases p with ⟨-, hfront⟩ | ⟨cs, hfront, -⟩
  · rw [hfront]
    rfl
  · simp [needsSlash, hfront]

theorem join_of_absolute (h : q.isAbsolute = true) : p.join q = q := by
  rw [join, if_pos h]

theorem join_of_relative (h : q.isAbsolute = false) : p.join q = ⟨p.front ++ q.text⟩ := by
  rw [join, h, if_neg Bool.false_ne_true, front]
  split <;> rfl

/-- **The front of a relative path** behind another: the two fronts. -/
theorem front_join (h : q.isAbsolute = false) : (p.join q).front = p.front ++ q.front := by
  rw [join_of_relative h]
  by_cases hq : q.text = ""
  · -- Nothing is added, and the slash that `p` needs is there already.
    have hfront : q.front = "" := by rw [front, needsSlash, hq]; rfl
    rw [hq, hfront, String.append_empty, front_of_not_needs (needsSlash_front p)]
  · -- What ends the text of `q` ends all of it.
    have hlast : (p.front ++ q.text).toList.getLast? = q.text.toList.getLast? := by
      rw [String.toList_append, List.getLast?_append_of_ne_nil]
      exact fun hnil => hq (String.toList_inj.1 hnil)
    have hneeds : (⟨p.front ++ q.text⟩ : Path).needsSlash = q.needsSlash := by
      rw [needsSlash, needsSlash, hlast]
    cases hs : q.needsSlash with
    | true => rw [front_of_needs (hneeds.trans hs), front_of_needs hs, String.append_assoc]
    | false => rw [front_of_not_needs (hneeds.trans hs), front_of_not_needs hs]

end

/-! ## Entries -/

section
variable {p q : Path} {name : String}

/-- A relative path is put behind nothing, or behind a slash. -/
theorem text_join (h : q.isAbsolute = false) :
    p.text = "" ∧ (p.join q).text.toList = q.text.toList ∨
      ∃ cs, (p.join q).text.toList = cs ++ '/' :: q.text.toList ∧
        (p.text.toList = cs ∧ cs ≠ [] ∨ p.text.toList = cs ++ ['/']) := by
  rw [join_of_relative h, String.toList_append]
  rcases front_cases p with ⟨hp, hfront⟩ | ⟨cs, hfront, hp⟩
  · exact .inl ⟨hp, by rw [hfront]; rfl⟩
  · exact .inr ⟨cs, by rw [hfront, List.append_assoc, List.singleton_append], hp⟩

/-- **The names of paths** that are put one behind the other. -/
theorem names_join (h : q.isAbsolute = false) : (p.join q).names = p.names ++ q.names := by
  rcases text_join (p := p) h with ⟨hp, htext⟩ | ⟨cs, htext, hp | hp⟩
  · rw [names_eq, names_eq, names_eq, htext, hp]
    rfl
  · rw [names_eq, names_eq, names_eq, htext, hp.1, List.splitOn_append_cons_self, wordsOf_append]
  · rw [names_eq, names_eq, names_eq, htext, hp, List.splitOn_append_cons_self, wordsOf_append,
      List.splitOn_append_cons_self, wordsOf_append]
    simp [wordsOf]

theorem isAbsolute_join (h : q.isAbsolute = false) : (p.join q).isAbsolute = p.isAbsolute := by
  rcases text_join (p := p) h with ⟨hp, htext⟩ | ⟨cs, htext, hp | hp⟩
  · rw [isAbsolute, isAbsolute, hp, htext]
    exact h.trans rfl
  · obtain ⟨c, cs, rfl⟩ := List.exists_cons_of_ne_nil hp.2
    rw [isAbsolute, isAbsolute, htext, hp.1]
    rfl
  · rw [isAbsolute, isAbsolute, htext, hp]
    cases cs <;> rfl

theorem isAbsolute_word (h : '/' ∉ name.toList) : (⟨name⟩ : Path).isAbsolute = false := by
  unfold isAbsolute
  cases hc : name.toList with
  | nil => rfl
  | cons c cs =>
    have : c ≠ '/' := fun he => h (by rw [hc, he]; exact List.mem_cons_self ..)
    simp [this]

/-- **An entry has one name more** than its directory. -/
theorem names_entry (h : '/' ∉ name.toList) (hne : name ≠ "") :
    (p.entry name).names = p.names ++ [name] := by
  have hnil : name.toList ≠ [] := fun he => hne (by rw [← String.toList_inj]; exact he)
  have hword : (⟨name⟩ : Path).names = [name] := by
    rw [names_eq, List.splitOn_eq_singleton h, wordsOf_singleton hnil, String.ofList_toList]
  rw [entry, names_join (isAbsolute_word h), hword]

/-- The text of an entry is that of the directory, a slash if there is none, and the name. -/
theorem text_entry (h : '/' ∉ name.toList) :
    (p.entry name).text = p.text ++ (if p.needsSlash then "/" else "") ++ name := by
  rw [entry, join, isAbsolute_word h, if_neg Bool.false_ne_true]
  split
  · rfl
  · rw [String.append_empty]

/-- Entries of one directory that have the same path have the same name. -/
theorem entry_injective {name' : String} (h : '/' ∉ name.toList) (h' : '/' ∉ name'.toList)
    (he : p.entry name = p.entry name') : name = name' := by
  have htext := congrArg Path.text he
  rw [text_entry h, text_entry h', ← String.toList_inj] at htext
  simp only [String.toList_append, List.append_cancel_left_eq] at htext
  exact String.toList_inj.1 htext

theorem isAbsolute_entry (h : '/' ∉ name.toList) : (p.entry name).isAbsolute = p.isAbsolute :=
  isAbsolute_join (isAbsolute_word h)

theorem endsWithSlash_entry (h : '/' ∉ name.toList) (hne : name ≠ "") :
    (p.entry name).endsWithSlash = false := by
  have hlast : ∀ cs : List Char, (cs ++ name.toList).getLast? ≠ some '/' := by
    intro cs hs
    have hnil : name.toList ≠ [] := fun he => hne (by rw [← String.toList_inj]; exact he)
    rw [List.getLast?_append_of_ne_nil _ hnil] at hs
    exact h (List.mem_of_getLast? hs)
  have hbeq : ∀ {o : Option Char}, o ≠ some '/' → (o == some '/') = false := fun ho => by simp [ho]
  rcases text_join (p := p) (isAbsolute_word h) with ⟨-, htext⟩ | ⟨cs, htext, -⟩
  · rw [endsWithSlash, entry, htext]
    exact hbeq (hlast [])
  · rw [endsWithSlash, entry, htext, ← List.singleton_append, ← List.append_assoc]
    exact hbeq (hlast _)

end

/-! ## Paths behind paths -/

/-- **Paths behind paths** can be put together from either end. -/
theorem join_assoc (p q r : Path) : (p.join q).join r = p.join (q.join r) := by
  cases hr : r.isAbsolute with
  | true => rw [join_of_absolute hr, join_of_absolute hr, join_of_absolute hr]
  | false =>
    cases hq : q.isAbsolute with
    | true => rw [join_of_absolute hq, join_of_absolute ((isAbsolute_join hr).trans hq)]
    | false =>
      rw [join_of_relative hr, join_of_relative ((isAbsolute_join hr).trans hq), front_join hq,
        join_of_relative hr, String.append_assoc]

/-! ## Parents -/

/-- The path that a lead and segments make. -/
def ofSegments (lead : List Char) (segments : List (List Char)) : Path :=
  ⟨String.ofList (lead ++ ['/'].intercalate segments)⟩

/-- What can stand before segments: a root, nothing if they do not make one, or a point that a
    slash follows. -/
structure Leads (lead : List Char) (segments : List (List Char)) : Prop where
  lead : lead = ['/'] ∨ lead = [] ∧ (['/'].intercalate segments).head? ≠ some '/' ∨
    lead = ['.'] ∧ ∀ s ∈ segments.head?, s = []
  segment : ∀ s ∈ segments, '/' ∉ s

/-- The names before those of the segments. -/
def leadWords (lead : List Char) : List String := if lead = ['.'] then ["."] else []

theorem intercalate_append (xs ys : List (List Char)) :
    ['/'].intercalate xs <+: ['/'].intercalate (xs ++ ys) := by
  induction xs with
  | nil => simp [List.intercalate]
  | cons x xs ih =>
    cases xs with
    | nil =>
      cases ys with
      | nil => simp
      | cons y ys => simp [List.intercalate]
    | cons x' xs =>
      have hcons : ∀ zs, ['/'].intercalate (x :: x' :: zs) =
          x ++ '/' :: ['/'].intercalate (x' :: zs) := by
        intro zs
        simp [List.intercalate]
      rw [List.cons_append, List.cons_append, hcons, hcons]
      exact (List.prefix_append_right_inj x).2 (List.cons_prefix_cons.2 ⟨rfl, ih⟩)

theorem Leads.left {lead : List Char} {segments more : List (List Char)}
    (h : Leads lead (segments ++ more)) : Leads lead segments := by
  refine ⟨?_, fun s hs => h.segment s (List.mem_append_left _ hs)⟩
  rcases h.lead with hl | ⟨hl, hroot⟩ | ⟨hl, hfirst⟩
  · exact .inl hl
  · refine .inr (.inl ⟨hl, fun he => hroot ?_⟩)
    obtain ⟨cs, hcs⟩ := intercalate_append segments more
    rw [← hcs, List.head?_append, he]
    rfl
  · refine .inr (.inr ⟨hl, fun s hs => ?_⟩)
    cases segments with
    | nil => cases hs
    | cons first rest => exact hfirst s hs

/-- The names of a path that is made of segments. -/
theorem names_ofSegments {lead : List Char} {segments : List (List Char)}
    (h : Leads lead segments) :
    (ofSegments lead segments).names = leadWords lead ++ wordsOf segments := by
  have hwords : ∀ segments : List (List Char), (∀ s ∈ segments, '/' ∉ s) →
      wordsOf ((['/'].intercalate segments).splitOn '/') = wordsOf segments := by
    intro segments hs
    cases segments with
    | nil => rfl
    | cons first rest => rw [List.splitOn_intercalate _ hs (List.cons_ne_nil _ _)]
  rw [names_eq, ofSegments, String.toList_ofList]
  rcases h.lead with rfl | ⟨rfl, -⟩ | ⟨rfl, hfirst⟩
  · rw [List.singleton_append, List.splitOn_cons_eq_if_modifyHead, if_pos (by rfl)]
    exact hwords segments h.segment
  · exact hwords segments h.segment
  · cases segments with
    | nil => rfl
    | cons first rest =>
      obtain rfl : first = [] := hfirst first rfl
      cases rest with
      | nil => rfl
      | cons second rest =>
        have hs : ∀ s ∈ second :: rest, '/' ∉ s := fun s hs =>
          h.segment s (List.mem_cons_of_mem _ hs)
        have htext : ['.'] ++ ['/'].intercalate ([] :: second :: rest) =
            ['.'] ++ '/' :: ['/'].intercalate (second :: rest) := by
          simp [List.intercalate]
        rw [htext, List.splitOn_append_cons_self, wordsOf_append, hwords _ hs]
        rfl

theorem isAbsolute_ofSegments {lead : List Char} {segments : List (List Char)}
    (h : Leads lead segments) : (ofSegments lead segments).isAbsolute = (lead == ['/']) := by
  rw [isAbsolute, ofSegments, String.toList_ofList]
  rcases h.lead with rfl | ⟨rfl, hroot⟩ | ⟨rfl, -⟩
  · rfl
  · simpa using hroot
  · rfl

/-- `q` is the path to a directory on the way to `p`: the names of `p` are those of `q` and one
    more, with points before and behind it. -/
structure Above (q p : Path) : Prop where
  names : ∃ before name behind, p.names = q.names ++ before ++ name :: behind ∧
    (∀ n ∈ before, n = ".") ∧ name ≠ "." ∧ ∀ n ∈ behind, n = "."
  text : q.text.toList <+: p.text.toList
  absolute : q.isAbsolute = p.isAbsolute

/-- **Paths on the way up** from a path. -/
inductive Ascent : Path → List Path → Prop
  /-- Nothing is left but points. -/
  | base {p ps} : (∀ n ∈ p.names, n = ".") → Ascent p ps
  /-- One name less -/
  | step {p q ps} : Above q p → Ascent q ps → Ascent p (q :: ps)

theorem isIdle_iff {segment : List Char} :
    isIdle segment = true ↔ segment = [] ∨ segment = ['.'] := by
  simp [isIdle]

/-- Idle segments are at most points. -/
theorem wordsOf_idle {segments : List (List Char)} (h : ∀ s ∈ segments, isIdle s = true) :
    ∀ n ∈ wordsOf segments, n = "." := by
  intro n hn
  obtain ⟨segment, hs, rfl⟩ := List.mem_map.1 hn
  obtain ⟨hmem, hne⟩ := List.mem_filter.1 hs
  rcases isIdle_iff.1 (h segment hmem) with rfl | rfl
  · simp at hne
  · rfl

theorem shorter_dropWhile (lead : List Char) (segments : List (List Char)) :
    shorter lead segments = shorter lead (segments.dropWhile isIdle) := by
  induction segments with
  | nil => rfl
  | cons segment before ih =>
    by_cases hs : isIdle segment = true
    · rw [shorter, if_pos hs, List.dropWhile_cons_of_pos hs, ih]
    · rw [List.dropWhile_cons_of_neg hs]

theorem leadWords_dots {lead : List Char} : ∀ n ∈ leadWords lead, n = "." := by
  intro n hn
  unfold leadWords at hn
  split at hn
  · exact List.mem_singleton.1 hn
  · cases hn

/-- Dropping a segment and the idle ones before it is one step up. -/
theorem above_ofSegments {lead : List Char} {kept skipped idle : List (List Char)}
    {segment : List Char} (h : Leads lead (kept ++ (skipped ++ segment :: idle)))
    (hs : ∀ s ∈ skipped, isIdle s = true) (hi : ∀ s ∈ idle, isIdle s = true)
    (hn : isIdle segment = false) :
    Above (ofSegments lead kept) (ofSegments lead (kept ++ (skipped ++ segment :: idle))) := by
  have hsegment : segment ≠ [] ∧ segment ≠ ['.'] := by
    rwa [← not_or, ← isIdle_iff, Bool.not_eq_true]
  refine ⟨⟨wordsOf skipped, String.ofList segment, wordsOf idle, ?_, wordsOf_idle hs, ?_,
    wordsOf_idle hi⟩, ?_, ?_⟩
  · have hsplit : wordsOf (segment :: idle) = [String.ofList segment] ++ wordsOf idle := by
      rw [← wordsOf_singleton hsegment.1, ← wordsOf_append, List.singleton_append]
    rw [names_ofSegments h, names_ofSegments h.left, wordsOf_append, wordsOf_append, hsplit]
    simp
  · intro he
    have := congrArg String.toList he
    rw [String.toList_ofList] at this
    exact hsegment.2 this
  · rw [ofSegments, ofSegments, String.toList_ofList, String.toList_ofList]
    exact (List.prefix_append_right_inj lead).2 (intercalate_append _ _)
  · rw [isAbsolute_ofSegments h, isAbsolute_ofSegments h.left]

theorem ascent_shorter {lead : List Char} (segments idle : List (List Char))
    (hi : ∀ s ∈ idle, isIdle s = true) (h : Leads lead (segments.reverse ++ idle)) :
    Ascent (ofSegments lead (segments.reverse ++ idle)) (shorter lead segments) := by
  match segments with
  | [] =>
    refine .base (fun n hn => ?_)
    rw [names_ofSegments h] at hn
    rcases List.mem_append.1 hn with hn | hn
    · exact leadWords_dots n hn
    · exact wordsOf_idle hi n hn
  | segment :: before =>
    have hsplit : (segment :: before).reverse ++ idle = before.reverse ++ (segment :: idle) := by
      simp
    rw [hsplit] at h ⊢
    cases hs : isIdle segment with
    | true =>
      rw [shorter, if_pos hs]
      exact ascent_shorter before (segment :: idle) (List.forall_mem_cons.2 ⟨hs, hi⟩) h
    | false =>
      have hparts : before.reverse =
          (before.dropWhile isIdle).reverse ++ (before.takeWhile isIdle).reverse := by
        rw [← List.reverse_append, List.takeWhile_append_dropWhile]
      rw [hparts, List.append_assoc] at h ⊢
      rw [shorter, if_neg (by rw [hs]; exact Bool.false_ne_true)]
      refine .step (above_ofSegments h (fun s hm => ?_) hi hs) ?_
      · exact List.mem_takeWhile_imp (List.mem_reverse.1 hm)
      · rw [shorter_dropWhile]
        have hkept : Leads lead ((before.dropWhile isIdle).reverse ++ []) := by
          rw [List.append_nil]
          exact h.left
        have := ascent_shorter (before.dropWhile isIdle) [] (fun s hm => nomatch hm) hkept
        rwa [List.append_nil] at this
termination_by segments.length
decreasing_by
  · exact Nat.lt_succ_of_le (List.dropWhile_suffix isIdle).length_le
  · simp

/-- **The parents of a path** lead up from it, name by name. -/
theorem ascent_parents (p : Path) : Ascent p p.parents := by
  have hrest : ∀ cs : List Char, ∀ s ∈ cs.splitOn '/', '/' ∉ s := fun cs s hs =>
    Text.not_mem_of_mem_splitOn hs
  have hlead : Leads (lead p.text.toList) (segments p.text.toList).reverse := by
    rw [segments, List.reverse_reverse]
    refine ⟨?_, hrest _⟩
    unfold lead
    split
    · exact .inl rfl
    · rename_i hcs
      rw [hcs]
      exact .inr (.inr ⟨rfl, fun s hs => by cases hs; rfl⟩)
    · rename_i rest hcs
      have hfirst : (('/' :: rest).splitOn '/').head? = some [] := by
        rw [List.splitOn_cons_eq_if_modifyHead, if_pos (by rfl)]
        rfl
      rw [hcs]
      exact .inr (.inr ⟨rfl, fun s hs => by cases hfirst.symm.trans hs; rfl⟩)
    · rename_i hcs _ _
      refine .inr (.inl ⟨rfl, ?_⟩)
      rw [List.length_nil, List.drop_zero, List.intercalate_splitOn]
      intro hroot
      obtain ⟨rest, hrest⟩ := List.head?_eq_some_iff.1 hroot
      exact hcs rest hrest
  have hprefix : lead p.text.toList ++ p.text.toList.drop (lead p.text.toList).length =
      p.text.toList := by
    unfold lead
    split <;> simp_all
  have hself : ofSegments (lead p.text.toList) ((segments p.text.toList).reverse ++ []) = p := by
    rw [List.append_nil, segments, List.reverse_reverse, ofSegments, List.intercalate_splitOn,
      hprefix, String.ofList_toList]
  have := ascent_shorter (segments p.text.toList) [] (fun s hm => nomatch hm)
    (by rw [List.append_nil]; exact hlead)
  rwa [hself] at this

end PhpSharp.Path
