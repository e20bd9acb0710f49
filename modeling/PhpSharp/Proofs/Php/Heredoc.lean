/-
  Heredocs as they are written.

  * `Written.Heredoc`: the parts of a heredoc, from its blanks to its closing label;
  * `Written.Heredoc.readHeredoc_text`: its text is read as its value, whatever follows;
  * `exists_heredoc`: whatever is read as a heredoc is the text of one.
-/
import Mathlib.Data.List.TakeWhile
import PhpSharp.Proofs.Php.Lexing

namespace PhpSharp.Php

/-! ## Lines -/

section
variable {p : Char → Bool} {line : List Char}

/-- What ends at a line feed is found in the first line. -/
theorem takeWhile_line (hp : p '\n' = false) (line rest : List Char) :
    (line ++ '\n' :: rest).takeWhile p = line.takeWhile p := by
  induction line with
  | nil => simp [hp]
  | cons c line ih =>
    rw [List.cons_append, List.takeWhile_cons, List.takeWhile_cons, ih]

theorem dropWhile_line (hp : p '\n' = false) (line rest : List Char) :
    (line ++ '\n' :: rest).dropWhile p = line.dropWhile p ++ '\n' :: rest := by
  induction line with
  | nil => simp [hp]
  | cons c line ih =>
    rw [List.cons_append, List.dropWhile_cons, List.dropWhile_cons, ih]
    split <;> rfl

theorem takeWhile_feed (h : '\n' ∉ line) : line.takeWhile (· ≠ '\n') = line := by
  refine List.takeWhile_eq_self_iff.2 fun c hc => ?_
  simpa using fun he : c = '\n' => h (he ▸ hc)

theorem dropWhile_feed (h : '\n' ∉ line) : line.dropWhile (· ≠ '\n') = [] := by
  refine List.dropWhile_eq_nil_iff.2 fun c hc => ?_
  simpa using fun he : c = '\n' => h (he ▸ hc)

theorem feed_notMem_takeWhile (cs : List Char) : '\n' ∉ cs.takeWhile (· ≠ '\n') :=
  fun hm => by simpa using List.mem_takeWhile_imp hm

theorem eq_feed_of_dropWhile {cs rest : List Char} {c : Char}
    (h : cs.dropWhile (· ≠ '\n') = c :: rest) : c = '\n' := by
  have hc := List.head?_dropWhile_not (· ≠ '\n') cs
  rw [h] at hc
  simpa using hc

/-- What stands behind a line: nothing, or its line feed and more. -/
def EndsLine (after : List Char) : Prop := ∀ c ∈ after.head?, c = '\n'

theorem endsLine_feed (rest : List Char) : EndsLine ('\n' :: rest) := fun _ h =>
  (Option.mem_some.1 h).symm

theorem afterLine_line (h : '\n' ∉ line) {after : List Char} (ha : EndsLine after) :
    afterLine (line ++ after) = after.drop 1 := by
  cases after with
  | nil => rw [afterLine, List.append_nil, dropWhile_feed h]
  | cons c rest =>
    rw [afterLine, ha c rfl, dropWhile_line (by simp), dropWhile_feed h]
    rfl

theorem exists_line {cs : List Char} (h : afterLine cs ≠ []) :
    ∃ line, '\n' ∉ line ∧ cs = line ++ '\n' :: afterLine cs := by
  refine ⟨cs.takeWhile (· ≠ '\n'), feed_notMem_takeWhile cs, ?_⟩
  have hcs := List.takeWhile_append_dropWhile (p := (· ≠ '\n')) (l := cs)
  unfold afterLine at h ⊢
  cases hd : cs.dropWhile (· ≠ '\n') with
  | nil =>
    rw [hd] at h
    exact absurd rfl h
  | cons c rest =>
    rw [hd, eq_feed_of_dropWhile hd] at hcs
    exact hcs.symm

end

/-! ## Closing lines -/

theorem byteLength_append (cs ds : List Char) :
    byteLength (cs ++ ds) = byteLength cs + byteLength ds := by
  induction cs with
  | nil => simp [byteLength]
  | cons c cs ih =>
    simp only [byteLength, List.cons_append, List.foldr_cons] at ih ⊢
    omega

theorem isBlank_of_isLabelChar {c : Char} (h : isLabelChar c = true) : Text.isBlank c = false := by
  rcases Bool.or_eq_true_iff.1 h with h | h
  · exact isBlank_of_isAlphanum h
  · rw [beq_iff_eq.1 h]
    decide

/-- A label: at least one character, and no others than those of labels. -/
structure IsLabel (label : List Char) : Prop where
  ne_nil : label ≠ []
  all : label.all isLabelChar = true

variable {label : List Char}

theorem IsLabel.exists_cons (h : IsLabel label) :
    ∃ c cs, label = c :: cs ∧ isLabelChar c = true := by
  obtain ⟨hne, hall⟩ := h
  cases label with
  | nil => exact absurd rfl hne
  | cons c cs => exact ⟨c, cs, rfl, (Bool.and_eq_true_iff.1 hall).1⟩

theorem IsLabel.head_not_blank (h : IsLabel label) (rest : List Char) :
    (label ++ rest).head?.any Text.isBlank = false := by
  obtain ⟨c, cs, rfl, hc⟩ := h.exists_cons
  exact isBlank_of_isLabelChar hc

/-- A line closes a heredoc if it is blanks, the label, and nothing that goes on with the label. -/
theorem closingLine?_eq_some (hl : IsLabel label) {line tail : List Char} {bytes : Nat} :
    closingLine? label line = some (bytes, tail) ↔
      ∃ indent, indent.all Text.isBlank = true ∧ line = indent ++ (label ++ tail) ∧
        tail.head?.any isLabelChar = false ∧ bytes = byteLength indent := by
  unfold closingLine? Text.trimStart
  dsimp only
  constructor
  · intro h
    split at h
    · rename_i hc
      obtain ⟨hbegin, htail⟩ := Bool.and_eq_true_iff.1 hc
      obtain ⟨tail', ht⟩ := List.isPrefixOf_iff_prefix.1 hbegin
      have hline := List.takeWhile_append_dropWhile (p := Text.isBlank) (l := line)
      cases h
      rw [← ht] at hline htail ⊢
      rw [List.drop_left] at htail ⊢
      refine ⟨line.takeWhile Text.isBlank, List.all_takeWhile, hline.symm, by simpa using htail, ?_⟩
      rw [← congrArg byteLength hline, byteLength_append]
      omega
    · cases h
  · rintro ⟨indent, hblank, rfl, htail, rfl⟩
    rw [dropWhile_append_stop hblank (hl.head_not_blank tail), List.drop_left,
      if_pos (by simp [htail]), byteLength_append]
    simp

/-! ## Heredocs -/

namespace Written

/-- A heredoc, from behind its `<<<` up to its closing label. -/
structure Heredoc where
  /-- What stands before the label. -/
  blanks : List Char
  /-- The quotes around the label. -/
  quote? : Option Quote
  label : List Char
  /-- What stands behind the label on its line. -/
  remark : List Char
  lines : List (List Char)
  /-- What stands before the closing label. -/
  indent : List Char
  blanks_all : blanks.all (fun c => c == ' ' || c == '\t') = true
  isLabel : IsLabel label
  remark_feed : '\n' ∉ remark
  remark_head : quote? = none → remark.head?.any isLabelChar = false
  lines_feed : ∀ line ∈ lines, '\n' ∉ line
  lines_open : ∀ line ∈ lines, closingLine? label line = none
  indent_blank : indent.all Text.isBlank = true
  indent_feed : '\n' ∉ indent

namespace Heredoc

/-- The quote before and behind the label. -/
def quote (h : Heredoc) : List Char := h.quote?.toList.map Quote.char

/-- The opening line, without its line feed. -/
def opening (h : Heredoc) : List Char :=
  h.blanks ++ (h.quote ++ (h.label ++ (h.quote ++ h.remark)))

/-- The lines, and the closing label. -/
def body (h : Heredoc) : List Char :=
  h.lines.flatMap (· ++ ['\n']) ++ (h.indent ++ h.label)

def text (h : Heredoc) : List Char := h.opening ++ '\n' :: h.body

/-- The text between the labels, without the indentation. -/
def content (h : Heredoc) : List Char :=
  ['\n'].intercalate (h.lines.map (dropIndent (byteLength h.indent)))

/-- The text that the heredoc denotes. -/
def value (h : Heredoc) : List Char :=
  if h.quote? = some .single then h.content else decodeEscapes '\x00' h.content

end Heredoc

end Written

open Written (Heredoc)

/-! ## Bodies -/

/-- The body of a heredoc is read up to its closing label. -/
theorem readBody_lines (hl : IsLabel label) {indent rest : List Char}
    (hblank : indent.all Text.isBlank = true) (hfeed : '\n' ∉ indent)
    (hrest : rest.head?.any isLabelChar = false) {lines : List (List Char)}
    (hlines : ∀ line ∈ lines, '\n' ∉ line)
    (hopen : ∀ line ∈ lines, closingLine? label line = none) :
    HeredocBody.read label (lines.flatMap (· ++ ['\n']) ++ (indent ++ label) ++ rest) =
      some ⟨lines, byteLength indent, rest⟩ := by
  induction lines with
  | nil =>
    have hlabel : '\n' ∉ label := fun hm =>
      absurd (List.all_eq_true.1 hl.all _ hm) (by decide)
    have hclosing : ∀ c ∈ indent ++ label, decide (c ≠ '\n') = true := fun c hc =>
      decide_eq_true fun he => by simp_all
    -- the closing line goes on with what stands behind the heredoc
    have htail : (rest.takeWhile (· ≠ '\n')).head?.any isLabelChar = false := by
      cases rest with
      | nil => rfl
      | cons c rest =>
        rw [List.takeWhile_cons]
        split
        · exact hrest
        · rfl
    have hclose := (closingLine?_eq_some hl).2 ⟨indent, hblank, rfl, htail, rfl⟩
    rw [List.flatMap_nil, List.nil_append, HeredocBody.read.eq_def,
      if_neg (by simp [hl.ne_nil]), List.takeWhile_append_of_pos hclosing,
      List.dropWhile_append_of_pos hclosing, List.append_assoc]
    simp only [hclose, List.takeWhile_append_dropWhile]
  | cons line lines ih =>
    have ih := ih (fun l hm => hlines l (List.mem_cons_of_mem _ hm))
      (fun l hm => hopen l (List.mem_cons_of_mem _ hm))
    have hline : '\n' ∉ line := hlines line List.mem_cons_self
    have hcs : (line :: lines).flatMap (· ++ ['\n']) ++ (indent ++ label) ++ rest =
        line ++ '\n' :: (lines.flatMap (· ++ ['\n']) ++ (indent ++ label) ++ rest) := by simp
    rw [hcs, HeredocBody.read.eq_def, if_neg (by simp), takeWhile_line (by simp),
      takeWhile_feed hline]
    simp only [hopen line List.mem_cons_self]
    split
    · rename_i hd
      simp [dropWhile_line] at hd
    · rename_i hd
      rw [dropWhile_line (by simp), dropWhile_feed hline] at hd
      cases hd
      rw [ih]
      rfl

/-- What is read as the body of a heredoc is lines and the closing label. -/
theorem exists_lines (hl : IsLabel label) {cs : List Char} {b : HeredocBody}
    (h : HeredocBody.read label cs = some b) :
    (∀ line ∈ b.lines, '\n' ∉ line ∧ closingLine? label line = none) ∧
      b.rest.head?.any isLabelChar = false ∧
      ∃ indent, indent.all Text.isBlank = true ∧ '\n' ∉ indent ∧ b.indent = byteLength indent ∧
        cs = b.lines.flatMap (· ++ ['\n']) ++ (indent ++ label) ++ b.rest := by
  fun_induction HeredocBody.read label cs generalizing b with
  | case1 => cases h
  | case2 cs hne line bytes tail =>
    rename_i hclose
    cases h
    have hcs : line ++ cs.dropWhile (· ≠ '\n') = cs := List.takeWhile_append_dropWhile
    have hfeed : '\n' ∉ line := feed_notMem_takeWhile cs
    obtain ⟨indent, hblank, hline, htail, rfl⟩ := (closingLine?_eq_some hl).1 hclose
    refine ⟨fun _ hm => absurd hm List.not_mem_nil, ?_, indent, hblank, fun hm => hfeed ?_, rfl,
      ?_⟩
    · cases tail with
      | nil =>
        cases hd : cs.dropWhile (· ≠ '\n') with
        | nil => rfl
        | cons c rest =>
          rw [eq_feed_of_dropWhile hd]
          rfl
      | cons c tail => exact htail
    · rw [hline]
      exact List.mem_append_left _ hm
    · rw [hline] at hcs
      simpa using hcs.symm
  | case3 => cases h
  | case4 cs hne line hopen c rest hdrop =>
    rename_i ih
    obtain ⟨b', hb, rfl⟩ := Option.map_eq_some_iff.1 h
    obtain ⟨hlines, hrest, indent, hblank, hfeed, hindent, hafter⟩ := ih hb
    have hcs : line ++ cs.dropWhile (· ≠ '\n') = cs := List.takeWhile_append_dropWhile
    refine ⟨fun l hm => ?_, hrest, indent, hblank, hfeed, hindent, ?_⟩
    · rcases List.mem_cons.1 hm with rfl | hm
      · exact ⟨feed_notMem_takeWhile cs, hopen⟩
      · exact hlines l hm
    · rw [hdrop, eq_feed_of_dropWhile hdrop, hafter] at hcs
      simpa using hcs.symm

/-! ## Openings -/

theorem Quote.not_isLabelChar (q : Quote) : isLabelChar q.char = false := by
  cases q <;> rfl

/-- A label is read up to its quote, or to what cannot belong to it. -/
theorem readLabel_line (hl : IsLabel label) (quote? : Option Quote) {remark : List Char}
    (hfeed : '\n' ∉ remark) (hhead : quote? = none → remark.head?.any isLabelChar = false)
    {after : List Char} (ha : EndsLine after) :
    HeredocOpening.readLabel (quote?.map Quote.char)
        (label ++ (quote?.toList.map Quote.char ++ (remark ++ after))) =
      .ok (⟨quote?.map Quote.char, label⟩, after.drop 1) := by
  have hstop : (quote?.toList.map Quote.char ++ (remark ++ after)).head?.any isLabelChar =
      false := by
    cases quote? with
    | some q => exact q.not_isLabelChar
    | none =>
      cases remark with
      | nil =>
        cases after with
        | nil => rfl
        | cons c rest =>
          rw [ha c rfl]
          rfl
      | cons c remark => exact hhead rfl
  unfold HeredocOpening.readLabel
  dsimp only
  rw [takeWhile_append_stop hl.all hstop, dropWhile_append_stop hl.all hstop, if_neg hl.ne_nil]
  cases quote? with
  | none => simp [afterLine_line hfeed ha]
  | some q => simp [afterLine_line hfeed ha]

theorem head_dropWhile (p : Char → Bool) (cs : List Char) :
    (cs.dropWhile p).head?.any p = false := by
  have h := List.head?_dropWhile_not p cs
  cases hd : (cs.dropWhile p).head? with
  | none => rfl
  | some c =>
    rw [hd] at h
    simpa using h

/-- A label that is read stands before its quote and the rest of its line. -/
theorem exists_label (quote? : Option Quote) {cs rest : List Char} {o : HeredocOpening}
    (hrest : rest ≠ []) (h : HeredocOpening.readLabel (quote?.map Quote.char) cs = .ok (o, rest)) :
    o.quote? = quote?.map Quote.char ∧ IsLabel o.label ∧
      ∃ remark, '\n' ∉ remark ∧ (quote? = none → remark.head?.any isLabelChar = false) ∧
        cs = o.label ++ (quote?.toList.map Quote.char ++ (remark ++ '\n' :: rest)) := by
  have hcs := List.takeWhile_append_dropWhile (p := isLabelChar) (l := cs)
  have hhead := head_dropWhile isLabelChar cs
  have hall : (cs.takeWhile isLabelChar).all isLabelChar = true := List.all_takeWhile
  unfold HeredocOpening.readLabel at h
  dsimp only at h
  generalize cs.takeWhile isLabelChar = label at *
  generalize cs.dropWhile isLabelChar = tail at *
  split at h
  · cases h
  rename_i hne
  cases quote? with
  | none =>
    cases h
    obtain ⟨remark, hfeed, htail⟩ := exists_line hrest
    refine ⟨rfl, ⟨hne, hall⟩, remark, hfeed, fun _ => ?_, by rw [← hcs, ← htail]; rfl⟩
    rw [htail] at hhead
    cases remark with
    | nil => rfl
    | cons c remark => exact hhead
  | some q =>
    rw [if_neg (by simp)] at h
    split at h
    · rename_i hq
      cases h
      obtain ⟨remark, hfeed, htail⟩ := exists_line hrest
      refine ⟨rfl, ⟨hne, hall⟩, remark, hfeed, (fun hn => by cases hn), ?_⟩
      cases tail with
      | nil => cases hq
      | cons c tail =>
        obtain rfl : c = q.char := Option.some.inj hq
        rw [← hcs]
        exact congrArg (label ++ q.char :: ·) htail
    · cases h

/-- The opening of a heredoc is read up to the end of its line. -/
theorem Written.Heredoc.readOpening_end (h : Heredoc) {after : List Char} (ha : EndsLine after) :
    HeredocOpening.read (h.opening ++ after) =
      .ok (⟨h.quote?.map Quote.char, h.label⟩, after.drop 1) := by
  have hlabel := readLabel_line h.isLabel h.quote? h.remark_feed h.remark_head ha
  have hopening : h.opening ++ after = h.blanks ++
      (h.quote ++ (h.label ++ (h.quote ++ (h.remark ++ after)))) := by
    simp [Heredoc.opening]
  obtain ⟨c, cs, hcs, hc⟩ := h.isLabel.exists_cons
  have hne : ∀ d, isLabelChar d = false → c ≠ d := fun d hd he => by simp [← he, hc] at hd
  have hstop : (h.quote ++ (h.label ++ (h.quote ++ (h.remark ++ after)))).head?.any
      (fun c => c == ' ' || c == '\t') = false := by
    unfold Heredoc.quote
    cases h.quote? with
    | none => simp [hcs, hne ' ' rfl, hne '\t' rfl]
    | some q => cases q <;> rfl
  rw [hopening, HeredocOpening.read, dropWhile_append_stop h.blanks_all hstop]
  unfold Heredoc.quote
  cases hq : h.quote? with
  | none =>
    rw [hq] at hlabel
    rw [if_neg (by simp [hcs, hne '\'' rfl, hne '"' rfl])]
    exact hlabel
  | some q =>
    rw [hq] at hlabel
    rw [if_pos (by cases q <;> simp [Quote.char])]
    exact hlabel

theorem Written.Heredoc.readOpening (h : Heredoc) (rest : List Char) :
    HeredocOpening.read (h.opening ++ '\n' :: rest) =
      .ok (⟨h.quote?.map Quote.char, h.label⟩, rest) :=
  h.readOpening_end (endsLine_feed rest)

/-- The opening of a heredoc is blanks, the label in its quotes, and the rest of the line. -/
theorem exists_opening {cs rest : List Char} {o : HeredocOpening} (hrest : rest ≠ [])
    (h : HeredocOpening.read cs = .ok (o, rest)) :
    ∃ blanks quote? remark, blanks.all (fun c => c == ' ' || c == '\t') = true ∧
      o.quote? = quote?.map Quote.char ∧ IsLabel o.label ∧ '\n' ∉ remark ∧
      (quote? = none → remark.head?.any isLabelChar = false) ∧
      cs = blanks ++ (quote?.toList.map Quote.char ++ (o.label ++
        (quote?.toList.map Quote.char ++ (remark ++ '\n' :: rest)))) := by
  have hcs := List.takeWhile_append_dropWhile (p := fun c => c == ' ' || c == '\t') (l := cs)
  have hall : (cs.takeWhile fun c => c == ' ' || c == '\t').all
    (fun c => c == ' ' || c == '\t') = true := List.all_takeWhile
  unfold HeredocOpening.read at h
  dsimp only at h
  generalize (cs.takeWhile fun c => c == ' ' || c == '\t') = blanks at *
  generalize (cs.dropWhile fun c => c == ' ' || c == '\t') = tail at *
  have hlabel : ∃ (quote? : Option Quote) (more : List Char),
      tail = quote?.toList.map Quote.char ++ more ∧
        HeredocOpening.readLabel (quote?.map Quote.char) more = .ok (o, rest) := by
    split at h
    · cases tail with
      | nil => simp at *
      | cons c tail =>
        rename_i hc
        have hc : c = '\'' ∨ c = '"' := by simpa using hc
        rcases hc with rfl | rfl
        · exact ⟨some .single, tail, rfl, h⟩
        · exact ⟨some .double, tail, rfl, h⟩
    · exact ⟨none, tail, rfl, h⟩
  obtain ⟨quote?, more, rfl, hmore⟩ := hlabel
  obtain ⟨ho, hl, remark, hfeed, hhead, rfl⟩ := exists_label quote? hrest hmore
  exact ⟨blanks, quote?, remark, hall, ho, hl, hfeed, hhead, hcs.symm⟩

/-! ## Heredocs -/

/-- **A heredoc is read as its value**, whatever follows that cannot belong to its label. -/
theorem Written.Heredoc.readHeredoc_text (h : Heredoc) {rest : List Char}
    (hrest : rest.head?.any isLabelChar = false) :
    readHeredoc (h.text ++ rest) = .ok (String.ofList h.value, rest) := by
  have htext : h.text ++ rest = h.opening ++ '\n' :: (h.body ++ rest) := by simp [Heredoc.text]
  have hbody := readBody_lines h.isLabel h.indent_blank h.indent_feed hrest h.lines_feed
    h.lines_open
  rw [readHeredoc, htext, h.readOpening]
  dsimp only [bind, Except.bind]
  rw [Heredoc.body, hbody]
  have hquote : h.quote?.map Quote.char = some '\'' ↔ h.quote? = some .single := by
    cases h.quote? with
    | none => simp
    | some q => cases q <;> simp [Quote.char]
  simp [Heredoc.value, Heredoc.content, HeredocBody.text, hquote]

/-- **Whatever is read as a heredoc is one.** -/
theorem exists_heredoc {cs rest : List Char} {value : String}
    (h : readHeredoc cs = .ok (value, rest)) :
    ∃ d : Heredoc, cs = d.text ++ rest ∧ value = String.ofList d.value ∧
      rest.head?.any isLabelChar = false := by
  have hread := h
  unfold readHeredoc at hread
  cases ho : HeredocOpening.read cs with
  | error e => simp [ho, bind, Except.bind] at hread
  | ok opened =>
    obtain ⟨o, inner⟩ := opened
    simp only [ho, bind, Except.bind] at hread
    split at hread
    · cases hread
    rename_i b hb
    cases hread
    have hinner : inner ≠ [] := by
      rintro rfl
      rw [HeredocBody.read.eq_def] at hb
      cases hb
    obtain ⟨blanks, quote?, remark, hblanks, hquote, hl, hfeed, hhead, rfl⟩ :=
      exists_opening hinner ho
    obtain ⟨hlines, hrest, indent, hblank, hindent, hbytes, rfl⟩ := exists_lines hl hb
    let d : Heredoc :=
      ⟨blanks, quote?, o.label, remark, b.lines, indent, hblanks, hl, hfeed, hhead,
        fun line hm => (hlines line hm).1, fun line hm => (hlines line hm).2, hblank, hindent⟩
    have htext : blanks ++ (quote?.toList.map Quote.char ++ (o.label ++
        (quote?.toList.map Quote.char ++ (remark ++ '\n' ::
          (b.lines.flatMap (· ++ ['\n']) ++ (indent ++ o.label) ++ b.rest))))) =
        d.text ++ b.rest := by
      simp [d, Heredoc.text, Heredoc.opening, Heredoc.quote, Heredoc.body]
    refine ⟨d, htext, ?_, hrest⟩
    have hd := d.readHeredoc_text hrest
    rw [htext, hd] at h
    exact congrArg Prod.fst (Except.ok.inj h).symm

end PhpSharp.Php
